import PgBatch.Sources.Window
import PgBatch.Nodes.ScanRun

/-! The conditions that a source applies itself: one kernel after the other on its current
window, until the window has no row left. -/
namespace PgBatch.Sources
open Words Results Scan Expr

section Begin
variable {κ : Type} (conditions : Conditions κ)

/-- A condition as `begin_scan` sets it up: `expr`, `column` and `column_mask`. -/
def beginSourceQual (sourceAttnums : List Nat) (qual : κ) : Except String BatchQual := do
  let expr ← compileFilter (conditions.tree qual) (resolveScanVar sourceAttnums)
  match expr.column with
  | none => .error negativeMember
  | some column => .ok ⟨expr,freshMachine,column,{column},∅,∅,false⟩

end Begin

section Loop
variable (errors : WindowErrors) (source : Source)

/-- The body of the loop. -/
def applySourceQual (qual : BatchQual) (window : Window) : Except String (BatchQual × Window) := do
  let window ← prepareColumns errors window qual.sourceColumn (window.selection.words 0)
  applyQual (windowOps errors) source qual window

/-- The loop of `filter_batch` and of `apply_source_quals`; it passes over the conditions
that have no expression. -/
def filterWindow {γ : Type} (expr : γ → Option BatchQual) (store : γ → BatchQual → γ) :
    List γ → Window → Except String (List γ × Window)
  | [],window => .ok ([],window)
  | item :: items,window =>
    if window.selection.words 0 = 0#64 then .ok (item :: items,window)
    else match expr item with
    | none => do
      let (items,window) ← filterWindow expr store items window
      .ok (item :: items,window)
    | some qual => do
      let (qual,window) ← applySourceQual errors source qual window
      let (items,window) ← filterWindow expr store items window
      .ok (store item qual :: items,window)

/-- A turn of the loop, which goes on with the window that its condition leaves. -/
theorem filterWindow_step {γ : Type} {expr : γ → Option BatchQual} {store : γ → BatchQual → γ} {item : γ} {items others : List γ}
    {window middle last : Window} {qual after : BatchQual} (rows : window.selection.words 0 ≠ 0#64) (found : expr item = some qual)
    (one : applySourceQual errors source qual window = .ok (after,middle))
    (rest : filterWindow errors source expr store items middle = .ok (others,last)) :
    filterWindow errors source expr store (item :: items) window = .ok (store item after :: others,last) := by
  unfold filterWindow
  rw [if_neg rows,found]
  exact bind_ok.mpr ⟨_,one,bind_ok.mpr ⟨_,rest,rfl⟩⟩

end Loop

section Run
variable {κ : Type} {conditions : Conditions κ} {sourceAttnums : List Nat}

/-- A condition that has been set up. -/
structure Compiled (conditions : Conditions κ) (sourceAttnums : List Nat) (qual : κ) (state : BatchQual) : Prop where
  supported : supported conditions qual = true
  compiled : compileFilter (conditions.tree qual) (resolveScanVar sourceAttnums) = .ok state.expr
  var : ∃ var, treeVars (conditions.tree qual) = [var] ∧ resolveScanVar sourceAttnums var = some state.column
  own : state.sourceColumn = {state.column}

theorem beginSourceQual_ok {qual : κ} (supports : Scan.supported conditions qual = true)
    (columns : ∀ var ∈ treeVars (conditions.tree qual), var.varattno.toNat ∈ sourceAttnums) :
    ∃ state, beginSourceQual conditions sourceAttnums qual = .ok state ∧ Compiled conditions sourceAttnums qual state := by
  have resolves : ∀ var ∈ treeVars (conditions.tree qual), (resolveScanVar sourceAttnums var).isSome = true := by
    intro var member
    rw [resolveScanVar,if_pos (columns var member)]
    rfl
  obtain ⟨expr,var,column,compiled,single,resolved,reads⟩ := compileFilter_column supports resolves
  refine ⟨⟨expr,freshMachine,column,{column},∅,∅,false⟩,bind_ok.mpr ⟨expr,compiled,by rw [reads]⟩,
    supports,compiled,⟨var,single,resolved⟩,rfl⟩

theorem Compiled.columns {qual : κ} {state : BatchQual} (compiled : Compiled conditions sourceAttnums qual state) :
    ∀ var ∈ treeVars (conditions.tree qual), resolveScanVar sourceAttnums var = some state.column := by
  intro var member
  obtain ⟨own,single,resolved⟩ := compiled.var
  rw [single,List.mem_singleton] at member
  rw [member,resolved]

theorem Compiled.inside {qual : κ} {state : BatchQual} (compiled : Compiled conditions sourceAttnums qual state) :
    state.column < sourceAttnums.length := by
  obtain ⟨var,_,resolved⟩ := compiled.var
  exact (resolveScanVar_some resolved).1

/-- In the column of each condition, a row that the conditions before it keep finds its own
validity bit. -/
def Finds (conditions : Conditions κ) (window : Window) (row : Nat) (quals : List κ) : Prop :=
  ∀ before qual after, quals = before ++ qual :: after →
    (∀ earlier ∈ before, conditions.Satisfies (window.row row) earlier) → ∀ var ∈ treeVars (conditions.tree qual),
      ∀ array, window.decode var.varattno.toNat = .ok array → array.int4Vector.AddressedAt row

theorem Finds.tail {window : Window} {row : Nat} {qual : κ} {quals : List κ}
    (finds : Finds conditions window row (qual :: quals)) (holds : conditions.Satisfies (window.row row) qual) :
    Finds conditions window row quals := by
  intro before other after split earlier
  refine finds (qual :: before) other after (by rw [split,List.cons_append]) fun one member => ?_
  rcases List.mem_cons.mp member with rfl | later
  · exact holds
  · exact earlier one later

theorem Finds.same {window other : Window} (decode : other.decode = window.decode) {row : Nat} {quals : List κ}
    (finds : Finds conditions window row quals) : Finds conditions other row quals := by
  unfold Finds
  rw [row_eq decode,decode]
  exact finds

variable {errors : WindowErrors} {source : Source} {window : Window} (shows : Shows sourceAttnums window)

/-- What a kernel reads of its column, if the row finds its bit. -/
theorem column_seen {attnum : Nat} {array : ArrowArray} (decoded : window.decode attnum = .ok array)
    (counted : array.Counted) {row : Nat} (inside : row < array.length) (addressed : array.int4Vector.AddressedAt row) :
    array.int4Vector.seen row = (window.row row attnum).map datumGetInt32 := by
  rw [seen_eq_cell_iff.mpr addressed,int4Vector_cell counted inside]
  unfold Window.row
  rw [decoded,Option.map_map]
  cases array.cell row with
  | none => rfl
  | some value => exact congrArg some (datumGetInt32_int32GetDatum value).symm

include shows

/-- The body runs its kernel on the array of the column. -/
theorem applySourceQual_eq {qual : κ} {state : BatchQual} (compiled : Compiled conditions sourceAttnums qual state)
    (rows : window.selection.words 0 ≠ 0#64) :
    ∃ ready array, Shows sourceAttnums ready ∧ Filled window ready ∧
      window.decode (sourceAttnums.getD state.column 0) = .ok array ∧
      applySourceQual errors source state window = (do
        let machine ← applyFilter source.params state.expr source.enableSimd source.simdAvailable
          (bind state.machine ⟨window.selection,fun _ => array.int4Vector⟩)
        match machine.bound with
        | none => .error lostBatch
        | some bound => .ok ({state with machine := machine},{ready with selection := bound.selection})) := by
  have inside := compiled.inside
  have own : ∀ column ∈ state.sourceColumn, column < sourceAttnums.length := by
    rw [compiled.own]
    simpa using inside
  have again : ∀ column ∈ ({state.column} : Finset Nat), column < sourceAttnums.length := by simpa using inside
  obtain ⟨first,ran,shown,filled,_⟩ := prepareColumns_ok errors shows rows own
  have rows' : first.selection.words 0 ≠ 0#64 := filled.selection ▸ rows
  obtain ⟨ready,ran',shown',filled',held⟩ := prepareColumns_ok errors shown rows' again
  obtain ⟨array,got,decoded⟩ := getInt4Column_ok errors shown' inside (held _ (Finset.mem_singleton_self _))
  have selection : ready.selection = window.selection := filled'.selection.trans filled.selection
  refine ⟨ready,array,shown',⟨filled'.attnums.trans filled.attnums,filled'.decode.trans filled.decode,selection⟩,
    by rw [← filled.decode,← filled'.decode,decoded],?_⟩
  have prepared : (windowOps errors).prepareColumns first {state.column} = .ok ready := ran'
  have vector : (windowOps errors).getInt4 ready state.column = .ok (ready,array.int4Vector) := bind_ok.mpr ⟨_,got,rfl⟩
  unfold applySourceQual applyQual
  rw [ran]
  show ((windowOps errors).prepareColumns first {state.column} >>= _) = _
  rw [prepared]
  show ((windowOps errors).getInt4 ready state.column >>= _) = _
  rw [vector,← selection]
  rfl

/-- The rows that a kernel sees are those of the window. -/
theorem selected_seen {qual : κ} {quals : List κ} {state : BatchQual}
    (compiled : Compiled conditions sourceAttnums qual state)
    (finds : ∀ row, window.selection.Selected row → Finds conditions window row (qual :: quals)) {array : ArrowArray}
    (decoded : window.decode (sourceAttnums.getD state.column 0) = .ok array) {row : Nat}
    (selected : window.selection.Selected row) :
    array.int4Vector.seen row = (window.row row (sourceAttnums.getD state.column 0)).map datumGetInt32 := by
  obtain ⟨array',decoded',counted,length⟩ := shows.decodes _ (column_listed compiled.inside)
  cases decoded.symm.trans decoded'
  obtain ⟨var,single,resolved⟩ := compiled.var
  rw [(resolveScanVar_some resolved).2] at decoded ⊢
  refine column_seen decoded counted (length ▸ selected.1) ?_
  exact finds row selected [] qual quals rfl (by simp) var (by rw [single]; exact List.mem_singleton_self var) array decoded

/-- One condition: the rows on which it is true stay selected. -/
theorem applySourceQual_ok (params : source.params = conditions.params) {qual : κ} {quals : List κ}
    {state after : BatchQual} (compiled : Compiled conditions sourceAttnums qual state)
    (finds : ∀ row, window.selection.Selected row → Finds conditions window row (qual :: quals))
    (rows : window.selection.words 0 ≠ 0#64) {filtered : Window}
    (ran : applySourceQual errors source state window = .ok (after,filtered)) :
    Shows sourceAttnums filtered ∧ filtered.decode = window.decode ∧ Compiled conditions sourceAttnums qual after ∧
      filtered.selection.nrows = window.selection.nrows ∧ ∀ row, filtered.selection.Selected row ↔
        window.selection.Selected row ∧ conditions.Satisfies (window.row row) qual := by
  obtain ⟨ready,array,shown,filled,decoded,steps⟩ := @applySourceQual_eq κ conditions sourceAttnums errors source window
    shows qual state compiled rows
  rw [steps] at ran
  obtain ⟨machine,applied,rest⟩ := bind_ok.mp ran
  rw [params] at applied
  obtain ⟨kept,bound,size,clean,selects⟩ := kernel_ok compiled.supported compiled.columns compiled.compiled
    (fun row selected => selected_seen shows compiled finds decoded selected) applied shows.clean
  simp only [bound,Except.ok.injEq,Prod.mk.injEq] at rest
  obtain ⟨rfl,rfl⟩ := rest
  refine ⟨⟨shown.attnums,fun attnum member => ?_,shown.prepared,shown.datums,?_,?_,clean⟩,filled.decode,
    ⟨compiled.supported,compiled.compiled,compiled.var,compiled.own⟩,size,selects⟩
  · obtain ⟨other,decoded,counted,length⟩ := shown.decodes attnum member
    exact ⟨other,decoded,counted,length.trans ((congrArg Selection.nrows filled.selection).trans size.symm)⟩
  · rw [size]
    exact shows.positive
  · rw [size]
    exact shows.small

theorem applySourceQual_total (params : source.params = conditions.params) {qual : κ} {quals : List κ}
    {state : BatchQual} (compiled : Compiled conditions sourceAttnums qual state)
    (finds : ∀ row, window.selection.Selected row → Finds conditions window row (qual :: quals)) {one : Nat}
    (selected : window.selection.Selected one)
    (fine : ∀ row, window.selection.Selected row → ∃ result, conditions.holds qual (window.row row) = .ok result) :
    ∃ result, applySourceQual errors source state window = .ok result := by
  have rows := (exists_selected shows).mpr ⟨one,selected⟩
  obtain ⟨ready,array,shown,filled,decoded,steps⟩ := @applySourceQual_eq κ conditions sourceAttnums errors source window
    shows qual state compiled rows
  have seen (row : Nat) (member : window.selection.Selected row) := selected_seen shows compiled finds decoded member
  obtain ⟨machine,applied⟩ : ∃ machine, applyFilter conditions.params state.expr source.enableSimd source.simdAvailable
      (bind state.machine ⟨window.selection,fun _ => array.int4Vector⟩) = .ok machine :=
    kernel_total compiled.supported compiled.columns compiled.compiled seen selected fine
  obtain ⟨kept,bound,_⟩ := kernel_ok compiled.supported compiled.columns compiled.compiled seen applied shows.clean
  refine ⟨({state with machine := machine},{ready with selection := kept}),?_⟩
  rw [steps]
  exact bind_ok.mpr ⟨machine,params ▸ applied,by simp only [bound]⟩

omit shows

section Loop
variable {γ : Type} {expr : γ → Option BatchQual} {store : γ → BatchQual → γ}
  (stores : ∀ item state, expr (store item state) = some state) (params : source.params = conditions.params)
include stores params

/-- The whole loop: the rows on which all the conditions are true stay selected. -/
theorem filterWindow_ok {items : List γ} {quals : List κ}
    (compiled : List.Forall₂ (Compiled conditions sourceAttnums) quals (items.filterMap expr)) {window : Window}
    (shows : Shows sourceAttnums window)
    (finds : ∀ row, window.selection.Selected row → Finds conditions window row quals) {afters : List γ} {filtered : Window}
    (ran : filterWindow errors source expr store items window = .ok (afters,filtered)) :
    Shows sourceAttnums filtered ∧ filtered.decode = window.decode ∧
      List.Forall₂ (Compiled conditions sourceAttnums) quals (afters.filterMap expr) ∧
      filtered.selection.nrows = window.selection.nrows ∧ ∀ row, filtered.selection.Selected row ↔
        window.selection.Selected row ∧ ∀ qual ∈ quals, conditions.Satisfies (window.row row) qual := by
  induction items generalizing quals window afters with
  | nil =>
    cases ran
    cases compiled
    exact ⟨shows,rfl,.nil,rfl,fun row => by simp⟩
  | cons item items ih =>
    unfold filterWindow at ran
    split at ran
    · rename_i empty
      cases ran
      refine ⟨shows,rfl,compiled,rfl,fun row => ⟨fun selected => ?_,And.left⟩⟩
      exact absurd empty ((exists_selected shows).mpr ⟨row,selected⟩)
    rename_i rows
    split at ran
    · rename_i none_
      rw [List.filterMap_cons,none_] at compiled
      obtain ⟨⟨others,last⟩,rest,done⟩ := bind_ok.mp ran
      cases done
      obtain ⟨shown,decode,compiled',size,selects⟩ := ih compiled shows finds rest
      rw [List.filterMap_cons,none_]
      exact ⟨shown,decode,compiled',size,selects⟩
    · rename_i state some_
      rw [List.filterMap_cons,some_] at compiled
      cases compiled with
      | @cons qual _ quals _ head tail =>
      obtain ⟨⟨state',middle⟩,applied,rest⟩ := bind_ok.mp ran
      obtain ⟨⟨others,last⟩,rest,done⟩ := bind_ok.mp rest
      cases done
      obtain ⟨shown,decode,head',size,selects⟩ := applySourceQual_ok shows params head finds rows applied
      have finds' (row : Nat) (selected : middle.selection.Selected row) : Finds conditions middle row quals := by
        obtain ⟨before,holds⟩ := (selects row).mp selected
        exact ((finds row before).tail holds).same decode
      obtain ⟨shown',decode',tail',size',selects'⟩ := ih tail shown finds' rest
      have same := row_eq decode
      rw [List.filterMap_cons,stores]
      refine ⟨shown',decode'.trans decode,.cons head' tail',size'.trans size,fun row => ?_⟩
      rw [selects',selects,same,List.forall_mem_cons,and_assoc]

omit stores in
/-- The loop comes to its end if no condition fails on a row of the window. -/
theorem filterWindow_total {items : List γ} {quals : List κ}
    (compiled : List.Forall₂ (Compiled conditions sourceAttnums) quals (items.filterMap expr)) {window : Window}
    (shows : Shows sourceAttnums window)
    (finds : ∀ row, window.selection.Selected row → Finds conditions window row quals)
    (fine : ∀ row, window.selection.Selected row → ∀ qual ∈ quals,
      ∃ result, conditions.holds qual (window.row row) = .ok result) :
    ∃ result, filterWindow errors source expr store items window = .ok result := by
  induction items generalizing quals window with
  | nil => exact ⟨_,rfl⟩
  | cons item items ih =>
    by_cases rows : window.selection.words 0 = 0#64
    · exact ⟨_,if_pos rows⟩
    cases held : expr item with
    | none =>
      rw [List.filterMap_cons,held] at compiled
      obtain ⟨result,rest⟩ := ih compiled shows finds fine
      unfold filterWindow
      rw [if_neg rows,held]
      exact ⟨_,bind_ok.mpr ⟨result,rest,rfl⟩⟩
    | some state =>
      rw [List.filterMap_cons,held] at compiled
      cases compiled with
      | @cons qual _ quals _ head tail =>
      obtain ⟨one,selected⟩ := (exists_selected shows).mp rows
      obtain ⟨⟨state',middle⟩,applied⟩ : ∃ result, applySourceQual errors source state window = .ok result :=
        applySourceQual_total shows params head finds selected
          fun row member => fine row member qual (List.mem_cons_self ..)
      obtain ⟨shown,decode,_,_,selects⟩ := applySourceQual_ok shows params head finds rows applied
      have same := row_eq decode
      obtain ⟨result,rest⟩ := ih tail shown
        (fun row member => (((finds row ((selects row).mp member).1)).tail ((selects row).mp member).2).same decode)
        fun row member other among => by
          rw [same]
          exact fine row ((selects row).mp member).1 other (List.mem_cons_of_mem _ among)
      exact ⟨_,filterWindow_step errors source rows held applied rest⟩

end Loop

/-- The rows that a loop leaves, as a list. -/
theorem filtered_rows {filtered : Window} {quals : List κ} (decode : filtered.decode = window.decode)
    (selects : ∀ row, filtered.selection.Selected row ↔
      window.selection.Selected row ∧ ∀ qual ∈ quals, conditions.Satisfies (window.row row) qual) :
    filtered.rows = window.rows.filter fun row => quals.all fun qual => decide (conditions.Satisfies row qual) := by
  rw [Window.rows,Window.rows,row_eq decode,List.filter_map]
  congr 1
  refine visits_filter fun row => (selects row).trans (and_congr_right fun _ => ?_)
  simp only [Function.comp_apply,List.all_eq_true,decide_eq_true_eq]

end Run

/-! PgBatchScan can read such a window too. -/

/-- A window of arrays in which every row finds its own validity bit. -/
structure Readable (sourceAttnums : List Nat) (window : Window) : Prop where
  shows : Shows sourceAttnums window
  addressed : ∀ attnum ∈ sourceAttnums, ∀ array, window.decode attnum = .ok array →
    array.int4Vector.Addressed array.length

theorem Readable.filled {sourceAttnums : List Nat} {before after : Window} (readable : Readable sourceAttnums before)
    (shows : Shows sourceAttnums after) (filled : Filled before after) : Readable sourceAttnums after :=
  ⟨shows,fun attnum member array decoded => readable.addressed attnum member array (filled.decode ▸ decoded)⟩

theorem window_delivers (errors : WindowErrors) (sourceAttnums : List Nat) :
    Delivers (windowOps errors) sourceAttnums (Readable sourceAttnums) Window.row id
      (fun window column => (window.prepared column).isSome = true) where
  prepare := by
    intro window columns readable rows inside
    have nonzero : window.selection.words 0 ≠ 0#64 := by
      intro zero
      have one : window.selection.nwords = 1 := by
        have := readable.shows.positive
        have := readable.shows.small
        unfold Selection.nwords
        omega
      change window.selection.hasRows = true at rows
      simp [Selection.hasRows,one,zero] at rows
    obtain ⟨after,ran,shown,filled,ready⟩ := prepareColumns_ok errors readable.shows nonzero inside
    exact ⟨after,ran,readable.filled shown filled,row_eq filled.decode,filled.selection,ready⟩
  read := by
    intro window column readable inside ready
    obtain ⟨array,got,decoded⟩ := getInt4Column_ok errors readable.shows inside ready
    have member := column_listed inside
    obtain ⟨array',decoded',counted,length⟩ := readable.shows.decodes _ member
    cases decoded.symm.trans decoded'
    refine ⟨window,_,bind_ok.mpr ⟨_,got,rfl⟩,readable,rfl,rfl,fun row selected => ?_⟩
    have below : row < array.length := length ▸ selected.1
    exact column_seen decoded counted below (Int4Vector.addressed_iff.mp (readable.addressed _ member array decoded) row below)
  store := by
    intro window selection readable size clean less
    have shows := readable.shows
    refine ⟨⟨⟨shows.attnums,fun attnum member => ?_,shows.prepared,shows.datums,?_,?_,clean⟩,readable.addressed⟩,rfl,rfl⟩
    · obtain ⟨array,decoded,counted,length⟩ := shows.decodes attnum member
      exact ⟨array,decoded,counted,length.trans size.symm⟩
    · exact Nat.lt_of_lt_of_eq shows.positive size.symm
    · exact size.trans_le shows.small
  value := by
    intro window column row readable inside selected
    obtain ⟨after,datum,array,ran,_,_,decoded,cells⟩ := getDatumColumn_ok errors readable.shows inside (bit 64 row)
    have bound : row < 64 := Nat.lt_of_lt_of_le selected.1 readable.shows.small
    refine bind_ok.mpr ⟨_,ran,congrArg Except.ok ?_⟩
    rw [cells row (by simp [bound])]
    simp only [id_eq,Window.row,decoded]
  clean := fun _ readable => readable.shows.clean

end PgBatch.Sources
