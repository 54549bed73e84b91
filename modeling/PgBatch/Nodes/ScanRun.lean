import PgBatch.Nodes.Scan
import PgBatch.Kernels.Selection

/-! What PgBatchScan keeps of its rows: those that satisfy every condition it was
given, where a condition that an exact page has proved is not run again. -/
namespace PgBatch.Scan
open PgBatch.Expr Words Results

section Contract
variable {β ρ : Type}

/-- The operations of a batch that `Shows` its rows deliver them: `view` is the rows it
stands for, and `Prepared` holds of the columns made ready for the selected rows. -/
structure Delivers (ops : BatchOps β) (sourceAttnums : List Nat) (Shows : β → Prop) (view : β → Nat → ρ)
    (attrs : ρ → Attrs) (Prepared : β → Nat → Prop) : Prop where
  prepare : ∀ batch (columns : Finset Nat), Shows batch → (ops.selection batch).hasRows = true →
    (∀ column ∈ columns, column < sourceAttnums.length) →
    ∃ after, ops.prepareColumns batch columns = .ok after ∧ Shows after ∧ view after = view batch ∧
      ops.selection after = ops.selection batch ∧ ∀ column ∈ columns, Prepared after column
  read : ∀ batch column, Shows batch → column < sourceAttnums.length → Prepared batch column →
    ∃ after vector, ops.getInt4 batch column = .ok (after,vector) ∧ Shows after ∧ view after = view batch ∧
      ops.selection after = ops.selection batch ∧ ∀ row, (ops.selection batch).Selected row →
        vector.seen row = (attrs (view batch row) (sourceAttnums.getD column 0)).map datumGetInt32
  store : ∀ batch selection, Shows batch → selection.nrows = (ops.selection batch).nrows → selection.Clean →
    (∀ row, selection.Selected row → (ops.selection batch).Selected row) →
    Shows (ops.store batch selection) ∧ view (ops.store batch selection) = view batch ∧
      ops.selection (ops.store batch selection) = selection
  value : ∀ batch column row, Shows batch → column < sourceAttnums.length → (ops.selection batch).Selected row →
    ops.getDatum batch column row = .ok (attrs (view batch row) (sourceAttnums.getD column 0))
  clean : ∀ batch, Shows batch → (ops.selection batch).Clean

end Contract

/-! The operations of a heap batch keep this contract. -/

/-- A heap batch as `pg_batch_load_batch` and the operations leave it. -/
structure HeapShows (sourceAttnums : List Nat) (slot : HeapSlot) : Prop where
  laid : slot.Laid
  sound : slot.Sound
  attnums : slot.sourceAttnums = sourceAttnums
  small : slot.selection.nrows ≤ 64
  clean : slot.selection.Clean

theorem HeapShows.filled {sourceAttnums : List Nat} {before after : HeapSlot} (shows : HeapShows sourceAttnums before)
    (filled : Filled before after) : HeapShows sourceAttnums after :=
  ⟨shows.laid.filled filled,filled.sound shows.sound,filled.attnums.trans shows.attnums,
    by rw [filled.selection]; exact shows.small,by rw [filled.selection]; exact shows.clean⟩

theorem selected_small {selection : Selection} (small : selection.nrows ≤ 64) {row : Nat} (selected : selection.Selected row) :
    row < 64 ∧ row ∈ rows (selection.words 0) := by
  obtain ⟨inside,set⟩ := selected
  have first : row < 64 := by omega
  rw [Nat.div_eq_of_lt first,Nat.mod_eq_of_lt first] at set
  exact ⟨first,mem_rows.mpr set⟩

/-- The cells that a kernel sees in a Datum column. -/
theorem datum_seen (column : SlotColumn) (row : Nat) :
    (Int4Vector.datum column.values column.isnull).seen row = (column.cell row).map datumGetInt32 := by
  unfold Int4Vector.seen SlotColumn.cell
  by_cases null : column.isnull row = true <;> simp [Int4Vector.rowIsNull,Int4Vector.rowValue,null]

theorem heap_delivers (sourceAttnums : List Nat) :
    Delivers heapOps sourceAttnums (HeapShows sourceAttnums) HeapSlot.tuples HeapTuple.attrs
      (fun slot column => slot.Covers column (slot.selection.words 0)) where
  prepare := by
    intro slot columns shows _ inside
    rw [← shows.attnums] at inside
    obtain ⟨after,ran,filled,covers⟩ := heapPrepareColumns_ok shows.laid (slot.selection.words 0) .filter inside
    refine ⟨after,ran,shows.filled filled,filled.tuples,filled.selection,fun column member => ?_⟩
    rw [filled.selection]
    exact covers column member
  read := by
    intro slot column shows inside _
    rw [← shows.attnums] at inside
    obtain ⟨after,vector,ran,filled,values⟩ := heapGetDatumColumn_ok shows.laid shows.sound (slot.selection.words 0)
      .filter inside
    refine ⟨after,_,bind_ok.mpr ⟨_,ran,rfl⟩,shows.filled filled,filled.tuples,filled.selection,fun row selected => ?_⟩
    rw [datum_seen,values row (selected_small shows.small selected).2,HeapSlot.attnum,shows.attnums]
  store := by
    intro slot selection shows size clean less
    exact ⟨⟨⟨shows.laid.nodup,shows.laid.positive⟩,shows.sound,shows.attnums,size ▸ shows.small,clean⟩,rfl,rfl⟩
  value := by
    intro slot column row shows inside selected
    rw [← shows.attnums] at inside
    obtain ⟨after,vector,ran,_,values⟩ := heapGetDatumColumn_ok shows.laid shows.sound (bit 64 row) .project inside
    have small := (selected_small shows.small selected).1
    have value := values row (mem_rows.mpr (by simp [small]))
    rw [HeapSlot.attnum,shows.attnums] at value
    exact bind_ok.mpr ⟨_,ran,congrArg Except.ok value⟩
  clean := fun _ shows => shows.clean

/-! A condition as the scan runs it. -/

/-- The state that `scan_begin` has set up for a condition. -/
structure Ready {κ : Type} (conditions : Conditions κ) (layout : Layout) (recheck : κ → Bool) (qual : κ)
    (state : BatchQual) : Prop where
  supported : supported conditions qual = true
  compiled : compileFilter (conditions.tree qual) (resolveScanVar layout.sourceAttnums) = .ok state.expr
  column : ∀ var ∈ treeVars (conditions.tree qual), resolveScanVar layout.sourceAttnums var = some state.column
  inside : state.column < layout.sourceAttnums.length
  recheckOnly : state.recheckOnly = recheck qual
  own : state.sourceColumn = {state.column}
  heap : state.column ∈ state.heapColumns
  heapInside : ∀ column ∈ state.heapColumns, column < layout.sourceAttnums.length
  exactHeap : recheck qual = false → state.column ∈ state.exactHeapColumns
  exactInside : ∀ column ∈ state.exactHeapColumns, column < layout.sourceAttnums.length

theorem resolveScanVar_some {sourceAttnums : List Nat} {var : Var} {column : Nat}
    (resolved : resolveScanVar sourceAttnums var = some column) :
    column < sourceAttnums.length ∧ sourceAttnums.getD column 0 = var.varattno.toNat := by
  unfold resolveScanVar at resolved
  split at resolved
  · rename_i member
    cases resolved
    have inside := List.idxOf_lt_length_of_mem member
    exact ⟨inside,by rw [columnOf,List.getD_eq_getElem _ _ inside,List.getElem_idxOf inside]⟩
  · cases resolved

section Kernel
variable {κ : Type} {conditions : Conditions κ} {sourceAttnums : List Nat} {qual : κ} {column : Nat}
  (supports : supported conditions qual = true)
  (columns : ∀ var ∈ treeVars (conditions.tree qual), resolveScanVar sourceAttnums var = some column)
include supports columns

/-- The kernel of a condition, on a column as it is delivered, is the condition. -/
theorem filter_meaning {vector : Int4Vector} {selection : Selection} {row : Nat} {values : Attrs}
    (value : vector.seen row = (values (sourceAttnums.getD column 0)).map datumGetInt32) :
    evaluateFilter conditions.params (seenVars (resolveScanVar sourceAttnums) ⟨selection,fun _ => vector⟩ row)
      (conditions.tree qual) = conditions.holds qual values := by
  rw [conditions.agrees qual supports]
  apply evaluateFilter_congr
  intro var member
  have resolved := columns var member
  rw [seenVars,resolved,Option.bind_some,rowVar,value,(resolveScanVar_some resolved).2]

variable {expr : Program} (compiled : compileFilter (conditions.tree qual) (resolveScanVar sourceAttnums) = .ok expr)
  {selection : Selection} {vector : Int4Vector} {values : Nat → Attrs} (seen : ∀ row, selection.Selected row →
    vector.seen row = (values row (sourceAttnums.getD column 0)).map datumGetInt32)
  {enableSimd simdAvailable : Bool} {machine : Machine}
include compiled seen

/-- The rows on which the condition is true stay selected. -/
theorem kernel_ok {after : Machine} (ran : applyFilter conditions.params expr enableSimd simdAvailable
    (bind machine ⟨selection,fun _ => vector⟩) = .ok after) (clean : selection.Clean) :
    ∃ kept : Selection, after.bound = some ⟨kept,fun _ => vector⟩ ∧ kept.nrows = selection.nrows ∧ kept.Clean ∧
      ∀ row, kept.Selected row ↔ selection.Selected row ∧ conditions.Satisfies (values row) qual := by
  obtain ⟨value,scalar,shape⟩ := compileFilter_shape supports compiled
  obtain ⟨kept,bound,size,selects⟩ := applyFilter_ok shape conditions.params enableSimd simdAvailable
    ⟨selection,fun _ => vector⟩ machine ran
  refine ⟨kept,bound,size,applyFilter_clean ran bound clean,fun row => ?_⟩
  rw [(selects row).1]
  refine and_congr_right fun selected => ?_
  rw [filter_meaning supports columns (seen row selected)]
  rfl

theorem kernel_total {one : Nat} (selected : selection.Selected one)
    (fine : ∀ row, selection.Selected row → ∃ result, conditions.holds qual (values row) = .ok result) :
    ∃ after, applyFilter conditions.params expr enableSimd simdAvailable (bind machine ⟨selection,fun _ => vector⟩) =
      .ok after := by
  obtain ⟨value,scalar,shape⟩ := compileFilter_shape supports compiled
  refine applyFilter_total shape conditions.params enableSimd simdAvailable ⟨selection,fun _ => vector⟩ machine selected ?_
  intro row member
  rw [filter_meaning supports columns (seen row member)]
  exact fine row member

end Kernel

section Run
variable {κ : Type} {conditions : Conditions κ} {layout : Layout} {recheck : κ → Bool} {β ρ : Type} {ops : BatchOps β}
  {Shows : β → Prop} {view : β → Nat → ρ} {attrs : ρ → Attrs} {Prepared : β → Nat → Prop} {source : Source}

/-- A condition is run unless the page has proved it. -/
def Runs (recheck : κ → Bool) (pageRecheck : Bool) (qual : κ) : Bool :=
  !recheck qual || pageRecheck

/-- One kernel: the rows on which its condition is true stay selected. -/
theorem applyQual_ok (delivers : Delivers ops layout.sourceAttnums Shows view attrs Prepared)
    (params : source.params = conditions.params) {qual : κ} {state after : BatchQual}
    (ready : Ready conditions layout recheck qual state) {batch filtered : β} (shows : Shows batch)
    (rows_ : (ops.selection batch).hasRows = true) (ran : applyQual ops source state batch = .ok (after,filtered)) :
    Shows filtered ∧ view filtered = view batch ∧ Ready conditions layout recheck qual after ∧
      ∀ row, (ops.selection filtered).Selected row ↔
        (ops.selection batch).Selected row ∧ conditions.Satisfies (attrs (view batch row)) qual := by
  obtain ⟨prepared,prepare,rest⟩ := bind_ok.mp ran
  obtain ⟨⟨read,vector⟩,got,rest⟩ := bind_ok.mp rest
  obtain ⟨machine,applied,rest⟩ := bind_ok.mp rest
  obtain ⟨_,prepare',shows,rows,same,own⟩ := delivers.prepare batch {state.column} shows rows_ (by simpa using ready.inside)
  cases prepare.symm.trans prepare'
  obtain ⟨_,_,got',shows,rows',same',values⟩ := delivers.read prepared state.column shows ready.inside
    (own _ (Finset.mem_singleton_self _))
  cases got.symm.trans got'
  rw [params] at applied
  obtain ⟨selection,bound,size,clean,selects⟩ := kernel_ok ready.supported ready.column ready.compiled
    (fun row selected => values row (same' ▸ selected)) applied (delivers.clean read shows)
  simp only [bound,Except.ok.injEq,Prod.mk.injEq] at rest
  obtain ⟨rfl,rfl⟩ := rest
  have less (row : Nat) (selected : selection.Selected row) : (ops.selection read).Selected row :=
    ((selects row).mp selected).1
  obtain ⟨shows,rows'',stored⟩ := delivers.store read selection shows size clean less
  refine ⟨shows,rows''.trans (rows'.trans rows),?_,fun row => ?_⟩
  · exact ⟨ready.supported,ready.compiled,ready.column,ready.inside,ready.recheckOnly,ready.own,ready.heap,
      ready.heapInside,ready.exactHeap,ready.exactInside⟩
  · rw [stored,selects row,same',same,rows]

/-- A kernel finds its column among those prepared for it. -/
theorem Ready.prepared {qual : κ} {state : BatchQual} (ready : Ready conditions layout recheck qual state)
    {pageRecheck : Bool} (run : (state.recheckOnly && !pageRecheck) = false) :
    state.column ∈ state.columns source pageRecheck ∧
      ∀ column ∈ state.columns source pageRecheck, column < layout.sourceAttnums.length := by
  unfold BatchQual.columns
  split
  · rw [ready.own]
    simpa using ready.inside
  split
  · rename_i page
    refine ⟨ready.exactHeap ?_,ready.exactInside⟩
    rw [page.2,Bool.not_false,Bool.and_true,ready.recheckOnly] at run
    exact run
  · exact ⟨ready.heap,ready.heapInside⟩

/-- The rows on which the conditions that are run are all true stay selected, and every
kernel has had its column prepared for the rows that were selected then. -/
theorem filterBatch_ok (delivers : Delivers ops layout.sourceAttnums Shows view attrs Prepared)
    (params : source.params = conditions.params) {pageRecheck : Bool} {quals : List κ} {states afters : List BatchQual}
    (ready : List.Forall₂ (Ready conditions layout recheck) quals states) {batch filtered : β} (shows : Shows batch)
    {runs : List (KernelRun β)} (ran : filterBatch ops source pageRecheck states batch = .ok (afters,filtered,runs)) :
    Shows filtered ∧ view filtered = view batch ∧ List.Forall₂ (Ready conditions layout recheck) quals afters ∧
      (∀ row, (ops.selection filtered).Selected row ↔ (ops.selection batch).Selected row ∧
        ∀ qual ∈ quals, Runs recheck pageRecheck qual = true → conditions.Satisfies (attrs (view batch row)) qual) ∧
      ∀ run ∈ runs, run.column ∈ run.columns ∧ Prepared run.batch run.column ∧ Shows run.batch := by
  induction ready generalizing batch afters runs with
  | nil =>
    cases ran
    exact ⟨shows,rfl,.nil,fun row => by simp,nofun⟩
  | @cons qual state quals states head tail ih =>
    unfold filterBatch at ran
    split at ran
    · rename_i empty
      cases ran
      refine ⟨shows,rfl,.cons head tail,fun row => ⟨fun selected => ?_,And.left⟩,nofun⟩
      rw [hasRows_of_selected selected] at empty
      cases empty
    split at ran
    · rename_i skipped
      obtain ⟨⟨rest,last,more⟩,others,done⟩ := bind_ok.mp ran
      cases done
      obtain ⟨shows,rows,ready,selects,runs⟩ := ih shows others
      refine ⟨shows,rows,.cons head ready,fun row => (selects row).trans (and_congr_right fun _ => ?_),runs⟩
      have proved : Runs recheck pageRecheck qual = false := by
        simp only [Bool.and_eq_true,Bool.not_eq_true',head.recheckOnly] at skipped
        simp [Runs,skipped.1,skipped.2]
      simp [proved]
    · rename_i some_ taken
      obtain ⟨prepared,prepare,rest⟩ := bind_ok.mp ran
      obtain ⟨⟨state',filtered⟩,applied,rest⟩ := bind_ok.mp rest
      obtain ⟨⟨rest,last,more⟩,others,done⟩ := bind_ok.mp rest
      cases done
      have taken := Bool.eq_false_iff.mpr taken
      obtain ⟨member,inside⟩ := head.prepared taken
      have some_ : (ops.selection batch).hasRows = true := by simpa using some_
      obtain ⟨_,prepare',shows,rows,same,ready'⟩ := delivers.prepare batch _ shows some_ inside
      cases prepare.symm.trans prepare'
      obtain ⟨shows',rows',head',selects'⟩ := applyQual_ok delivers params head shows (same ▸ some_) applied
      obtain ⟨shows'',rows'',ready,selects,runs⟩ := ih shows' others
      refine ⟨shows'',rows''.trans (rows'.trans rows),.cons head' ready,fun row => ?_,fun run among => ?_⟩
      · have run : Runs recheck pageRecheck qual = true := by
          rw [head.recheckOnly] at taken
          revert taken
          unfold Runs
          cases recheck qual <;> cases pageRecheck <;> simp
        rw [selects row,selects' row,same,rows',rows]
        simp [run,and_assoc]
      · rcases List.mem_cons.mp among with rfl | later
        · exact ⟨member,ready' _ member,shows⟩
        · exact runs run later

/-- The rows of a batch that are selected. -/
def listed (ops : BatchOps β) (view : β → Nat → ρ) (batch : β) : List ρ :=
  (ops.selection batch).visits.map (view batch)

/-- The conditions that a page leaves open hold of a row. -/
def passesPage (conditions : Conditions κ) (recheck : κ → Bool) (quals : List κ) (pageRecheck : Bool) (values : Attrs) : Bool :=
  quals.all fun qual => !Runs recheck pageRecheck qual || decide (conditions.Satisfies values qual)

theorem visits_filter {before after : Selection} {keep : Nat → Bool}
    (same : ∀ row, after.Selected row ↔ before.Selected row ∧ keep row = true) :
    after.visits = before.visits.filter keep := by
  refine Words.sorted_ext after.visits_sorted (before.visits_sorted.filter _) fun row => ?_
  rw [mem_visits,same,List.mem_filter,mem_visits]

theorem listed_filter {quals : List κ} {pageRecheck : Bool} {batch filtered : β} (rows : view filtered = view batch)
    (selects : ∀ row, (ops.selection filtered).Selected row ↔ (ops.selection batch).Selected row ∧
      ∀ qual ∈ quals, Runs recheck pageRecheck qual = true → conditions.Satisfies (attrs (view batch row)) qual) :
    listed ops view filtered =
      (listed ops view batch).filter fun row => passesPage conditions recheck quals pageRecheck (attrs row) := by
  rw [listed,listed,rows,List.filter_map]
  congr 1
  refine visits_filter fun row => (selects row).trans (and_congr_right fun _ => ?_)
  simp only [passesPage,Function.comp_apply,List.all_eq_true,Bool.or_eq_true,Bool.not_eq_true',decide_eq_true_eq]
  refine forall₂_congr fun qual _ => ?_
  cases Runs recheck pageRecheck qual <;> simp

/-- What holds of the node between two calls. -/
structure Scanning (conditions : Conditions κ) (layout : Layout) (recheck : κ → Bool) (quals : List κ) (Shows : β → Prop)
    (Prepared : β → Nat → Prop) (state : ScanState β) : Prop where
  ready : List.Forall₂ (Ready conditions layout recheck) quals state.quals
  left : ∀ item ∈ state.left, Shows item.2
  runs : ∀ run ∈ state.runs, run.column ∈ run.columns ∧ Prepared run.batch run.column ∧ Shows run.batch

/-- The rows that are still to be emitted. -/
def remaining (ops : BatchOps β) (view : β → Nat → ρ) (attrs : ρ → Attrs) (conditions : Conditions κ) (recheck : κ → Bool)
    (quals : List κ) (left : List (Bool × β)) : List ρ :=
  left.flatMap fun item => (listed ops view item.2).filter fun row => passesPage conditions recheck quals item.1 (attrs row)

/-- One call: the next batch that keeps a row, and the rows in the order of the source. -/
theorem scanLoop_ok (delivers : Delivers ops layout.sourceAttnums Shows view attrs Prepared)
    (params : source.params = conditions.params) {quals : List κ} {left : List (Bool × β)} {states : List BatchQual}
    {runs : List (KernelRun β)} (scanning : Scanning conditions layout recheck quals Shows Prepared ⟨states,left,runs⟩)
    {after : ScanState β} {result : Option β} (ran : scanLoop ops source left states runs = .ok (after,result)) :
    Scanning conditions layout recheck quals Shows Prepared after ∧
      (∀ batch ∈ result, Shows batch ∧ (ops.selection batch).rowCount ≠ 0) ∧ (result = none → after.left = []) ∧
      remaining ops view attrs conditions recheck quals left =
        (result.elim [] (listed ops view)) ++ remaining ops view attrs conditions recheck quals after.left := by
  induction left generalizing states runs with
  | nil =>
    cases ran
    exact ⟨scanning,nofun,fun _ => rfl,rfl⟩
  | cons item left ih =>
    obtain ⟨pageRecheck,batch⟩ := item
    obtain ⟨⟨states',filtered,more⟩,filtering,rest⟩ := bind_ok.mp ran
    obtain ⟨shows,rows,ready,selects,found⟩ := filterBatch_ok delivers params scanning.ready
      (scanning.left _ (List.mem_cons_self ..)) filtering
    have scanning' : Scanning conditions layout recheck quals Shows Prepared ⟨states',left,runs ++ more⟩ :=
      ⟨ready,fun other member => scanning.left other (List.mem_cons_of_mem _ member),
        fun run member => (List.mem_append.mp member).elim (scanning.runs run) (found run)⟩
    have emitted : remaining ops view attrs conditions recheck quals ((pageRecheck,batch) :: left) =
        listed ops view filtered ++ remaining ops view attrs conditions recheck quals left := by
      rw [remaining,List.flatMap_cons,listed_filter rows selects]
      rfl
    dsimp only at rest
    split at rest
    · rename_i empty
      obtain ⟨scanning'',batches,final,order⟩ := ih scanning' rest
      refine ⟨scanning'',batches,final,?_⟩
      rw [emitted,listed,(delivers.clean filtered shows).rowCount_zero.mp empty,List.map_nil,List.nil_append,order]
    · rename_i filled
      cases rest
      refine ⟨scanning',fun other same => ?_,nofun,emitted⟩
      cases same
      exact ⟨shows,filled⟩

/-- A whole scan emits the rows of its source on which all its conditions hold. -/
theorem calls_ok (delivers : Delivers ops layout.sourceAttnums Shows view attrs Prepared)
    (params : source.params = conditions.params) {quals : List κ} {before after : ScanState β} {batches : List β}
    (scanning : Scanning conditions layout recheck quals Shows Prepared before) (calls : Calls ops source before batches after) :
    Scanning conditions layout recheck quals Shows Prepared after ∧
      (∀ batch ∈ batches, Shows batch ∧ (ops.selection batch).rowCount ≠ 0) ∧
      batches.flatMap (listed ops view) = remaining ops view attrs conditions recheck quals before.left := by
  induction calls with
  | ended before after ran =>
    obtain ⟨scanning,_,final,order⟩ := scanLoop_ok delivers params scanning ran
    rw [final rfl] at order
    exact ⟨scanning,nofun,order.symm⟩
  | batch before middle after batch batches ran _ ih =>
    obtain ⟨scanning,found,_,order⟩ := scanLoop_ok delivers params scanning ran
    obtain ⟨scanning',others,order'⟩ := ih scanning
    refine ⟨scanning',List.forall_mem_cons.mpr ⟨found batch rfl,others⟩,?_⟩
    rw [List.flatMap_cons,order',order]
    rfl

end Run

/-! What `scan_begin` sets up. -/

section Begin
variable {κ : Type} {conditions : Conditions κ} {layout : Layout} {recheck : κ → Bool}

/-- A condition before the second loop. -/
structure Begun (conditions : Conditions κ) (layout : Layout) (recheck : κ → Bool) (qual : κ) (state : BatchQual) :
    Prop where
  compiled : compileFilter (conditions.tree qual) (resolveScanVar layout.sourceAttnums) = .ok state.expr
  column : ∀ var ∈ treeVars (conditions.tree qual), resolveScanVar layout.sourceAttnums var = some state.column
  origin : ∃ var ∈ conditions.vars qual, state.column = columnOf layout.sourceAttnums var.varattno.toNat
  inside : state.column < layout.sourceAttnums.length
  recheckOnly : state.recheckOnly = recheck qual
  own : state.sourceColumn = {state.column}

theorem beginQual_begun {qual : κ} (supports : supported conditions qual = true)
    (columns : ∀ var ∈ conditions.vars qual, var.varattno.toNat ∈ layout.sourceAttnums) :
    ∃ state, beginQual conditions layout qual (recheck qual) = .ok state ∧ Begun conditions layout recheck qual state := by
  have resolves : ∀ var ∈ treeVars (conditions.tree qual), (resolveScanVar layout.sourceAttnums var).isSome = true := by
    intro var member
    simp [resolveScanVar,columns var (conditions.pulled qual var member)]
  obtain ⟨expr,var,column,compiled,single,resolved,reads⟩ := compileFilter_column supports resolves
  obtain ⟨result,analyzed⟩ := Option.isSome_iff_exists.mp supports
  have again : supportsFilter (conditions.tree qual) 0 = true := by
    rw [supportsFilter,analyzeFilter_any analyzed]
    rfl
  have own : var ∈ conditions.vars qual :=
    conditions.pulled qual var (by rw [single]; exact List.mem_singleton_self var)
  have place : column = columnOf layout.sourceAttnums var.varattno.toNat := by
    rw [resolveScanVar,if_pos (columns var own)] at resolved
    exact (Option.some.inj resolved).symm
  refine ⟨⟨expr,freshMachine,column,{column},∅,∅,recheck qual⟩,?_,
    ⟨compiled,?_,⟨var,own,place⟩,(resolveScanVar_some resolved).1,rfl,rfl⟩⟩
  · simp only [beginQual,again,Bool.not_true,Bool.false_eq_true,if_false,compiled]
    exact bind_ok.mpr ⟨expr,rfl,by rw [reads]⟩
  · intro other member
    rw [single,List.mem_singleton] at member
    rw [member,resolved]

theorem beginQuals_begun {quals : List κ} (supports : ∀ qual ∈ quals, supported conditions qual = true)
    (columns : ∀ qual ∈ quals, ∀ var ∈ conditions.vars qual, var.varattno.toNat ∈ layout.sourceAttnums) :
    ∃ states, beginQuals conditions layout quals (quals.map recheck) = .ok states ∧
      List.Forall₂ (Begun conditions layout recheck) quals states := by
  induction quals with
  | nil => exact ⟨[],rfl,.nil⟩
  | cons qual rest ih =>
    obtain ⟨state,begun,fine⟩ := beginQual_begun (supports qual (List.mem_cons_self ..)) (columns qual (List.mem_cons_self ..))
    obtain ⟨states,others,fines⟩ := ih (fun other member => supports other (List.mem_cons_of_mem _ member))
      (fun other member => columns other (List.mem_cons_of_mem _ member))
    exact ⟨state :: states,bind_ok.mpr ⟨state,begun,bind_ok.mpr ⟨states,others,rfl⟩⟩,.cons fine fines⟩

theorem begun_inside {quals : List κ} {states : List BatchQual}
    (begun : List.Forall₂ (Begun conditions layout recheck) quals states) :
    ∀ state ∈ states, state.column < layout.sourceAttnums.length := by
  induction begun with
  | nil => exact nofun
  | cons head _ ih => exact List.forall_mem_cons.mpr ⟨head.inside,ih⟩

/-- The sets of columns of each condition hold its own column, and columns of the layout. -/
theorem withHeapColumns_ready {quals : List κ} {states : List BatchQual}
    (supports : ∀ qual ∈ quals, supported conditions qual = true)
    (exact_ : ∀ qual ∈ quals, recheck qual = false → ∀ var ∈ conditions.vars qual,
      columnOf layout.sourceAttnums var.varattno.toNat ∈ layout.exactFilterColumns)
    (begun : List.Forall₂ (Begun conditions layout recheck) quals states) :
    List.Forall₂ (Ready conditions layout recheck) quals (withHeapColumns layout states) := by
  induction begun with
  | nil => exact .nil
  | @cons qual state quals states head tail ih =>
    have inside : ∀ column ∈ columnsAhead layout state.column states, column < layout.sourceAttnums.length := by
      intro column member
      simp only [columnsAhead,Finset.mem_insert,List.mem_toFinset,List.mem_filter,List.mem_map] at member
      rcases member with rfl | ⟨⟨other,among,rfl⟩,_⟩
      · exact head.inside
      · exact begun_inside tail other among
    refine .cons ⟨supports qual (List.mem_cons_self ..),head.compiled,head.column,head.inside,head.recheckOnly,head.own,
      Finset.mem_insert_self ..,inside,fun proved => ?_,fun column member => inside column (Finset.mem_filter.mp member).1⟩
      (ih (fun other member => supports other (List.mem_cons_of_mem _ member))
        (fun other member => exact_ other (List.mem_cons_of_mem _ member)))
    obtain ⟨var,own,place⟩ := head.origin
    refine Finset.mem_filter.mpr ⟨Finset.mem_insert_self ..,?_⟩
    rw [place]
    exact exact_ qual (List.mem_cons_self ..) proved var own

/-- `scan_begin` succeeds on what `plan_base` wrote, and every condition keeps its flag. -/
theorem scanBegin_ready [DecidableEq κ] {request : PlanRequest κ} {plan : ScanPlan κ}
    (planned : Planned conditions request plan) :
    ∃ states, scanBegin conditions plan = .ok states ∧
      List.Forall₂ (Ready conditions plan.layout (recheckOnly request.mode request.bitmapqualorig)) plan.batchQuals states := by
  have columns : ∀ qual ∈ plan.batchQuals, ∀ var ∈ conditions.vars qual, var.varattno.toNat ∈ plan.layout.sourceAttnums :=
    fun qual member => planned.columns qual (List.mem_append_left _ member)
  obtain ⟨states,ran,begun⟩ := beginQuals_begun planned.kernels columns
  refine ⟨_,bind_ok.mpr ⟨states,planned.flags ▸ ran,rfl⟩,withHeapColumns_ready planned.kernels planned.exact_ begun⟩

end Begin

end PgBatch.Scan
