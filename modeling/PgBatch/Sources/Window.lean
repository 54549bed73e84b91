import PgBatch.Sources.Arrow
import PgBatch.Nodes.Scan
import PgBatch.Kernels.Selection

/-! The `ActiveBatch` of the sources in `examples/`: up to 64 rows of a stored batch or of a
record. A column becomes an array of the window when it is first asked for, and its
Datum rows are filled from that array. -/
namespace PgBatch.Sources
open Words Results Scan

/-- The messages in which the sources differ, each for a column counted from 1. -/
structure WindowErrors where
  outOfRange : Nat → String
  unknown : Nat → String
  unprepared : Nat → String

/-- `decode` gives the array of an attribute over the rows of the window. -/
structure Window where
  sourceAttnums : List Nat
  decode : Nat → Except String ArrowArray
  selection : Selection
  prepared : Nat → Option ArrowArray
  datums : Nat → DatumColumn

theorem min_small (nrows : Nat) : min nrows 64 < 2 ^ 31 := by
  omega

/-- `UINT64_MAX >> (64 - nrows)`, for 1 to 64 rows. -/
def allRows (nrows : Nat) : Selection :=
  ⟨min nrows 64,min_small nrows,fun _ => wordMask nrows⟩

/-- A window whose columns are still to be asked for. -/
def openWindow (sourceAttnums : List Nat) (decode : Nat → Except String ArrowArray) (nrows : Nat) : Window :=
  ⟨sourceAttnums,decode,allRows nrows,fun _ => none,fun _ => .empty⟩

section Ops
variable (errors : WindowErrors)

def prepareColumn (window : Window) (column : Nat) : Except String Window :=
  if window.sourceAttnums.length ≤ column then .error (errors.outOfRange (column + 1))
  else match window.prepared column with
  | some _ => .ok window
  | none => do
    let array ← window.decode (window.sourceAttnums.getD column 0)
    .ok {window with prepared := Function.update window.prepared column (some array)}

def prepareColumns (window : Window) (columns : Finset Nat) (wanted : BitVec 64) : Except String Window :=
  if wanted = 0#64 then .ok window else columns.sort.foldlM (prepareColumn errors) window

def getArrowColumn (window : Window) (column : Nat) : Except String ArrowArray :=
  if window.sourceAttnums.length ≤ column then .error (errors.unknown (column + 1))
  else match window.prepared column with
  | some array => .ok array
  | none => .error (errors.unprepared (column + 1))

def getInt4Column (window : Window) (column : Nat) : Except String Int4Vector := do
  let array ← getArrowColumn errors window column
  .ok array.int4Vector

def getDatumColumn (window : Window) (column : Nat) (wanted : BitVec 64) : Except String (Window × DatumColumn) := do
  let window ← prepareColumn errors window column
  let array ← getArrowColumn errors window column
  let datum := fetchDatums array (window.datums column) wanted
  .ok ({window with datums := Function.update window.datums column datum},datum)

/-- `PgBatchOps` of a source. -/
def windowOps : BatchOps Window where
  selection := Window.selection
  store := fun window selection => {window with selection := selection}
  prepareColumns := fun window columns => prepareColumns errors window columns (window.selection.words 0)
  getInt4 := fun window column => do
    let vector ← getInt4Column errors window column
    .ok (window,vector)
  getDatum := fun window column row => do
    let (_,datum) ← getDatumColumn errors window column (bit 64 row)
    .ok (datum.cell row)

end Ops

/-! What a window shows, whatever was asked for before. -/

/-- The attributes of a row of the window. -/
def Window.row (window : Window) (row : Nat) : Attrs :=
  fun attnum => match window.decode attnum with
  | .ok array => (array.cell row).map int32GetDatum
  | .error _ => none

/-- The selected rows, in their order. -/
def Window.rows (window : Window) : List Attrs :=
  window.selection.visits.map window.row

structure Shows (sourceAttnums : List Nat) (window : Window) : Prop where
  attnums : window.sourceAttnums = sourceAttnums
  decodes : ∀ attnum ∈ sourceAttnums, ∃ array, window.decode attnum = .ok array ∧ array.Counted ∧
    array.length = window.selection.nrows
  prepared : ∀ column array, window.prepared column = some array →
    window.decode (sourceAttnums.getD column 0) = .ok array
  datums : ∀ column array, window.decode (sourceAttnums.getD column 0) = .ok array → (window.datums column).Holds array
  positive : 0 < window.selection.nrows
  small : window.selection.nrows ≤ 64
  clean : window.selection.Clean

/-- What the operations change. -/
structure Filled (before after : Window) : Prop where
  attnums : after.sourceAttnums = before.sourceAttnums
  decode : after.decode = before.decode
  selection : after.selection = before.selection

theorem row_eq {before after : Window} (decode : after.decode = before.decode) : after.row = before.row := by
  funext row attnum
  rw [Window.row,Window.row,decode]

theorem column_listed {sourceAttnums : List Nat} {column : Nat} (inside : column < sourceAttnums.length) :
    sourceAttnums.getD column 0 ∈ sourceAttnums := by
  rw [List.getD_eq_getElem _ _ inside]
  exact List.getElem_mem inside

/-- The one word of a window. -/
theorem exists_selected {sourceAttnums : List Nat} {window : Window} (shows : Shows sourceAttnums window) :
    window.selection.words 0 ≠ 0#64 ↔ ∃ row, window.selection.Selected row := by
  constructor
  · intro nonzero
    obtain ⟨row,member⟩ : ∃ row, row ∈ rows (window.selection.words 0) :=
      List.exists_mem_of_ne_nil _ fun empty => nonzero (rows_eq_nil.mp empty)
    have set := mem_rows.mp member
    have bound : row < 64 := BitVec.lt_of_getLsbD set
    have word : 0 < window.selection.nwords := by
      have := shows.positive
      unfold Selection.nwords
      omega
    have inside := Selection.clean_iff.mp shows.clean 0 row word set
    rw [Nat.mul_zero,Nat.zero_add] at inside
    refine ⟨row,inside,?_⟩
    rw [Nat.div_eq_of_lt bound,Nat.mod_eq_of_lt bound]
    exact set
  · rintro ⟨row,inside,set⟩ zero
    have bound : row < 64 := Nat.lt_of_lt_of_le inside shows.small
    rw [Nat.div_eq_of_lt bound,zero] at set
    simp at set

theorem rows_eq_nil_iff {sourceAttnums : List Nat} {window : Window} (shows : Shows sourceAttnums window) :
    window.rows = [] ↔ window.selection.words 0 = 0#64 := by
  rw [Window.rows,List.map_eq_nil_iff,← not_iff_not]
  refine Iff.trans ⟨fun some_ => ?_,fun found => ?_⟩ (exists_selected shows).symm
  · obtain ⟨row,member⟩ := List.exists_mem_of_ne_nil _ some_
    exact ⟨row,mem_visits.mp member⟩
  · obtain ⟨row,selected⟩ := found
    exact List.ne_nil_of_mem (mem_visits.mpr selected)

/-! A window that has just been opened. -/

theorem allRows_selected {nrows : Nat} (small : nrows ≤ 64) {row : Nat} : (allRows nrows).Selected row ↔ row < nrows := by
  unfold Selection.Selected allRows
  dsimp only
  rw [Nat.min_eq_left small,getLsbD_wordMask,decide_eq_true_eq]
  constructor
  · exact And.left
  · intro inside
    exact ⟨inside,Nat.mod_lt _ (by decide),by omega⟩

theorem allRows_visits {nrows : Nat} (small : nrows ≤ 64) : (allRows nrows).visits = List.range nrows := by
  refine Words.sorted_ext (allRows nrows).visits_sorted List.pairwise_lt_range fun row => ?_
  rw [mem_visits,allRows_selected small,List.mem_range]

theorem allRows_clean {nrows : Nat} (small : nrows ≤ 64) : (allRows nrows).Clean := by
  rw [Selection.clean_iff]
  intro word index inside set
  unfold Selection.nwords at inside
  simp only [allRows,getLsbD_wordMask,decide_eq_true_eq] at inside set ⊢
  omega

theorem openWindow_shows {sourceAttnums : List Nat} {decode : Nat → Except String ArrowArray} {nrows : Nat}
    (arrays : ∀ attnum ∈ sourceAttnums, ∃ array, decode attnum = .ok array ∧ array.Counted ∧ array.length = nrows)
    (positive : 0 < nrows) (small : nrows ≤ 64) : Shows sourceAttnums (openWindow sourceAttnums decode nrows) := by
  have size : (allRows nrows).nrows = nrows := Nat.min_eq_left small
  refine ⟨rfl,fun attnum member => ?_,fun column array found => ?_,fun column array _ => empty_holds array,?_,?_,
    allRows_clean small⟩
  · obtain ⟨array,decoded,counted,length⟩ := arrays attnum member
    exact ⟨array,decoded,counted,length.trans size.symm⟩
  · cases found
  · exact Nat.lt_of_lt_of_eq positive size.symm
  · exact size.trans_le small

theorem openWindow_rows (sourceAttnums : List Nat) (decode : Nat → Except String ArrowArray) {nrows : Nat}
    (small : nrows ≤ 64) : (openWindow sourceAttnums decode nrows).rows =
      (List.range nrows).map (openWindow sourceAttnums decode nrows).row := by
  rw [Window.rows]
  exact congrArg (List.map _) (allRows_visits small)

section Fill
variable (errors : WindowErrors) {sourceAttnums : List Nat} {window : Window} (shows : Shows sourceAttnums window)
include shows

theorem prepareColumn_ok {column : Nat} (inside : column < sourceAttnums.length) :
    ∃ after array, prepareColumn errors window column = .ok after ∧ Shows sourceAttnums after ∧ Filled window after ∧
      after.datums = window.datums ∧ after.prepared column = some array ∧
      ∀ other, (window.prepared other).isSome = true → (after.prepared other).isSome = true := by
  have known : ¬window.sourceAttnums.length ≤ column := by
    rw [shows.attnums]
    exact Nat.not_le.mpr inside
  unfold prepareColumn
  rw [if_neg known]
  cases ready : window.prepared column with
  | some array => exact ⟨window,array,rfl,shows,⟨rfl,rfl,rfl⟩,rfl,ready,fun _ held => held⟩
  | none =>
    obtain ⟨array,decoded,_⟩ := shows.decodes _ (column_listed inside)
    refine ⟨{window with prepared := Function.update window.prepared column (some array)},array,?_,?_,⟨rfl,rfl,rfl⟩,rfl,
      Function.update_self ..,fun other held => ?_⟩
    · dsimp only
      rw [shows.attnums]
      exact bind_ok.mpr ⟨array,decoded,rfl⟩
    · refine ⟨shows.attnums,shows.decodes,fun other held found => ?_,shows.datums,shows.positive,shows.small,shows.clean⟩
      dsimp only at found
      by_cases same : other = column
      · subst same
        rw [Function.update_self] at found
        cases found
        exact decoded
      · rw [Function.update_of_ne same] at found
        exact shows.prepared other held found
    · dsimp only
      by_cases same : other = column
      · subst same
        rw [Function.update_self]
        rfl
      · rw [Function.update_of_ne same]
        exact held

theorem prepareColumns_ok {columns : Finset Nat} {wanted : BitVec 64} (nonzero : wanted ≠ 0#64)
    (inside : ∀ column ∈ columns, column < sourceAttnums.length) :
    ∃ after, prepareColumns errors window columns wanted = .ok after ∧ Shows sourceAttnums after ∧ Filled window after ∧
      ∀ column ∈ columns, (after.prepared column).isSome = true := by
  unfold prepareColumns
  rw [if_neg nonzero]
  have loop : ∃ after, columns.sort.foldlM (prepareColumn errors) window = .ok after ∧ Shows sourceAttnums after ∧
      Filled window after ∧ ∀ column ∈ columns.sort, (after.prepared column).isSome = true := by
    refine foldlM_rule (fun done state => Shows sourceAttnums state ∧ Filled window state ∧
      ∀ column ∈ done, (state.prepared column).isSome = true) ⟨shows,⟨rfl,rfl,rfl⟩,by simp⟩ ?_
    intro done column rest state split inv
    obtain ⟨shown,before,held⟩ := inv
    have member : column ∈ columns := (Finset.mem_sort (· ≤ ·)).mp (by rw [split]; simp)
    obtain ⟨next,array,ran,shown,filled,_,ready,kept⟩ := prepareColumn_ok errors shown (inside column member)
    refine ⟨next,ran,shown,⟨filled.attnums.trans before.attnums,filled.decode.trans before.decode,
      filled.selection.trans before.selection⟩,fun other among => ?_⟩
    rcases List.mem_append.mp among with old | new
    · exact kept other (held other old)
    · rw [List.mem_singleton.mp new,ready]
      rfl
  obtain ⟨after,ran,shown,filled,ready⟩ := loop
  exact ⟨after,ran,shown,filled,fun column member => ready column ((Finset.mem_sort (· ≤ ·)).mpr member)⟩

/-- The vector of a prepared column. -/
theorem getInt4Column_ok {column : Nat} (inside : column < sourceAttnums.length)
    (ready : (window.prepared column).isSome = true) :
    ∃ array, getInt4Column errors window column = .ok array.int4Vector ∧
      window.decode (sourceAttnums.getD column 0) = .ok array := by
  obtain ⟨array,held⟩ := Option.isSome_iff_exists.mp ready
  refine ⟨array,bind_ok.mpr ⟨array,?_,rfl⟩,shows.prepared column array held⟩
  unfold getArrowColumn
  rw [if_neg (by rw [shows.attnums]; exact Nat.not_le.mpr inside),held]

/-- A request for Datum rows delivers those of the array, the rows filled before among them. -/
theorem getDatumColumn_ok {column : Nat} (inside : column < sourceAttnums.length) (wanted : BitVec 64) :
    ∃ after datum array, getDatumColumn errors window column wanted = .ok (after,datum) ∧ Shows sourceAttnums after ∧
      Filled window after ∧ window.decode (sourceAttnums.getD column 0) = .ok array ∧
      ∀ row, wanted.getLsbD row = true → datum.cell row = (array.cell row).map int32GetDatum := by
  obtain ⟨ready,array,ran,shown,filled,_,held,_⟩ := prepareColumn_ok errors shows inside
  have decoded := shown.prepared column array held
  have holds := fetchDatums_ok (shown.datums column array decoded) wanted
  refine ⟨{ready with datums := Function.update ready.datums column (fetchDatums array (ready.datums column) wanted)},
    fetchDatums array (ready.datums column) wanted,array,bind_ok.mpr ⟨ready,ran,bind_ok.mpr ⟨array,?_,rfl⟩⟩,?_,
    ⟨filled.attnums,filled.decode,filled.selection⟩,filled.decode ▸ decoded,fun row asked => ?_⟩
  · unfold getArrowColumn
    rw [if_neg (by rw [shown.attnums]; exact Nat.not_le.mpr inside),held]
  · refine ⟨shown.attnums,shown.decodes,shown.prepared,fun other array' decoded' => ?_,shown.positive,shown.small,shown.clean⟩
    by_cases same : other = column
    · subst same
      dsimp only
      rw [Function.update_self]
      have one : array = array' := Except.ok.inj (decoded.symm.trans decoded')
      exact one ▸ holds.1
    · dsimp only
      rw [Function.update_of_ne same]
      exact shown.datums other array' decoded'
  · exact holds.1 row (holds.2 row asked)

end Fill

end PgBatch.Sources
