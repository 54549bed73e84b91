import PgBatch.Nodes.ScanPlan
import PgBatch.Kernels.Vector
import Mathlib.Data.List.Sort
import Mathlib.Data.Finset.Sort

/-! The heap batches of a slot (`nodes/slot.c`): the columns of up to 64 tuples of a
page, deformed when they are asked for. Each tuple has a cursor that moves forward
only; what lies behind it is deformed from the start again. -/
namespace PgBatch.Scan
open Words Results

structure HeapTuple where
  tid : Nat × Nat
  natts : Nat
  attr : Nat → Option Datum

/-- The planner rejects relations whose missing values are not NULL. -/
def HeapTuple.attrs (tuple : HeapTuple) : Attrs :=
  fun attnum => if attnum ≤ tuple.natts then tuple.attr attnum else none

/-- `PgBatchColumn`. -/
structure SlotColumn where
  values : Nat → Datum
  isnull : Nat → Bool
  validRows : BitVec 64

/-- The heap batch of a `PgBatchSlot`; a cursor is the attribute it has come to. -/
structure HeapSlot where
  sourceAttnums : List Nat
  tuples : Nat → HeapTuple
  tableOid : Nat
  cursors : Nat → Nat
  columns : Nat → SlotColumn
  selection : Selection

inductive Phase where
  | filter | project
deriving DecidableEq, Repr

def HeapSlot.attnum (slot : HeapSlot) (column : Nat) : Nat :=
  slot.sourceAttnums.getD column 0

/-- `heap_deform_tuple_advance`, which asserts that it moves forward. -/
def heapDeformTupleAdvance (cursor : Nat) (tuple : HeapTuple) (target : Nat) :
    Except String (Nat × Option (Option Datum)) :=
  if target ≤ cursor then .error "Assert (state->nvalid < target_attnum)"
  else if tuple.natts < target then .ok (max cursor tuple.natts,none)
  else .ok (target,some (tuple.attr target))

def deformAttr (cursor : Nat) (tuple : HeapTuple) (attnum : Nat) : Except String (Nat × Option Datum) := do
  let (cursor,found) ← heapDeformTupleAdvance cursor tuple attnum
  .ok (cursor,found.getD none)

def storeDeformed (slot : HeapSlot) (column row : Nat) (value : Option Datum) : HeapSlot :=
  let before := slot.columns column
  let after : SlotColumn := {
    values := Function.update before.values row (value.getD 0)
    isnull := Function.update before.isnull row value.isNone
    validRows := before.validRows ||| bit 64 row }
  {slot with columns := Function.update slot.columns column after}

/-- One cell for a filter: a column behind the cursor is deformed by a local one. -/
def materializeFilter (slot : HeapSlot) (column row : Nat) : Except String HeapSlot :=
  let attnum := slot.attnum column
  if attnum ≤ slot.cursors row then do
    let (_,value) ← deformAttr 0 (slot.tuples row) attnum
    .ok (storeDeformed slot column row value)
  else do
    let (cursor,value) ← deformAttr (slot.cursors row) (slot.tuples row) attnum
    .ok (storeDeformed {slot with cursors := Function.update slot.cursors row cursor} column row value)

def materializeFilters (slot : HeapSlot) (columns : List Nat) (wanted : BitVec 64) : Except String HeapSlot :=
  columns.foldlM (fun slot column =>
    (rows (wanted &&& ~~~(slot.columns column).validRows)).foldlM
      (fun slot row => materializeFilter slot column row) slot) slot

def notInOrder : String := "pg_batch columns are not in physical order"

/-- One column of one row in the loop of `materialize_row_side`, with its cursor. -/
def materializeSide (row cursorAttnum : Nat) (restart : Bool) (state : HeapSlot × Nat) (column : Nat) :
    Except String (HeapSlot × Nat) :=
  let (slot,workCursor) := state
  let attnum := slot.attnum column
  if (slot.columns column).validRows.getLsbD row then .ok state
  else if restart && decide (cursorAttnum < attnum) then .ok state
  else if !restart && decide (attnum ≤ cursorAttnum) then .ok state
  else if attnum ≤ workCursor then .error notInOrder
  else do
    let (cursor,value) ← deformAttr workCursor (slot.tuples row) attnum
    .ok (storeDeformed slot column row value,cursor)

/-- `materialize_row_side`: a pass from the start works on a local cursor. -/
def materializeRowSide (slot : HeapSlot) (columns : List Nat) (row cursorAttnum : Nat) (restart : Bool) :
    Except String HeapSlot := do
  let (slot,cursor) ← columns.foldlM (materializeSide row cursorAttnum restart)
    (slot,if restart then 0 else slot.cursors row)
  .ok (if restart then slot else {slot with cursors := Function.update slot.cursors row cursor})

/-- The two passes over a row. -/
def materializeRow (columns : List Nat) (slot : HeapSlot) (row : Nat) : Except String HeapSlot :=
  let cursorAttnum := slot.cursors row
  if 0 < cursorAttnum then do
    let slot ← materializeRowSide slot columns row cursorAttnum true
    materializeRowSide slot columns row cursorAttnum false
  else materializeRowSide slot columns row cursorAttnum false

/-- `sort_columns_by_attnum`. -/
def sortColumnsByAttnum (slot : HeapSlot) (columns : List Nat) : List Nat :=
  columns.insertionSort fun one two => slot.attnum one ≤ slot.attnum two

def outOfRange (column : Nat) : String :=
  s!"pg_batch column {column + 1} is out of range"

/-- `heap_prepare_columns`. -/
def heapPrepareColumns (slot : HeapSlot) (columns : Finset Nat) (wanted : BitVec 64) (phase : Phase) :
    Except String HeapSlot :=
  if wanted = 0#64 then .ok slot
  else
    let requested := columns.sort
    match requested.find? fun column => decide (slot.sourceAttnums.length ≤ column) with
    | some column => .error (outOfRange column)
    | none =>
      let requested := sortColumnsByAttnum slot requested
      match phase with
      | .filter => materializeFilters slot requested wanted
      | .project => (rows wanted).foldlM (materializeRow requested) slot

/-- `heap_get_datum_column`. -/
def heapGetDatumColumn (slot : HeapSlot) (column : Nat) (wanted : BitVec 64) (phase : Phase) :
    Except String (HeapSlot × SlotColumn) :=
  if slot.sourceAttnums.length ≤ column then .error (outOfRange column)
  else if wanted &&& ~~~(slot.columns column).validRows = 0#64 then .ok (slot,slot.columns column)
  else do
    let slot ← heapPrepareColumns slot {column} wanted phase
    .ok (slot,slot.columns column)

/-! A cell that is marked valid is the tuple's, whatever was asked for before. -/

/-- What a column holds for a row. -/
def SlotColumn.cell (column : SlotColumn) (row : Nat) : Option Datum :=
  if column.isnull row then none else some (column.values row)

def HeapSlot.valid (slot : HeapSlot) (column row : Nat) : Bool :=
  (slot.columns column).validRows.getLsbD row

def HeapSlot.Sound (slot : HeapSlot) : Prop :=
  ∀ column row, slot.valid column row = true →
    (slot.columns column).cell row = (slot.tuples row).attrs (slot.attnum column)

/-- A slot whose columns hold distinct attributes. -/
structure HeapSlot.Laid (slot : HeapSlot) : Prop where
  nodup : slot.sourceAttnums.Nodup
  positive : ∀ attnum ∈ slot.sourceAttnums, 0 < attnum

/-- Materializing only adds valid cells, and moves cursors. -/
structure Filled (before after : HeapSlot) : Prop where
  attnums : after.sourceAttnums = before.sourceAttnums
  tuples : after.tuples = before.tuples
  table : after.tableOid = before.tableOid
  selection : after.selection = before.selection
  keeps : ∀ column row, before.valid column row = true → after.valid column row = true
  sound : before.Sound → after.Sound

theorem Filled.refl (slot : HeapSlot) : Filled slot slot := ⟨rfl,rfl,rfl,rfl,fun _ _ => id,id⟩

theorem Filled.trans {first second third : HeapSlot} (one : Filled first second) (two : Filled second third) :
    Filled first third :=
  ⟨two.attnums.trans one.attnums,two.tuples.trans one.tuples,two.table.trans one.table,
    two.selection.trans one.selection,fun column row valid => two.keeps column row (one.keeps column row valid),
    two.sound ∘ one.sound⟩

theorem Filled.attnum {before after : HeapSlot} (filled : Filled before after) (column : Nat) :
    after.attnum column = before.attnum column := by
  rw [HeapSlot.attnum,filled.attnums,HeapSlot.attnum]

theorem HeapSlot.Laid.filled {before after : HeapSlot} (laid : before.Laid) (filled : Filled before after) : after.Laid :=
  ⟨filled.attnums ▸ laid.nodup,filled.attnums ▸ laid.positive⟩

theorem HeapSlot.Laid.attnum_pos {slot : HeapSlot} (laid : slot.Laid) {column : Nat}
    (inside : column < slot.sourceAttnums.length) : 0 < slot.attnum column := by
  apply laid.positive
  rw [HeapSlot.attnum,List.getD_eq_getElem _ _ inside]
  exact List.getElem_mem inside

theorem HeapSlot.Laid.attnum_inj {slot : HeapSlot} (laid : slot.Laid) {one two : Nat}
    (first : one < slot.sourceAttnums.length) (second : two < slot.sourceAttnums.length)
    (same : slot.attnum one = slot.attnum two) : one = two := by
  rw [HeapSlot.attnum,HeapSlot.attnum,List.getD_eq_getElem _ _ first,List.getD_eq_getElem _ _ second] at same
  exact (List.Nodup.getElem_inj_iff laid.nodup).mp same

theorem deformAttr_ok {cursor attnum : Nat} (tuple : HeapTuple) (forward : cursor < attnum) :
    ∃ next, deformAttr cursor tuple attnum = .ok (next,tuple.attrs attnum) ∧ next ≤ attnum := by
  unfold deformAttr heapDeformTupleAdvance
  rw [if_neg (by omega)]
  by_cases short : tuple.natts < attnum
  · rw [if_pos short]
    exact ⟨max cursor tuple.natts,by simp [HeapTuple.attrs,Nat.not_le.mpr short,Bind.bind,Except.bind],by omega⟩
  · rw [if_neg short]
    exact ⟨attnum,by simp [HeapTuple.attrs,Nat.le_of_not_lt short,Bind.bind,Except.bind],Nat.le_refl attnum⟩

theorem valid_store (slot : HeapSlot) (column row : Nat) (value : Option Datum) (other index : Nat) :
    (storeDeformed slot column row value).valid other index =
      (slot.valid other index || decide (other = column ∧ index < 64 ∧ index = row)) := by
  unfold HeapSlot.valid storeDeformed
  by_cases same : other = column
  · subst same
    simp
  · simp [same]

theorem storeDeformed_filled {slot : HeapSlot} {column row : Nat} {value : Option Datum}
    (right : value = (slot.tuples row).attrs (slot.attnum column)) : Filled slot (storeDeformed slot column row value) := by
  refine ⟨rfl,rfl,rfl,rfl,fun other index valid => ?_,fun sound other index valid => ?_⟩
  · rw [valid_store,valid,Bool.true_or]
  · rw [valid_store] at valid
    by_cases stored : other = column ∧ index = row
    · obtain ⟨rfl,rfl⟩ := stored
      simp only [storeDeformed,SlotColumn.cell,Function.update_self]
      change _ = (slot.tuples index).attrs (slot.attnum other)
      rw [← right]
      cases value <;> rfl
    · have kept : slot.valid other index = true := by
        rcases Bool.or_eq_true_iff.mp valid with old | new
        · exact old
        · have new := of_decide_eq_true new
          exact absurd ⟨new.1,new.2.2⟩ stored
      have same : ((storeDeformed slot column row value).columns other).cell index = (slot.columns other).cell index := by
        by_cases here : other = column
        · subst here
          have apart : index ≠ row := fun same => stored ⟨rfl,same⟩
          simp [storeDeformed,SlotColumn.cell,Function.update_of_ne apart]
        · have untouched : (storeDeformed slot column row value).columns other = slot.columns other :=
            Function.update_of_ne here ..
          rw [untouched]
      rw [same]
      exact sound other index kept

/-- Moving a cursor changes no cell. -/
theorem cursor_filled (slot : HeapSlot) (row cursor : Nat) :
    Filled slot {slot with cursors := Function.update slot.cursors row cursor} :=
  ⟨rfl,rfl,rfl,rfl,fun _ _ => id,id⟩

theorem materializeFilter_ok {slot : HeapSlot} {column row : Nat} (positive : 0 < slot.attnum column) (inside : row < 64) :
    ∃ after, materializeFilter slot column row = .ok after ∧ Filled slot after ∧ after.valid column row = true := by
  have stored (other : HeapSlot) (value : Option Datum) : (storeDeformed other column row value).valid column row = true := by
    simp [valid_store,inside]
  unfold materializeFilter
  dsimp only
  by_cases behind : slot.attnum column ≤ slot.cursors row
  · rw [if_pos behind]
    obtain ⟨next,deformed,_⟩ := deformAttr_ok (slot.tuples row) positive
    rw [deformed]
    exact ⟨_,rfl,storeDeformed_filled rfl,stored _ _⟩
  · rw [if_neg behind]
    obtain ⟨next,deformed,_⟩ := deformAttr_ok (slot.tuples row) (Nat.lt_of_not_le behind)
    rw [deformed]
    exact ⟨_,rfl,(cursor_filled slot row next).trans (storeDeformed_filled rfl),stored _ _⟩

/-- The wanted rows of a column are valid. -/
def HeapSlot.Covers (slot : HeapSlot) (column : Nat) (wanted : BitVec 64) : Prop :=
  ∀ row ∈ rows wanted, slot.valid column row = true

theorem Filled.covers {before after : HeapSlot} (filled : Filled before after) {column : Nat} {wanted : BitVec 64}
    (covers : before.Covers column wanted) : after.Covers column wanted :=
  fun row member => filled.keeps column row (covers row member)

theorem mem_missing {slot : HeapSlot} {column : Nat} {wanted : BitVec 64} {row : Nat} :
    row ∈ rows (wanted &&& ~~~(slot.columns column).validRows) ↔ row ∈ rows wanted ∧ slot.valid column row = false := by
  simp only [mem_rows,BitVec.getLsbD_and,BitVec.getLsbD_not,Bool.and_eq_true,decide_eq_true_eq,Bool.not_eq_true',
    HeapSlot.valid]
  exact ⟨fun both => ⟨both.1,both.2.2⟩,fun both => ⟨both.1,BitVec.lt_of_getLsbD both.1,both.2⟩⟩

theorem materializeColumn_ok {slot : HeapSlot} {column : Nat} (wanted : BitVec 64) (positive : 0 < slot.attnum column) :
    ∃ after, (rows (wanted &&& ~~~(slot.columns column).validRows)).foldlM
        (fun slot row => materializeFilter slot column row) slot = .ok after ∧
      Filled slot after ∧ after.Covers column wanted := by
  obtain ⟨after,ran,filled,covered⟩ : ∃ after, (rows (wanted &&& ~~~(slot.columns column).validRows)).foldlM
      (fun slot row => materializeFilter slot column row) slot = .ok after ∧ Filled slot after ∧
      ∀ row ∈ rows (wanted &&& ~~~(slot.columns column).validRows), after.valid column row = true := by
    refine foldlM_rule (fun done state => Filled slot state ∧ ∀ row ∈ done, state.valid column row = true)
      ⟨.refl slot,nofun⟩ ?_
    intro done row rest state split inv
    have member : row ∈ rows (wanted &&& ~~~(slot.columns column).validRows) := by simp [split]
    have positive : 0 < state.attnum column := by
      rw [inv.1.attnum]
      exact positive
    obtain ⟨next,stored,filled,valid⟩ := materializeFilter_ok positive (rows_lt member)
    refine ⟨next,stored,inv.1.trans filled,fun other among => ?_⟩
    rcases List.mem_append.mp among with earlier | last
    · exact filled.keeps column other (inv.2 other earlier)
    · rw [List.mem_singleton.mp last]
      exact valid
  refine ⟨after,ran,filled,fun row member => ?_⟩
  cases old : slot.valid column row with
  | true => exact filled.keeps column row old
  | false => exact covered row (mem_missing.mpr ⟨member,old⟩)

theorem materializeFilters_ok {slot : HeapSlot} {columns : List Nat} (wanted : BitVec 64)
    (positive : ∀ column ∈ columns, 0 < slot.attnum column) :
    ∃ after, materializeFilters slot columns wanted = .ok after ∧ Filled slot after ∧
      ∀ column ∈ columns, after.Covers column wanted := by
  refine foldlM_rule (fun done state => Filled slot state ∧ ∀ column ∈ done, state.Covers column wanted)
    ⟨.refl slot,nofun⟩ ?_
  intro done column rest state split inv
  have member : column ∈ columns := by simp [split]
  have positive : 0 < state.attnum column := by
    rw [inv.1.attnum]
    exact positive column member
  obtain ⟨next,ran,filled,covers⟩ := materializeColumn_ok wanted positive
  refine ⟨next,ran,inv.1.trans filled,fun other among => ?_⟩
  rcases List.mem_append.mp among with earlier | last
  · exact filled.covers (inv.2 other earlier)
  · rw [List.mem_singleton.mp last]
    exact covers

/-! The projection phase: the columns of a row in physical order, first those behind
its cursor and then those ahead. -/

/-- Where the pass of a row is: it has come to `init`, or to a column it is done with. -/
def Behind (slot : HeapSlot) (init : Nat) (done : List Nat) (cursor : Nat) : Prop :=
  cursor ≤ init ∨ ∃ column ∈ done, cursor ≤ slot.attnum column

/-- The columns that one of the two passes takes. -/
def OnSide (slot : HeapSlot) (cursorAttnum : Nat) (restart : Bool) (column : Nat) : Prop :=
  if restart then slot.attnum column ≤ cursorAttnum else cursorAttnum < slot.attnum column

theorem materializeSide_ok {slot state : HeapSlot} {row cursorAttnum cursor column : Nat} {restart : Bool} {done : List Nat}
    (filled : Filled slot state) (inside : row < 64) (positive : 0 < slot.attnum column)
    (sorted : ∀ other ∈ done, slot.attnum other < slot.attnum column)
    (behind : Behind slot (if restart then 0 else cursorAttnum) done cursor) :
    ∃ next after, materializeSide row cursorAttnum restart (state,cursor) column = .ok (next,after) ∧ Filled state next ∧
      next.cursors = state.cursors ∧ (OnSide slot cursorAttnum restart column → next.valid column row = true) ∧
      Behind slot (if restart then 0 else cursorAttnum) (done ++ [column]) after := by
  have weaker : Behind slot (if restart then 0 else cursorAttnum) (done ++ [column]) cursor :=
    behind.imp id fun ⟨other,member,bound⟩ => ⟨other,List.mem_append_left _ member,bound⟩
  unfold materializeSide
  dsimp only
  rw [filled.attnum]
  split
  · rename_i valid
    exact ⟨state,cursor,rfl,.refl state,rfl,fun _ => valid,weaker⟩
  split
  · rename_i ahead
    simp only [Bool.and_eq_true,decide_eq_true_eq] at ahead
    refine ⟨state,cursor,rfl,.refl state,rfl,fun side => ?_,weaker⟩
    rw [OnSide,if_pos ahead.1] at side
    omega
  split
  · rename_i back
    simp only [Bool.and_eq_true,Bool.not_eq_true',decide_eq_true_eq] at back
    refine ⟨state,cursor,rfl,.refl state,rfl,fun side => ?_,weaker⟩
    rw [OnSide,back.1,if_neg Bool.false_ne_true] at side
    omega
  · rename_i _ _ forward
    have before : cursor < slot.attnum column := by
      rcases behind with start | ⟨other,member,bound⟩
      · cases restart with
        | true => simp only [if_true] at start; omega
        | false =>
          simp only [Bool.false_eq_true,if_false] at start
          simp only [Bool.not_false,Bool.true_and,decide_eq_true_eq] at forward
          omega
      · have := sorted other member
        omega
    rw [if_neg (by omega)]
    obtain ⟨next,deformed,reached⟩ := deformAttr_ok (state.tuples row) before
    rw [deformed]
    refine ⟨_,next,rfl,storeDeformed_filled (by rw [filled.attnum]),rfl,fun _ => ?_,.inr ⟨column,by simp,reached⟩⟩
    simp [valid_store,inside]

/-- What the loop of a pass has done with the columns behind it. -/
structure Passed (slot : HeapSlot) (row cursorAttnum : Nat) (restart : Bool) (done : List Nat) (state : HeapSlot × Nat) :
    Prop where
  filled : Filled slot state.1
  cursors : state.1.cursors = slot.cursors
  side : ∀ column ∈ done, OnSide slot cursorAttnum restart column → state.1.valid column row = true
  behind : Behind slot (if restart then 0 else cursorAttnum) done state.2

theorem materializeRowSide_ok {slot : HeapSlot} {row : Nat} {columns : List Nat} (cursorAttnum : Nat) (restart : Bool)
    (inside : row < 64) (positive : ∀ column ∈ columns, 0 < slot.attnum column)
    (sorted : columns.Pairwise fun one two => slot.attnum one < slot.attnum two)
    (cursor : restart = false → slot.cursors row ≤ cursorAttnum) :
    ∃ after, materializeRowSide slot columns row cursorAttnum restart = .ok after ∧ Filled slot after ∧
      (restart = true → after.cursors = slot.cursors) ∧
      ∀ column ∈ columns, OnSide slot cursorAttnum restart column → after.valid column row = true := by
  have start : Behind slot (if restart then 0 else cursorAttnum) [] (if restart then 0 else slot.cursors row) := by
    cases restart with
    | true => exact .inl (Nat.le_refl 0)
    | false => exact .inl (cursor rfl)
  obtain ⟨⟨state,last⟩,ran,passed⟩ : ∃ last, columns.foldlM (materializeSide row cursorAttnum restart)
      (slot,if restart then 0 else slot.cursors row) = .ok last ∧ Passed slot row cursorAttnum restart columns last := by
    refine foldlM_rule (Passed slot row cursorAttnum restart) ⟨.refl slot,rfl,nofun,start⟩ ?_
    rintro done column rest ⟨state,work⟩ split passed
    have member : column ∈ columns := by simp [split]
    rw [split,List.pairwise_append] at sorted
    obtain ⟨next,after,ran,filled,cursors,side,behind⟩ := materializeSide_ok passed.filled inside (positive column member)
      (fun other among => sorted.2.2 other among column (List.mem_cons_self ..)) passed.behind
    refine ⟨(next,after),ran,passed.filled.trans filled,cursors.trans passed.cursors,fun other among taken => ?_,behind⟩
    rcases List.mem_append.mp among with earlier | final
    · exact filled.keeps other row (passed.side other earlier taken)
    · rw [List.mem_singleton.mp final] at taken ⊢
      exact side taken
  unfold materializeRowSide
  rw [ran]
  cases restart with
  | true => exact ⟨state,rfl,passed.filled,fun _ => passed.cursors,passed.side⟩
  | false => exact ⟨_,rfl,passed.filled.trans (cursor_filled state row last),nofun,passed.side⟩

theorem materializeRow_ok {slot : HeapSlot} {row : Nat} {columns : List Nat} (inside : row < 64)
    (positive : ∀ column ∈ columns, 0 < slot.attnum column)
    (sorted : columns.Pairwise fun one two => slot.attnum one < slot.attnum two) :
    ∃ after, materializeRow columns slot row = .ok after ∧ Filled slot after ∧
      ∀ column ∈ columns, after.valid column row = true := by
  unfold materializeRow
  dsimp only
  by_cases moved : 0 < slot.cursors row
  · rw [if_pos moved]
    obtain ⟨middle,back,filled,cursors,behind⟩ := materializeRowSide_ok (slot.cursors row) true inside positive sorted nofun
    have same := cursors rfl
    have positive' : ∀ column ∈ columns, 0 < middle.attnum column := fun column member => by
      rw [filled.attnum]
      exact positive column member
    have sorted' : columns.Pairwise fun one two => middle.attnum one < middle.attnum two := by
      simp only [filled.attnum]
      exact sorted
    obtain ⟨after,forth,filled',_,ahead⟩ := materializeRowSide_ok (slot.cursors row) false inside positive' sorted'
      (fun _ => by rw [same])
    refine ⟨after,bind_ok.mpr ⟨middle,back,forth⟩,filled.trans filled',fun column member => ?_⟩
    by_cases side : slot.attnum column ≤ slot.cursors row
    · exact filled'.keeps column row (behind column member side)
    · refine ahead column member ?_
      rw [OnSide,filled.attnum]
      exact Nat.lt_of_not_le side
  · rw [if_neg moved]
    obtain ⟨after,ran,filled,_,ahead⟩ := materializeRowSide_ok (slot.cursors row) false inside positive sorted
      (fun _ => Nat.le_refl _)
    refine ⟨after,ran,filled,fun column member => ahead column member ?_⟩
    have := positive column member
    simp only [OnSide,Bool.false_eq_true,if_false]
    omega

theorem materializeRows_ok {slot : HeapSlot} {columns : List Nat} (wanted : BitVec 64)
    (positive : ∀ column ∈ columns, 0 < slot.attnum column)
    (sorted : columns.Pairwise fun one two => slot.attnum one < slot.attnum two) :
    ∃ after, (rows wanted).foldlM (materializeRow columns) slot = .ok after ∧ Filled slot after ∧
      ∀ row ∈ rows wanted, ∀ column ∈ columns, after.valid column row = true := by
  refine foldlM_rule (fun done state => Filled slot state ∧ ∀ row ∈ done, ∀ column ∈ columns, state.valid column row = true)
    ⟨.refl slot,nofun⟩ ?_
  intro done row rest state split inv
  have member : row ∈ rows wanted := by simp [split]
  have positive' : ∀ column ∈ columns, 0 < state.attnum column := fun column member => by
    rw [inv.1.attnum]
    exact positive column member
  have sorted' : columns.Pairwise fun one two => state.attnum one < state.attnum two := by
    simp only [inv.1.attnum]
    exact sorted
  obtain ⟨next,ran,filled,valid⟩ := materializeRow_ok (rows_lt member) positive' sorted'
  refine ⟨next,ran,inv.1.trans filled,fun other among column taken => ?_⟩
  rcases List.mem_append.mp among with earlier | last
  · exact filled.keeps column other (inv.2 other earlier column taken)
  · rw [List.mem_singleton.mp last]
    exact valid column taken

theorem sortColumns_sorted {slot : HeapSlot} (laid : slot.Laid) {columns : List Nat} (distinct : columns.Nodup)
    (inside : ∀ column ∈ columns, column < slot.sourceAttnums.length) :
    (sortColumnsByAttnum slot columns).Pairwise fun one two => slot.attnum one < slot.attnum two := by
  have permuted := List.perm_insertionSort (fun one two => slot.attnum one ≤ slot.attnum two) columns
  have total : Std.Total fun one two => slot.attnum one ≤ slot.attnum two := ⟨fun _ _ => Nat.le_total _ _⟩
  have transitive : IsTrans Nat fun one two => slot.attnum one ≤ slot.attnum two := ⟨fun _ _ _ => Nat.le_trans⟩
  have sorted := List.pairwise_insertionSort (fun one two => slot.attnum one ≤ slot.attnum two) columns
  have apart := permuted.nodup_iff.mpr distinct
  refine List.Pairwise.imp_of_mem ?_ (sorted.and apart)
  rintro one two first second ⟨le,ne⟩
  rcases Nat.lt_or_eq_of_le le with less | same
  · exact less
  · exact absurd (laid.attnum_inj (inside one (permuted.mem_iff.mp first)) (inside two (permuted.mem_iff.mp second)) same) ne

/-- Preparing columns makes the wanted rows valid in each of them. -/
theorem heapPrepareColumns_ok {slot : HeapSlot} (laid : slot.Laid) {columns : Finset Nat} (wanted : BitVec 64) (phase : Phase)
    (inside : ∀ column ∈ columns, column < slot.sourceAttnums.length) :
    ∃ after, heapPrepareColumns slot columns wanted phase = .ok after ∧ Filled slot after ∧
      ∀ column ∈ columns, after.Covers column wanted := by
  unfold heapPrepareColumns
  by_cases empty : wanted = 0#64
  · rw [if_pos empty]
    refine ⟨slot,rfl,.refl slot,fun column _ row member => ?_⟩
    rw [empty,rows_zero] at member
    cases member
  rw [if_neg empty]
  have requested : ∀ column ∈ columns.sort, column < slot.sourceAttnums.length :=
    fun column member => inside column ((Finset.mem_sort _).mp member)
  have found : (columns.sort.find? fun column => decide (slot.sourceAttnums.length ≤ column)) = none := by
    rw [List.find?_eq_none]
    intro column member
    simpa using requested column member
  have members {column : Nat} : column ∈ sortColumnsByAttnum slot columns.sort ↔ column ∈ columns :=
    (List.mem_insertionSort _).trans (Finset.mem_sort _)
  have positive : ∀ column ∈ sortColumnsByAttnum slot columns.sort, 0 < slot.attnum column :=
    fun column member => laid.attnum_pos (inside column (members.mp member))
  simp only [found]
  cases phase with
  | filter =>
    obtain ⟨after,ran,filled,covers⟩ := materializeFilters_ok wanted positive
    exact ⟨after,ran,filled,fun column member => covers column (members.mpr member)⟩
  | project =>
    have sorted := sortColumns_sorted laid (Finset.sort_nodup columns _) requested
    obtain ⟨after,ran,filled,valid⟩ := materializeRows_ok wanted positive sorted
    exact ⟨after,ran,filled,fun column member row among => valid row among column (members.mpr member)⟩

/-- A column that is read holds the tuples' attribute in the wanted rows. -/
theorem heapGetDatumColumn_ok {slot : HeapSlot} (laid : slot.Laid) (sound : slot.Sound) {column : Nat} (wanted : BitVec 64)
    (phase : Phase) (inside : column < slot.sourceAttnums.length) :
    ∃ after vector, heapGetDatumColumn slot column wanted phase = .ok (after,vector) ∧ Filled slot after ∧
      ∀ row ∈ rows wanted, vector.cell row = (slot.tuples row).attrs (slot.attnum column) := by
  unfold heapGetDatumColumn
  rw [if_neg (by omega)]
  by_cases missing : wanted &&& ~~~(slot.columns column).validRows = 0#64
  · rw [if_pos missing]
    refine ⟨slot,_,rfl,.refl slot,fun row member => sound column row ?_⟩
    by_contra invalid
    have among : row ∈ rows (wanted &&& ~~~(slot.columns column).validRows) :=
      mem_missing.mpr ⟨member,Bool.not_eq_true _ ▸ invalid⟩
    rw [missing,rows_zero] at among
    cases among
  · rw [if_neg missing]
    have single : ∀ other ∈ ({column} : Finset Nat), other < slot.sourceAttnums.length := by simpa using inside
    obtain ⟨after,ran,filled,covers⟩ := heapPrepareColumns_ok laid wanted phase single
    refine ⟨after,_,bind_ok.mpr ⟨after,ran,rfl⟩,filled,fun row member => ?_⟩
    have value := filled.sound sound column row (covers column (Finset.mem_singleton_self column) row member)
    rw [filled.tuples,filled.attnum] at value
    exact value

end PgBatch.Scan
