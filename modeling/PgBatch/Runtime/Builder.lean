import Mathlib.Data.List.Basic
import Mathlib.Tactic.Ring
import Mathlib.Tactic.Linarith

/-! The Datum batch builder of `runtime/builder.c`.
A slot lends its by-reference Datums only until the next row is asked for, so a
slot is modelled with the memory its pointers reach at that moment; the builder
owns either the Datum word itself or a copy of the payload. -/
namespace PgBatch.DatumBuilder

/-- What one attribute means to a reader: NULL, a by-value word or a payload. -/
inductive Value (Payload : Type) where
  | null
  | word (datum : BitVec 64)
  | payload (content : Payload)
deriving DecidableEq, Repr

/-- A scalar result slot, with the memory its by-reference Datums point to. -/
structure Slot (Payload : Type) where
  natts : Nat
  values : Nat → BitVec 64
  isnull : Nat → Bool
  memory : BitVec 64 → Payload

/-- The attributes of a tuple descriptor that the builder looks at. -/
structure TupleDesc where
  natts : Nat
  attbyval : Nat → Bool

/-- The value of one attribute as the executor understands the slot. -/
def Slot.value {Payload : Type} (desc : TupleDesc) (slot : Slot Payload) (column : Nat) : Value Payload :=
  if slot.isnull column then .null
  else if desc.attbyval column then .word (slot.values column)
  else .payload (slot.memory (slot.values column))

def Slot.row {Payload : Type} (desc : TupleDesc) (ncolumns : Nat) (slot : Slot Payload) : List (Value Payload) :=
  (List.range ncolumns).map (slot.value desc)

/-- A Datum held by the builder: the word itself, or a `datumCopy` result. -/
inductive Stored (Payload : Type) where
  | datum (word : BitVec 64)
  | copied (content : Payload)
deriving DecidableEq, Repr

structure Builder (Payload : Type) where
  desc : TupleDesc
  ncolumns : Nat
  capacity : Nat
  hasByref : Bool
  values : Nat → Stored Payload
  isnull : Nat → Bool
  nrows : Nat
  isSealed : Bool

/-- A published builder batch: its selection words and its column arrays. -/
structure DatumBatch (Payload : Type) where
  nrows : Nat
  words : List (BitVec 64)
  ncolumns : Nat
  capacity : Nat
  values : Nat → Stored Payload
  isnull : Nat → Bool

def wordsForRows (nrows : Nat) : Nat :=
  nrows / 64 + (if nrows % 64 ≠ 0 then 1 else 0)

/-- `pg_batch_selection_contains`. -/
def DatumBatch.selected {Payload : Type} (batch : DatumBatch Payload) (row : Nat) : Bool :=
  ((batch.words[row / 64]?).getD 0#64).getLsbD (row % 64)

/-- `builder_get_column`, read at one row. -/
def DatumBatch.value {Payload : Type} (batch : DatumBatch Payload) (row column : Nat) : Value Payload :=
  if batch.isnull (column * batch.capacity + row) then .null
  else match batch.values (column * batch.capacity + row) with
    | .datum word => .word word
    | .copied content => .payload content

/-- The rows a consumer of the batch visits, in order. -/
def DatumBatch.rows {Payload : Type} (batch : DatumBatch Payload) : List (List (Value Payload)) :=
  ((List.range batch.nrows).filter batch.selected).map
    (fun row => (List.range batch.ncolumns).map (batch.value row))

def builderReset {Payload : Type} (builder : Builder Payload) : Builder Payload :=
  {builder with nrows := 0, isSealed := false}

def builderCreate {Payload : Type} (desc : TupleDesc) (ncolumns capacity : Nat)
    (values : Nat → Stored Payload) (isnull : Nat → Bool) : Except String (Builder Payload) :=
  if ncolumns = 0 ∨ desc.natts < ncolumns then .error "invalid pg_batch builder column count"
  else if capacity = 0 then .error "invalid pg_batch builder capacity"
  else .ok (builderReset {
    desc, ncolumns, capacity, values, isnull, nrows := 0, isSealed := false,
    hasByref := (List.range ncolumns).any (fun column => !desc.attbyval column) })

def builderIsFull {Payload : Type} (builder : Builder Payload) : Bool :=
  builder.isSealed || builder.nrows == builder.capacity

/-- The stored form of one slot attribute; `datumCopy` reads the lent memory now. -/
def storedDatum {Payload : Type} (byval : Bool) (slot : Slot Payload) (column : Nat) : Stored Payload :=
  if slot.isnull column then .datum 0#64
  else if byval then .datum (slot.values column)
  else .copied (slot.memory (slot.values column))

/-- The column loops of `pg_batch_builder_append_slot`, over columns `0 .. count - 1`. -/
def storeColumns {Payload : Type} (byval : Nat → Bool) (slot : Slot Payload) (row : Nat)
    (builder : Builder Payload) : Nat → Builder Payload
  | 0 => builder
  | column + 1 =>
    let builder := storeColumns byval slot row builder column
    let offset := column * builder.capacity + row
    {builder with
      isnull := Function.update builder.isnull offset (slot.isnull column)
      values := Function.update builder.values offset (storedDatum (byval column) slot column)}

def builderAppendSlot {Payload : Type} (builder : Builder Payload) (slot : Slot Payload) :
    Except String (Builder Payload) :=
  let row := builder.nrows
  if builder.isSealed then .error "cannot append to a sealed pg_batch builder"
  else if builder.capacity ≤ row then .error "pg_batch builder is full"
  else if slot.natts < builder.ncolumns then .error "pg_batch builder input has too few columns"
  else if builder.ncolumns = 1 ∧ builder.hasByref = false then
    .ok {builder with
      isnull := Function.update builder.isnull row (slot.isnull 0)
      values := Function.update builder.values row
        (if slot.isnull 0 then .datum 0#64 else .datum (slot.values 0))
      nrows := row + 1}
  else if builder.hasByref = false then
    .ok {storeColumns (fun _ => true) slot row builder builder.ncolumns with nrows := row + 1}
  else
    .ok {storeColumns builder.desc.attbyval slot row builder builder.ncolumns with nrows := row + 1}

/-- The selection word `word` of a batch whose first `nrows` rows are all selected. -/
def denseWord (nrows word : Nat) : BitVec 64 :=
  if 64 ≤ nrows - word * 64 then BitVec.allOnes 64
  else BitVec.allOnes 64 >>> (64 - (nrows - word * 64))

def builderBatch {Payload : Type} (builder : Builder Payload) : DatumBatch Payload :=
  { nrows := builder.nrows
    words := (List.range (wordsForRows builder.nrows)).map (denseWord builder.nrows)
    ncolumns := builder.ncolumns, capacity := builder.capacity
    values := builder.values, isnull := builder.isnull }

/-- `pg_batch_builder_finish`: seal the builder; `none` stands for the NULL batch. -/
def builderFinish {Payload : Type} (builder : Builder Payload) : Builder Payload × Option (DatumBatch Payload) :=
  ({builder with isSealed := true},
    if builder.nrows = 0 then none else some (builderBatch builder))

/-! Every row the builder holds reads back as the slot it was appended from. -/

variable {Payload : Type}

def Builder.value (builder : Builder Payload) (row column : Nat) : Value Payload :=
  (builderBatch builder).value row column

def Builder.rows (builder : Builder Payload) : List (List (Value Payload)) :=
  (List.range builder.nrows).map (fun row => (List.range builder.ncolumns).map (builder.value row))

/-- What every builder made by `builderCreate` satisfies. -/
structure Builder.Valid (builder : Builder Payload) : Prop where
  positive : 0 < builder.ncolumns
  bounded : builder.nrows ≤ builder.capacity
  byref : builder.hasByref = (List.range builder.ncolumns).any (fun column => !builder.desc.attbyval column)

theorem builderReset_valid (builder : Builder Payload) (valid : builder.Valid) :
    (builderReset builder).Valid :=
  ⟨valid.positive,Nat.zero_le _,valid.byref⟩

theorem builderReset_rows (builder : Builder Payload) : (builderReset builder).rows = [] := rfl

theorem builderFinish_valid (builder : Builder Payload) (valid : builder.Valid) :
    (builderFinish builder).1.Valid :=
  ⟨valid.positive,valid.bounded,valid.byref⟩

/-- Column-major offsets of different cells are different. -/
theorem offset_inj {capacity left right : Nat} {row other : Nat} (inside : row < capacity)
    (outside : other < capacity) :
    left * capacity + row = right * capacity + other ↔ left = right ∧ row = other := by
  constructor
  · intro equal
    have positive : 0 < capacity := by omega
    have columns : left = right := by
      have first := Nat.add_mul_div_right row left positive
      have second := Nat.add_mul_div_right other right positive
      rw [Nat.div_eq_of_lt inside,Nat.add_comm row] at first
      rw [Nat.div_eq_of_lt outside,Nat.add_comm other,← equal] at second
      omega
    subst columns
    exact ⟨rfl,by omega⟩
  · rintro ⟨rfl,rfl⟩
    rfl

theorem storeColumns_fields (byval : Nat → Bool) (slot : Slot Payload) (row count : Nat)
    (builder : Builder Payload) :
    let result := storeColumns byval slot row builder count
    result.desc = builder.desc ∧ result.ncolumns = builder.ncolumns ∧
      result.capacity = builder.capacity ∧ result.hasByref = builder.hasByref ∧
      result.nrows = builder.nrows ∧ result.isSealed = builder.isSealed := by
  induction count with
  | zero => exact ⟨rfl,rfl,rfl,rfl,rfl,rfl⟩
  | succ column ih => exact ih

theorem storeColumns_cell (byval : Nat → Bool) (slot : Slot Payload) (row count : Nat)
    (builder : Builder Payload) (inside : row < builder.capacity) (column other : Nat)
    (bound : other < builder.capacity) :
    let result := storeColumns byval slot row builder count
    result.isnull (column * builder.capacity + other) =
        (if column < count ∧ other = row then slot.isnull column
          else builder.isnull (column * builder.capacity + other)) ∧
      result.values (column * builder.capacity + other) =
        (if column < count ∧ other = row then storedDatum (byval column) slot column
          else builder.values (column * builder.capacity + other)) := by
  induction count with
  | zero => simp [storeColumns]
  | succ last ih =>
    have size : (storeColumns byval slot row builder last).capacity = builder.capacity :=
      (storeColumns_fields byval slot row last builder).2.2.1
    simp only [storeColumns,size,Function.update_apply,offset_inj bound inside,ih.1,ih.2]
    by_cases same : column = last ∧ other = row
    · obtain ⟨rfl,rfl⟩ := same
      simp
    · have shorter : (column < last ∧ other = row) ↔ (column < last + 1 ∧ other = row) := by omega
      simp only [same,if_false,shorter]
      exact ⟨trivial,trivial⟩

theorem slot_value_stored (desc : TupleDesc) (slot : Slot Payload) (column : Nat) :
    (if slot.isnull column then Value.null
      else match storedDatum (desc.attbyval column) slot column with
        | .datum word => .word word
        | .copied content => .payload content) = slot.value desc column := by
  unfold storedDatum Slot.value
  split <;> rename_i null
  · rfl
  · cases desc.attbyval column <;> rfl

/-- A stored row reads as the slot row, and the rows before it are untouched. -/
private theorem rows_of_cells (builder result : Builder Payload) (slot : Slot Payload)
    (space : builder.nrows < builder.capacity) (columns : result.ncolumns = builder.ncolumns)
    (size : result.capacity = builder.capacity) (count : result.nrows = builder.nrows + 1)
    (cells : ∀ column other, column < builder.ncolumns → other < builder.capacity →
      result.value other column =
        if other = builder.nrows then slot.value builder.desc column else builder.value other column) :
    result.rows = builder.rows ++ [slot.row builder.desc builder.ncolumns] := by
  unfold Builder.rows
  rw [count,List.range_succ,List.map_append,columns]
  congr 1
  · apply List.map_congr_left
    intro row member
    have earlier := List.mem_range.mp member
    apply List.map_congr_left
    intro column inside
    rw [cells column row (List.mem_range.mp inside) (by omega),if_neg (by omega)]
  · simp only [List.map_cons,List.map_nil,Slot.row]
    congr 1
    apply List.map_congr_left
    intro column inside
    rw [cells column builder.nrows (List.mem_range.mp inside) space,if_pos rfl]

private theorem stored_value (desc : TupleDesc) (byval : Nat → Bool) (builder : Builder Payload)
    (slot : Slot Payload) (space : builder.nrows < builder.capacity)
    (agrees : ∀ column, column < builder.ncolumns → byval column = desc.attbyval column)
    (column other : Nat) (inside : column < builder.ncolumns) (bound : other < builder.capacity) :
    (storeColumns byval slot builder.nrows builder builder.ncolumns).value other column =
      if other = builder.nrows then slot.value desc column else builder.value other column := by
  obtain ⟨_,_,size,_⟩ := storeColumns_fields byval slot builder.nrows builder.ncolumns builder
  obtain ⟨nulls,values⟩ := storeColumns_cell byval slot builder.nrows builder.ncolumns builder space
    column other bound
  unfold Builder.value DatumBatch.value builderBatch
  simp only [size,nulls,values,inside,true_and]
  split <;> rename_i last
  · rw [← slot_value_stored,agrees column inside]
  · rfl

/-- What one successful append leaves behind. -/
structure Appended (builder result : Builder Payload) (slot : Slot Payload) : Prop where
  valid : result.Valid
  opened : result.isSealed = false
  count : result.nrows = builder.nrows + 1
  size : result.capacity = builder.capacity
  desc : result.desc = builder.desc
  columns : result.ncolumns = builder.ncolumns
  rows : result.rows = builder.rows ++ [slot.row builder.desc builder.ncolumns]

private theorem storeColumns_appended (byval : Nat → Bool) (builder : Builder Payload)
    (slot : Slot Payload) (valid : builder.Valid) (opened : builder.isSealed = false)
    (space : builder.nrows < builder.capacity)
    (agrees : ∀ column, column < builder.ncolumns → byval column = builder.desc.attbyval column) :
    Appended builder {storeColumns byval slot builder.nrows builder builder.ncolumns with
      nrows := builder.nrows + 1} slot := by
  obtain ⟨desc,columns,size,refs,_,unsealed⟩ :=
    storeColumns_fields byval slot builder.nrows builder.ncolumns builder
  refine ⟨⟨?_,?_,?_⟩,unsealed.trans opened,rfl,size,desc,columns,?_⟩
  · simpa only [columns] using valid.positive
  · simpa only [size] using Nat.succ_le_of_lt space
  · simpa only [desc,columns,refs] using valid.byref
  · refine rows_of_cells _ _ _ space columns size rfl ?_
    intro column other inside bound
    exact stored_value builder.desc _ builder slot space agrees column other inside bound

/-- One append: the builder keeps its shape and gains exactly the slot's row. -/
theorem builderAppendSlot_spec (builder : Builder Payload) (slot : Slot Payload)
    (valid : builder.Valid) (opened : builder.isSealed = false) (space : builder.nrows < builder.capacity)
    (enough : builder.ncolumns ≤ slot.natts) :
    ∃ result, builderAppendSlot builder slot = .ok result ∧ Appended builder result slot := by
  have room : ¬ builder.capacity ≤ builder.nrows := by omega
  have fits : ¬ slot.natts < builder.ncolumns := by omega
  have words (byref : builder.hasByref = false) (column : Nat) (inside : column < builder.ncolumns) :
      builder.desc.attbyval column = true := by
    have none := valid.byref.symm.trans byref
    rw [List.any_eq_false] at none
    simpa using none column (List.mem_range.mpr inside)
  unfold builderAppendSlot
  simp only [opened,Bool.false_eq_true,if_false,room,fits]
  split
  · rename_i single
    obtain ⟨one,byref⟩ := single
    refine ⟨_,rfl,⟨valid.positive,Nat.succ_le_of_lt space,valid.byref⟩,rfl,rfl,rfl,rfl,rfl,?_⟩
    refine rows_of_cells _ _ _ space rfl rfl rfl ?_
    intro column other inside bound
    have first : column = 0 := by omega
    subst first
    have word := words byref 0 inside
    unfold Builder.value DatumBatch.value builderBatch
    simp only [Nat.zero_mul,Nat.zero_add,Function.update_apply]
    split
    · rw [← slot_value_stored,word]
      simp [storedDatum]
    · rfl
  · split
    · rename_i byref
      exact ⟨_,rfl,storeColumns_appended _ builder slot valid opened space
        (fun column inside => (words byref column inside).symm)⟩
    · exact ⟨_,rfl,storeColumns_appended _ builder slot valid opened space (fun _ _ => rfl)⟩

theorem denseWord_bit (nrows row : Nat) (inside : row < nrows) :
    (denseWord nrows (row / 64)).getLsbD (row % 64) = true := by
  have low : row % 64 < 64 := Nat.mod_lt _ (by omega)
  unfold denseWord
  split
  · rw [BitVec.getLsbD_allOnes]
    exact decide_eq_true low
  · simp only [BitVec.getLsbD_ushiftRight,BitVec.getLsbD_allOnes,decide_eq_true_eq]
    omega

/-- Sealing publishes exactly the appended rows, all of them selected. -/
theorem builderFinish_rows (builder : Builder Payload) (batch : DatumBatch Payload)
    (made : (builderFinish builder).2 = some batch) :
    batch.rows = builder.rows ∧ batch.nrows = builder.nrows := by
  unfold builderFinish at made
  split at made
  · contradiction
  · cases Option.some.inj made
    refine ⟨?_,rfl⟩
    have all : (List.range builder.nrows).filter (builderBatch builder).selected =
        List.range builder.nrows := by
      apply List.filter_eq_self.mpr
      intro row member
      have inside := List.mem_range.mp member
      have word : row / 64 < wordsForRows builder.nrows := by
        unfold wordsForRows
        split <;> omega
      simpa [DatumBatch.selected,builderBatch,word] using denseWord_bit builder.nrows row inside
    unfold DatumBatch.rows Builder.rows Builder.value
    rw [show (builderBatch builder).nrows = builder.nrows from rfl,all]
    rfl

theorem builderFinish_none (builder : Builder Payload) :
    (builderFinish builder).2 = none ↔ builder.nrows = 0 := by
  unfold builderFinish
  split <;> simp [*]

end PgBatch.DatumBuilder
