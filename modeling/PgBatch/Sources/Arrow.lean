import PgBatch.Kernels.Vector
import PgBatch.Library.Bitmap
import PgBatch.Library.Result

/-! Arrow arrays of int32 (`include/pg_batch/arrow.h`), and the two views that the sources
of `examples/` give of them: an int4 vector, and Datum rows filled on demand. -/
namespace PgBatch.Sources
open Words

/-- The part of `struct ArrowArray` that is read: `buffers[0]` is the validity bitmap. -/
structure ArrowArray where
  length : Nat
  nullCount : Int
  offset : Nat
  validity : Option (Nat → BitVec 8)
  values : Nat → Int4

/-- `pg_batch_arrow_row_is_valid`. -/
def ArrowArray.rowIsValid (array : ArrowArray) (row : Nat) : Bool :=
  match array.validity with
  | none => true
  | some validity => Bitmaps.bitAt validity (array.offset + row)

/-- What an array holds. -/
def ArrowArray.cell (array : ArrowArray) : Column :=
  fun row => if array.rowIsValid row then some (array.values (array.offset + row)) else none

/-- A null count of zero says that no row is NULL. -/
def ArrowArray.Counted (array : ArrowArray) : Prop :=
  array.nullCount = 0 → ∀ row, row < array.length → array.rowIsValid row = true

/-- `get_int4_column`. -/
def ArrowArray.int4Vector (array : ArrowArray) : Int4Vector :=
  .packed array.values
    (if array.nullCount = 0 then none
      else array.validity.map fun validity index => Bitmaps.bitAt validity index.toNat) array.offset

/-- The vector stands for the cells of the array. -/
theorem int4Vector_cell {array : ArrowArray} (counted : array.Counted) {row : Nat} (inside : row < array.length) :
    array.int4Vector.cell row = array.cell row := by
  unfold ArrowArray.int4Vector ArrowArray.cell
  by_cases zero : array.nullCount = 0
  · rw [if_pos zero,if_pos (counted zero row inside)]
    rfl
  · rw [if_neg zero]
    unfold ArrowArray.rowIsValid
    cases array.validity with
    | none => rfl
    | some validity =>
      have place : ((row : Int) + (array.offset : Int)).toNat = array.offset + row := by omega
      simp only [Option.map_some,Int4Vector.cell,place]

theorem int4Vector_addressed {array : ArrowArray} (small : array.offset + array.length ≤ 2 ^ 31) :
    array.int4Vector.Addressed array.length :=
  addressed_small small

/-- `DatumColumn`. -/
structure DatumColumn where
  values : Nat → BitVec 64
  isnull : Nat → Bool
  validRows : BitVec 64

def DatumColumn.empty : DatumColumn :=
  ⟨fun _ => 0#64,fun _ => false,0#64⟩

def DatumColumn.vector (datum : DatumColumn) : Int4Vector :=
  .datum datum.values datum.isnull

/-- One turn of the loop of `get_datum_column`. -/
def fetchDatum (array : ArrowArray) (datum : DatumColumn) (row : Nat) : DatumColumn where
  values := Function.update datum.values row
    (if array.rowIsValid row then int32GetDatum (array.values (array.offset + row)) else 0#64)
  isnull := Function.update datum.isnull row (!array.rowIsValid row)
  validRows := datum.validRows ||| bit 64 row

/-- The loop of `get_datum_column` over the rows that are still missing. -/
def fetchDatums (array : ArrowArray) (datum : DatumColumn) (wanted : BitVec 64) : DatumColumn :=
  (rows (wanted &&& ~~~datum.validRows)).foldl (fetchDatum array) datum

/-- What a Datum column holds for a row. -/
def DatumColumn.cell (datum : DatumColumn) (row : Nat) : Option (BitVec 64) :=
  if datum.isnull row then none else some (datum.values row)

theorem vector_cell (datum : DatumColumn) (row : Nat) : datum.vector.cell row = (datum.cell row).map datumGetInt32 := by
  simp only [DatumColumn.vector,Int4Vector.cell,DatumColumn.cell]
  cases datum.isnull row <;> rfl

/-- The Datum rows that are marked valid are those of the array. -/
def DatumColumn.Holds (datum : DatumColumn) (array : ArrowArray) : Prop :=
  ∀ row, datum.validRows.getLsbD row = true → datum.cell row = (array.cell row).map int32GetDatum

theorem DatumColumn.Holds.vector {datum : DatumColumn} {array : ArrowArray} (holds : datum.Holds array) {row : Nat}
    (valid : datum.validRows.getLsbD row = true) : datum.vector.cell row = array.cell row := by
  rw [vector_cell,holds row valid,Option.map_map]
  cases array.cell row with
  | none => rfl
  | some value => exact congrArg some (datumGetInt32_int32GetDatum value)

theorem empty_holds (array : ArrowArray) : DatumColumn.empty.Holds array := by
  intro row valid
  simp [DatumColumn.empty] at valid

theorem fetchDatum_holds {array : ArrowArray} {datum : DatumColumn} (holds : datum.Holds array) (row : Nat) :
    (fetchDatum array datum row).Holds array := by
  intro other valid
  by_cases same : other = row
  · subst same
    simp only [fetchDatum,DatumColumn.cell,Function.update_self,ArrowArray.cell]
    cases array.rowIsValid other <;> simp
  · have old : datum.validRows.getLsbD other = true := by
      simpa [fetchDatum,same] using valid
    simpa [fetchDatum,DatumColumn.cell,Function.update_of_ne same] using holds other old

/-- After a request the wanted rows are valid, and all valid rows are those of the array. -/
theorem fetchDatums_ok {array : ArrowArray} {datum : DatumColumn} (holds : datum.Holds array) (wanted : BitVec 64) :
    (fetchDatums array datum wanted).Holds array ∧
      ∀ row, wanted.getLsbD row = true → (fetchDatums array datum wanted).validRows.getLsbD row = true := by
  have loop (missing : List Nat) (datum : DatumColumn) (holds : datum.Holds array) (small : ∀ row ∈ missing, row < 64) :
      (missing.foldl (fetchDatum array) datum).Holds array ∧
        ∀ row, (row ∈ missing ∨ datum.validRows.getLsbD row = true) →
          (missing.foldl (fetchDatum array) datum).validRows.getLsbD row = true := by
    induction missing generalizing datum with
    | nil => exact ⟨holds,fun row either => either.resolve_left (List.not_mem_nil)⟩
    | cons first rest ih =>
      obtain ⟨held,valid⟩ := ih (fetchDatum array datum first) (fetchDatum_holds holds first)
        fun row member => small row (List.mem_cons_of_mem _ member)
      refine ⟨held,fun row either => valid row ?_⟩
      rcases either with member | old
      · rcases List.mem_cons.mp member with rfl | later
        · exact .inr (by simp [fetchDatum,small row (List.mem_cons_self ..)])
        · exact .inl later
      · exact .inr (by simp [fetchDatum,old])
  obtain ⟨held,valid⟩ := loop _ datum holds fun row member => rows_lt member
  refine ⟨held,fun row asked => valid row ?_⟩
  by_cases old : datum.validRows.getLsbD row = true
  · exact .inr old
  · refine .inl (mem_rows.mpr ?_)
    rw [BitVec.getLsbD_and,BitVec.getLsbD_not,asked,Bool.eq_false_iff.mpr old]
    simp [BitVec.lt_of_getLsbD asked]

end PgBatch.Sources
