import PgBatch.Kernels.Vector
import PgBatch.Spill.Format

/-! The write calls of both spill services with their arguments, and the rows that
a call hands over: as its vectors hold them, and as their accessors read them. -/
namespace PgBatch
open Words Columnar

namespace Spill

/-- A `TupleDesc`: its attribute numbers are `int16`. -/
structure TupleDesc where
  attrs : List Attribute
  numbered : attrs.length < 2 ^ 15

/-- `pg_batch_spill_write` and `pg_batch_spill_write_dense`, with the arguments of one call. -/
inductive Call where
  | write (partition nrows nwords : Nat) (words : Nat → BitVec 64) (columns : Nat → Int4Vector)
      (hashes : Nat → BitVec 32)
  | writeDense (partition nrows : Nat) (hashes : Nat → BitVec 32) (values : Nat → Int4) (valueStride : Nat)
      (validity : Nat → BitVec 64)

/-- The row that the loop of `pg_batch_spill_write` stores; a NULL is stored as zero. -/
def writtenRow (ncolumns : Nat) (columns : Nat → Int4Vector) (hashes : Nat → BitVec 32) (row : Nat) : Row Unit :=
  ⟨(),hashes row,(List.range ncolumns).map fun column =>
    if (columns column).rowIsNull row then ⟨0#32,false⟩ else ⟨(columns column).rowValue row,true⟩⟩

/-- The block that `pg_batch_spill_write_dense` is given. -/
def denseBlock (nrows : Nat) (hashes : Nat → BitVec 32) (values : Nat → Int4) (valueStride : Nat)
    (validity : Nat → BitVec 64) : Store Unit where
  nrows := nrows
  tags := fun _ => ()
  hashes := hashes
  values := fun column row => values (column * valueStride + row)
  valid := fun column row => (validity column).getLsbD row

namespace Call

def apply (service : Service) (set : Writers Unit) : Call → Except String (Writers Unit)
  | .write partition nrows nwords words columns hashes => do
    service.validatePartition set partition
    if nwords ≠ 1 then .error service.invalidWrite
    else service.write set partition nrows (words 0) (writtenRow set.ncolumns columns hashes)
  | .writeDense partition nrows hashes values valueStride validity => do
    service.validatePartition set partition
    if valueStride < nrows then .error service.invalidDenseWrite
    else service.writeDense set partition (denseBlock nrows hashes values valueStride validity)

/-- What both functions check before they write. -/
def Fits (npartitions : Nat) : Call → Prop
  | .write partition nrows nwords _ _ _ => partition < npartitions ∧ nrows ≤ blockRows ∧ nwords = 1
  | .writeDense partition nrows _ _ valueStride _ =>
    partition < npartitions ∧ 0 < nrows ∧ nrows ≤ blockRows ∧ nrows ≤ valueStride

/-- The rows handed over for a partition, when the cells of a vector are `read`. -/
def rowsBy (read : Int4Vector → Column) (ncolumns target : Nat) : Call → List Spilled
  | .write partition nrows _ words columns hashes =>
    if partition = target then
      (Words.rows (words 0 &&& wordMask nrows)).map fun row =>
        ⟨hashes row,(List.range ncolumns).map fun column => read (columns column) row⟩
    else []
  | .writeDense partition nrows hashes values valueStride validity =>
    if partition = target then
      (List.range nrows).map fun row =>
        ⟨hashes row,(List.range ncolumns).map fun column =>
          if (validity column).getLsbD row then some (values (column * valueStride + row)) else none⟩
    else []

/-- The selected rows of a call for a partition, as its vectors hold them. -/
def rows (ncolumns target : Nat) (call : Call) : List Spilled :=
  call.rowsBy Int4Vector.cell ncolumns target

/-- The same rows as the accessors read them. -/
def taken (ncolumns target : Nat) (call : Call) : List Spilled :=
  call.rowsBy Int4Vector.seen ncolumns target

/-- Every selected row of every vector finds its own validity bit. -/
def Addressed (ncolumns : Nat) : Call → Prop
  | .write _ nrows _ words columns _ =>
    ∀ row ∈ Words.rows (words 0 &&& wordMask nrows), ∀ column, column < ncolumns → (columns column).AddressedAt row
  | .writeDense .. => True

end Call

theorem spilled_writtenRow (ncolumns : Nat) (columns : Nat → Int4Vector) (hashes : Nat → BitVec 32) (row : Nat) :
    spilled (writtenRow ncolumns columns hashes row) =
      ⟨hashes row,(List.range ncolumns).map fun column => (columns column).seen row⟩ := by
  simp only [spilled,writtenRow,Spilled.mk.injEq,List.map_map,true_and]
  apply List.map_congr_left
  intro column _
  simp only [Function.comp,Int4Vector.seen]
  split <;> rfl

/-- An accepted call adds its rows to its partition. -/
theorem apply_adds (service : Service) {set : Writers Unit} (valid : set.Valid) (unfinished : set.finished = false)
    {call : Call} (fits : call.Fits set.npartitions) :
    ∃ after, call.apply service set = .ok after ∧ Same set after ∧ after.Valid ∧
      ∀ partition, (after.contents partition).map spilled =
        (set.contents partition).map spilled ++ call.taken set.ncolumns partition := by
  cases call with
  | write target nrows nwords words columns hashes =>
    obtain ⟨inside,small,one⟩ := fits
    obtain ⟨after,ran,same,held,contents⟩ : ∃ after,
        service.write set target nrows (words 0) (writtenRow set.ncolumns columns hashes) = .ok after ∧ _ :=
      write_adds valid _ inside unfinished small (fun _ => by simp [writtenRow])
    refine ⟨after,?_,same,held,?_⟩
    · rw [Call.apply,validatePartition_ok inside]
      exact (if_neg (by simp [one])).trans ran
    · intro partition
      rw [contents,Call.taken,Call.rowsBy]
      by_cases here : partition = target
      · subst here
        simp [spilled_writtenRow]
      · rw [Function.update_of_ne here,if_neg (Ne.symm here),List.append_nil]
  | writeDense target nrows hashes values valueStride validity =>
    obtain ⟨inside,nonempty,small,wide⟩ := fits
    obtain ⟨after,ran,same,held,contents⟩ : ∃ after,
        service.writeDense set target (denseBlock nrows hashes values valueStride validity) = .ok after ∧ _ :=
      writeDense_adds valid inside unfinished nonempty small
    refine ⟨after,?_,same,held,?_⟩
    · rw [Call.apply,validatePartition_ok inside]
      exact (if_neg (by omega)).trans ran
    · intro partition
      rw [contents,Call.taken,Call.rowsBy]
      by_cases here : partition = target
      · subst here
        simp [Store.rows,Store.row,Store.cell,denseBlock,spilled,Function.comp_def]
      · rw [Function.update_of_ne here,if_neg (Ne.symm here),List.append_nil]

/-- A call that is accepted has passed the checks. -/
theorem apply_fits {service : Service} {set after : Writers Unit} {call : Call}
    (ran : call.apply service set = .ok after) : call.Fits set.npartitions ∧ set.finished = false := by
  cases call with
  | write target nrows nwords words columns hashes =>
    obtain ⟨_,inside,ran⟩ := Results.bind_ok.mp ran
    unfold Service.validatePartition at inside
    split at inside
    · cases inside
    · split at ran
      · cases ran
      · obtain ⟨_,_,ran⟩ := Results.bind_ok.mp ran
        split at ran
        · cases ran
        · rename_i refused
          simp only [not_or,Bool.not_eq_true,Nat.not_lt] at refused
          exact ⟨⟨by omega,refused.2,by omega⟩,refused.1⟩
  | writeDense target nrows hashes values valueStride validity =>
    obtain ⟨_,inside,ran⟩ := Results.bind_ok.mp ran
    unfold Service.validatePartition at inside
    split at inside
    · cases inside
    · split at ran
      · cases ran
      · obtain ⟨_,_,ran⟩ := Results.bind_ok.mp ran
        split at ran
        · cases ran
        · rename_i refused
          simp only [not_or,Bool.not_eq_true,Nat.not_lt,denseBlock] at refused
          exact ⟨⟨by omega,by omega,refused.2.2,by omega⟩,refused.1⟩

/-- So do the calls of a whole run. -/
theorem calls_add (service : Service) {set : Writers Unit} (valid : set.Valid) (unfinished : set.finished = false)
    {calls : List Call} (fits : ∀ call ∈ calls, call.Fits set.npartitions) :
    ∃ after, calls.foldlM (Call.apply service) set = .ok after ∧ Same set after ∧ after.Valid ∧
      ∀ partition, (after.contents partition).map spilled =
        (set.contents partition).map spilled ++ calls.flatMap (Call.taken set.ncolumns partition) := by
  induction calls generalizing set with
  | nil => exact ⟨set,rfl,.refl set,valid,by simp⟩
  | cons call rest ih =>
    obtain ⟨middle,ran,same,held,contents⟩ :=
      apply_adds service valid unfinished (fits call (List.mem_cons_self ..))
    obtain ⟨after,last,same',held',contents'⟩ := ih held (same.finished.trans unfinished) fun call member =>
      same.npartitions.symm ▸ fits call (List.mem_cons_of_mem _ member)
    refine ⟨after,?_,same.trans same',held',?_⟩
    · rw [List.foldlM_cons,ran]
      exact last
    · intro partition
      rw [contents',contents,same.ncolumns,List.flatMap_cons,List.append_assoc]

theorem flatMap_inj {α β : Type} {left right : α → List β} {items : List α}
    (sizes : ∀ item ∈ items, (left item).length = (right item).length)
    (same : items.flatMap left = items.flatMap right) : ∀ item ∈ items, left item = right item := by
  induction items with
  | nil => simp
  | cons item rest ih =>
    rw [List.flatMap_cons,List.flatMap_cons] at same
    obtain ⟨first,later⟩ := List.append_inj same (sizes item (List.mem_cons_self ..))
    intro other member
    rcases List.mem_cons.mp member with rfl | inside
    · exact first
    · exact ih (fun other member => sizes other (List.mem_cons_of_mem _ member)) later other inside

theorem taken_eq_rows {ncolumns npartitions : Nat} {call : Call} (fits : call.Fits npartitions) :
    (∀ partition, partition < npartitions → call.taken ncolumns partition = call.rows ncolumns partition) ↔
      call.Addressed ncolumns := by
  cases call with
  | writeDense target nrows hashes values valueStride validity => exact ⟨fun _ => trivial,fun _ _ _ => rfl⟩
  | write target nrows nwords words columns hashes =>
    simp only [Call.taken,Call.rows,Call.rowsBy,Call.Addressed]
    constructor
    · intro same row selected column inside
      have rows := same target fits.1
      rw [if_pos rfl,if_pos rfl,List.map_inj_left] at rows
      have cells := congrArg Spilled.cells (rows row selected)
      rw [List.map_inj_left] at cells
      exact seen_eq_cell_iff.mp (cells column (List.mem_range.mpr inside))
    · intro addressed partition _
      split
      · apply List.map_congr_left
        intro row selected
        rw [Spilled.mk.injEq]
        refine ⟨rfl,List.map_congr_left ?_⟩
        intro column inside
        exact seen_eq_cell_iff.mpr (addressed row selected column (List.mem_range.mp inside))
      · rfl

theorem length_taken (ncolumns partition : Nat) (call : Call) :
    (call.taken ncolumns partition).length = (call.rows ncolumns partition).length := by
  cases call with
  | write =>
    simp only [Call.taken,Call.rows,Call.rowsBy]
    split <;> simp
  | writeDense => rfl

/-- The accessors hand over what the vectors hold just when every row is addressed. -/
theorem calls_taken_eq_rows {ncolumns npartitions : Nat} {calls : List Call}
    (fits : ∀ call ∈ calls, call.Fits npartitions) :
    (∀ partition, partition < npartitions →
        calls.flatMap (Call.taken ncolumns partition) = calls.flatMap (Call.rows ncolumns partition)) ↔
      ∀ call ∈ calls, call.Addressed ncolumns := by
  constructor
  · intro same call member
    rw [← taken_eq_rows (fits call member)]
    intro partition inside
    exact flatMap_inj (fun call _ => length_taken _ _ call) (same partition inside) call member
  · intro addressed partition inside
    rw [List.flatMap_congr]
    intro call member
    exact (taken_eq_rows (fits call member)).mpr (addressed call member) partition inside

/-- One column of int4. -/
def oneColumn : TupleDesc := ⟨[⟨false,true⟩],by decide⟩

/-- One row of a packed vector, at an offset where its validity bit is set. -/
def packedCall (offset : Nat) : Call :=
  .write 0 1 1 (fun _ => 1#64) (fun _ => .packed (fun _ => 7#32) (some fun index => index == offset) offset)
    (fun _ => 5#32)

theorem packedCall_fits (offset : Nat) : ∀ call ∈ [packedCall offset], call.Fits 1 := by
  intro call member
  rw [List.mem_singleton.mp member]
  exact ⟨by decide,by decide,rfl⟩

theorem packedCall_addressed : (packedCall 3).Addressed 1 := by
  intro row selected column _
  have first : row = 0 := by simpa using (show row ∈ [0] from selected)
  subst first
  rfl

end Spill

end PgBatch
