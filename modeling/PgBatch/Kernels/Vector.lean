import PgBatch.Kernels.Hash

/-! Borrowed int4 columns (`include/pg_batch/vector.h`) and row selections
(`include/pg_batch/batch.h`) of any number of rows. -/
namespace PgBatch
open Words

/-- The conversion of an `int64` to an `int`. -/
def cInt (value : Int) : Int :=
  value.bmod (2 ^ 32)

def datumGetInt32 (datum : BitVec 64) : Int4 :=
  datum.setWidth 32

def int32GetDatum (value : Int4) : BitVec 64 :=
  value.signExtend 64

theorem datumGetInt32_int32GetDatum (value : Int4) : datumGetInt32 (int32GetDatum value) = value := by
  refine BitVec.eq_of_getLsbD_eq fun index inside => ?_
  simp only [datumGetInt32,int32GetDatum,BitVec.getLsbD_setWidth,BitVec.getLsbD_signExtend,inside,decide_true,
    Bool.true_and,if_true]
  simp only [Nat.lt_trans inside (by decide : 32 < 64),decide_true,Bool.true_and]

/-- `PgBatchInt4Vector`. A validity bitmap is what its bits are, at every index
that the code may form. -/
inductive Int4Vector where
  | datum (values : Nat → BitVec 64) (isnull : Nat → Bool)
  | packed (values : Nat → Int4) (validity : Option (Int → Bool)) (offset : Nat)

/-- `pg_batch_int4_row_is_null`: `row += offset` is an `int`. -/
def Int4Vector.rowIsNull : Int4Vector → Nat → Bool
  | .datum _ isnull, row => isnull row
  | .packed _ none _, _ => false
  | .packed _ (some validity) offset, row => !validity (cInt (row + offset))

def Int4Vector.rowValue : Int4Vector → Nat → Int4
  | .datum values _, row => datumGetInt32 (values row)
  | .packed values _ offset, row => values (offset + row)

/-- The cell that a vector stands for: values and validity are indexed from `offset`. -/
def Int4Vector.cell : Int4Vector → Column
  | .datum values isnull, row => if isnull row then none else some (datumGetInt32 (values row))
  | .packed values none offset, row => some (values (offset + row))
  | .packed values (some validity) offset, row =>
    if validity (row + offset) then some (values (offset + row)) else none

/-- Every row of the vector finds its own validity bit. -/
def Int4Vector.Addressed (nrows : Nat) : Int4Vector → Prop
  | .packed _ (some validity) offset => ∀ row, row < nrows → validity (cInt (row + offset)) = validity (row + offset)
  | _ => True

/-- A row of a vector finds its own validity bit. -/
def Int4Vector.AddressedAt (row : Nat) : Int4Vector → Prop
  | .packed _ (some validity) offset => validity (cInt (row + offset)) = validity (row + offset)
  | _ => True

/-- What the kernels take a row for. -/
def Int4Vector.seen (vector : Int4Vector) : Column :=
  fun row => if vector.rowIsNull row then none else some (vector.rowValue row)

theorem seen_eq_cell_iff {vector : Int4Vector} {row : Nat} :
    vector.seen row = vector.cell row ↔ vector.AddressedAt row := by
  cases vector with
  | datum values isnull => exact ⟨fun _ => trivial,fun _ => rfl⟩
  | packed values validity offset =>
    cases validity with
    | none => exact ⟨fun _ => trivial,fun _ => rfl⟩
    | some validity =>
      simp only [Int4Vector.seen,Int4Vector.cell,Int4Vector.rowIsNull,Int4Vector.rowValue,Int4Vector.AddressedAt]
      rcases Bool.eq_false_or_eq_true (validity (cInt (row + offset))) with read | read <;>
        rcases Bool.eq_false_or_eq_true (validity (row + offset)) with own | own <;> simp [read,own]

theorem cInt_small {value : Int} (low : 0 ≤ value) (high : value < 2 ^ 31) : cInt value = value :=
  Int.bmod_eq_of_le (by omega) (by omega)

theorem addressed_small {values : Nat → Int4} {validity : Option (Int → Bool)} {offset nrows : Nat}
    (small : offset + nrows ≤ 2 ^ 31) : (Int4Vector.packed values validity offset).Addressed nrows := by
  cases validity with
  | none => trivial
  | some validity =>
    intro row inside
    rw [cInt_small (by omega) (by omega)]

theorem Int4Vector.Addressed.seen {vector : Int4Vector} {nrows row : Nat} (addressed : vector.Addressed nrows)
    (inside : row < nrows) : vector.seen row = vector.cell row := by
  cases vector with
  | datum values isnull => rfl
  | packed values validity offset =>
    cases validity with
    | none => rfl
    | some validity =>
      simp only [Int4Vector.seen,Int4Vector.cell,rowIsNull,addressed row inside,rowValue]
      cases validity (row + offset) <;> rfl

theorem Int4Vector.addressed_iff {vector : Int4Vector} {nrows : Nat} :
    vector.Addressed nrows ↔ ∀ row, row < nrows → vector.AddressedAt row := by
  cases vector with
  | datum values isnull => exact ⟨fun _ _ _ => trivial,fun _ => trivial⟩
  | packed values validity offset =>
    cases validity with
    | none => exact ⟨fun _ _ _ => trivial,fun _ => trivial⟩
    | some validity => exact Iff.rfl

/-- A row is read as NULL where it is NULL if and only if it finds its own validity bit. -/
theorem Int4Vector.addressedAt_iff {vector : Int4Vector} {row : Nat} :
    vector.AddressedAt row ↔ vector.rowIsNull row = (vector.cell row).isNone := by
  cases vector with
  | datum values isnull =>
    simp only [AddressedAt,rowIsNull,cell]
    cases isnull row <;> simp
  | packed values validity offset =>
    cases validity with
    | none => simp [AddressedAt,rowIsNull,cell]
    | some validity =>
      simp only [AddressedAt,rowIsNull,cell]
      rcases Bool.eq_false_or_eq_true (validity (cInt (row + offset))) with read | read <;>
        rcases Bool.eq_false_or_eq_true (validity (row + offset)) with own | own <;> simp [read,own]

theorem Int4Vector.cell_value {vector : Int4Vector} {row : Nat} {value : Int4} (found : vector.cell row = some value) :
    vector.rowValue row = value := by
  cases vector with
  | datum values isnull =>
    simp only [cell] at found
    split at found
    · cases found
    · exact Option.some.inj found
  | packed values validity offset =>
    cases validity with
    | none => exact Option.some.inj found
    | some validity =>
      simp only [cell] at found
      split at found
      · exact Option.some.inj found
      · cases found

/-- `PgBatchSelection`, whose `nrows` is an `int`. -/
structure Selection where
  nrows : Nat
  small : nrows < 2 ^ 31
  words : Nat → BitVec 64

namespace Selection

def nwords (selection : Selection) : Nat :=
  (selection.nrows + 63) / 64

/-- `pg_batch_selection_word`, and the mask at the head of every kernel's word loop. -/
def word (selection : Selection) (word : Nat) : BitVec 64 :=
  selection.words word &&& wordMask (selection.nrows - 64 * word)

/-- `pg_batch_has_rows`. -/
def hasRows (selection : Selection) : Bool :=
  (List.range selection.nwords).any fun word => selection.words word != 0#64

/-- The rows in the order in which the word loops visit them. -/
def visits (selection : Selection) : List Nat :=
  (List.range selection.nwords).flatMap fun word => (rows (selection.word word)).map (64 * word + ·)

/-- `selection->words[word] = bits`. -/
def store (selection : Selection) (word : Nat) (bits : BitVec 64) : Selection :=
  {selection with words := Function.update selection.words word bits}

/-- `MemSet (words, 0, sizeof (uint64) * nwords)`. -/
def wipe (selection : Selection) : Selection :=
  {selection with words := fun word => if word < selection.nwords then 0#64 else selection.words word}

def Selected (selection : Selection) (row : Nat) : Prop :=
  row < selection.nrows ∧ (selection.words (row / 64)).getLsbD (row % 64) = true

instance (selection : Selection) (row : Nat) : Decidable (selection.Selected row) :=
  inferInstanceAs (Decidable (_ ∧ _))

/-- `pg_batch_selection_count`. -/
def rowCount (selection : Selection) : Nat :=
  if selection.nwords = 1 then popcount (selection.words 0)
  else ((List.range selection.nwords).map fun word => popcount (selection.words word)).sum

/-- No bit is set beyond the rows. -/
def Clean (selection : Selection) : Prop :=
  ∀ word, word < selection.nwords → selection.word word = selection.words word

theorem Clean.rowCount {selection : Selection} (clean : selection.Clean) :
    selection.rowCount = selection.visits.length := by
  have counted : selection.visits.length =
      ((List.range selection.nwords).map fun word => popcount (selection.words word)).sum := by
    rw [visits,List.length_flatMap]
    congr 1
    apply List.map_congr_left
    intro word member
    rw [List.length_map,clean word (List.mem_range.mp member),popcount]
  rw [counted,Selection.rowCount]
  split
  · rename_i single
    simp [single]
  · rfl

theorem Clean.rowCount_zero {selection : Selection} (clean : selection.Clean) :
    selection.rowCount = 0 ↔ selection.visits = [] := by
  rw [clean.rowCount,List.length_eq_zero_iff]

end Selection

theorem getLsbD_word (selection : Selection) (word index : Nat) :
    (selection.word word).getLsbD index =
      ((selection.words word).getLsbD index && decide (index < 64 ∧ 64 * word + index < selection.nrows)) := by
  rw [Selection.word,BitVec.getLsbD_and,getLsbD_wordMask]
  congr 1
  rw [decide_eq_decide]
  omega

theorem mem_word {selection : Selection} {word index : Nat} :
    index ∈ rows (selection.word word) ↔ index < 64 ∧ selection.Selected (64 * word + index) := by
  rw [mem_rows,getLsbD_word,Bool.and_eq_true,decide_eq_true_eq,Selection.Selected]
  constructor
  · rintro ⟨set,small,inside⟩
    refine ⟨small,inside,?_⟩
    rwa [show (64 * word + index) / 64 = word by omega,show (64 * word + index) % 64 = index by omega]
  · rintro ⟨small,inside,set⟩
    rw [show (64 * word + index) / 64 = word by omega,show (64 * word + index) % 64 = index by omega] at set
    exact ⟨set,small,inside⟩

theorem mem_visits {selection : Selection} {row : Nat} : row ∈ selection.visits ↔ selection.Selected row := by
  simp only [Selection.visits,List.mem_flatMap,List.mem_range,List.mem_map,mem_word]
  constructor
  · rintro ⟨word,_,index,⟨_,selected⟩,rfl⟩
    exact selected
  · intro selected
    refine ⟨row / 64,?_,row % 64,⟨by omega,?_⟩,by omega⟩
    · have := selected.1
      simp only [Selection.nwords]
      omega
    · rwa [show 64 * (row / 64) + row % 64 = row by omega]

theorem hasRows_of_selected {selection : Selection} {row : Nat} (selected : selection.Selected row) :
    selection.hasRows = true := by
  rw [Selection.hasRows,List.any_eq_true]
  refine ⟨row / 64,?_,?_⟩
  · have := selected.1
    simp only [List.mem_range,Selection.nwords]
    omega
  · have set := selected.2
    rw [bne_iff_ne]
    intro zero
    simp [zero] at set

theorem Selection.clean_iff {selection : Selection} :
    selection.Clean ↔ ∀ word index, word < selection.nwords → (selection.words word).getLsbD index = true →
      64 * word + index < selection.nrows := by
  constructor
  · intro clean word index inside set
    rw [← clean word inside,getLsbD_word,Bool.and_eq_true,decide_eq_true_eq] at set
    exact set.2.2
  · intro small word inside
    apply BitVec.eq_of_getLsbD_eq
    intro index bound
    rw [getLsbD_word]
    cases set : (selection.words word).getLsbD index with
    | false => rfl
    | true => simp [bound,small word index inside set]

/-- Removing rows leaves no stray bit. -/
theorem Selection.Clean.sub {selection other : Selection} (clean : selection.Clean) (same : other.nrows = selection.nrows)
    (less : ∀ word index, (other.words word).getLsbD index = true → (selection.words word).getLsbD index = true) :
    other.Clean := by
  rw [clean_iff] at clean ⊢
  intro word index inside set
  rw [nwords,same] at inside
  rw [same]
  exact clean word index inside (less word index set)

end PgBatch
