import PgBatch.Nodes.Aggregate
import Mathlib.Data.List.Forall2

/-! Aggregation without groups: the reductions of the batches are merged one by one
(`merge_reduction` in `nodes/aggregate.c`). -/
namespace PgBatch.Reduce
open Words Aggregate

def addWantedChecked (flags flag : BitVec 32) (target addend : Int) : Except String Int :=
  if wants flags flag then addInt64Checked target addend else .ok target

def mergeReduction (flags : BitVec 32) (value part : Int4Reduction) : Except String Int4Reduction := do
  let count ← addWantedChecked flags reduceCount value.count part.count
  if !part.hasValue then .ok {value with count := count}
  else do
    let sum ← addWantedChecked flags reduceSum value.sum part.sum
    if !value.hasValue then
      .ok {
        count := count
        sum := sum
        min := if wants flags reduceMin then part.min else value.min
        max := if wants flags reduceMax then part.max else value.max
        hasValue := true}
    else
      .ok {value with
        count := count
        sum := sum
        min := if wants flags reduceMin && decide (part.min.toInt < value.min.toInt) then part.min else value.min
        max := if wants flags reduceMax && decide (value.max.toInt < part.max.toInt) then part.max else value.max}

/-- The rows that one batch has for an input: a vector and the selection. -/
structure Part where
  column : Int4Vector
  selection : Selection

/-- The values of the selected rows that are not NULL. -/
def Part.values (part : Part) : List Int4 :=
  part.selection.visits.filterMap part.column.cell

/-- The loop over the batches, for one input. -/
def mergeParts (flags : BitVec 32) (parts : List Int4Reduction) : Except String Int4Reduction :=
  parts.foldlM (mergeReduction flags) zeroReduction

/-- An `int64` that was asked for does not hold the sum or the number of these values. -/
def Overflows (flags : BitVec 32) (values : List Int4) : Prop :=
  wants flags reduceSum = true ∧ ¬ InInt64 (total values) ∨ wants flags reduceCount = true ∧ ¬ InInt64 values.length

section Merging
variable {flags : BitVec 32} {left right : List Int4} {value part : Int4Reduction}

theorem addWantedChecked_ok {flag : BitVec 32} {target addend whole : Int}
    (sum : wants flags flag = true → target + addend = whole) :
    (addWantedChecked flags flag target addend = .error "bigint out of range" ∧ wants flags flag = true ∧ ¬ InInt64 whole) ∨
      ∃ result, addWantedChecked flags flag target addend = .ok result ∧ (wants flags flag = true → result = whole) := by
  unfold addWantedChecked addInt64Checked
  cases wanted : wants flags flag with
  | false => exact .inr ⟨target,rfl,nofun⟩
  | true =>
    rw [if_pos rfl,sum wanted]
    by_cases fits : InInt64 whole
    · exact .inr ⟨whole,if_pos fits,fun _ => rfl⟩
    · exact .inl ⟨if_neg fits,rfl,fits⟩

/-- Merging the reductions of two lists reduces both; a part without values changes nothing but the count. -/
theorem mergeReduction_ok (one : Reduces flags left value) (two : Reduces flags right part) :
    (mergeReduction flags value part = .error "bigint out of range" ∧ Overflows flags (left ++ right)) ∨
      ∃ merged, mergeReduction flags value part = .ok merged ∧ Reduces flags (left ++ right) merged := by
  unfold mergeReduction
  have counts (wanted : wants flags reduceCount = true) : value.count + part.count = ((left ++ right).length : Int) := by
    rw [one.count wanted,two.count wanted,List.length_append]
    push_cast
    rfl
  have sums (wanted : wants flags reduceSum = true) : value.sum + part.sum = total (left ++ right) := by
    rw [one.sum wanted,two.sum wanted,total_append]
  rcases addWantedChecked_ok counts with ⟨failed,wanted,large⟩ | ⟨count,added,countRight⟩
  · exact .inl ⟨by rw [failed]; rfl,.inr ⟨wanted,large⟩⟩
  · rw [added]
    simp only [bind,Except.bind]
    cases some_ : part.hasValue with
    | false =>
      have empty : right = [] := by
        by_contra nonempty
        rw [two.hasValue.mpr nonempty] at some_
        cases some_
      subst empty
      rw [List.append_nil] at countRight ⊢
      exact .inr ⟨_,rfl,⟨⟨one.hasValue,one.sum,one.min,one.max⟩,countRight⟩⟩
    | true =>
      have nonempty := two.hasValue.mp some_
      rw [if_neg (by decide)]
      rcases addWantedChecked_ok sums with ⟨failed,wanted,large⟩ | ⟨sum,added',sumRight⟩
      · exact .inl ⟨by rw [failed],.inl ⟨wanted,large⟩⟩
      · rw [added']
        dsimp only
        cases had : value.hasValue with
        | false =>
          have empty : left = [] := by
            by_contra full
            rw [one.hasValue.mpr full] at had
            cases had
          subst empty
          refine .inr ⟨_,rfl,⟨⟨by simp [nonempty],sumRight,fun wanted _ => ?_,fun wanted _ => ?_⟩,countRight⟩⟩
          · simpa only [wanted,if_true,List.nil_append] using two.min wanted nonempty
          · simpa only [wanted,if_true,List.nil_append] using two.max wanted nonempty
        | true =>
          have full := one.hasValue.mp had
          refine .inr ⟨_,rfl,⟨⟨by simp [nonempty],sumRight,fun wanted _ => ?_,fun wanted _ => ?_⟩,countRight⟩⟩
          · simp only [wanted,Bool.true_and,decide_eq_true_eq]
            exact least_append (one.min wanted full) (two.min wanted nonempty)
          · simp only [wanted,Bool.true_and,decide_eq_true_eq]
            exact greatest_append (one.max wanted full) (two.max wanted nonempty)

/-- Merging the reductions of the parts reduces all their values, or a running sum or count overflows. -/
theorem mergeParts_ok {parts : List (List Int4 × Int4Reduction)} (reduced : ∀ part ∈ parts, Reduces flags part.1 part.2) :
    (mergeParts flags (parts.map Prod.snd) = .error "bigint out of range" ∧
        ∃ count ≤ parts.length, Overflows flags ((parts.map Prod.fst).take count).flatten) ∨
      ∃ merged, mergeParts flags (parts.map Prod.snd) = .ok merged ∧ Reduces flags (parts.map Prod.fst).flatten merged := by
  unfold mergeParts
  induction parts using List.reverseRecOn with
  | nil => exact .inr ⟨zeroReduction,rfl,reduces_zero flags⟩
  | append_singleton before last ih =>
    rcases ih fun part member => reduced part (List.mem_append_left _ member) with
      ⟨failed,count,small,overflows⟩ | ⟨value,ran,reduces⟩
    · refine .inl ⟨?_,count,by simp; omega,?_⟩
      · rw [List.map_append,List.foldlM_append,failed]
        rfl
      · rwa [List.map_append,List.take_append_of_le_length (by simpa using small)]
    · have both : ((before ++ [last]).map Prod.fst).flatten = (before.map Prod.fst).flatten ++ last.1 := by simp
      have step : ((before ++ [last]).map Prod.snd).foldlM (mergeReduction flags) zeroReduction =
          mergeReduction flags value last.2 := by
        rw [List.map_append,List.foldlM_append,ran]
        exact bind_pure (mergeReduction flags value last.2)
      rw [step,both]
      rcases mergeReduction_ok reduces (reduced last (by simp)) with ⟨failed,overflows⟩ | merged
      · refine .inl ⟨failed,(before ++ [last]).length,Nat.le_refl _,?_⟩
        rw [List.take_of_length_le (by simp),both]
        exact overflows
      · exact .inr merged

end Merging

/-- The batches have these vectors, whatever rows of them are selected. -/
def SameVectors (parts others : List Part) : Prop :=
  others.map (fun part => (part.column,part.selection.nrows)) = parts.map fun part => (part.column,part.selection.nrows)

/-- Whatever is selected and asked for: each batch is reduced without an overflow, and merging the
reductions gives what all rows would give at once, unless the running totals leave an `int64`. -/
def ReductionsRight (parts : List Part) : Prop :=
  ∀ others, SameVectors parts others → ∀ flags, ∃ results,
    List.Forall₂ (fun part result => reduceInt4 part.column part.selection flags = some result ∧
      Reduces flags part.values result) others results ∧
    ((mergeParts flags results = .error "bigint out of range" ∧
        ∃ count ≤ others.length, Overflows flags ((others.map Part.values).take count).flatten) ∨
      ∃ merged, mergeParts flags results = .ok merged ∧ Reduces flags (others.map Part.values).flatten merged)

theorem seenValues_addressed {part : Part} (addressed : part.column.Addressed part.selection.nrows) :
    seenValues part.column part.selection.visits = part.values := by
  apply List.filterMap_congr
  intro row member
  exact addressed.seen (mem_visits.mp member).1

section Related
variable {α β : Type} {related : α → β → Prop}

theorem forall₂_of_forall {items : List α} (each : ∀ item ∈ items, ∃ result, related item result) :
    ∃ results, List.Forall₂ related items results := by
  induction items with
  | nil => exact ⟨[],.nil⟩
  | cons item rest ih =>
    obtain ⟨first,holds⟩ := each item (List.mem_cons_self ..)
    obtain ⟨others,all⟩ := ih fun other member => each other (List.mem_cons_of_mem _ member)
    exact ⟨first :: others,.cons holds all⟩

theorem exists_of_forall₂ {items : List α} {results : List β} (all : List.Forall₂ related items results) {item : α}
    (member : item ∈ items) : ∃ result, related item result := by
  induction all with
  | nil => cases member
  | cons holds _ ih =>
    rcases List.mem_cons.mp member with rfl | later
    · exact ⟨_,holds⟩
    · exact ih later

end Related

/-- The selection of one row. -/
def only (selection : Selection) (row : Nat) : Selection :=
  {selection with words := fun word => if word = row / 64 then bit 64 (row % 64) else 0#64}

theorem visits_only {selection : Selection} {row : Nat} (inside : row < selection.nrows) :
    (only selection row).visits = [row] := by
  apply Words.sorted_ext (Selection.visits_sorted _) (List.pairwise_singleton ..)
  intro other
  rw [mem_visits,List.mem_singleton]
  constructor
  · rintro ⟨_,set⟩
    simp only [only] at set
    split at set
    · rw [getLsbD_bit,decide_eq_true_eq] at set
      omega
    · simp at set
  · rintro rfl
    exact ⟨inside,by simp [only,Nat.mod_lt]⟩

/-- They are right if and only if every row of the vectors finds its own validity bit. -/
theorem reductions_right_iff (parts : List Part) :
    ReductionsRight parts ↔ ∀ part ∈ parts, part.column.Addressed part.selection.nrows := by
  constructor
  · intro right part member
    rw [Int4Vector.addressed_iff]
    intro row inside
    obtain ⟨results,holds,_⟩ := right (parts.map fun part => {part with selection := only part.selection row})
      (by rw [SameVectors,List.map_map]; rfl) reduceCount
    obtain ⟨result,ran,reduces⟩ := exists_of_forall₂ holds (List.mem_map_of_mem member)
    obtain ⟨result',ran',seen⟩ := reduceInt4_ok part.column (only part.selection row) reduceCount
    cases ran.symm.trans ran'
    have counts := (seen.count (by decide)).symm.trans (reduces.count (by decide))
    rw [Part.values,seenValues,visits_only inside] at counts
    rw [Int4Vector.addressedAt_iff]
    have seen_ : part.column.seen row = if part.column.rowIsNull row then none else some (part.column.rowValue row) := rfl
    cases null : part.column.rowIsNull row <;> cases cell : part.column.cell row <;>
      simp [seen_,null,cell] at counts ⊢
  · intro addressed others same flags
    have all : ∀ part ∈ others, part.column.Addressed part.selection.nrows := by
      intro part member
      have shape : (part.column,part.selection.nrows) ∈ parts.map fun part => (part.column,part.selection.nrows) := by
        rw [← same]
        exact List.mem_map_of_mem member
      obtain ⟨original,inside,equal⟩ := List.mem_map.mp shape
      have fits := addressed original inside
      rwa [(Prod.mk.inj equal).1,(Prod.mk.inj equal).2] at fits
    have each : ∀ part ∈ others, ∃ result, reduceInt4 part.column part.selection flags = some result ∧
        Reduces flags part.values result := by
      intro part member
      obtain ⟨result,ran,reduces⟩ := reduceInt4_ok part.column part.selection flags
      rw [seenValues_addressed (all part member)] at reduces
      exact ⟨result,ran,reduces⟩
    obtain ⟨results,holds⟩ := forall₂_of_forall each
    refine ⟨results,holds,?_⟩
    have length := holds.length_eq
    have reduced : List.Forall₂ (Reduces flags) (others.map Part.values) results :=
      List.forall₂_map_left_iff.mpr (holds.imp fun _ _ both => both.2)
    have merged := @mergeParts_ok flags ((others.map Part.values).zip results) fun part member =>
      (List.forall₂_iff_zip.mp reduced).2 member
    rw [List.map_snd_zip (by simp [length]),List.map_fst_zip (by simp [length]),List.length_zip] at merged
    simpa [length] using merged

/-- One row far into its array is not counted. -/
theorem far_row_uncounted : farColumn.cell 0 = some 7#32 ∧
    (reduceInt4 farColumn oneRow reduceCount).map (·.count) = some 0 ∧ ¬ ReductionsRight [⟨farColumn,oneRow⟩] := by
  refine ⟨by decide,by decide,fun right => ?_⟩
  obtain ⟨results,holds,_⟩ := right [⟨farColumn,oneRow⟩] rfl reduceCount
  obtain ⟨result,ran,reduces⟩ := exists_of_forall₂ holds (List.mem_singleton_self _)
  have counted := reduces.count (by decide)
  have uncounted : (reduceInt4 farColumn oneRow reduceCount).map (·.count) = some 0 := by decide
  rw [ran] at uncounted
  have values : (Part.mk farColumn oneRow).values.length = 1 := by decide
  rw [values] at counted
  exact absurd (counted.symm.trans (Option.some.inj uncounted)) (by decide)

end PgBatch.Reduce
