import Mathlib.Data.List.Perm.Basic
import Mathlib.Data.List.Flatten

/-! Joins of two lists of rows, up to the order of the pairs.
A join may be taken piece by piece: over the rows of either side, and over parts
as long as rows that match are in parts of the same number. -/
namespace Joining

/-- The rows of one part. -/
def part {α : Type} (of : α → Nat) (rows : List α) (index : Nat) : List α :=
  rows.filter fun row => of row == index

section Parts
variable {α : Type} {of : α → Nat}

@[simp] theorem part_nil (index : Nat) : part of ([] : List α) index = [] := rfl

@[simp] theorem part_append (left right : List α) (index : Nat) :
    part of (left ++ right) index = part of left index ++ part of right index :=
  List.filter_append ..

theorem mem_part {rows : List α} {index : Nat} {row : α} : row ∈ part of rows index ↔ row ∈ rows ∧ of row = index := by
  rw [part,List.mem_filter,beq_iff_eq]

/-- What is put together of parts has these parts again. -/
theorem part_flatMap {each : Nat → List α} {count : Nat} (placed : ∀ index, ∀ row ∈ each index, of row = index)
    (below : ∀ index, count ≤ index → each index = []) (index : Nat) :
    part of ((List.range count).flatMap each) index = each index := by
  have own (other : Nat) : part of (each other) index = if other = index then each other else [] := by
    split
    · rename_i same
      exact List.filter_eq_self.mpr fun row member => beq_iff_eq.mpr ((placed other row member).trans same)
    · rename_i apart
      exact List.filter_eq_nil_iff.mpr fun row member here => apart ((placed other row member).symm.trans (beq_iff_eq.mp here))
  have first (bound : Nat) : part of ((List.range bound).flatMap each) index = if index < bound then each index else [] := by
    induction bound with
    | zero => rfl
    | succ bound ih =>
      rw [List.range_succ,List.flatMap_append,List.flatMap_singleton,part_append,ih,own]
      by_cases here : bound = index
      · subst here
        simp
      · rw [if_neg here,List.append_nil]
        exact if_congr (by omega) rfl rfl
  rw [first]
  split
  · rfl
  · rename_i beyond
    exact (below index (Nat.not_lt.mp beyond)).symm

/-- The parts of a list make up the list. -/
theorem parts_perm {rows : List α} {count : Nat} (inside : ∀ row ∈ rows, of row < count) :
    ((List.range count).flatMap (part of rows)).Perm rows := by
  induction count generalizing rows with
  | zero =>
    cases rows with
    | nil => exact .refl _
    | cons row rest => exact absurd (inside row (List.mem_cons_self ..)) (Nat.not_lt_zero _)
  | succ count ih =>
    have lower : ∀ row ∈ rows.filter (fun row => of row != count), of row < count := by
      intro row member
      obtain ⟨present,apart⟩ := List.mem_filter.mp member
      have := inside row present
      have := bne_iff_ne.mp apart
      omega
    have same : (List.range count).flatMap (part of rows) =
        (List.range count).flatMap (part of (rows.filter fun row => of row != count)) := by
      apply List.flatMap_congr
      intro index below
      rw [part,part,List.filter_filter]
      apply List.filter_congr
      intro row _
      have := List.mem_range.mp below
      cases here : of row == index with
      | false => simp
      | true => simp [beq_iff_eq.mp here,Nat.ne_of_lt this]
    rw [List.range_succ,List.flatMap_append,List.flatMap_singleton,same]
    refine ((ih lower).append_right _).trans ?_
    have halves := List.filter_append_perm (fun row => of row != count) rows
    simpa only [part,bne,Bool.not_not] using halves

/-- So do the rows of some parts, taken together, and the other parts. -/
theorem split_parts_perm {rows : List α} {count : Nat} (kept : List Nat) (inside : ∀ row ∈ rows, of row < count) :
    (rows.filter (fun row => decide (of row ∈ kept)) ++
      (List.range count).flatMap fun index => if index ∈ kept then [] else part of rows index).Perm rows := by
  have others : (fun index => if index ∈ kept then [] else part of rows index) =
      part of (rows.filter fun row => !decide (of row ∈ kept)) := by
    funext index
    rw [part,part,List.filter_filter]
    split
    · rename_i stays
      symm
      rw [List.filter_eq_nil_iff]
      rintro row - both
      simp only [Bool.and_eq_true,beq_iff_eq,Bool.not_eq_true',decide_eq_false_iff_not] at both
      exact both.2 (both.1 ▸ stays)
    · rename_i gone
      apply List.filter_congr
      intro row _
      by_cases here : of row = index
      · simp [here,gone]
      · simp [here]
  rw [others]
  refine (List.Perm.append_left _ (parts_perm fun row member => ?_)).trans (List.filter_append_perm _ rows)
  exact inside row (List.mem_filter.mp member).1

end Parts

/-! Joins. -/

/-- The pairs of rows that match: they have one key. -/
def joined {α β κ : Type} [DecidableEq κ] (left : α → κ) (right : β → κ) (rows : List α) (others : List β) : List (α × β) :=
  rows.flatMap fun row => (others.filter fun other => decide (right other = left row)).map (row,·)

section Joins
variable {α β κ : Type} [DecidableEq κ] {left : α → κ} {right : β → κ} {rows rows' : List α} {others others' : List β}

@[simp] theorem joined_nil_left : joined left right [] others = [] := rfl

@[simp] theorem joined_nil_right : joined left right rows [] = [] := by
  simp [joined]

theorem joined_append_left : joined left right (rows ++ rows') others =
    joined left right rows others ++ joined left right rows' others :=
  List.flatMap_append ..

theorem joined_append_right : (joined left right rows (others ++ others')).Perm
    (joined left right rows others ++ joined left right rows others') := by
  simp only [joined,List.filter_append,List.map_append]
  exact (List.flatMap_append_perm _ _ _).symm

theorem joined_flatMap_left {ν : Type} (items : List ν) (each : ν → List α) :
    joined left right (items.flatMap each) others = items.flatMap fun item => joined left right (each item) others := by
  simp only [joined,List.flatMap_assoc]

theorem joined_perm (one : rows.Perm rows') (two : others.Perm others') :
    (joined left right rows others).Perm (joined left right rows' others') := by
  refine (one.flatMap_right _).trans (List.Perm.flatMap_left _ fun row _ => ?_)
  exact (two.filter _).map _

/-- Rows without a match may be left out. -/
theorem joined_filter_left (keep : α → Bool)
    (alone : ∀ row ∈ rows, keep row = false → ∀ other ∈ others, right other ≠ left row) :
    joined left right (rows.filter keep) others = joined left right rows others := by
  induction rows with
  | nil => rfl
  | cons row rest ih =>
    have behind := ih fun row member => alone row (List.mem_cons_of_mem _ member)
    cases kept : keep row with
    | true =>
      rw [List.filter_cons_of_pos kept]
      exact congrArg (_ ++ ·) behind
    | false =>
      have none : others.filter (fun other => decide (right other = left row)) = [] := by
        rw [List.filter_eq_nil_iff]
        intro other member
        simpa using alone row (List.mem_cons_self ..) kept other member
      rw [List.filter_cons_of_neg (by simp [kept]),behind]
      simp [joined,none]

/-- Part by part the pairs are those of all rows, if rows that match are in parts of the same number. -/
theorem joined_parts {of : α → Nat} {of' : β → Nat} {count : Nat} (inside : ∀ row ∈ rows, of row < count)
    (agree : ∀ row ∈ rows, ∀ other ∈ others, right other = left row → of' other = of row) :
    ((List.range count).flatMap fun index => joined left right (part of rows index) (part of' others index)).Perm
      (joined left right rows others) := by
  have each (index : Nat) : joined left right (part of rows index) (part of' others index) =
      joined left right (part of rows index) others := by
    rw [joined,joined]
    apply List.flatMap_congr
    intro row member
    obtain ⟨present,here⟩ := mem_part.mp member
    rw [part,List.filter_filter]
    congr 1
    apply List.filter_congr
    intro other among
    by_cases same : right other = left row
    · simp [same,agree row present other among same,here]
    · simp [same]
  simp only [each]
  rw [← joined_flatMap_left]
  exact joined_perm (parts_perm inside) (.refl _)

end Joins

end Joining
