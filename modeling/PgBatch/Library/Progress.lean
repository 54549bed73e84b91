import Mathlib.Order.Defs.LinearOrder
import Mathlib.Order.WellFounded

/-! Progress along an infinite run. A quantity that no step makes larger and that a step of
one kind makes smaller lets steps of this kind happen finitely often. -/
namespace Progress
variable {α : Type} [Preorder α] [WellFoundedLT α]

/-- `Left time size` is an invariant that says how much is left. -/
theorem finitely_often {Left : Nat → α → Prop} {Moves : Nat → Prop}
    (each : ∀ time size, Left time size → ∃ size', Left (time + 1) size' ∧ size' ≤ size ∧ (Moves time → size' < size))
    {first : Nat} {size : α} (start : Left first size) : ∃ last, ∀ time, last ≤ time → ¬ Moves time := by
  induction size using WellFoundedLT.induction generalizing first with
  | _ size ih =>
    have later (steps : Nat) : ∃ size', Left (first + steps) size' ∧ size' ≤ size := by
      induction steps with
      | zero => exact ⟨size,start,le_refl _⟩
      | succ steps earlier =>
        obtain ⟨middle,here,few⟩ := earlier
        obtain ⟨size',after,fewer,_⟩ := each _ _ here
        exact ⟨size',after,fewer.trans few⟩
    by_cases more : ∃ steps, Moves (first + steps)
    · obtain ⟨steps,moves⟩ := more
      obtain ⟨middle,here,few⟩ := later steps
      obtain ⟨size',after,_,less⟩ := each _ _ here
      exact ih size' (lt_of_lt_of_le (less moves) few) after
    · refine ⟨first,fun time behind moves => more ⟨time - first,?_⟩⟩
      rwa [Nat.add_sub_cancel' behind]

end Progress
