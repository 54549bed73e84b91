import Mathlib.Data.List.Basic
import Mathlib.Data.List.Nodup

/-! Loops in which every place has one step that may change it. -/
namespace Sweeps
variable {σ α : Type}

/-- Behind the loop a place is as its own step left it, if that was among the steps. -/
theorem foldl_sweep (owner : Nat → Nat) (view : σ → Nat → α) {step : σ → Nat → σ} (change : Nat → α → α)
    {visits : List Nat} (distinct : visits.Nodup)
    (steps : ∀ state, ∀ index ∈ visits, ∀ place, view (step state index) place =
      if owner place = index then change place (view state place) else view state place) (state : σ) (place : Nat) :
    view (visits.foldl step state) place =
      if owner place ∈ visits then change place (view state place) else view state place := by
  induction visits generalizing state with
  | nil => simp
  | cons first rest ih =>
    obtain ⟨fresh,distinct⟩ := List.nodup_cons.mp distinct
    rw [List.foldl_cons,ih distinct fun state index member => steps state index (List.mem_cons_of_mem _ member),
      steps state first (List.mem_cons_self ..)]
    by_cases mine : owner place = first
    · rw [if_pos mine,if_neg (mine ▸ fresh),if_pos (by simp [mine])]
    · rw [if_neg mine]
      simp [mine]

end Sweeps
