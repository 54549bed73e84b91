import Mathlib.Algebra.Order.Group.Nat
import Mathlib.Tactic.Ring

/-! Doubling loops: `while (more (result)) result *= 2`. -/
namespace Doubling

/-- The loop, with room for `fuel` rounds. -/
def doubled (more : Nat → Bool) : Nat → Nat → Nat
  | 0, result => result
  | fuel + 1, result => if more result then doubled more fuel (2 * result) else result

theorem doubled_stops (more : Nat → Bool) (fuel result : Nat) :
    more (doubled more fuel result) = false ∨ doubled more fuel result = 2 ^ fuel * result := by
  induction fuel generalizing result with
  | zero => exact .inr (by simp [doubled])
  | succ fuel ih =>
    unfold doubled
    split
    · refine (ih (2 * result)).imp_right fun doubles => ?_
      rw [doubles,pow_succ,mul_assoc]
    · exact .inl (by simp_all)

theorem doubled_power (more : Nat → Bool) (fuel result : Nat) :
    ∃ rounds ≤ fuel, doubled more fuel result = 2 ^ rounds * result := by
  induction fuel generalizing result with
  | zero => exact ⟨0,Nat.le_refl _,by simp [doubled]⟩
  | succ fuel ih =>
    unfold doubled
    split
    · obtain ⟨rounds,few,doubles⟩ := ih (2 * result)
      exact ⟨rounds + 1,Nat.succ_le_succ few,by rw [doubles,pow_succ,mul_assoc]⟩
    · exact ⟨0,Nat.zero_le _,by simp⟩

/-- The loop goes no further than the first power at which it would stop. -/
theorem doubled_le {more : Nat → Bool} {rounds fuel result : Nat} (few : rounds ≤ fuel)
    (stops : more (2 ^ rounds * result) = false) : doubled more fuel result ≤ 2 ^ rounds * result := by
  induction fuel generalizing rounds result with
  | zero =>
    obtain rfl := Nat.le_zero.mp few
    rw [doubled,pow_zero,one_mul]
  | succ fuel ih =>
    unfold doubled
    split
    · rename_i goes
      cases rounds with
      | zero =>
        rw [pow_zero,one_mul] at stops
        exact absurd goes (Bool.eq_false_iff.mp stops)
      | succ rounds =>
        have shifted : 2 ^ (rounds + 1) * result = 2 ^ rounds * (2 * result) := by rw [pow_succ,mul_assoc]
        rw [shifted] at stops ⊢
        exact ih (Nat.le_of_succ_le_succ few) stops
    · exact Nat.le_mul_of_pos_left result (Nat.two_pow_pos rounds)

/-- The loop did not go round, or it did from half of its result. -/
theorem doubled_half (more : Nat → Bool) (fuel result : Nat) :
    doubled more fuel result = result ∨ ∃ half, doubled more fuel result = 2 * half ∧ more half = true := by
  induction fuel generalizing result with
  | zero => exact .inl rfl
  | succ fuel ih =>
    unfold doubled
    split
    · rename_i goes
      rcases ih (2 * result) with same | half
      · exact .inr ⟨result,same,goes⟩
      · exact .inr half
    · exact .inl rfl

/-- Of two powers the smaller one fits twice into the larger one. -/
theorem double_le {rounds others start : Nat} (less : 2 ^ rounds * start < 2 ^ others * start) :
    2 * (2 ^ rounds * start) ≤ 2 ^ others * start := by
  have fewer : rounds < others := (Nat.pow_lt_pow_iff_right Nat.one_lt_two).mp (Nat.lt_of_mul_lt_mul_right less)
  calc 2 * (2 ^ rounds * start) = 2 ^ (rounds + 1) * start := by rw [pow_succ']; ring
    _ ≤ 2 ^ others * start := Nat.mul_le_mul_right start (Nat.pow_le_pow_right Nat.two_pos fewer)

theorem le_doubled (more : Nat → Bool) (fuel result : Nat) : result ≤ doubled more fuel result := by
  obtain ⟨rounds,_,doubles⟩ := doubled_power more fuel result
  rw [doubles]
  exact Nat.le_mul_of_pos_left result (Nat.two_pow_pos rounds)

end Doubling
