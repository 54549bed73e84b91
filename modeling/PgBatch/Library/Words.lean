import Mathlib.Data.List.Basic
import Mathlib.Data.Nat.Bitwise
import Mathlib.Data.List.Sort

/-! Machine words read as sets of positions.
A loop that takes the lowest set bit of a word and clears it visits exactly the
set positions, in ascending order. -/
namespace Words
variable {w : Nat}

/-- The set positions of a word, lowest first. -/
def rows (word : BitVec w) : List Nat :=
  (List.range w).filter word.getLsbD

/-- The lowest set position, `0` for the zero word. -/
def rightmost (word : BitVec w) : Nat :=
  (rows word).headD 0

def popcount (word : BitVec w) : Nat :=
  (rows word).length

def bit (w position : Nat) : BitVec w :=
  1#w <<< position

@[simp] theorem getLsbD_bit (position index : Nat) :
    (bit w position).getLsbD index = decide (index < w ∧ index = position) := by
  have power : bit w position = BitVec.twoPow w position := (BitVec.twoPow_eq w position).symm
  rw [power,BitVec.getLsbD_twoPow]
  by_cases same : index = position
  · subst same
    simp
  · simp [same,Ne.symm same]

@[simp] theorem mem_rows {word : BitVec w} {index : Nat} : index ∈ rows word ↔ word.getLsbD index = true := by
  simp only [rows,List.mem_filter,List.mem_range,and_iff_right_iff_imp]
  exact BitVec.lt_of_getLsbD

theorem rows_sorted (word : BitVec w) : (rows word).Pairwise (· < ·) :=
  List.pairwise_lt_range.filter _

theorem sorted_ext {left right : List Nat} (one : left.Pairwise (· < ·)) (two : right.Pairwise (· < ·))
    (same : ∀ row, row ∈ left ↔ row ∈ right) : left = right := by
  have nodup {rows : List Nat} (sorted : rows.Pairwise (· < ·)) : rows.Nodup := sorted.imp Nat.ne_of_lt
  exact ((List.perm_ext_iff_of_nodup (nodup one) (nodup two)).mpr same).eq_of_pairwise
    (fun _ _ _ _ before after => absurd after (Nat.lt_asymm before)) one two

theorem rows_nodup (word : BitVec w) : (rows word).Nodup :=
  List.nodup_range.filter _

theorem rows_lt {word : BitVec w} {index : Nat} (member : index ∈ rows word) : index < w :=
  BitVec.lt_of_getLsbD (mem_rows.mp member)

@[simp] theorem rows_zero : rows 0#w = [] := by
  simp [rows]

theorem rows_eq_nil {word : BitVec w} : rows word = [] ↔ word = 0#w := by
  constructor
  · intro empty
    apply BitVec.eq_of_getLsbD_eq
    intro index _
    have absent : index ∉ rows word := by simp [empty]
    simpa using absent
  · rintro rfl
    exact rows_zero

theorem rows_and (left right : BitVec w) : rows (left &&& right) = (rows left).filter right.getLsbD := by
  simp only [rows,List.filter_filter]
  apply List.filter_congr
  intro index _
  rw [BitVec.getLsbD_and,Bool.and_comm]

theorem popcount_le (word : BitVec w) : popcount word ≤ w :=
  (List.length_filter_le ..).trans_eq List.length_range

theorem rightmost_mem {word : BitVec w} (nonzero : word ≠ 0#w) : rightmost word ∈ rows word := by
  cases cells : rows word with
  | nil => exact absurd (rows_eq_nil.mp cells) nonzero
  | cons first rest => simp [rightmost,cells]

theorem rightmost_le {word : BitVec w} {index : Nat} (member : index ∈ rows word) : rightmost word ≤ index := by
  have sorted := rows_sorted word
  cases cells : rows word with
  | nil => simp [cells] at member
  | cons first rest =>
    rw [cells] at sorted member
    rcases List.mem_cons.mp member with rfl | later
    · simp [rightmost,cells]
    · simpa [rightmost,cells] using Nat.le_of_lt (List.rel_of_pairwise_cons sorted later)

/-- Subtracting one clears the lowest set bit and sets all bits below it. -/
private theorem testBit_pred (number : Nat) {low : Nat} (set : number.testBit low = true)
    (lowest : ∀ index < low, number.testBit index = false) (index : Nat) :
    (number - 1).testBit index =
      if index < low then true else if index = low then false else number.testBit index := by
  have multiple : number % 2 ^ low = 0 := by
    apply Nat.eq_of_testBit_eq
    intro position
    rw [Nat.testBit_mod_two_pow,Nat.zero_testBit]
    by_cases below : position < low
    · simp [lowest position below]
    · simp [below]
  obtain ⟨quotient,whole⟩ := Nat.dvd_of_mod_eq_zero multiple
  have shift (position : Nat) : number.testBit (position + low) = quotient.testBit position := by
    rw [whole,Nat.mul_comm,← Nat.shiftLeft_eq,Nat.testBit_shiftLeft]
    simp
  have odd : quotient % 2 = 1 := by
    have bit : quotient.testBit 0 = true := by
      rw [← shift 0,Nat.zero_add]
      exact set
    simpa [Nat.testBit_zero] using bit
  have positive : 0 < 2 ^ low := Nat.two_pow_pos low
  have split : number - 1 = 2 ^ low * (quotient - 1) + (2 ^ low - 1) := by
    have one : quotient = quotient - 1 + 1 := by omega
    have : 2 ^ low * quotient = 2 ^ low * (quotient - 1) + 2 ^ low := by
      rw [← Nat.mul_add_one,← one]
    omega
  rw [split,Nat.testBit_two_pow_mul_add _ (by omega)]
  by_cases below : index < low
  · simp [below,Nat.testBit_two_pow_sub_one]
  · rw [if_neg below,if_neg below]
    have shifted : number.testBit index = quotient.testBit (index - low) := by
      rw [← shift,Nat.sub_add_cancel (by omega)]
    rw [shifted]
    cases distance : index - low with
    | zero =>
      rw [if_pos (by omega),Nat.testBit_zero]
      simp only [decide_eq_false_iff_not]
      omega
    | succ further =>
      have halves : (quotient - 1) / 2 = quotient / 2 := by omega
      rw [if_neg (by omega),Nat.testBit_succ,Nat.testBit_succ,halves]

theorem getLsbD_and_pred {word : BitVec w} (nonzero : word ≠ 0#w) (index : Nat) :
    (word &&& (word - 1#w)).getLsbD index = (word.getLsbD index && index != rightmost word) := by
  have member := rightmost_mem nonzero
  have set := mem_rows.mp member
  have lowest (position : Nat) (below : position < rightmost word) : word.getLsbD position = false := by
    by_contra present
    have := rightmost_le (mem_rows.mpr (by simpa using present))
    omega
  have width : 0 < w := Nat.lt_of_le_of_lt (Nat.zero_le _) (rows_lt member)
  have one : 1 ≤ word.toNat := by
    by_contra small
    apply nonzero
    apply BitVec.eq_of_toNat_eq
    simp only [BitVec.toNat_ofNat,Nat.zero_mod]
    omega
  have pred : (word - 1#w).toNat = word.toNat - 1 := by
    have ones : (1#w).toNat = 1 := by
      simp only [BitVec.toNat_ofNat]
      exact Nat.mod_eq_of_lt (Nat.one_lt_two_pow (by omega))
    rw [BitVec.toNat_sub_of_le (by rw [BitVec.le_def,ones]; exact one),ones]
  rw [BitVec.getLsbD_and]
  have tail := testBit_pred word.toNat
    (by simpa only [BitVec.testBit_toNat] using set)
    (fun position below => by simpa only [BitVec.testBit_toNat] using lowest position below) index
  rw [← pred,BitVec.testBit_toNat,BitVec.testBit_toNat] at tail
  rw [tail]
  by_cases below : index < rightmost word
  · simp [below,lowest index below]
  · by_cases same : index = rightmost word
    · simp [same]
    · simp [below,same]

/-- One round of the loop `row = rightmost(word); word &= word - 1`. -/
theorem rows_cons {word : BitVec w} (nonzero : word ≠ 0#w) :
    rows word = rightmost word :: rows (word &&& (word - 1#w)) := by
  have tail : rows (word &&& (word - 1#w)) = (rows word).filter (· != rightmost word) := by
    simp only [rows,List.filter_filter]
    apply List.filter_congr
    intro index _
    rw [getLsbD_and_pred nonzero,Bool.and_comm]
  rw [tail]
  have nodup := rows_nodup word
  cases cells : rows word with
  | nil => exact absurd (rows_eq_nil.mp cells) nonzero
  | cons first rest =>
    have head : rightmost word = first := by simp [rightmost,cells]
    rw [cells] at nodup
    have others : rest.filter (· != first) = rest := by
      apply List.filter_eq_self.mpr
      intro index member
      have := (List.nodup_cons.mp nodup).1
      simp only [bne_iff_ne,ne_eq]
      rintro rfl
      exact this member
    rw [head,List.filter_cons_of_neg (by simp),others]

theorem rows_or_bit {word : BitVec w} {position index : Nat} (inside : position < w) :
    index ∈ rows (word ||| bit w position) ↔ index ∈ rows word ∨ index = position := by
  simp only [mem_rows,BitVec.getLsbD_or,getLsbD_bit,Bool.or_eq_true,decide_eq_true_eq]
  constructor
  · rintro (old | ⟨_,same⟩)
    · exact .inl old
    · exact .inr same
  · rintro (old | rfl)
    · exact .inl old
    · exact .inr ⟨inside,rfl⟩

/-- Setting a bit above all others. -/
theorem rows_or_last {word : BitVec w} {position : Nat} (inside : position < w)
    (above : ∀ index ∈ rows word, index < position) :
    rows (word ||| bit w position) = rows word ++ [position] := by
  have sorted : (rows word ++ [position]).Pairwise (· < ·) := by
    rw [List.pairwise_append]
    refine ⟨rows_sorted word,List.pairwise_singleton ..,?_⟩
    rintro index member _ single
    rw [List.mem_singleton.mp single]
    exact above index member
  refine List.Perm.eq_of_pairwise' (rows_sorted _) sorted ?_
  apply (List.perm_ext_iff_of_nodup (rows_nodup _) (sorted.imp fun less => Nat.ne_of_lt less)).mpr
  intro index
  rw [rows_or_bit inside,List.mem_append,List.mem_singleton]

/-- The loop that collects the positions of one part: `parts[part (row)] |= bit (row)`. -/
def gather (part : Nat → Nat) (word : BitVec w) (index : Nat) : BitVec w :=
  (rows word).foldl (fun gathered row => if part row = index then gathered ||| bit w row else gathered) 0#w

theorem rows_gather (part : Nat → Nat) (word : BitVec w) (index : Nat) :
    rows (gather part word index) = (rows word).filter fun row => decide (part row = index) := by
  have gathered (visits : List Nat) (start : BitVec w) (row : Nat) (inside : row < w) :
      (visits.foldl (fun gathered row => if part row = index then gathered ||| bit w row else gathered)
        start).getLsbD row = (start.getLsbD row || decide (row ∈ visits ∧ part row = index)) := by
    induction visits generalizing start with
    | nil => simp
    | cons first rest ih =>
      rw [List.foldl_cons,ih]
      by_cases same : row = first
      · subst same
        by_cases here : part row = index
        · simp [here,inside]
        · simp [here]
      · split <;> simp [same]
  simp only [rows,List.filter_filter]
  apply List.filter_congr
  intro row member
  have inside := List.mem_range.mp member
  rw [gather,gathered _ _ row inside]
  simp only [BitVec.getLsbD_zero,Bool.false_or,mem_rows]
  cases word.getLsbD row <;> simp

end Words
