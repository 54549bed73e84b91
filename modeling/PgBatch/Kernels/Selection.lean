import PgBatch.Kernels.Vector
import PgBatch.Library.Result

/-! Walking a selection (`include/pg_batch/batch.h`): the next selected row, and
the loop that clears the rows it refuses. -/
namespace PgBatch.Selection
open Words

/-- `pg_batch_selection_contains`. -/
def contains (selection : Selection) (row : Nat) : Bool :=
  (selection.words (row / 64)).getLsbD (row % 64)

/-- `pg_batch_selection_clear`. -/
def clear (selection : Selection) (row : Nat) : Selection :=
  selection.store (row / 64) (selection.words (row / 64) &&& ~~~bit 64 (row % 64))

/-- The loop of `pg_batch_selection_next`; `left` words follow. -/
def nextWord (selection : Selection) (left word : Nat) (bits : BitVec 64) : Option Nat :=
  if bits ≠ 0#64 then
    let result := 64 * word + rightmost bits
    if result < selection.nrows then some result else none
  else match left with
    | 0 => none
    | left + 1 => nextWord selection left (word + 1) (selection.words (word + 1))

/-- `pg_batch_selection_next` behind row `row - 1`. -/
def next (selection : Selection) (row : Nat) : Option Nat :=
  if selection.nrows ≤ row then none
  else nextWord selection (selection.nwords - 1 - row / 64) (row / 64)
    (selection.words (row / 64) &&& (BitVec.allOnes 64 <<< (row % 64)))

/-- The selected rows from `row` on. -/
def rowsFrom (selection : Selection) (row : Nat) : List Nat :=
  (List.range' row (selection.nrows - row)).filter selection.contains

/-- `while ((row = pg_batch_selection_next (selection, row)) >= 0)` around a body
that may clear the row, for at most `left` rows. -/
def sift {σ : Type} (keep : σ → Nat → Except String (σ × Bool)) :
    Nat → Nat → Selection → σ → Except String (Selection × σ)
  | 0, _, selection, state => .ok (selection,state)
  | left + 1, row, selection, state =>
    match selection.next row with
    | none => .ok (selection,state)
    | some found => do
      let (state,kept) ← keep state found
      sift keep left (found + 1) (if kept then selection else selection.clear found) state

/-- The same over a list of rows: which are kept. -/
def siftRows {σ : Type} (keep : σ → Nat → Except String (σ × Bool)) :
    List Nat → σ → Except String (List Nat × σ)
  | [], state => .ok ([],state)
  | row :: rest, state => do
    let (state,kept) ← keep state row
    let (more,state) ← siftRows keep rest state
    .ok (if kept then row :: more else more,state)

theorem selected_iff {selection : Selection} {row : Nat} :
    selection.Selected row ↔ row < selection.nrows ∧ selection.contains row = true :=
  Iff.rfl

theorem mem_rowsFrom {selection : Selection} {row index : Nat} :
    index ∈ selection.rowsFrom row ↔ row ≤ index ∧ selection.Selected index := by
  simp only [rowsFrom,List.mem_filter,List.mem_range'_1,selected_iff]
  constructor
  · rintro ⟨⟨low,high⟩,set⟩
    exact ⟨low,by omega,set⟩
  · rintro ⟨low,high,set⟩
    exact ⟨⟨low,by omega⟩,set⟩

theorem rowsFrom_sorted (selection : Selection) (row : Nat) : (selection.rowsFrom row).Pairwise (· < ·) :=
  List.Pairwise.filter selection.contains (List.pairwise_lt_range' ..)

theorem visits_sorted (selection : Selection) : selection.visits.Pairwise (· < ·) := by
  unfold visits
  refine List.pairwise_flatMap.mpr ⟨?_,?_⟩
  · intro word _
    refine List.pairwise_map.mpr ((rows_sorted _).imp ?_)
    intro _ _ less
    omega
  · refine List.pairwise_lt_range.imp ?_
    intro word later before one first two second
    obtain ⟨index,member,rfl⟩ := List.mem_map.mp first
    obtain ⟨other,_,rfl⟩ := List.mem_map.mp second
    have := rows_lt member
    omega

theorem visits_eq (selection : Selection) : selection.visits = selection.rowsFrom 0 := by
  apply sorted_ext selection.visits_sorted (selection.rowsFrom_sorted 0)
  intro row
  simp only [mem_visits,mem_rowsFrom,Nat.zero_le,true_and]

/-- A row that `nextWord` may find: in the given bits or in a word that follows. -/
def Ahead (selection : Selection) (word : Nat) (bits : BitVec 64) (row : Nat) : Prop :=
  row / 64 = word ∧ bits.getLsbD (row % 64) = true ∨ word < row / 64 ∧ selection.contains row = true

/-- The least such row, if there is one. -/
def Least (selection : Selection) (test : Nat → Prop) : Option Nat → Prop
  | some found => found < selection.nrows ∧ test found ∧ ∀ row, row < found → ¬ test row
  | none => ∀ row, row < selection.nrows → ¬ test row

theorem nextWord_nonzero (selection : Selection) (left word : Nat) {bits : BitVec 64} (nonzero : bits ≠ 0#64) :
    selection.Least (selection.Ahead word bits) (nextWord selection left word bits) := by
  have found := rightmost_mem nonzero
  have small := rows_lt found
  have least {row : Nat} (less : row < 64 * word + rightmost bits) : ¬ selection.Ahead word bits row := by
    rintro (⟨here,set⟩ | ⟨above,_⟩)
    · have := rightmost_le (mem_rows.mpr set)
      omega
    · omega
  unfold nextWord
  rw [if_pos nonzero]
  dsimp only
  by_cases inside : 64 * word + rightmost bits < selection.nrows
  · rw [if_pos inside]
    refine ⟨inside,.inl ⟨by omega,?_⟩,fun row less => least less⟩
    rw [show (64 * word + rightmost bits) % 64 = rightmost bits by omega]
    exact mem_rows.mp found
  · rw [if_neg inside]
    exact fun row before => least (by omega)

theorem nextWord_spec (selection : Selection) (left word : Nat) (bits : BitVec 64)
    (last : word + left + 1 = selection.nwords) :
    selection.Least (selection.Ahead word bits) (nextWord selection left word bits) := by
  induction left generalizing word bits with
  | zero =>
    by_cases zero : bits = 0#64
    · subst zero
      unfold nextWord
      rw [if_neg (by simp)]
      rintro row inside (⟨_,set⟩ | ⟨above,_⟩)
      · simp at set
      · unfold nwords at last
        omega
    · exact nextWord_nonzero selection 0 word zero
  | succ left ih =>
    by_cases zero : bits = 0#64
    · subst zero
      unfold nextWord
      rw [if_neg (by simp)]
      -- The rows of the next word and of those behind it.
      have same : selection.Ahead word 0#64 = selection.Ahead (word + 1) (selection.words (word + 1)) := by
        funext row
        apply propext
        simp only [Ahead,BitVec.getLsbD_zero,Bool.false_eq_true,and_false,false_or]
        constructor
        · rintro ⟨above,set⟩
          by_cases here : row / 64 = word + 1
          · exact .inl ⟨here,by rw [← here]; exact set⟩
          · exact .inr ⟨by omega,set⟩
        · rintro (⟨here,set⟩ | ⟨above,set⟩)
          · exact ⟨by omega,by rw [contains,here]; exact set⟩
          · exact ⟨by omega,set⟩
      rw [same]
      exact ih (word + 1) (selection.words (word + 1)) (by omega)
    · exact nextWord_nonzero selection (left + 1) word zero

theorem next_spec (selection : Selection) (row : Nat) :
    selection.Least (fun index => row ≤ index ∧ selection.contains index = true) (selection.next row) := by
  unfold next
  by_cases end_ : selection.nrows ≤ row
  · rw [if_pos end_]
    rintro index inside ⟨from_,_⟩
    omega
  · rw [if_neg end_]
    have same : (fun index => row ≤ index ∧ selection.contains index = true) =
        selection.Ahead (row / 64) (selection.words (row / 64) &&& (BitVec.allOnes 64 <<< (row % 64))) := by
      funext index
      apply propext
      simp only [Ahead,contains,BitVec.getLsbD_and,BitVec.getLsbD_shiftLeft,BitVec.getLsbD_allOnes,Bool.and_eq_true,
        decide_eq_true_eq,Bool.not_eq_true',decide_eq_false_iff_not]
      constructor
      · rintro ⟨above,set⟩
        by_cases here : index / 64 = row / 64
        · exact .inl ⟨here,by rw [← here]; exact set,⟨by omega,by omega⟩,by omega⟩
        · exact .inr ⟨by omega,set⟩
      · rintro (⟨here,set,⟨_,_⟩,_⟩ | ⟨above,set⟩)
        · exact ⟨by omega,by rw [here]; exact set⟩
        · exact ⟨by omega,set⟩
    rw [same]
    refine nextWord_spec selection _ _ _ ?_
    unfold nwords
    omega

theorem rowsFrom_none {selection : Selection} {row : Nat} (none_ : selection.next row = none) :
    selection.rowsFrom row = [] := by
  have spec := selection.next_spec row
  rw [none_] at spec
  apply List.eq_nil_iff_forall_not_mem.mpr
  intro index member
  obtain ⟨above,inside,set⟩ := mem_rowsFrom.mp member
  exact spec index inside ⟨above,set⟩

theorem rowsFrom_some {selection : Selection} {row found : Nat} (some_ : selection.next row = some found) :
    selection.rowsFrom row = found :: selection.rowsFrom (found + 1) ∧ row ≤ found ∧ found < selection.nrows := by
  have spec := selection.next_spec row
  rw [some_] at spec
  obtain ⟨inside,⟨above,set⟩,least⟩ := spec
  refine ⟨?_,above,inside⟩
  apply sorted_ext (selection.rowsFrom_sorted row)
  · refine List.pairwise_cons.mpr ⟨?_,selection.rowsFrom_sorted (found + 1)⟩
    intro index member
    exact (mem_rowsFrom.mp member).1
  · intro index
    simp only [List.mem_cons,mem_rowsFrom]
    constructor
    · rintro ⟨from_,selected⟩
      by_cases less : index < found
      · exact absurd ⟨from_,selected.2⟩ (least index less)
      · by_cases same : index = found
        · exact .inl same
        · exact .inr ⟨by omega,selected⟩
    · rintro (rfl | ⟨later,selected⟩)
      · exact ⟨above,inside,set⟩
      · exact ⟨by omega,selected⟩

theorem rowsFrom_self {selection : Selection} {row : Nat} (selected : selection.Selected row) :
    selection.rowsFrom row = row :: selection.rowsFrom (row + 1) := by
  obtain ⟨inside,set⟩ := selected_iff.mp selected
  obtain ⟨size,count⟩ : ∃ size, selection.nrows - row = size + 1 := ⟨selection.nrows - row - 1,by omega⟩
  have rest : selection.nrows - (row + 1) = size := by omega
  rw [rowsFrom,rowsFrom,count,rest,List.range'_succ,List.filter_cons_of_pos set]

/-- The rows from the next one on are the rows that are left. -/
theorem rowsFrom_next (selection : Selection) (row : Nat) :
    (selection.next row).elim [] selection.rowsFrom = selection.rowsFrom row := by
  cases found : selection.next row with
  | none => exact (rowsFrom_none found).symm
  | some next =>
    have rows := (rowsFrom_some found).1
    have member : next ∈ selection.rowsFrom row := by
      rw [rows]
      exact List.mem_cons_self ..
    exact (rowsFrom_self (mem_rowsFrom.mp member).2).trans rows.symm

@[simp] theorem clear_nrows (selection : Selection) (row : Nat) : (selection.clear row).nrows = selection.nrows := rfl

theorem contains_clear (selection : Selection) (row index : Nat) :
    (selection.clear row).contains index = (selection.contains index && decide (index ≠ row)) := by
  simp only [contains,clear,store]
  by_cases here : index / 64 = row / 64
  · rw [here,Function.update_self,BitVec.getLsbD_and,BitVec.getLsbD_not,getLsbD_bit]
    congr 1
    have small : index % 64 < 64 := Nat.mod_lt _ (by decide)
    simp only [small,decide_true,Bool.true_and,true_and,decide_not]
    congr 1
    rw [decide_eq_decide]
    omega
  · rw [Function.update_of_ne here]
    have apart : index ≠ row := fun same => here (same ▸ rfl)
    simp [apart]

theorem selected_clear {selection : Selection} {row index : Nat} :
    (selection.clear row).Selected index ↔ selection.Selected index ∧ index ≠ row := by
  rw [selected_iff,selected_iff,contains_clear,clear_nrows,Bool.and_eq_true,decide_eq_true_eq,and_assoc]

theorem rowsFrom_clear {selection : Selection} {row from_ : Nat} (before : row < from_) :
    (selection.clear row).rowsFrom from_ = selection.rowsFrom from_ := by
  apply sorted_ext (rowsFrom_sorted _ _) (rowsFrom_sorted _ _)
  intro index
  simp only [mem_rowsFrom,selected_clear]
  constructor
  · rintro ⟨above,selected,_⟩
    exact ⟨above,selected⟩
  · rintro ⟨above,selected⟩
    exact ⟨above,selected,by omega⟩

section Sift
variable {σ : Type} {keep : σ → Nat → Except String (σ × Bool)}

theorem siftRows_sublist {rows kept : List Nat} {state final : σ}
    (sifted : siftRows keep rows state = .ok (kept,final)) : kept.Sublist rows := by
  induction rows generalizing state kept with
  | nil =>
    cases sifted
    exact .slnil
  | cons row rest ih =>
    simp only [siftRows] at sifted
    obtain ⟨⟨next,held⟩,_,sifted⟩ := Results.bind_ok.mp sifted
    obtain ⟨⟨more,last⟩,rested,sifted⟩ := Results.bind_ok.mp sifted
    obtain ⟨rfl,rfl⟩ := Prod.mk.inj (Except.ok.inj sifted)
    have sublist := ih rested
    cases held with
    | true => exact sublist.cons_cons row
    | false => exact sublist.cons row

/-- The loop clears just the rows that are not kept, from `row` on. -/
theorem sift_spec {left row : Nat} {selection : Selection} {state final : σ} {kept : List Nat}
    (enough : selection.nrows ≤ row + left)
    (sifted : siftRows keep (selection.rowsFrom row) state = .ok (kept,final)) :
    ∃ after, sift keep left row selection state = .ok (after,final) ∧ after.nrows = selection.nrows ∧
      ∀ index, after.Selected index ↔ selection.Selected index ∧ (index < row ∨ index ∈ kept) := by
  induction left generalizing row selection state kept with
  | zero =>
    have empty : selection.rowsFrom row = [] := by
      simp [rowsFrom,Nat.sub_eq_zero_of_le (show selection.nrows ≤ row from enough)]
    rw [empty] at sifted
    cases sifted
    refine ⟨selection,rfl,rfl,fun index => ⟨fun selected => ⟨selected,.inl ?_⟩,And.left⟩⟩
    have := selected.1
    omega
  | succ left ih =>
    unfold sift
    cases found : selection.next row with
    | none =>
      rw [rowsFrom_none found] at sifted
      cases sifted
      refine ⟨selection,rfl,rfl,fun index => ⟨fun selected => ⟨selected,.inl ?_⟩,And.left⟩⟩
      by_contra above
      have member := mem_rowsFrom.mpr ⟨Nat.le_of_not_lt above,selected⟩
      rw [rowsFrom_none found] at member
      cases member
    | some index =>
      obtain ⟨rows,above,inside⟩ := rowsFrom_some found
      rw [rows] at sifted
      simp only [siftRows] at sifted
      obtain ⟨⟨next,held⟩,kept_,sifted⟩ := Results.bind_ok.mp sifted
      obtain ⟨⟨more,last⟩,rested,sifted⟩ := Results.bind_ok.mp sifted
      obtain ⟨rfl,rfl⟩ := Prod.mk.inj (Except.ok.inj sifted)
      have skipped {other : Nat} (between : row ≤ other) (less : other < index) : ¬ selection.Selected other := by
        intro selected
        have member := mem_rowsFrom.mpr ⟨between,selected⟩
        rw [rows] at member
        rcases List.mem_cons.mp member with same | later
        · omega
        · have := (mem_rowsFrom.mp later).1
          omega
      have later {other : Nat} (member : other ∈ more) : index < other :=
        (mem_rowsFrom.mp ((siftRows_sublist rested).subset member)).1
      simp only [kept_]
      cases held with
      | true =>
        obtain ⟨after,ran,size,selects⟩ := ih (by omega) rested
        refine ⟨after,ran,size,fun other => (selects other).trans (and_congr_right fun selected => ?_)⟩
        simp only [if_true,List.mem_cons]
        constructor
        · rintro (less | member)
          · by_cases same : other = index
            · exact .inr (.inl same)
            · exact .inl (by by_contra between; exact skipped (by omega) (by omega) selected)
          · exact .inr (.inr member)
        · rintro (less | rfl | member)
          · exact .inl (by omega)
          · exact .inl (by omega)
          · exact .inr member
      | false =>
        have rested' : siftRows keep ((selection.clear index).rowsFrom (index + 1)) next = .ok (more,last) := by
          rw [rowsFrom_clear (Nat.lt_succ_self index)]
          exact rested
        have enough' : (selection.clear index).nrows ≤ index + 1 + left := by
          rw [clear_nrows]
          omega
        obtain ⟨after,ran,size,selects⟩ := ih enough' rested'
        refine ⟨after,ran,size,fun other => (selects other).trans ?_⟩
        rw [selected_clear]
        simp only [Bool.false_eq_true,if_false]
        constructor
        · rintro ⟨⟨selected,apart⟩,less | member⟩
          · exact ⟨selected,.inl (by by_contra between; exact skipped (by omega) (by omega) selected)⟩
          · exact ⟨selected,.inr member⟩
        · rintro ⟨selected,less | member⟩
          · exact ⟨⟨selected,by omega⟩,.inl (by omega)⟩
          · have := later member
            exact ⟨⟨selected,by omega⟩,.inr member⟩

/-- The loop sets no bit. -/
theorem sift_less {left row : Nat} {selection after : Selection} {state final : σ}
    (sifted : sift keep left row selection state = .ok (after,final)) :
    after.nrows = selection.nrows ∧
      ∀ word index, (after.words word).getLsbD index = true → (selection.words word).getLsbD index = true := by
  induction left generalizing row selection state with
  | zero =>
    cases sifted
    exact ⟨rfl,fun _ _ => id⟩
  | succ left ih =>
    unfold sift at sifted
    cases found : selection.next row with
    | none =>
      simp only [found] at sifted
      cases sifted
      exact ⟨rfl,fun _ _ => id⟩
    | some here =>
      simp only [found] at sifted
      obtain ⟨⟨next,held⟩,_,sifted⟩ := Results.bind_ok.mp sifted
      obtain ⟨size,less⟩ := ih sifted
      cases held with
      | true => exact ⟨size,less⟩
      | false =>
        refine ⟨size,fun word index set => ?_⟩
        have kept := less word index set
        simp only [Bool.false_eq_true,if_false,clear,store] at kept
        by_cases same : word = here / 64
        · subst same
          rw [Function.update_self,BitVec.getLsbD_and,Bool.and_eq_true] at kept
          exact kept.1
        · rw [Function.update_of_ne same] at kept
          exact kept

theorem sift_clean {left row : Nat} {selection after : Selection} {state final : σ} (clean : selection.Clean)
    (sifted : sift keep left row selection state = .ok (after,final)) : after.Clean :=
  clean.sub (sift_less sifted).1 (sift_less sifted).2

/-- The whole loop leaves just the rows that it keeps. -/
theorem sift_visits {selection : Selection} {state final : σ} {kept : List Nat}
    (sifted : siftRows keep selection.visits state = .ok (kept,final)) :
    ∃ after, sift keep selection.nrows 0 selection state = .ok (after,final) ∧ after.nrows = selection.nrows ∧
      after.visits = kept := by
  have sublist := siftRows_sublist sifted
  have sorted := selection.visits_sorted.sublist sublist
  rw [visits_eq] at sifted sublist
  obtain ⟨after,ran,size,selects⟩ := sift_spec (Nat.le_add_left selection.nrows 0) sifted
  refine ⟨after,ran,size,sorted_ext after.visits_sorted sorted ?_⟩
  intro index
  rw [mem_visits,selects]
  constructor
  · rintro ⟨_,less | member⟩
    · omega
    · exact member
  · intro member
    exact ⟨(mem_rowsFrom.mp (sublist.subset member)).2,.inr member⟩

end Sift

end PgBatch.Selection
