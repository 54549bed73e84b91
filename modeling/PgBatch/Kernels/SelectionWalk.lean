import PgBatch.Kernels.Selection

/-! Walking a selection from `-1` with a body that may clear the row it was
given, as the row filter and the limit node do. -/
namespace PgBatch.Selection
variable {σ : Type}

/-- `pg_batch_selection_next` with its `int` rows. -/
def nextAfter (selection : Selection) (previous : Int) : Int :=
  match selection.next (previous + 1).toNat with
  | some row => row
  | none => -1

/-- `while ((row = pg_batch_selection_next (selection, row)) >= 0)` around a body that clears the row or
leaves it: the visited rows and what is left. `none` when the rounds do not reach the end. -/
def walk (body : σ → Nat → σ × Bool) : Nat → Int → Selection → σ → Option (List Nat × Selection × σ)
  | 0, _, _, _ => none
  | rounds + 1, previous, selection, state =>
    if selection.nextAfter previous < 0 then some ([],selection,state)
    else
      let row := (selection.nextAfter previous).toNat
      (walk body rounds row (if (body state row).2 then selection.clear row else selection) (body state row).1).map
        fun (visited,rest) => (row :: visited,rest)

/-- The rows that the body clears when it is run over them in turn. -/
def cleared (body : σ → Nat → σ × Bool) : List Nat → σ → List Nat
  | [], _ => []
  | row :: rest, state => (if (body state row).2 then [row] else []) ++ cleared body rest (body state row).1

theorem nextAfter_none {selection : Selection} {row : Nat} (found : selection.next row = none) :
    selection.nextAfter ((row : Int) - 1) = -1 := by
  rw [nextAfter,Int.sub_add_cancel,Int.toNat_natCast,found]

theorem nextAfter_some {selection : Selection} {row next : Nat} (found : selection.next row = some next) :
    selection.nextAfter ((row : Int) - 1) = next := by
  rw [nextAfter,Int.sub_add_cancel,Int.toNat_natCast,found]

/-- From any row on: what a round clears is behind it, so the rows that are left do not change. -/
theorem walk_from (body : σ → Nat → σ × Bool) {rounds row : Nat} {selection : Selection} (state : σ)
    (enough : (selection.rowsFrom row).length < rounds) :
    ∃ after, walk body rounds ((row : Int) - 1) selection state =
        some (selection.rowsFrom row,after,(selection.rowsFrom row).foldl (fun state row => (body state row).1) state) ∧
      after.nextAfter ((selection.rowsFrom row).getLast?.elim ((row : Int) - 1) Int.ofNat) = -1 ∧
      ∀ index, after.Selected index ↔
        selection.Selected index ∧ index ∉ cleared body (selection.rowsFrom row) state := by
  induction rounds generalizing row selection state with
  | zero => exact absurd enough (Nat.not_lt_zero _)
  | succ rounds ih =>
    unfold walk
    cases found : selection.next row with
    | none =>
      rw [nextAfter_none found,if_pos (by omega),rowsFrom_none found]
      exact ⟨selection,rfl,nextAfter_none found,fun index => by simp [cleared]⟩
    | some next =>
      obtain ⟨rows,_,_⟩ := rowsFrom_some found
      rw [nextAfter_some found,if_neg (by omega),rows]
      simp only [Int.toNat_natCast]
      have step : (next : Int) = ((next + 1 : Nat) : Int) - 1 := by omega
      have last : (next :: selection.rowsFrom (next + 1)).getLast?.elim ((row : Int) - 1) Int.ofNat =
          (selection.rowsFrom (next + 1)).getLast?.elim (((next + 1 : Nat) : Int) - 1) Int.ofNat := by
        rw [List.getLast?_cons,← step]
        cases (selection.rowsFrom (next + 1)).getLast? <;> rfl
      have fewer : (selection.rowsFrom (next + 1)).length < rounds := by
        rw [rows,List.length_cons] at enough
        omega
      rw [last]
      cases clears : (body state next).2 with
      | false =>
        obtain ⟨after,ran,ended,selects⟩ := ih (body state next).1 fewer
        refine ⟨after,?_,ended,?_⟩
        · rw [if_neg (by simp),step,ran]
          rfl
        · intro index
          rw [selects,cleared,clears]
          simp
      | true =>
        have same : (selection.clear next).rowsFrom (next + 1) = selection.rowsFrom (next + 1) :=
          rowsFrom_clear (Nat.lt_succ_self next)
        rw [← same] at fewer
        obtain ⟨after,ran,ended,selects⟩ := ih (body state next).1 fewer
        rw [same] at ran ended selects
        refine ⟨after,?_,ended,?_⟩
        · rw [if_pos rfl,step,ran]
          rfl
        · intro index
          rw [selects,selected_clear,cleared,clears,and_assoc]
          simp

/-- The body as the nodes have it: it may fail, and it says whether the row is kept. -/
def keeping (body : σ → Nat → σ × Bool) (state : σ) (row : Nat) : Except String (σ × Bool) :=
  .ok ((body state row).1,!(body state row).2)

/-- The loop of the row filter and of the limit node goes the same way. -/
theorem sift_walk {body : σ → Nat → σ × Bool} {rounds row : Nat} {selection after : Selection} {state final : σ}
    {visited : List Nat}
    (ran : walk body (rounds + 1) ((row : Int) - 1) selection state = some (visited,after,final)) :
    sift (keeping body) rounds row selection state = .ok (after,final) := by
  induction rounds generalizing row selection state visited with
  | zero =>
    unfold walk at ran
    split at ran
    · cases ran
      rfl
    · cases ran
  | succ rounds ih =>
    unfold walk at ran
    unfold sift
    cases found : selection.next row with
    | none =>
      rw [nextAfter_none found,if_pos (by omega)] at ran
      cases ran
      rfl
    | some next =>
      rw [nextAfter_some found,if_neg (by omega)] at ran
      simp only [Int.toNat_natCast] at ran
      obtain ⟨⟨later,left⟩,rest,same⟩ := Option.map_eq_some_iff.mp ran
      cases same
      have step : (next : Int) = ((next + 1 : Nat) : Int) - 1 := by omega
      rw [step] at rest
      have sifted := ih rest
      simp only [keeping]
      cases clears : (body state next).2 with
      | false =>
        rw [clears] at sifted
        exact sifted
      | true =>
        rw [clears] at sifted
        exact sifted

/-- Called from `-1` on, also around a body that clears the row just visited, the step visits just the set
bits below `nrows`, in ascending order, and returns `-1` behind the last of them. -/
theorem selection_iterates (selection : Selection) (body : σ → Nat → σ × Bool) (state : σ) :
    ∃ visited after final, walk body (selection.nrows + 1) (-1) selection state = some (visited,after,final) ∧
      sift (keeping body) selection.nrows 0 selection state = .ok (after,final) ∧
      visited.Pairwise (· < ·) ∧
      (∀ row, row ∈ visited ↔ row < selection.nrows ∧ selection.contains row = true) ∧
      after.nextAfter (visited.getLast?.elim (-1) Int.ofNat) = -1 ∧
      ∀ row, after.Selected row ↔ selection.Selected row ∧ row ∉ cleared body visited state := by
  have enough : (selection.rowsFrom 0).length < selection.nrows + 1 := by
    have most : (selection.rowsFrom 0).length ≤ selection.nrows - 0 :=
      (List.length_filter_le ..).trans_eq (List.length_range' ..)
    omega
  obtain ⟨after,ran,ended,selects⟩ := walk_from body state enough
  refine ⟨_,after,_,ran,sift_walk ran,selection.rowsFrom_sorted 0,?_,ended,selects⟩
  intro row
  rw [mem_rowsFrom,selected_iff]
  simp

end PgBatch.Selection
