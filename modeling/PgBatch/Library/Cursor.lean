import Mathlib.Data.List.Basic

/-! Records read field by field: where a field lies, when some places are known ahead and
the others follow from the field before, and readers that keep their place between calls, up
to the last one. -/
namespace Cursors
variable {α σ β : Type}

/-- The place behind the first fields of a record. -/
def position (known : Nat → Option α) (step : Nat → α → α) (start : α) : Nat → α
  | 0 => start
  | field+1 => (known field).getD (step field (position known step start field))

theorem position_known {known : Nat → Option α} {step : Nat → α → α} {start place : α} {field : Nat}
    (ahead : known field = some place) : position known step start (field + 1) = place := by
  simp [position,ahead]

theorem position_step {known : Nat → Option α} {step : Nat → α → α} {start : α} {field : Nat}
    (unknown : known field = none) :
    position known step start (field + 1) = step field (position known step start field) := by
  simp [position,unknown]

/-- The answers of a reader that is asked for one field after the other. -/
def reads (read : σ → Nat → σ × β) : σ → List Nat → List β
  | _, [] => []
  | state, target :: targets => (read state target).2 :: reads read (read state target).1 targets

/-- A reader whose place is right for every field it has passed answers each of an
increasing list of fields as if it had been asked for that one only. -/
theorem reads_eq_map {read : σ → Nat → σ × β} (At : σ → Nat → Prop) {value : Nat → β}
    (forward : ∀ state mark target, At state mark → mark < target →
      (read state target).2 = value target ∧ At (read state target).1 target)
    {targets : List Nat} {state : σ} {mark : Nat} (here : At state mark)
    (increasing : (mark :: targets).Pairwise (· < ·)) :
    reads read state targets = targets.map value := by
  induction targets generalizing state mark with
  | nil => rfl
  | cons target targets ih =>
    obtain ⟨above,increasing⟩ := List.pairwise_cons.mp increasing
    obtain ⟨answer,here⟩ := forward state mark target here (above target (List.mem_cons_self ..))
    rw [reads,answer,List.map_cons,ih here increasing]

/-- A filler that leaves its place right for the next call ends as it does in one call. -/
theorem foldl_at {extend : σ → Nat → σ} (At : σ → Nat → Prop)
    (forward : ∀ state mark target, At state mark → mark < target → At (extend state target) target)
    {targets : List Nat} {last : Nat} {state : σ} {mark : Nat} (here : At state mark)
    (increasing : (mark :: (targets ++ [last])).Pairwise (· < ·)) :
    At ((targets ++ [last]).foldl extend state) last := by
  induction targets generalizing state mark with
  | nil => exact forward state mark last here (by simpa using increasing)
  | cons target targets ih =>
    obtain ⟨above,increasing⟩ := List.pairwise_cons.mp increasing
    exact ih (forward state mark target here (above target (List.mem_cons_self ..))) increasing

/-- The answers of a source that is asked until it has no more. -/
inductive Drains {ε : Type} (next : σ → Except ε (σ × Option β)) : σ → List β → σ → Prop
  | ended (before after) (ran : next before = .ok (after,none)) : Drains next before [] after
  | answered (before middle after answer answers) (ran : next before = .ok (middle,some answer))
      (rest : Drains next middle answers after) : Drains next before (answer :: answers) after

/-- `Left` says what a source has left; each answer shows the next items of it. -/
structure Serves {ε ι : Type} (next : σ → Except ε (σ × Option β)) (Left : σ → List ι → Prop) (shows : β → List ι) :
    Prop where
  ended : ∀ before after items, Left before items → next before = .ok (after,none) → items = []
  answered : ∀ before after items answer, Left before items → next before = .ok (after,some answer) →
    shows answer ≠ [] ∧ ∃ later, items = shows answer ++ later ∧ Left after later

namespace Serves
variable {ε ι : Type} {next : σ → Except ε (σ × Option β)} {Left : σ → List ι → Prop} {shows : β → List ι}

/-- The answers show what was left, in its order and once each, and none shows nothing. -/
theorem drained (serves : Serves next Left shows) {before after : σ} {answers : List β}
    (drains : Drains next before answers after) {items : List ι} (left : Left before items) :
    answers.flatMap shows = items ∧ ∀ answer ∈ answers, shows answer ≠ [] := by
  induction drains generalizing items with
  | ended before after ran => exact ⟨(serves.ended before after items left ran).symm,by simp⟩
  | answered before middle after answer answers ran _ ih =>
    obtain ⟨some_,later,split,left'⟩ := serves.answered before middle items answer left ran
    obtain ⟨rest,others⟩ := ih left'
    exact ⟨by rw [List.flatMap_cons,rest,split],List.forall_mem_cons.mpr ⟨some_,others⟩⟩

/-- A source that never fails comes to its end. -/
theorem drains (serves : Serves next Left shows) (runs : ∀ before items, Left before items → ∃ result, next before = .ok result)
    {before : σ} {items : List ι} (left : Left before items) : ∃ answers after, Drains next before answers after := by
  induction size : items.length using Nat.strongRecOn generalizing before items with
  | _ count ih =>
    obtain ⟨⟨after,result⟩,ran⟩ := runs before items left
    cases result with
    | none => exact ⟨[],after,.ended before after ran⟩
    | some answer =>
      obtain ⟨some_,later,split,left'⟩ := serves.answered before after items answer left ran
      have fewer : later.length < count := by
        have shown := List.length_pos_of_ne_nil some_
        rw [← size,split,List.length_append]
        omega
      obtain ⟨answers,last,rest⟩ := ih later.length fewer left' rfl
      exact ⟨answer :: answers,last,.answered before after last answer answers ran rest⟩

/-- What every answer keeps may be asked for besides. -/
theorem and (serves : Serves next Left shows) (Also : σ → Prop)
    (kept : ∀ before after items result, Left before items → next before = .ok (after,result) → Also before → Also after) :
    Serves next (fun state items => Left state items ∧ Also state) shows where
  ended := fun before after items both ran => serves.ended before after items both.1 ran
  answered := by
    intro before after items answer both ran
    obtain ⟨some_,later,split,left⟩ := serves.answered before after items answer both.1 ran
    exact ⟨some_,later,split,left,kept before after items _ both.1 ran both.2⟩

end Serves

end Cursors
