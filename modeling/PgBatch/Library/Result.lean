import Mathlib.Tactic.Push

/-! Computations that may fail, compared up to the error they report. -/
namespace Results

/-- A bind that succeeds, taken apart. -/
theorem bind_ok {α β : Type} {first : Except String α} {rest : α → Except String β} {result : β} :
    (first >>= rest) = .ok result ↔ ∃ value, first = .ok value ∧ rest value = .ok result := by
  cases first with
  | error message => exact ⟨by rintro ⟨⟩,by rintro ⟨_,⟨⟩,_⟩⟩
  | ok value => exact ⟨fun ran => ⟨value,rfl,ran⟩,by rintro ⟨_,⟨⟩,ran⟩; exact ran⟩

/-- What every step keeps, a loop keeps. -/
theorem foldlM_keeps {σ α : Type} {step : σ → α → Except String σ} (Kept : σ → Prop)
    (each : ∀ before item after, step before item = .ok after → Kept before → Kept after) {items : List α}
    {first last : σ} (ran : items.foldlM step first = .ok last) (start : Kept first) : Kept last := by
  induction items generalizing first with
  | nil =>
    cases ran
    exact start
  | cons item rest ih =>
    rw [List.foldlM_cons] at ran
    obtain ⟨middle,one,others⟩ := bind_ok.mp ran
    exact ih others (each _ _ _ one start)

/-- A loop fails as one of its steps fails. -/
theorem foldlM_fails {σ α : Type} {step : σ → α → Except String σ} (Refusal : String → Prop)
    (each : ∀ before item message, step before item = .error message → Refusal message) {items : List α} {first : σ}
    {message : String} (failed : items.foldlM step first = .error message) : Refusal message := by
  induction items generalizing first with
  | nil => cases failed
  | cons item rest ih =>
    rw [List.foldlM_cons] at failed
    cases one : step first item with
    | error other =>
      rw [one] at failed
      cases failed
      exact each _ _ _ one
    | ok middle =>
      rw [one] at failed
      exact ih failed

/-- The rule of a loop over a list: the invariant speaks of the items already done. -/
theorem foldlM_rule {σ α : Type} {step : σ → α → Except String σ} (Inv : List α → σ → Prop) {items : List α}
    {first : σ} (start : Inv [] first)
    (each : ∀ done item rest state, items = done ++ item :: rest → Inv done state →
      ∃ next, step state item = .ok next ∧ Inv (done ++ [item]) next) :
    ∃ last, items.foldlM step first = .ok last ∧ Inv items last := by
  have from_ (done rest : List α) (state : σ) (split : items = done ++ rest) (inv : Inv done state) :
      ∃ last, rest.foldlM step state = .ok last ∧ Inv items last := by
    induction rest generalizing done state with
    | nil =>
      rw [List.append_nil] at split
      exact ⟨state,rfl,split ▸ inv⟩
    | cons item rest ih =>
      obtain ⟨next,ran,inv'⟩ := each done item rest state split inv
      obtain ⟨last,others,inv''⟩ := ih (done ++ [item]) next (by rw [split]; simp) inv'
      exact ⟨last,by rw [List.foldlM_cons,ran]; exact others,inv''⟩
  exact from_ [] items first rfl start

/-- A loop succeeds if all its steps do. -/
theorem foldlM_total {σ α : Type} {step : σ → α → Except String σ} {items : List α}
    (each : ∀ state, ∀ item ∈ items, ∃ next, step state item = .ok next) (first : σ) :
    ∃ last, items.foldlM step first = .ok last := by
  induction items generalizing first with
  | nil => exact ⟨first,rfl⟩
  | cons item rest ih =>
    obtain ⟨next,ran⟩ := each first item (List.mem_cons_self ..)
    rw [List.foldlM_cons,ran]
    exact ih (fun state other member => each state other (List.mem_cons_of_mem _ member)) next

/-- A map over a list keeps its places. -/
theorem mapM_ok {α β : Type} {step : α → Except String β} {items : List α} {results : List β}
    (ran : items.mapM step = .ok results) : results.length = items.length ∧
      ∀ (index : Nat) item result, items[index]? = some item → results[index]? = some result → step item = .ok result := by
  induction items generalizing results with
  | nil =>
    cases ran
    exact ⟨rfl,fun _ _ _ found => (by cases found)⟩
  | cons first rest ih =>
    rw [List.mapM_cons] at ran
    obtain ⟨head,one,others⟩ := bind_ok.mp ran
    obtain ⟨tail,more,done⟩ := bind_ok.mp others
    cases done
    obtain ⟨length,each⟩ := ih more
    refine ⟨by rw [List.length_cons,length,List.length_cons],fun index item result found among => ?_⟩
    cases index with
    | zero =>
      cases found
      cases among
      exact one
    | succ index => exact each index item result found among

theorem not_ok {α : Type} {result : Except String α} :
    (¬ ∃ value, result = .ok value) ↔ ∃ message, result = .error message := by
  cases result with
  | error message => exact ⟨fun _ => ⟨message,rfl⟩,by rintro _ ⟨_,⟨⟩⟩⟩
  | ok value => exact ⟨fun none => absurd ⟨value,rfl⟩ none,by rintro ⟨_,⟨⟩⟩⟩

/-- A computation over many items that succeeds exactly when each of them does. -/
theorem fails_iff {ι α β : Type} {whole : Except String α} {items : ι → Prop} {each : ι → Except String β}
    (succeeds : (∃ result, whole = .ok result) ↔ ∀ item, items item → ∃ value, each item = .ok value) :
    (∃ message, whole = .error message) ↔ ∃ item, items item ∧ ∃ message, each item = .error message := by
  simp only [← not_ok,succeeds]
  push Not
  exact Iff.rfl

/-- Both give the same value, or both fail. -/
def Agree {α : Type} (left right : Except String α) : Prop :=
  ∀ value, left = .ok value ↔ right = .ok value

namespace Agree
variable {α β : Type} {left right : Except String α}

theorem refl (result : Except String α) : Agree result result := fun _ => Iff.rfl

theorem trans {last : Except String α} (first : Agree left right) (second : Agree right last) : Agree left last :=
  fun value => (first value).trans (second value)

theorem symm (agree : Agree left right) : Agree right left := fun value => (agree value).symm

theorem bind_left (agree : Agree left right) (rest : α → Except String β) :
    Agree (left >>= rest) (right >>= rest) := by
  intro value
  cases left with
  | error message =>
    cases right with
    | error other => exact ⟨by rintro ⟨⟩,by rintro ⟨⟩⟩
    | ok result => exact absurd ((agree result).mpr rfl) (by rintro ⟨⟩)
  | ok result => rw [(agree result).mp rfl]

theorem bind_right {rest others : α → Except String β} (agree : ∀ value, Agree (rest value) (others value)) :
    Agree (left >>= rest) (left >>= others) := by
  cases left with
  | error message => exact refl _
  | ok result => exact agree result

/-- Two computations may change places. -/
theorem comm (first : Except String α) (second : Except String β) {γ : Type} (rest : α → β → Except String γ) :
    Agree (first >>= fun left => second >>= fun right => rest left right)
      (second >>= fun right => first >>= fun left => rest left right) := by
  cases first with
  | ok left => exact refl _
  | error message =>
    cases second with
    | ok right => exact refl _
    | error other => exact fun _ => ⟨by rintro ⟨⟩,by rintro ⟨⟩⟩

end Agree

/-- The left one fails for an allowed reason, or both succeed with related results. -/
def Follows {α β : Type} (Refusal : String → Prop) (related : α → β → Prop) (left : Except String α)
    (right : Except String β) : Prop :=
  (∃ message, left = .error message ∧ Refusal message) ∨
    ∃ value other, left = .ok value ∧ right = .ok other ∧ related value other

namespace Follows
variable {α β γ δ : Type} {Refusal : String → Prop} {related : α → β → Prop} {related' : γ → δ → Prop}

theorem ok {value : α} {other : β} (same : related value other) : Follows Refusal related (.ok value) (.ok other) :=
  .inr ⟨value,other,rfl,rfl,same⟩

theorem bind {left : Except String α} {right : Except String β} {rest : α → Except String γ}
    {others : β → Except String δ} (first : Follows Refusal related left right)
    (next : ∀ value other, related value other → Follows Refusal related' (rest value) (others other)) :
    Follows Refusal related' (left >>= rest) (right >>= others) := by
  rcases first with ⟨message,failed,allowed⟩ | ⟨value,other,one,two,same⟩
  · exact .inl ⟨message,by rw [failed]; rfl,allowed⟩
  · rw [one,two]
    exact next value other same

theorem foldlM {σ τ ι : Type} {related : σ → τ → Prop} {step : σ → ι → Except String σ} {step' : τ → ι → Except String τ}
    {items : List ι} (each : ∀ state other, ∀ item ∈ items, related state other →
      Follows Refusal related (step state item) (step' other item)) {state : σ} {other : τ} (start : related state other) :
    Follows Refusal related (items.foldlM step state) (items.foldlM step' other) := by
  induction items generalizing state other with
  | nil => exact ok start
  | cons item rest ih =>
    rw [List.foldlM_cons,List.foldlM_cons]
    exact bind (each state other item (List.mem_cons_self ..) start) fun _ _ same =>
      ih (fun state other item member => each state other item (List.mem_cons_of_mem _ member)) same

end Follows

end Results
