import PgBatch.Bridge.Lifecycle
import PgBatch.Library.Result
import Mathlib.Data.List.Nodup

/-! What a step does to who holds which batch, and the runs in which a batch has one
holder: those that never clear a binding behind the back of the next holder. -/
namespace PgBatch.Bridge
variable {β κ : Type}

/-- The batch of a binding, and whether it is finished. -/
def State.held (state : State β κ) (id : β) : Option (κ × Bool) :=
  (state.bindings id).bind fun binding => binding.batch.map fun key => (key,binding.finished)

def State.generation (state : State β κ) (key : κ) : BitVec 64 :=
  (state.batches key).generation

theorem active_iff {state : State β κ} {id : β} {key : κ} :
    state.Active id key ↔ state.held id = some (key,false) := by
  unfold State.Active State.held
  cases state.bindings id with
  | none => simp
  | some binding => cases found : binding.batch <;> simp [found]

theorem held_attached {state : State β κ} {id : β} {binding : Binding κ} (attached : state.bindings id = some binding) :
    state.held id = binding.batch.map fun key => (key,binding.finished) := by
  rw [State.held,attached]
  rfl

section Steps
variable [DecidableEq β] [DecidableEq κ]

omit [DecidableEq κ] in
theorem held_update (state : State β κ) (bindings : β → Option (Binding κ)) (id : β) (binding : Option (Binding κ))
    (same : bindings = Function.update state.bindings id binding) (batches : κ → Batch) (next : BitVec 64) :
    (State.mk bindings batches next).held =
      Function.update state.held id (binding.bind fun binding => binding.batch.map fun key => (key,binding.finished)) := by
  subst same
  funext other
  by_cases here : other = id
  · subst here
    simp [State.held]
  · simp [State.held,here]

theorem generation_update (batches : κ → Batch) (key : κ) (batch : Batch) (other : κ) :
    (Function.update batches key batch other).generation =
      Function.update (fun key => (batches key).generation) key batch.generation other := by
  by_cases here : other = key
  · subst here
    simp
  · simp [here]

/-- What an accepted step does, as far as holders, generations and histories go. -/
inductive Effect (before : System β κ) : Action β κ → System β κ → Prop
  | publishes {id : β} {key : κ} {after : System β κ} {generation : BitVec 64} (free : before.state.held id = none)
      (fresh : before.state.generation key = 0#64)
      (next : nextGeneration before.state.nextBatchGeneration = .ok (generation,after.state.nextBatchGeneration))
      (held : after.state.held = Function.update before.state.held id (some (key,false)))
      (generations : after.state.generation = Function.update before.state.generation key generation)
      (published : after.published = before.published + 1)
      (publication : after.publication = Function.update before.publication id (before.published + 1))
      (releases : after.releases = before.releases) (views : after.views = before.views) :
      Effect before (.publish id key) after
  | finishes {id : β} {key : κ} {after : System β κ} (active : before.state.held id = some (key,false))
      (held : after.state.held = Function.update before.state.held id (some (key,true)))
      (generations : after.state.generation = Function.update before.state.generation key 0#64)
      (next : after.state.nextBatchGeneration = before.state.nextBatchGeneration)
      (published : after.published = before.published) (publication : after.publication = before.publication)
      (releases : after.releases = before.releases) (views : after.views = before.views) :
      Effect before (.finish id) after
  | drops {id : β} {key : κ} {finished : Bool} {action : Action β κ} {after : System β κ}
      (dropping : action = .clear id ∨ action = .detach id) (holds : before.state.held id = some (key,finished))
      (held : after.state.held = Function.update before.state.held id none)
      (generations : after.state.generation = Function.update before.state.generation key 0#64)
      (next : after.state.nextBatchGeneration = before.state.nextBatchGeneration)
      (published : after.published = before.published) (publication : after.publication = before.publication)
      (releases : after.releases = before.releases ∨ after.releases = before.released id (some key))
      (views : after.views = before.views) : Effect before action after
  | views {id : β} {key : κ} {structSize : Nat} (active : before.state.held id = some (key,false)) :
      Effect before (.getRowView id structSize) {before with
        views := (⟨structSize,id,some key,before.state.generation key⟩,before.publication id) :: before.views}
  | quiet {action : Action β κ} {after : System β κ} (held : after.state.held = before.state.held)
      (generations : after.state.generation = before.state.generation)
      (next : after.state.nextBatchGeneration = before.state.nextBatchGeneration)
      (published : after.published = before.published) (publication : after.publication = before.publication)
      (releases : after.releases = before.releases) (views : after.views = before.views) : Effect before action after

omit [DecidableEq κ] in
/-- A published batch had generation zero. -/
theorem checkBatch_fresh {binding : Binding κ} {batch : Batch} (passed : checkBatch binding batch = .ok ()) :
    batch.generation = 0#64 := by
  obtain ⟨_,_,passed⟩ := Results.bind_ok.mp passed
  dsimp only at passed
  split at passed
  · split at passed
    · cases passed
    · split at passed
      · cases passed
      · rename_i free
        exact not_not.mp free
  · cases passed

/-- Clearing and detaching have the same effect on what a binding holds. -/
theorem releaseBatch_effect {before : System β κ} {id : β} {binding : Binding κ}
    (attached : before.state.bindings id = some binding) {action : Action β κ}
    (dropping : action = .clear id ∨ action = .detach id) {after : State β κ} {released : Option κ}
    (bindings : ∀ key finished, binding.batch = some key → binding.finished = finished →
      after.held = Function.update before.state.held id none ∧
        after.generation = Function.update before.state.generation key 0#64 ∧
        (released = none ∨ released = some key))
    (none : binding.batch = none →
      after.held = before.state.held ∧ after.generation = before.state.generation ∧ released = none)
    (next : after.nextBatchGeneration = before.state.nextBatchGeneration) :
    Effect before action {before with state := after, releases := before.released id released} := by
  cases holds : binding.batch with
  | none =>
    obtain ⟨held,generations,rfl⟩ := none holds
    exact .quiet held generations next rfl rfl rfl rfl
  | some key =>
    obtain ⟨held,generations,call⟩ := bindings key binding.finished holds rfl
    refine .drops dropping (by rw [held_attached attached,holds]; rfl) held generations next rfl rfl ?_ rfl
    rcases call with rfl | rfl
    · exact .inl rfl
    · exact .inr rfl

theorem Step.effect {before after : System β κ} {action : Action β κ} (step : Step before action after) :
    Effect before action after := by
  cases step with
  | @publish id key binding state attached ran =>
    unfold publishBatch at ran
    split at ran
    · cases ran
    · rename_i empty
      have none : binding.batch = none := by simpa using empty
      obtain ⟨_,checked,ran⟩ := Results.bind_ok.mp ran
      obtain ⟨⟨generation,next⟩,issued,ran⟩ := Results.bind_ok.mp ran
      cases ran
      refine .publishes (by rw [held_attached attached,none]; rfl) (checkBatch_fresh checked) issued ?_ ?_ rfl rfl rfl rfl
      · exact held_update before.state _ id _ rfl _ _
      · exact funext fun other => generation_update before.state.batches key _ other
  | selectRow => exact .quiet rfl rfl rfl rfl rfl rfl rfl
  | @getRowView id structSize binding view attached ran =>
    unfold Bridge.getRowView at ran
    split at ran
    · cases ran
    · split at ran
      · cases ran
      · rename_i key found
        split at ran
        · cases ran
        · rename_i unfinished
          cases ran
          have open_ : binding.finished = false := by simpa using unfinished
          exact .views (by rw [held_attached attached,found,Option.map_some,open_])
  | @finish id binding state attached ran =>
    unfold Bridge.finish at ran
    split at ran
    · cases ran
    · rename_i key found
      split at ran
      · cases ran
      · rename_i unfinished
        cases ran
        have open_ : binding.finished = false := by simpa using unfinished
        refine .finishes (by rw [held_attached attached,found,Option.map_some,open_]) ?_ ?_ rfl rfl rfl rfl rfl
        · rw [held_update before.state _ id _ rfl,Option.bind_some,found]
          rfl
        · exact funext fun other => generation_update before.state.batches key _ other
  | @clear id binding attached =>
    refine releaseBatch_effect attached (.inl rfl) ?_ ?_ ?_
    · intro key finished holds _
      simp only [Bridge.clear,releaseBatch,holds]
      refine ⟨held_update before.state _ id _ rfl _ _,funext fun other => generation_update before.state.batches key _ other,?_⟩
      split <;> simp
    · intro empty
      simp [Bridge.clear,releaseBatch,empty]
    · cases found : binding.batch <;> simp [Bridge.clear,releaseBatch,found]
  | @detach id binding attached =>
    refine releaseBatch_effect attached (.inr rfl) ?_ ?_ ?_
    · intro key finished holds _
      simp only [detachBinding,releaseBatch,holds]
      refine ⟨?_,funext fun other => generation_update before.state.batches key _ other,?_⟩
      · exact held_update before.state _ id none (by rw [Function.update_idem]) _ _
      · split <;> simp
    · intro empty
      simp only [detachBinding,releaseBatch,empty]
      refine ⟨?_,rfl,trivial⟩
      rw [held_update before.state _ id none rfl]
      funext other
      by_cases here : other = id
      · subst here
        rw [Function.update_self,held_attached attached,empty]
        rfl
      · rw [Function.update_of_ne here]
    · cases found : binding.batch <;> simp [detachBinding,releaseBatch,found]
  | touch key selection =>
    refine .quiet rfl ?_ rfl rfl rfl rfl rfl
    funext other
    refine (generation_update before.state.batches key _ other).trans ?_
    by_cases here : other = key
    · subst here
      simp [State.generation]
    · simp [here,State.generation]

/-- The publications that are still held, and those that were released. -/
structure Numbered (system : System β κ) : Prop where
  below : ∀ id entry, system.state.held id = some entry → system.publication id ≤ system.published
  apart : ∀ left right one two, system.state.held left = some one → system.state.held right = some two →
    system.publication left = system.publication right → left = right
  past : ∀ call ∈ system.releases, call.publication ≤ system.published
  kept : ∀ id entry, system.state.held id = some entry → ∀ call ∈ system.releases,
    call.publication ≠ system.publication id
  once : (system.releases.map ReleaseCall.publication).Nodup

omit [DecidableEq β] [DecidableEq κ] in
/-- `Numbered` looks at nothing but the holders and the history. -/
theorem Numbered.of_held {before after : System β κ} (numbered : Numbered before)
    (held : ∀ id entry, after.state.held id = some entry → ∃ entry, before.state.held id = some entry)
    (published : after.published = before.published) (publication : after.publication = before.publication)
    (releases : after.releases = before.releases) : Numbered after := by
  refine ⟨?_,?_,?_,?_,releases ▸ numbered.once⟩
  · intro id entry found
    obtain ⟨_,old⟩ := held id entry found
    rw [published,publication]
    exact numbered.below id _ old
  · intro left right one two first second same
    obtain ⟨_,old⟩ := held left one first
    obtain ⟨_,old'⟩ := held right two second
    rw [publication] at same
    exact numbered.apart left right _ _ old old' same
  · rw [releases,published]
    exact numbered.past
  · intro id entry found
    obtain ⟨_,old⟩ := held id entry found
    rw [releases,publication]
    exact numbered.kept id _ old

theorem Effect.numbered {before after : System β κ} {action : Action β κ} (effect : Effect before action after)
    (numbered : Numbered before) : Numbered after := by
  cases effect with
  | @publishes id key after generation free fresh next held generations published publication releases views =>
    have old {other : β} {entry : κ × Bool} (found : after.state.held other = some entry) (apart : other ≠ id) :
        before.state.held other = some entry := by
      rwa [held,Function.update_of_ne apart] at found
    have number (other : β) (apart : other ≠ id) : after.publication other = before.publication other := by
      rw [publication,Function.update_of_ne apart]
    have here : after.publication id = before.published + 1 := by rw [publication,Function.update_self]
    refine ⟨?_,?_,?_,?_,releases ▸ numbered.once⟩
    · intro other entry found
      by_cases same : other = id
      · rw [same,here,published]
      · rw [number other same,published]
        exact (numbered.below other entry (old found same)).trans (Nat.le_succ _)
    · intro left right one two first second same
      by_cases one_ : left = id <;> by_cases two_ : right = id
      · rw [one_,two_]
      · rw [one_,here,number right two_] at same
        have bound := numbered.below right two (old second two_)
        omega
      · rw [two_,here,number left one_] at same
        have bound := numbered.below left one (old first one_)
        omega
      · rw [number left one_,number right two_] at same
        exact numbered.apart left right one two (old first one_) (old second two_) same
    · rw [releases,published]
      exact fun call member => (numbered.past call member).trans (Nat.le_succ _)
    · intro other entry found call member
      rw [releases] at member
      by_cases same : other = id
      · have bound := numbered.past call member
        rw [same,here]
        omega
      · rw [number other same]
        exact numbered.kept other entry (old found same) call member
  | @finishes id key after active held generations next published publication releases views =>
    refine numbered.of_held ?_ published publication releases
    intro other entry found
    by_cases same : other = id
    · exact ⟨_,same ▸ active⟩
    · rw [held,Function.update_of_ne same] at found
      exact ⟨_,found⟩
  | @drops id key finished _ after dropping holds held generations next published publication releases views =>
    have old {other : β} {entry : κ × Bool} (found : after.state.held other = some entry) :
        other ≠ id ∧ before.state.held other = some entry := by
      have apart : other ≠ id := by
        rintro rfl
        rw [held,Function.update_self] at found
        cases found
      rw [held,Function.update_of_ne apart] at found
      exact ⟨apart,found⟩
    rcases releases with silent | called
    · exact numbered.of_held (fun other entry found => ⟨entry,(old found).2⟩) published publication silent
    · refine ⟨?_,?_,?_,?_,?_⟩
      · intro other entry found
        rw [published,publication]
        exact numbered.below other entry (old found).2
      · intro left right one two first second same
        rw [publication] at same
        exact numbered.apart left right one two (old first).2 (old second).2 same
      · rw [called,published]
        intro call member
        rcases List.mem_cons.mp member with rfl | earlier
        · exact numbered.below id _ holds
        · exact numbered.past call earlier
      · intro other entry found call member
        rw [publication]
        rw [called] at member
        rcases List.mem_cons.mp member with rfl | earlier
        · exact fun same => (old found).1 (numbered.apart id other _ entry holds (old found).2 same).symm
        · exact numbered.kept other entry (old found).2 call earlier
      · rw [called,System.released,List.map_cons,List.nodup_cons]
        refine ⟨?_,numbered.once⟩
        rw [List.mem_map]
        rintro ⟨call,member,same⟩
        exact numbered.kept id _ holds call member same
  | views active => exact numbered.of_held (fun _ _ found => ⟨_,found⟩) rfl rfl rfl
  | quiet held generations next published publication releases views =>
    exact numbered.of_held (fun _ entry found => ⟨entry,held ▸ found⟩) published publication releases

omit [DecidableEq β] [DecidableEq κ] in
theorem Started.held {system : System β κ} (started : Started system) (id : β) : system.state.held id = none := by
  unfold State.held
  cases found : system.state.bindings id with
  | none => rfl
  | some binding => simp [started.bindings id binding found]

theorem reached_numbered {start system : System β κ} (started : Started start) (reached : Reached start system) :
    Numbered system := by
  induction reached with
  | refl =>
    have free (id : β) (entry : κ × Bool) (found : start.state.held id = some entry) : False := by
      rw [started.held id] at found
      cases found
    exact ⟨fun id entry found => (free id entry found).elim,fun left _ one _ found => (free left one found).elim,
      by simp [started.releases],by simp [started.releases],by simp [started.releases]⟩
  | tail _ step ih =>
    obtain ⟨action,step⟩ := step
    exact step.effect.numbered ih

/-- A binding is not cleared or detached while another one holds its finished batch
unfinished. -/
def Careful (system : System β κ) : Action β κ → Prop
  | .clear id | .detach id => ∀ binding key, system.state.bindings id = some binding → binding.batch = some key →
      binding.finished = true → ∀ other, ¬ system.state.Active other key
  | _ => True

/-- The runs whose steps are all careful. -/
abbrev CarefullyReached (start : System β κ) : System β κ → Prop :=
  Relation.ReflTransGen (fun before after => ∃ action, Careful before action ∧ Step before action after) start

/-- The life of a batch: at most one binding holds it unfinished, its generation says
whether one does, no publication is released twice, and a batch is not released
while another binding holds it unfinished. -/
structure Lifecycle (system : System β κ) : Prop where
  single : ∀ key left right, system.state.Active left key → system.state.Active right key → left = right
  active : ∀ key, (system.state.batches key).generation ≠ 0#64 ↔ ∃ id, system.state.Active id key
  once : (system.releases.map ReleaseCall.publication).Nodup
  alone : ∀ call ∈ system.releases, call.alone

/-- The part of `Lifecycle` that a step keeps on its own. -/
structure Owned (system : System β κ) : Prop where
  single : ∀ key left right, system.state.held left = some (key,false) → system.state.held right = some (key,false) →
    left = right
  active : ∀ key, system.state.generation key ≠ 0#64 ↔ ∃ id, system.state.held id = some (key,false)

theorem nextGeneration_nonzero {next generation after : BitVec 64} (issued : nextGeneration next = .ok (generation,after)) :
    generation ≠ 0#64 := by
  unfold nextGeneration at issued
  split at issued
  · cases issued
    assumption
  · split at issued
    · cases issued
      assumption
    · cases issued

/-- A binding gives up a batch that no other binding holds unfinished. -/
theorem Owned.drop {before after : System β κ} (owned : Owned before) {id : β} {key : κ} {finished : Bool}
    {entry : Option (κ × Bool)} (holds : before.state.held id = some (key,finished))
    (alone : ∀ other, other ≠ id → before.state.held other ≠ some (key,false))
    (gone : ∀ key, entry ≠ some (key,false)) (held : after.state.held = Function.update before.state.held id entry)
    (generations : after.state.generation = Function.update before.state.generation key 0#64) : Owned after := by
  have old {other : β} {k : κ} (found : after.state.held other = some (k,false)) :
      other ≠ id ∧ before.state.held other = some (k,false) := by
    have apart : other ≠ id := by
      rintro rfl
      rw [held,Function.update_self] at found
      exact gone k found
    rw [held,Function.update_of_ne apart] at found
    exact ⟨apart,found⟩
  refine ⟨fun k left right one two => owned.single k left right (old one).2 (old two).2,?_⟩
  intro k
  rw [generations]
  by_cases same : k = key
  · subst same
    simp only [Function.update_self,ne_eq,not_true_eq_false,false_iff,not_exists]
    exact fun other found => alone other (old found).1 (old found).2
  · rw [Function.update_of_ne same,owned.active k]
    constructor
    · rintro ⟨other,found⟩
      refine ⟨other,?_⟩
      have apart : other ≠ id := by
        rintro rfl
        rw [holds] at found
        cases found
        exact same rfl
      rwa [held,Function.update_of_ne apart]
    · rintro ⟨other,found⟩
      exact ⟨other,(old found).2⟩

omit [DecidableEq β] [DecidableEq κ] in
/-- In a careful step the batch that a binding gives up is held unfinished by no other. -/
theorem Careful.alone {system : System β κ} (owned : Owned system) {action : Action β κ} (careful : Careful system action)
    {id : β} {key : κ} {finished : Bool} (dropping : action = .clear id ∨ action = .detach id)
    (holds : system.state.held id = some (key,finished)) (other : β) (apart : other ≠ id) :
    system.state.held other ≠ some (key,false) := by
  intro found
  cases finished with
  | false => exact apart (owned.single key other id found holds)
  | true =>
    unfold State.held at holds
    cases attached : system.state.bindings id with
    | none => simp [attached] at holds
    | some binding =>
      cases batch : binding.batch with
      | none => simp [attached,batch] at holds
      | some held =>
        simp only [attached,batch,Option.bind_some,Option.map_some,Option.some.injEq,Prod.mk.injEq] at holds
        obtain ⟨rfl,done⟩ := holds
        rcases dropping with rfl | rfl <;>
          exact careful binding held attached batch done other (active_iff.mpr found)

theorem Effect.owned {before after : System β κ} {action : Action β κ} (effect : Effect before action after)
    (careful : Careful before action) (owned : Owned before) : Owned after := by
  cases effect with
  | @publishes id key after generation free fresh next held generations =>
    have nobody (other : β) : before.state.held other ≠ some (key,false) := by
      intro found
      exact (owned.active key).mpr ⟨other,found⟩ fresh
    have cases_ {other : β} {k : κ} (found : after.state.held other = some (k,false)) :
        other = id ∧ k = key ∨ k ≠ key ∧ before.state.held other = some (k,false) := by
      rw [held] at found
      by_cases same : other = id
      · subst same
        rw [Function.update_self] at found
        cases found
        exact .inl ⟨rfl,rfl⟩
      · rw [Function.update_of_ne same] at found
        refine .inr ⟨?_,found⟩
        rintro rfl
        exact nobody other found
    refine ⟨?_,?_⟩
    · intro k left right one two
      rcases cases_ one with ⟨rfl,rfl⟩ | ⟨other,first⟩ <;> rcases cases_ two with ⟨rfl,here⟩ | ⟨other',second⟩
      · rfl
      · exact absurd rfl other'
      · exact absurd here other
      · exact owned.single k left right first second
    · intro k
      rw [generations]
      by_cases same : k = key
      · subst same
        rw [Function.update_self]
        exact ⟨fun _ => ⟨id,by rw [held,Function.update_self]⟩,fun _ => nextGeneration_nonzero next⟩
      · rw [Function.update_of_ne same,owned.active k]
        constructor
        · rintro ⟨other,found⟩
          refine ⟨other,?_⟩
          have apart : other ≠ id := by
            rintro rfl
            rw [free] at found
            cases found
          rwa [held,Function.update_of_ne apart]
        · rintro ⟨other,found⟩
          rcases cases_ found with ⟨_,here⟩ | ⟨_,old⟩
          · exact absurd here same
          · exact ⟨other,old⟩
  | @finishes id key after active held generations =>
    exact owned.drop active (fun other apart found => apart (owned.single key other id found active))
      (by simp) held generations
  | @drops id key finished _ after dropping holds held generations =>
    exact owned.drop holds (fun other apart => careful.alone owned dropping holds other apart) (by simp) held generations
  | views active => exact ⟨owned.single,owned.active⟩
  | quiet held generations =>
    exact ⟨by rw [held]; exact owned.single,by rw [held,generations]; exact owned.active⟩

/-- The calls of `release` callbacks stay alone in a careful step. -/
theorem Effect.alone {before after : System β κ} {action : Action β κ} (effect : Effect before action after)
    (careful : Careful before action) (owned : Owned before) (alone : ∀ call ∈ before.releases, call.alone) :
    ∀ call ∈ after.releases, call.alone := by
  cases effect with
  | publishes _ _ _ _ _ _ _ releases => exact releases ▸ alone
  | finishes _ _ _ _ _ _ releases => exact releases ▸ alone
  | @drops id key finished _ after dropping holds _ _ _ _ _ releases =>
    rcases releases with silent | called
    · exact silent ▸ alone
    · intro call member
      rw [called] at member
      rcases List.mem_cons.mp member with rfl | earlier
      · exact fun other apart active => careful.alone owned dropping holds other apart (active_iff.mp active)
      · exact alone call earlier
  | views => exact alone
  | quiet _ _ _ _ _ releases => exact releases ▸ alone

/-- In every run that never clears or detaches a binding while another one holds its
finished batch unfinished, every batch leads the life that it should. -/
theorem careful_lifecycle {start system : System β κ} (started : Started start)
    (reached : CarefullyReached start system) : Lifecycle system := by
  suffices kept : Owned system ∧ (∀ call ∈ system.releases, call.alone) ∧ Reached start system by
    obtain ⟨owned,alone,run⟩ := kept
    refine ⟨?_,?_,(reached_numbered started run).once,alone⟩
    · intro key left right one two
      exact owned.single key left right (active_iff.mp one) (active_iff.mp two)
    · intro key
      simp only [active_iff]
      exact owned.active key
  induction reached with
  | refl =>
    refine ⟨⟨?_,?_⟩,by simp [started.releases],.refl⟩
    · intro key left right one
      rw [started.held left] at one
      cases one
    · intro key
      have zero : start.state.generation key = 0#64 := started.batches key
      simp [zero,started.held]
  | tail _ step ih =>
    obtain ⟨action,careful,step⟩ := step
    obtain ⟨owned,alone,run⟩ := ih
    exact ⟨step.effect.owned careful owned,step.effect.alone careful owned alone,run.tail ⟨action,step⟩⟩

end Steps

/-- A batch of one selected row. -/
def oneRow : Batch :=
  ⟨1,64,⟨1,1,some fun _ => 1#64⟩,some ⟨1,48,true,true⟩,0#64⟩

/-- Two fresh bindings and one batch. -/
def twoBindings : System Bool Unit :=
  ⟨⟨fun _ => some ⟨0,none,none,false,false⟩,fun _ => oneRow,1#64⟩,0,fun _ => 0,[],[]⟩

theorem twoBindings_started : Started twoBindings := by
  refine ⟨?_,fun _ => rfl,rfl,rfl,rfl,rfl⟩
  intro id binding found
  rw [← Option.some.inj found]

/-- Clearing is careful while no batch is held unfinished. -/
theorem careful_clear {system : System β κ} (idle : ∀ id key, ¬ system.state.Active id key) (id : β) :
    Careful system (.clear id) :=
  fun _ key _ _ _ other => idle other key

theorem cleared_after_finish : ∃ system, CarefullyReached twoBindings system ∧ system.releases.length = 1 ∧
    Lifecycle system := by
  have run : CarefullyReached twoBindings _ :=
    ((Relation.ReflTransGen.single ⟨.publish true (),trivial,.publish rfl rfl⟩).tail
      ⟨.finish true,trivial,.finish rfl rfl⟩).tail ⟨.clear true,careful_clear (by
        rintro other key ⟨own,here,holds,open_⟩
        cases other with
        | false =>
          have same := Option.some.inj here
          subst same
          cases holds
        | true =>
          have same := Option.some.inj here
          subst same
          cases open_) true,.clear rfl⟩
  exact ⟨_,run,rfl,careful_lifecycle twoBindings_started run⟩

/-- The batch passes from one binding to the other, and the first is cleared. -/
theorem passed_on_released : ∃ system, Reached twoBindings system ∧ ¬ Lifecycle system := by
  have run : Reached twoBindings _ :=
    (((Relation.ReflTransGen.single ⟨.publish true (),.publish rfl rfl⟩).tail
      ⟨.finish true,.finish rfl rfl⟩).tail ⟨.publish false (),.publish rfl rfl⟩).tail ⟨.clear true,.clear rfl⟩
  refine ⟨_,run,?_⟩
  intro lifecycle
  exact (lifecycle.active ()).mpr ⟨false,_,rfl,rfl,rfl⟩ rfl

end PgBatch.Bridge
