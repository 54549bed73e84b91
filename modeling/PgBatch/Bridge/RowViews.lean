import PgBatch.Bridge.Ownership

/-! Row views. The generation in a view is issued once, so that a view is no longer
accepted when the publication it was taken from has ended. -/
namespace PgBatch.Bridge
variable {β κ : Type} [DecidableEq β] [DecidableEq κ]

/-- The generation of the publication with a given number. -/
def issued (number : Nat) : BitVec 64 :=
  BitVec.ofNat 64 number

theorem issued_inj {left right : Nat} (one : left < 2 ^ 64) (two : right < 2 ^ 64) (same : issued left = issued right) :
    left = right := by
  have numbers := congrArg BitVec.toNat same
  simpa only [issued,BitVec.toNat_ofNat,Nat.mod_eq_of_lt one,Nat.mod_eq_of_lt two] using numbers

theorem nextGeneration_issued {number : Nat} (below : number + 1 < 2 ^ 64) :
    nextGeneration (issued (number + 1)) = .ok (issued (number + 1),issued (number + 2)) := by
  have nonzero : issued (number + 1) ≠ 0#64 := by
    intro zero
    exact absurd (issued_inj below (by decide) zero) (Nat.succ_ne_zero number)
  rw [nextGeneration,if_pos nonzero,issued,issued,← BitVec.ofNat_add]

/-- A view can be accepted only while its publication is held unfinished. -/
structure Dated (system : System β κ) (view : RowView β κ) (publication : Nat) : Prop where
  old : view.generation = 0#64 ∨ ∃ number, number ≤ system.published ∧ view.generation = issued number
  live : ∀ key, view.batch = some key → view.generation ≠ 0#64 →
    system.state.generation key = view.generation →
    ∃ id, system.publication id = publication ∧ system.state.held id = some (key,false)

/-- Every generation has been issued, and every view is dated. -/
structure Stamped (system : System β κ) : Prop where
  next : system.state.nextBatchGeneration = issued (system.published + 1)
  stamped : ∀ key, system.state.generation key = 0#64 ∨
    ∃ number, number ≤ system.published ∧ system.state.generation key = issued number
  dated : ∀ view publication, (view,publication) ∈ system.views → Dated system view publication

/-- A view stays dated when one batch is finished or released. -/
theorem Dated.zero {before after : System β κ} {view : RowView β κ} {publication : Nat} (dated : Dated before view publication)
    {id : β} {key : κ} {finished : Bool} {entry : Option (κ × Bool)} (holds : before.state.held id = some (key,finished))
    (held : after.state.held = Function.update before.state.held id entry)
    (generations : after.state.generation = Function.update before.state.generation key 0#64)
    (published : after.published = before.published) (publications : after.publication = before.publication) :
    Dated after view publication := by
  refine ⟨published ▸ dated.old,?_⟩
  intro other taken nonzero same
  rw [generations] at same
  by_cases here : other = key
  · subst here
    rw [Function.update_self] at same
    exact absurd same.symm nonzero
  · rw [Function.update_of_ne here] at same
    obtain ⟨holder,number,active⟩ := dated.live other taken nonzero same
    have apart : holder ≠ id := by
      rintro rfl
      rw [holds] at active
      cases active
      exact here rfl
    exact ⟨holder,by rw [publications,number],by rwa [held,Function.update_of_ne apart]⟩

omit [DecidableEq β] in
theorem stamped_zero {before after : System β κ} (stamped : Stamped before) {key : κ}
    (generations : after.state.generation = Function.update before.state.generation key 0#64)
    (published : after.published = before.published) (other : κ) :
    after.state.generation other = 0#64 ∨
      ∃ number, number ≤ after.published ∧ after.state.generation other = issued number := by
  rw [generations,published]
  by_cases here : other = key
  · subst here
    exact .inl (Function.update_self ..)
  · rw [Function.update_of_ne here]
    exact stamped.stamped other

theorem Effect.stamped {before after : System β κ} {action : Action β κ} (effect : Effect before action after)
    (few : after.published < 2 ^ 64 - 1) (stamped : Stamped before) : Stamped after := by
  cases effect with
  | @publishes id key after generation free fresh next held generations published publication releases views =>
    rw [stamped.next,nextGeneration_issued (by omega)] at next
    obtain ⟨rfl,later⟩ := Prod.mk.inj (Except.ok.inj next)
    refine ⟨by rw [← later,published],?_,?_⟩
    · intro other
      rw [generations,published]
      by_cases here : other = key
      · subst here
        exact .inr ⟨_,Nat.le_refl _,Function.update_self ..⟩
      · rw [Function.update_of_ne here]
        rcases stamped.stamped other with zero | ⟨number,bound,same⟩
        · exact .inl zero
        · exact .inr ⟨number,bound.trans (Nat.le_succ _),same⟩
    · intro view number member
      rw [views] at member
      have dated := stamped.dated view number member
      refine ⟨?_,?_⟩
      · rcases dated.old with zero | ⟨old,bound,same⟩
        · exact .inl zero
        · exact .inr ⟨old,published ▸ bound.trans (Nat.le_succ _),same⟩
      · intro other taken nonzero same
        rw [generations] at same
        by_cases here : other = key
        · -- The new generation is none that was issued before.
          subst here
          rw [Function.update_self] at same
          rcases dated.old with zero | ⟨old,bound,dates⟩
          · exact absurd zero nonzero
          · have equal := issued_inj (by omega) (by omega) (same.trans dates)
            omega
        · rw [Function.update_of_ne here] at same
          obtain ⟨holder,numbered,active⟩ := dated.live other taken nonzero same
          have apart : holder ≠ id := by
            rintro rfl
            rw [free] at active
            cases active
          exact ⟨holder,by rw [publication,Function.update_of_ne apart,numbered],
            by rwa [held,Function.update_of_ne apart]⟩
  | @finishes id key after active held generations next published publication releases views =>
    refine ⟨by rw [next,published,stamped.next],stamped_zero stamped generations published,?_⟩
    intro view number member
    rw [views] at member
    exact (stamped.dated view number member).zero active held generations published publication
  | @drops id key finished _ after dropping holds held generations next published publication releases views =>
    refine ⟨by rw [next,published,stamped.next],stamped_zero stamped generations published,?_⟩
    intro view number member
    rw [views] at member
    exact (stamped.dated view number member).zero holds held generations published publication
  | @views id key structSize active =>
    refine ⟨stamped.next,stamped.stamped,?_⟩
    intro view number member
    rcases List.mem_cons.mp member with same | earlier
    · obtain ⟨rfl,rfl⟩ := Prod.mk.inj same
      refine ⟨stamped.stamped key,?_⟩
      intro other taken _ _
      cases taken
      exact ⟨id,rfl,active⟩
    · have dated := stamped.dated view number earlier
      exact ⟨dated.old,dated.live⟩
  | quiet held generations next published publication releases views =>
    refine ⟨by rw [next,published,stamped.next],by rw [generations,published]; exact stamped.stamped,?_⟩
    intro view number member
    rw [views] at member
    have dated := stamped.dated view number member
    refine ⟨published ▸ dated.old,?_⟩
    rw [held,generations,publication]
    exact dated.live

theorem Effect.published_le {before after : System β κ} {action : Action β κ} (effect : Effect before action after) :
    before.published ≤ after.published := by
  cases effect with
  | publishes _ _ _ _ _ published => omega
  | finishes _ _ _ _ published => omega
  | drops _ _ _ _ _ published => omega
  | views => exact Nat.le_refl _
  | quiet _ _ _ published => omega

theorem reached_stamped {start system : System β κ} (started : Started start) (reached : Reached start system)
    (few : system.published < 2 ^ 64 - 1) : Stamped system := by
  induction reached with
  | refl =>
    refine ⟨by rw [started.next,started.published]; rfl,fun key => .inl (started.batches key),?_⟩
    rw [started.views]
    exact fun _ _ member => absurd member (by simp)
  | tail _ step ih =>
    obtain ⟨action,step⟩ := step
    have effect := step.effect
    exact effect.stamped few (ih (Nat.lt_of_le_of_lt effect.published_le few))

/-- A view taken during a publication is refused once no binding holds that
publication unfinished, whatever has been published since. -/
theorem stale_view_refused {start system : System β κ} (started : Started start) (reached : Reached start system)
    (few : system.published < 2 ^ 64 - 1) {view : RowView β κ} {publication : Nat}
    (taken : (view,publication) ∈ system.views)
    (ended : ∀ id key, system.state.Active id key → system.publication id ≠ publication) (row : Int) :
    rowViewSelect system.state view row = .error s!"pg_batch cannot select row {row}" := by
  have dated := (reached_stamped started reached few).dated view publication taken
  unfold rowViewSelect
  split
  · rfl
  · rename_i key batch
    apply if_pos
    by_contra accepted
    simp only [not_or] at accepted
    obtain ⟨_,nonzero,same,_⟩ := accepted
    obtain ⟨id,number,active⟩ := dated.live key batch nonzero (not_not.mp same)
    exact ended id key (active_iff.mpr active) number

/-- The batch has been published again, on the other binding. -/
theorem republished_view_refused : ∃ system : System Bool Unit, Reached twoBindings system ∧
    system.state.Active false () ∧ ∃ view, (view,1) ∈ system.views ∧
      rowViewSelect system.state view 0 = .error s!"pg_batch cannot select row {(0 : Int)}" := by
  have run : Reached twoBindings _ :=
    (((Relation.ReflTransGen.single ⟨.publish true (),.publish rfl rfl⟩).tail
      ⟨.getRowView true 48,.getRowView rfl rfl⟩).tail ⟨.finish true,.finish rfl rfl⟩).tail
        ⟨.publish false (),.publish rfl rfl⟩
  refine ⟨_,run,⟨_,rfl,rfl,rfl⟩,_,List.mem_cons_self ..,?_⟩
  refine stale_view_refused twoBindings_started run (by decide) (List.mem_cons_self ..) ?_ 0
  rintro id key ⟨binding,attached,_,open_⟩ number
  cases id with
  | false => exact absurd number (by decide)
  | true =>
    have same := Option.some.inj attached
    subst same
    cases open_

end PgBatch.Bridge
