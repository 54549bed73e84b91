import PgBatch.Runtime.UnaryRun
import Mathlib.Logic.Relation

/-! A unary node and its consumer. The consumer may take the node's rows or its
batches, and rescan. A process that may fail is compared with one that does not: as
long as no call fails, the two cannot be told apart. -/
namespace PgBatch.Unary
variable {π δ : Type}

/-- The node with what its consumer was given since the last (re)start of the scan. -/
structure Session (π δ : Type) where
  node : State π δ
  delivered : List (Tuple δ)
  ended : Bool

namespace Session

/-- A consumer that stops at the end of the scan and finishes the batches it was handed. -/
inductive Step (config : Config π δ) : Session π δ → Session π δ → Prop
  | exec (session node result) (going : session.ended = false) (ran : Unary.exec config session.node = .ok (node,result)) :
      Step config session ⟨node,session.delivered ++ result.tuples config,result.isEmpty⟩
  | finish (session) (mode : session.node.request.outputMode = .batch) (held : session.node.input.unfinished = true) :
      Step config session {session with
        node := {session.node with input := {session.node.input with unfinished := false}}}
  | rescan (session) : Step config session ⟨Unary.rescan config session.node,[],false⟩

/-- The sessions of a node whose consumer asked for `request`. -/
def Reached (config : Config π δ) (privateData : π) (request childRequest : RequestSpec) (session : Session π δ) : Prop :=
  Relation.ReflTransGen (Step config) ⟨create privateData request childRequest,[],false⟩ session

end Session

section Serves
variable {config : Config π δ} {keep : List (Tuple δ) → List (Tuple δ)} {satisfied : List (Tuple δ) → Prop}
  {tracks : π → List (Tuple δ) → Prop} {rows : List (Tuple δ)}

theorem Idle.begins (realises : Realises config keep satisfied tracks) {state : State π δ}
    (idle : Idle config satisfied rows state) (fresh : ∀ privateData, tracks privateData [])
    (unsatisfied : ¬ satisfied []) : Serving config keep satisfied tracks rows state [] := by
  have stop : state.stopped = true ↔ satisfied [] := by
    rw [idle.running]
    simpa using unsatisfied
  exact idle.serving realises (fresh state.privateData) stop

/-- Whatever the consumer does, it is given the rows that the process keeps. -/
theorem session_serves (realises : Realises config keep satisfied tracks)
    (child : ∀ request scan, (config.child request scan).flatMap config.shown = rows)
    (columns : config.childColumns = config.ncolumns) (fresh : ∀ privateData, tracks privateData [])
    (unsatisfied : ¬ satisfied []) {privateData : π} {request childRequest : RequestSpec} {session : Session π δ}
    (reached : session.Reached config privateData request childRequest) :
    Serving config keep satisfied tracks rows session.node session.delivered ∧
      (session.ended = true → session.delivered = keep rows) := by
  induction reached with
  | refl => exact ⟨(create_idle _ _ _).begins realises fresh unsatisfied,by simp⟩
  | tail _ step ih =>
    cases step with
    | exec node result going ran =>
      obtain ⟨served,answers⟩ := exec_served realises child columns ih.1 ran
      refine ⟨served,fun ended => ?_⟩
      rcases answers.more with ⟨rfl,complete⟩ | ⟨more,_⟩
      · simpa [Result.tuples] using complete
      · cases result with
        | empty => exact absurd rfl more
        | batch => cases ended
        | row => cases ended
    | finish mode held => exact ⟨ih.1.finish mode,ih.2⟩
    | rescan => exact ⟨(rescan_idle child ih.1.fetching.wanted).begins realises fresh unsatisfied,by simp⟩

/-- What was delivered is the beginning of what is kept of all rows. -/
theorem Serving.prefix_ (realises : Realises config keep satisfied tracks)
    (grows : ∀ seen ahead, keep seen <+: keep (seen ++ ahead)) {state : State π δ} {delivered : List (Tuple δ)}
    (serving : Serving config keep satisfied tracks rows state delivered) : delivered <+: keep rows := by
  have first : delivered <+: keep (config.seen state.input) := ⟨_,serving.delivers⟩
  have whole := serving.whole
  split at whole
  · rw [← whole]
    exact first.trans (grows _ _)
  · rw [Config.seen,whole,List.flatMap_nil,realises.nothing] at first
    rw [List.prefix_nil.mp first]
    exact List.nil_prefix

/-- A consumer that goes on comes to the end. -/
theorem session_ends (realises : Realises config keep satisfied tracks)
    (child : ∀ request scan, (config.child request scan).flatMap config.shown = rows)
    (columns : config.childColumns = config.ncolumns) (grows : ∀ seen ahead, keep seen <+: keep (seen ++ ahead))
    {session : Session π δ} (serving : Serving config keep satisfied tracks rows session.node session.delivered) :
    ∃ last, Relation.ReflTransGen (Session.Step config) session last ∧ last.ended = true := by
  induction left : (keep rows).length - session.delivered.length using Nat.strong_induction_on generalizing session with
  | _ left_ ih =>
    subst left
    cases going : session.ended with
    | true => exact ⟨session,.refl,going⟩
    | false =>
      -- The consumer first finishes the batch it holds.
      obtain ⟨free,steps,serving',same,ended,released⟩ : ∃ free, Relation.ReflTransGen (Session.Step config) session free ∧
          Serving config keep satisfied tracks rows free.node free.delivered ∧ free.delivered = session.delivered ∧
          free.ended = false ∧ (free.node.request.outputMode = .batch → free.node.input.unfinished = false) := by
        by_cases held : session.node.request.outputMode = .batch ∧ session.node.input.unfinished = true
        · exact ⟨_,.single (.finish session held.1 held.2),serving.finish held.1,rfl,going,fun _ => rfl⟩
        · exact ⟨session,.refl,serving,rfl,going,
            fun mode => Bool.eq_false_iff.mpr fun unfinished => held ⟨mode,unfinished⟩⟩
      obtain ⟨node,result,ran,serving'',answered⟩ := exec_spec realises child columns serving' released
      have exec := steps.tail (.exec free node result ended ran)
      rcases answered.more with ⟨rfl,_⟩ | ⟨_,more⟩
      · exact ⟨_,exec,rfl⟩
      · have bound := (serving''.prefix_ realises grows).length_le
        have longer : 0 < (result.tuples config).length := List.length_pos_of_ne_nil more
        have closer : (keep rows).length - (free.delivered ++ result.tuples config).length <
            (keep rows).length - session.delivered.length := by
          rw [List.length_append,same] at bound ⊢
          omega
        obtain ⟨last,rest,ended'⟩ := @ih _ closer ⟨node,_,result.isEmpty⟩ serving'' rfl
        exact ⟨last,exec.trans rest,ended'⟩

end Serves

/-! Replacing a process by one that fails less often. -/

section Extends
variable {config : Config π δ} {process : Option (π → Batch δ → Except String (Processed π δ))} {Good : Batch δ → Prop}

/-- On the batches at hand the other process does what the node's own does, unless that fails. -/
def Covers (config : Config π δ) (process : Option (π → Batch δ → Except String (Processed π δ))) (Good : Batch δ → Prop) :
    Prop :=
  ∀ privateData batch done, Good batch → config.run privateData batch = .ok done →
    Config.run {config with process := process} privateData batch = .ok done

theorem inputNext_suffix {input next : Input δ} {found : Option (Batch δ)} (ran : inputNext input = .ok (next,found)) :
    next.left <:+ input.left ∧ ∀ batch ∈ found, batch ∈ input.left := by
  have fetched (input : Input δ) : (inputFetch input).1.left <:+ input.left ∧
      ∀ batch ∈ (inputFetch input).2, batch ∈ input.left := by
    unfold inputFetch
    split
    · exact ⟨List.suffix_refl _,by simp⟩
    · rename_i first rest left
      rw [left]
      exact ⟨List.suffix_cons ..,fun batch same => by cases same; exact List.mem_cons_self ..⟩
  unfold inputNext at ran
  split at ran
  · split at ran
    · cases ran
    · have result := Except.ok.inj ran
      have facts := fetched {input with active := none}
      rw [result] at facts
      exact facts
  · have facts := fetched input
    rw [Except.ok.inj ran] at facts
    exact facts

theorem fetchBatch_covers (covers : Covers config process Good) {state next : State π δ} {more : Bool}
    (good : ∀ batch ∈ state.input.left, Good batch) (ran : fetchBatch config state = .ok (next,more)) :
    fetchBatch {config with process := process} state = .ok (next,more) ∧ next.input.left <:+ state.input.left := by
  induction size : state.input.left.length using Nat.strong_induction_on generalizing state with
  | _ size_ ih =>
    subst size
    rw [fetchBatch_eq] at ran ⊢
    split at ran
    · rename_i stopped
      cases ran
      exact ⟨if_pos stopped,List.suffix_refl _⟩
    · rename_i going
      rw [if_neg going]
      cases result : inputNext state.input with
      | error message =>
        simp only [result] at ran
        cases ran
      | ok fetched =>
        obtain ⟨input,found⟩ := fetched
        obtain ⟨suffix,among⟩ := inputNext_suffix result
        cases found with
        | none =>
          simp only [result] at ran ⊢
          cases ran
          exact ⟨rfl,suffix⟩
        | some batch =>
          simp only [result] at ran ⊢
          cases processed : config.run state.privateData batch with
          | error message =>
            simp only [processed] at ran
            cases ran
          | ok done =>
            simp only [processed] at ran
            simp only [covers _ _ _ (good batch (among batch rfl)) processed]
            split at ran
            · rename_i empty
              rw [if_pos empty]
              cases finished : inputFinish {input with active := some done.batch} with
              | error message =>
                simp only [finished] at ran
                cases ran
              | ok finish =>
                simp only [finished] at ran ⊢
                have left : finish.left = input.left := by rw [inputFinish_ok finished]
                have shorter := inputNext_left result
                rw [← left] at shorter suffix
                obtain ⟨same,rest⟩ := ih _ shorter (fun other member => good other (suffix.subset member)) ran rfl
                exact ⟨same,rest.trans suffix⟩
            · rename_i filled
              rw [if_neg filled]
              cases ran
              exact ⟨rfl,suffix⟩

/-- The turn of `exec_row` in which the batch at hand has no row left. -/
def finishRow (config : Config π δ) (state : State π δ) : Except String (State π δ × Result δ) :=
  match inputFinish state.input with
  | .error message => .error message
  | .ok input => execRow config {state with input := input, activeBatch := none}

theorem execRow_covers (covers : Covers config process Good) {state next : State π δ} {answer : Result δ}
    (good : ∀ batch ∈ state.input.left, Good batch) (ran : execRow config state = .ok (next,answer)) :
    execRow {config with process := process} state = .ok (next,answer) ∧ next.input.left <:+ state.input.left := by
  induction size : 2 * state.input.left.length + (if state.activeBatch.isSome then 1 else 0) using
    Nat.strong_induction_on generalizing state with
  | _ size_ ih =>
    subst size
    rw [execRow_eq] at ran ⊢
    cases fetched : (if state.activeBatch.isSome then .ok (state,true) else fetchBatch config state : Except String _) with
    | error message =>
      simp only [fetched] at ran
      cases ran
    | ok found =>
      obtain ⟨middle,more⟩ := found
      -- The batch at hand, or the next one, is the same for both.
      obtain ⟨same,suffix,shorter⟩ : (if state.activeBatch.isSome then .ok (state,true)
            else fetchBatch {config with process := process} state : Except String _) = .ok (middle,more) ∧
          middle.input.left <:+ state.input.left ∧ (more = true →
            2 * middle.input.left.length < 2 * state.input.left.length + (if state.activeBatch.isSome then 1 else 0)) := by
        split at fetched <;> rename_i active
        · cases fetched
          rw [if_pos active,if_pos active]
          exact ⟨rfl,List.suffix_refl _,fun _ => Nat.lt_succ_self _⟩
        · rw [if_neg active,if_neg active]
          obtain ⟨same,suffix⟩ := fetchBatch_covers covers good fetched
          refine ⟨same,suffix,fun found => ?_⟩
          rw [found] at fetched
          have := fetchBatch_left fetched
          omega
      simp only [fetched,same] at ran ⊢
      cases more with
      | false =>
        cases ran
        exact ⟨rfl,suffix⟩
      | true =>
        have finish_ (ran : finishRow config middle = .ok (next,answer)) :
            finishRow {config with process := process} middle = .ok (next,answer) ∧ next.input.left <:+ state.input.left := by
          unfold finishRow at ran ⊢
          cases finished : inputFinish middle.input with
          | error message =>
            simp only [finished] at ran
            cases ran
          | ok input =>
            simp only [finished] at ran ⊢
            have left : input.left = middle.input.left := by rw [inputFinish_ok finished]
            have less := shorter rfl
            rw [← left] at less suffix
            obtain ⟨same,rest⟩ := ih _ (by simpa using less) (fun other member => good other (suffix.subset member)) ran rfl
            exact ⟨same,rest.trans suffix⟩
        cases held : middle.activeBatch with
        | none =>
          simp only [held] at ran ⊢
          exact finish_ ran
        | some batch =>
          cases nextRow : middle.nextRow with
          | none =>
            unfold finishRow at finish_
            simp only [nextRow] at finish_
            simp only [held,nextRow] at ran ⊢
            exact finish_ ran
          | some row =>
            simp only [held,nextRow] at ran ⊢
            cases taken : takeRow config middle.input row with
            | error message =>
              simp only [taken] at ran
              cases ran
            | ok tuple =>
              have taken' : takeRow {config with process := process} middle.input row = .ok tuple := taken
              simp only [taken] at ran
              simp only [taken']
              cases ran
              exact ⟨rfl,suffix⟩

theorem execBatch_covers (covers : Covers config process Good) {state next : State π δ} {answer : Result δ}
    (good : ∀ batch ∈ state.input.left, Good batch) (ran : execBatch config state = .ok (next,answer)) :
    execBatch {config with process := process} state = .ok (next,answer) ∧ next.input.left <:+ state.input.left := by
  obtain ⟨⟨middle,more⟩,fetched,rest⟩ := Results.bind_ok.mp ran
  have good' : ∀ batch ∈ ({state with activeBatch := none} : State π δ).input.left, Good batch := good
  obtain ⟨same,suffix⟩ := fetchBatch_covers covers good' fetched
  refine ⟨Results.bind_ok.mpr ⟨(middle,more),same,rest⟩,?_⟩
  dsimp only at rest
  split at rest
  · cases rest
    exact suffix
  · split at rest
    · obtain ⟨_,_,done⟩ := Results.bind_ok.mp rest
      cases done
      exact suffix
    · cases rest

/-- A call that does not fail is the same with the other process. -/
theorem exec_covers (covers : Covers config process Good) (child : ∀ request scan, ∀ batch ∈ config.child request scan, Good batch)
    {state next : State π δ} {answer : Result δ} (good : ∀ batch ∈ state.input.left, Good batch)
    (ran : exec config state = .ok (next,answer)) :
    exec {config with process := process} state = .ok (next,answer) ∧ ∀ batch ∈ next.input.left, Good batch := by
  unfold exec at ran ⊢
  have same : forwardRequest {config with process := process} state = forwardRequest config state := rfl
  rw [same]
  cases ready : (if state.requestForwarded then .ok state else forwardRequest config state : Except String _) with
  | error message =>
    simp only [ready] at ran
    cases ran
  | ok opened =>
    have good' : ∀ batch ∈ opened.input.left, Good batch := by
      split at ready
      · cases ready
        exact good
      · unfold forwardRequest at ready
        split at ready
        · cases ready
        · cases ready
          exact child _ _
    simp only [ready] at ran ⊢
    cases mode : opened.request.outputMode with
    | batch =>
      simp only [mode] at ran ⊢
      obtain ⟨same,suffix⟩ := execBatch_covers covers good' ran
      exact ⟨same,fun batch member => good' batch (suffix.subset member)⟩
    | rows =>
      simp only [mode] at ran ⊢
      obtain ⟨same,suffix⟩ := execRow_covers covers good' ran
      exact ⟨same,fun batch member => good' batch (suffix.subset member)⟩

/-- The sessions of the node are sessions of the node with the other process. -/
theorem session_covers (covers : Covers config process Good)
    (child : ∀ request scan, ∀ batch ∈ config.child request scan, Good batch) {privateData : π}
    {request childRequest : RequestSpec} {session : Session π δ}
    (reached : session.Reached config privateData request childRequest) :
    session.Reached {config with process := process} privateData request childRequest ∧
      ∀ batch ∈ session.node.input.left, Good batch := by
  induction reached with
  | refl => exact ⟨.refl,nofun⟩
  | tail _ step ih =>
    obtain ⟨reached,good⟩ := ih
    cases step with
    | exec node result going ran =>
      obtain ⟨same,good'⟩ := exec_covers covers child good ran
      exact ⟨reached.tail (.exec _ _ _ going same),good'⟩
    | finish mode held => exact ⟨reached.tail (.finish _ mode held),good⟩
    | rescan => exact ⟨reached.tail (.rescan _),child _ _⟩

end Extends

end PgBatch.Unary
