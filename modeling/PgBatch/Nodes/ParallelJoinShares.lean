import PgBatch.Nodes.ParallelJoinRun
import PgBatch.Library.Progress
import Mathlib.Algebra.BigOperators.Group.Finset.Basic
import Mathlib.Algebra.Order.BigOperators.Group.Finset
import Mathlib.Data.Prod.Lex
import Mathlib.Tactic.Abel
import Mathlib.Order.WellFounded

/-! The join itself, participant by participant: all pairs are in pages, in the hands of the
participants or unclaimed, and with each turn there is less to be done. -/
namespace PgBatch.ParallelJoin
open Words Columnar Spill HashJoin Joining
variable {n : Nat} {ι : Type} {config : Config}

section Sums
variable {M : Type} [AddCommMonoid M]

/-- One of the summands is replaced. -/
theorem sum_replace (each : Fin n → M) (id : Fin n) (value : M) :
    ∑ i, Function.update each id value i + each id = ∑ i, each i + value := by
  rw [Finset.sum_update_of_mem (Finset.mem_univ id),Finset.sdiff_singleton_eq_erase,add_assoc,
    Finset.sum_erase_add Finset.univ each (Finset.mem_univ id),add_comm]

end Sums

/-- Each pair of the join is in a page, in the hands of a participant, or in a partition that nobody has claimed. -/
structure Sharing [Inhabited ι] (missing : String) (capacity : Nat) (inners : Fin n → List (Batch ι)) (state : JoinState config n ι)
    (left : Fin n → List (ι × ι)) (weight : Fin n → Nat) : Prop where
  due : ∀ id, Due (state.files missing) capacity (state.outputs id) (weight id) (left id)
  paged : ∀ id, Paged capacity (state.outputs id)
  ledger : ∑ id, (((state.outputs id).pages.flatten ++ left id : List (ι × ι)) : Multiset (ι × ι)) +
      (unclaimedPairs config (state.files missing) state.built state.probed state.nextPartition : Multiset (ι × ι)) =
    (equiJoin config state.outerTaken (state.innerTaken inners) : Multiset (ι × ι))
  ended : (∃ id, (state.outputs id).status = .ended) → (sharedConfig config n).npartitions ≤ state.nextPartition

/-- What is still to be done: partitions to claim, and turns for those that are claimed. -/
def toCome (state : JoinState config n ι) (weight : Fin n → Nat) : Lex (Nat × Nat) :=
  toLex ((sharedConfig config n).npartitions - state.nextPartition,∑ id, weight id)

section Sharing
variable [Inhabited ι] {missing : String} {capacity : Nat} {inners outers : Fin n → List (Batch ι)} {state : JoinState config n ι}
  {left : Fin n → List (ι × ι)} {weight : Fin n → Nat}

theorem ready_free : Free (readyOutput config : Output config ι).state.source :=
  ⟨rfl,rfl,rfl⟩

/-- One that has not begun has nothing in its hands. -/
theorem ready_nothing {shared : SharedFiles ι} {turns : Nat} {total : List (ι × ι)}
    (due : Due shared capacity (readyOutput config) turns total) : total = [] := by
  cases due with
  | ended status => cases status
  | failed status => cases status
  | running _ delivers =>
    have turn : outputTurn (ownProbes config shared) capacity (readyOutput config : Output config ι).state =
        .ok (.done (readyOutput config).state false) := by
      have idle : Idle (readyOutput config : Output config ι).state := ⟨⟨rfl,rfl,rfl⟩,rfl,rfl⟩
      rw [idleTurn idle,fetchedTurn]
      change (fetchOwn config shared (readyOutput config : Output config ι).state.source >>= _) = _
      rw [fetchOwn_claims ready_free.claims]
      rfl
    cases delivers with
    | refused failed => rw [turn] at failed; cases failed
    | ended => rfl
    | again ran => rw [turn] at ran; cases ran
    | page ran => rw [turn] at ran; cases ran

/-- When the last outer row is in a file, all pairs are unclaimed. -/
theorem Accounted.sharing (accounted : Accounted inners outers state) (late : 4 ≤ state.build.shared.barrier.phase)
    (ready : ∀ id, state.outputs id = readyOutput config) (first : state.nextPartition = 0) :
    Sharing missing capacity inners state (fun _ => []) fun _ => 1 := by
  refine ⟨fun id => ?_,fun id => ?_,?_,?_⟩
  · rw [ready]
    exact start_due ready_free
  · rw [ready]
    exact fun page none => absurd none List.not_mem_nil
  · have none : ∀ id, (((state.outputs id).pages.flatten ++ [] : List (ι × ι)) : Multiset (ι × ι)) = 0 := by
      intro id
      rw [ready]
      rfl
    rw [Finset.sum_congr rfl fun id _ => none id,Finset.sum_const_zero,zero_add,first]
    exact Multiset.coe_eq_coe.mpr (accounted.pairs late)
  · rintro ⟨id,ended⟩
    rw [ready] at ended
    cases ended

/-- A step of the build leaves it. -/
theorem Sharing.build (sharing : Sharing missing capacity inners state left weight) (accounted : Accounted inners outers state)
    (late : 4 ≤ state.build.shared.barrier.phase) (action : Parallel.Action (Fin n)) :
    Sharing missing capacity inners {state with build := state.build.act (sharedConfig config n) action} left weight := by
  have spill := Parallel.act_files accounted.ledger (Nat.le_of_succ_le late) action
  have files : ({state with build := state.build.act (sharedConfig config n) action} : JoinState config n ι).files missing =
      state.files missing := by
    simp only [JoinState.files,spill]
  have built : ({state with build := state.build.act (sharedConfig config n) action} : JoinState config n ι).built = state.built := by
    simp only [JoinState.built,spill]
  have taken : ({state with build := state.build.act (sharedConfig config n) action} : JoinState config n ι).innerTaken inners =
      state.innerTaken inners := by
    have begun : state.build.shared.barrier.phase ≠ 0 := by omega
    simp only [JoinState.innerTaken,Parallel.act_taken accounted.ledger begun action]
  refine ⟨fun id => ?_,sharing.paged,?_,sharing.ended⟩
  · rw [files]
    exact sharing.due id
  · rw [files,built,taken]
    exact sharing.ledger

/-- With each turn pairs move on to the pages, and less is to be done. -/
theorem Sharing.produce (sharing : Sharing missing capacity inners state left weight) (accounted : Accounted inners outers state)
    (late : 4 ≤ state.build.shared.barrier.phase) (positive : 0 < capacity) (small : capacity ≤ pgBatchSize) {id : Fin n}
    (here : (state.build.locals id).pc = .left true) (running : (state.outputs id).status = .running) :
    ∃ left' weight', Sharing missing capacity inners (state.produce missing capacity id) left' weight' ∧
      toCome (state.produce missing capacity id) weight' < toCome state weight := by
  obtain ⟨rest,lighter,keeps⟩ := Output.turn_keeps (accounted.hold late missing) positive small (sharing.due id) running state.nextPartition
  have turned : state.produce missing capacity id = {state with
      nextPartition := ((state.outputs id).turn (state.files missing) capacity state.nextPartition).2
      outputs := Function.update state.outputs id ((state.outputs id).turn (state.files missing) capacity state.nextPartition).1} := by
    rw [JoinState.produce,here]
  rw [turned]
  generalize (state.outputs id).turn (state.files missing) capacity state.nextPartition = after at keeps
  obtain ⟨output,nextPartition⟩ := after
  refine ⟨Function.update left id rest,Function.update weight id lighter,⟨fun other => ?_,fun other => ?_,?_,?_⟩,?_⟩
  · by_cases same : other = id
    · subst same
      simp only [Function.update_self]
      exact keeps.due
    · simp only [Function.update_of_ne same]
      exact sharing.due other
  · by_cases same : other = id
    · subst same
      simp only [Function.update_self]
      exact keeps.paged (sharing.paged other)
    · simp only [Function.update_of_ne same]
      exact sharing.paged other
  · have replaced (other : Fin n) : (((Function.update state.outputs id output other).pages.flatten ++
        Function.update left id rest other : List (ι × ι)) : Multiset (ι × ι)) =
        Function.update (fun other => (((state.outputs other).pages.flatten ++ left other : List (ι × ι)) : Multiset (ι × ι))) id
          ((output.pages.flatten ++ rest : List (ι × ι)) : Multiset (ι × ι)) other := by
      by_cases same : other = id
      · subst same
        simp only [Function.update_self]
      · simp only [Function.update_of_ne same]
    have exchange := sum_replace (fun other => (((state.outputs other).pages.flatten ++ left other : List (ι × ι)) : Multiset (ι × ι)))
      id ((output.pages.flatten ++ rest : List (ι × ι)) : Multiset (ι × ι))
    have moved : ((output.pages.flatten ++ rest : List (ι × ι)) : Multiset (ι × ι)) +
          (unclaimedPairs config (state.files missing) state.built state.probed nextPartition : Multiset (ι × ι)) =
        (((state.outputs id).pages.flatten ++ left id : List (ι × ι)) : Multiset (ι × ι)) +
          (unclaimedPairs config (state.files missing) state.built state.probed state.nextPartition : Multiset (ι × ι)) := by
      rw [Multiset.coe_add,Multiset.coe_add,List.append_assoc,List.append_assoc]
      exact Multiset.coe_eq_coe.mpr keeps.ledger
    rw [Finset.sum_congr rfl fun other _ => replaced other]
    change _ + (unclaimedPairs config (state.files missing) state.built state.probed nextPartition : Multiset (ι × ι)) =
      (equiJoin config state.outerTaken (state.innerTaken inners) : Multiset (ι × ι))
    apply add_right_cancel (b := (((state.outputs id).pages.flatten ++ left id : List (ι × ι)) : Multiset (ι × ι)))
    rw [add_right_comm,exchange,add_assoc,moved,← sharing.ledger]
    abel
  · rintro ⟨other,ended⟩
    by_cases same : other = id
    · subst same
      simp only [Function.update_self] at ended
      exact keeps.last ended
    · simp only [Function.update_of_ne same] at ended
      exact (sharing.ended ⟨other,ended⟩).trans keeps.grows
  · have total := sum_replace weight id lighter
    have less := keeps.less
    rw [Prod.Lex.toLex_lt_toLex] at less
    rw [toCome,toCome,Prod.Lex.toLex_lt_toLex]
    change (sharedConfig config n).npartitions - nextPartition < (sharedConfig config n).npartitions - state.nextPartition ∨
      (sharedConfig config n).npartitions - nextPartition = (sharedConfig config n).npartitions - state.nextPartition ∧
        ∑ i, Function.update weight id lighter i < ∑ i, weight i
    rcases less with fewer | ⟨same,lighter_⟩
    · exact .inl fewer
    · refine .inr ⟨same,?_⟩
      dsimp only at lighter_
      omega

/-! Any step. -/

/-- A participant that is to take a turn of its output. -/
def JoinState.Turns (state : JoinState config n ι) (id : Fin n) : Prop :=
  (state.build.locals id).pc = .left true ∧ (state.outputs id).status = .running

/-- Whoever does not take a turn does nothing. -/
theorem produce_still {id : Fin n} (still : ¬ state.Turns id) : state.produce missing capacity id = state := by
  unfold JoinState.produce
  split
  · rename_i here
    have turn : (state.outputs id).turn (state.files missing) capacity state.nextPartition = (state.outputs id,state.nextPartition) := by
      unfold Output.turn
      split
      · rename_i running
        exact absurd ⟨here,running⟩ still
      · rfl
      · rfl
    simp only [turn,Function.update_eq_self]
  · rfl

/-- No step undoes it, and a turn of an output leaves less to be done. -/
theorem Sharing.act (sharing : Sharing missing capacity inners state left weight) (accounted : Accounted inners outers state)
    (late : 4 ≤ state.build.shared.barrier.phase) (positive : 0 < capacity) (small : capacity ≤ pgBatchSize) (action : JoinAction n) :
    ∃ left' weight', Sharing missing capacity inners (state.act missing capacity action) left' weight' ∧
      toCome (state.act missing capacity action) weight' ≤ toCome state weight ∧
      ∀ id, action = .output id → state.Turns id → toCome (state.act missing capacity action) weight' < toCome state weight := by
  cases action with
  | build step =>
    refine ⟨left,weight,?_,?_,by rintro _ ⟨⟩⟩
    · cases free : state.partitioning step.id with
      | true =>
        rw [JoinState.act,free]
        exact sharing
      | false =>
        rw [act_free free]
        exact sharing.build accounted late step
    · rw [JoinState.act]
      split <;> exact le_refl _
  | probe id =>
    have still : state.act missing capacity (.probe id) = state := by
      rw [JoinState.act,accounted.unpartitioning late id]
      rfl
    rw [still]
    exact ⟨left,weight,sharing,le_refl _,by rintro _ ⟨⟩⟩
  | output id =>
    by_cases turns : state.Turns id
    · obtain ⟨left',weight',shared,less⟩ := sharing.produce accounted late positive small turns.1 turns.2
      exact ⟨left',weight',shared,le_of_lt less,fun _ _ _ => less⟩
    · have still : state.produce missing capacity id = state := produce_still turns
      change ∃ left' weight', Sharing missing capacity inners (state.produce missing capacity id) left' weight' ∧
        toCome (state.produce missing capacity id) weight' ≤ toCome state weight ∧ _
      rw [still]
      refine ⟨left,weight,sharing,le_refl _,?_⟩
      rintro _ ⟨⟩ turn
      exact absurd turn turns

/-- Nobody has begun before phase 4; behind it the pairs are shared out. -/
structure Staged (missing : String) (capacity : Nat) (inners : Fin n → List (Batch ι)) (state : JoinState config n ι) : Prop where
  ready : state.build.shared.barrier.phase < 4 → state.nextPartition = 0 ∧ ∀ id, state.outputs id = readyOutput config
  shared : 4 ≤ state.build.shared.barrier.phase → ∃ left weight, Sharing missing capacity inners state left weight

theorem Staged.act (staged : Staged missing capacity inners state) (accounted : Accounted inners outers state)
    (positive : 0 < capacity) (small : capacity ≤ pgBatchSize) (action : JoinAction n) :
    Staged missing capacity inners (state.act missing capacity action) := by
  by_cases late : 4 ≤ state.build.shared.barrier.phase
  · obtain ⟨left,weight,sharing⟩ := staged.shared late
    obtain ⟨left',weight',sharing',_⟩ := sharing.act accounted late positive small action
    refine ⟨fun early => ?_,fun _ => ⟨left',weight',sharing'⟩⟩
    exfalso
    rcases act_build missing capacity state action with same | ⟨step,rfl,free⟩
    · rw [same] at early
      omega
    · have later := Parallel.act_later accounted.ledger step
      rw [act_free free] at early
      exact absurd (Nat.le_trans late later) (Nat.not_le.mpr early)
  · obtain ⟨first,ready⟩ := staged.ready (Nat.not_le.mp late)
    have after : Accounted inners outers (state.act missing capacity action) := accounted.act action
    have kept : (state.act missing capacity action).nextPartition = 0 ∧
        ∀ id, (state.act missing capacity action).outputs id = readyOutput config := by
      cases action with
      | build step =>
        rw [JoinState.act]
        split <;> exact ⟨first,ready⟩
      | probe id =>
        rw [JoinState.act]
        split
        · rename_i busy
          obtain ⟨_,outputs,next,_⟩ := accounted.partition busy (by rw [ready]; rfl)
          rw [outputs,next]
          exact ⟨first,ready⟩
        · exact ⟨first,ready⟩
      | output id =>
        change (state.produce missing capacity id).nextPartition = 0 ∧ ∀ other, (state.produce missing capacity id).outputs other = _
        rw [produce_still fun turns => late (accounted.left_late turns.1)]
        exact ⟨first,ready⟩
    exact ⟨fun _ => kept,fun behind => ⟨_,_,after.sharing behind kept.2 kept.1⟩⟩

/-! Whole runs. -/

theorem initial_staged (config : Config) (inners outers : Fin n → List (Batch ι)) :
    Staged missing capacity inners (JoinState.initial config inners outers) :=
  ⟨fun _ => ⟨rfl,fun _ => rfl⟩,fun late => by cases late⟩

theorem Accounted.after (accounted : Accounted inners outers state) (run : List (JoinAction n)) :
    Accounted inners outers (state.after missing capacity run) := by
  induction run generalizing state with
  | nil => exact accounted
  | cons action rest ih => exact ih (accounted.act action)

theorem Staged.after (staged : Staged missing capacity inners state) (accounted : Accounted inners outers state)
    (positive : 0 < capacity) (small : capacity ≤ pgBatchSize) (run : List (JoinAction n)) :
    Staged missing capacity inners (state.after missing capacity run) := by
  induction run generalizing state with
  | nil => exact staged
  | cons action rest ih => exact ih (staged.act accounted positive small action) (accounted.act action)

omit [Inhabited ι] in
theorem published_sum : (state.published : Multiset (ι × ι)) = ∑ id, ((state.outputs id).pages.flatten : Multiset (ι × ι)) :=
  Parallel.coe_flatMap_finRange _

/-- What a join has published: pages of the right size with pairs of the join, none of them twice, and in the end all of
them, when nobody is left that has begun and not come to its end. -/
structure JoinsRight (capacity : Nat) (inners : Fin n → List (Batch ι)) (state : JoinState config n ι) : Prop where
  paged : ∀ id, Paged capacity (state.outputs id)
  once : ∃ rest, (state.published ++ rest).Perm (equiJoin config state.outerTaken (state.innerTaken inners))
  all : (∃ id, (state.outputs id).status = .ended) →
    (∀ id, (state.outputs id).status = .ended ∨ state.outputs id = readyOutput config) →
      state.published.Perm (equiJoin config state.outerTaken (state.innerTaken inners))
  failed : ∀ id message, (state.outputs id).status = .failed message → GrowError message

theorem Sharing.right (sharing : Sharing missing capacity inners state left weight) : JoinsRight capacity inners state := by
  have whole : (state.published : Multiset (ι × ι)) + (∑ id, (left id : Multiset (ι × ι)) +
      (unclaimedPairs config (state.files missing) state.built state.probed state.nextPartition : Multiset (ι × ι))) =
        (equiJoin config state.outerTaken (state.innerTaken inners) : Multiset (ι × ι)) := by
    rw [published_sum,← add_assoc,← Finset.sum_add_distrib]
    exact sharing.ledger
  refine ⟨sharing.paged,⟨(List.finRange n).flatMap left ++
    unclaimedPairs config (state.files missing) state.built state.probed state.nextPartition,?_⟩,fun some_ done => ?_,
    fun id message failed => ?_⟩
  · rw [← Multiset.coe_eq_coe,← whole,← Multiset.coe_add,← Multiset.coe_add,Parallel.coe_flatMap_finRange]
  · have none (id : Fin n) : left id = [] := by
      have due := sharing.due id
      generalize weight id = turns, left id = total at due ⊢
      rcases done id with ended | ready
      · cases due with
        | running running => rw [ended] at running; cases running
        | ended => rfl
        | failed failed => rw [ended] at failed; cases failed
      · rw [ready] at due
        exact ready_nothing due
    have claimed : unclaimedPairs config (state.files missing) state.built state.probed state.nextPartition = [] :=
      stockPairs_end (sharing.ended some_)
    rw [← Multiset.coe_eq_coe,← whole,claimed]
    simp [none]
  · have due := sharing.due id
    generalize weight id = turns, left id = total at due
    cases due with
    | running running => rw [failed] at running; cases running
    | ended ended => rw [failed] at ended; cases ended
    | failed same may =>
      rw [failed] at same
      cases same
      exact may

theorem Staged.right (staged : Staged missing capacity inners state) : JoinsRight capacity inners state := by
  by_cases late : 4 ≤ state.build.shared.barrier.phase
  · obtain ⟨left,weight,sharing⟩ := staged.shared late
    exact sharing.right
  · obtain ⟨_,ready⟩ := staged.ready (Nat.not_le.mp late)
    have none : state.published = [] := by
      rw [JoinState.published,List.flatMap_eq_nil_iff]
      intro id _
      rw [ready]
      rfl
    refine ⟨fun id page member => ?_,⟨_,by rw [none]; exact .refl _⟩,?_,fun id message failed => ?_⟩
    · rw [ready] at member
      cases member
    · rintro ⟨id,ended⟩
      rw [ready] at ended
      cases ended
    · rw [ready] at failed
      cases failed

/-- Whoever came in time has read all of its batches. -/
theorem Accounted.read (accounted : Accounted inners outers state) {id : Fin n} (attending : Parallel.Attending state.build id)
    (entered : Entered state id) (run : List (JoinAction n))
    (late : 4 ≤ (state.after missing capacity run).build.shared.barrier.phase) :
    (inners id).take ((state.after missing capacity run).build.locals id).taken.length = inners id ∧
      ((state.after missing capacity run).members id).taken = outers id := by
  induction run generalizing state with
  | nil =>
    change 4 ≤ state.build.shared.barrier.phase at late
    change (inners id).take (state.build.locals id).taken.length = inners id ∧ (state.members id).taken = outers id
    rw [Parallel.Attending,if_neg (by omega)] at attending
    rw [Entered,if_neg (by omega)] at entered
    have assigned := accounted.ledger.assigned id
    rw [attending,List.append_nil] at assigned
    have given := (accounted.dividing id).given
    rw [((accounted.dividing id).exported entered).1,List.append_nil] at given
    refine ⟨?_,given⟩
    rw [assigned,innerInput,List.length_map,List.take_length]
  | cons action rest ih =>
    refine ih (accounted.act action) ?_ (accounted.entered_act action entered) late
    rcases act_build missing capacity state action with same | ⟨step,rfl,free⟩
    · rw [same]
      exact attending
    · rw [act_free free]
      exact Parallel.act_attending (sharedConfig config n) accounted.ledger step id attending

end Sharing

/-- The state of an infinite run at a time. -/
def JoinState.at [Inhabited ι] (missing : String) (capacity : Nat) (state : JoinState config n ι) (schedule : Nat → JoinAction n)
    (time : Nat) : JoinState config n ι :=
  state.after missing capacity ((List.range time).map schedule)

theorem at_succ [Inhabited ι] (missing : String) (capacity : Nat) (state : JoinState config n ι) (schedule : Nat → JoinAction n)
    (time : Nat) : state.at missing capacity schedule (time + 1) =
      (state.at missing capacity schedule time).act missing capacity (schedule time) := by
  rw [JoinState.at,JoinState.after,List.range_succ,List.map_append,List.foldl_append]
  rfl

end PgBatch.ParallelJoin
