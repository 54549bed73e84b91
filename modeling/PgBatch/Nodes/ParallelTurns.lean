import PgBatch.Nodes.ParallelServing
import PgBatch.Nodes.HashJoinOutputTurns

/-! Turns of the participants of a spilled parallel join. Of the others a participant sees the
counter of the partitions and nothing else: a turn publishes pairs of the partition it has
claimed, or claims the next one. -/
namespace PgBatch.ParallelJoin
open Words Columnar Spill HashJoin
variable {ι : Type}

/-- How far a participant is with its output. -/
inductive Status where
  | running
  | ended
  | failed (message : String)
deriving DecidableEq, Repr

/-- The output of a participant between two turns of `produce_output`, with the pages it has published. -/
structure Output (config : Config) (ι : Type) where
  state : OutputState (Participant config ι)
  pages : List (List (ι × ι))
  status : Status

/-- What a participant makes of a turn: it goes on, it returns a page to its caller, or it is done. -/
def Output.behind {config : Config} (own : Output config ι) (nextPartition : Nat) :
    Except String (OutputTurn (Participant config ι × Nat)) → Output config ι × Nat
  | .error message => ({own with status := .failed message},nextPartition)
  | .ok (.again next) => ({own with state := next.move Prod.fst},next.source.2)
  | .ok (.done next true) =>
    ({own with
      state := next.fresh.move Prod.fst
      pages := own.pages ++ [next.output.map next.source.1.pairTags]},next.source.2)
  | .ok (.done next false) => ({own with state := next.move Prod.fst, status := .ended},next.source.2)

/-- A turn of a participant, which may move the counter of the partitions. -/
def Output.turn [Inhabited ι] {config : Config} (shared : SharedFiles ι) (capacity : Nat) (own : Output config ι)
    (nextPartition : Nat) : Output config ι × Nat :=
  match own.status with
  | .running => own.behind nextPartition (outputTurn (parallelProbes config shared) capacity (own.state.move (·,nextPartition)))
  | .ended | .failed _ => (own,nextPartition)

/-- What a participant has still to publish of the partitions it has claimed, in less than so many turns. -/
inductive Due [Inhabited ι] {config : Config} (shared : SharedFiles ι) (capacity : Nat) (own : Output config ι) :
    Nat → List (ι × ι) → Prop
  | running {turns : Nat} {total : List (ι × ι)} (status : own.status = .running)
      (delivers : Delivers (ownProbes config shared) Participant.pairTags GrowError Free capacity turns own.state total) :
      Due shared capacity own (turns + 1) total
  | ended (status : own.status = .ended) : Due shared capacity own 0 []
  | failed {message : String} {total : List (ι × ι)} (status : own.status = .failed message) (may : GrowError message) :
      Due shared capacity own 0 total

/-- No page is empty, or has more rows than fit. -/
def Paged {config : Config} (capacity : Nat) (own : Output config ι) : Prop :=
  ∀ page ∈ own.pages, page ≠ [] ∧ page.length ≤ capacity

section Turns
variable [Inhabited ι] {config : Config} {shared : SharedFiles ι} {capacity : Nat} {inner outer : Nat → List (Row ι)}
  {own : Output config ι} {total : List (ι × ι)} {state : OutputState (Participant config ι)}

omit [Inhabited ι] in
theorem Free.claims {own : Participant config ι} (free : Free own) : own.claims = true := by
  rw [Participant.claims,free.started,free.opened]
  rfl

theorem fetchOwn_claims {own : Participant config ι} (claims : own.claims = true) :
    fetchOwn config shared own = .ok (own,.ended) := by
  obtain ⟨unclaimed,closed⟩ := Bool.and_eq_true_iff.mp claims
  rw [fetchOwn,Option.isNone_iff_eq_none.mp unclaimed,Option.isNone_iff_eq_none.mp closed]

/-- The counter is carried along. -/
theorem shows_counter (config : Config) (shared : SharedFiles ι) (counter : Nat) :
    Shows (ownProbes config shared) (parallelProbes config shared) fun own => (own,counter) :=
  ⟨fun _ => rfl,fun _ => rfl,fun _ => rfl,fun _ => rfl,fun _ => rfl,fun _ => rfl,fun _ _ _ => rfl⟩

/-- A turn that neither claims nor ends is one of the participant by itself. -/
theorem outputTurn_own {turn : Except String (OutputTurn (Participant config ι))} (counter : Nat)
    (ran : outputTurn (ownProbes config shared) capacity state = turn)
    (going : ∀ next found, turn = .ok (.done next found) → next.held = true) :
    outputTurn (parallelProbes config shared) capacity (state.move (·,counter)) = turn.map (OutputTurn.move (·,counter)) := by
  rw [← ran]
  refine outputTurn_move (shows_counter config shared counter) capacity state fun lanes free => ?_
  generalize released : releasePending (ownProbes config shared) state = after at lanes free
  change fetchProbe config shared (after.source,counter) = (fetchOwn config shared after.source).map _
  unfold fetchProbe
  dsimp only
  split
  · rename_i claims
    exfalso
    have ended : outputTurn (ownProbes config shared) capacity state =
        .ok (.done {after with source := after.source} (decide (after.output ≠ []))) := by
      unfold outputTurn
      rw [released]
      dsimp only
      rw [if_neg (not_not_intro lanes),if_neg (by simp [free]),fetchedTurn]
      change (fetchOwn config shared after.source >>= _) = _
      rw [fetchOwn_claims claims]
      rfl
    have held := going _ _ (ran.symm.trans ended)
    rw [free] at held
    cases held
  · cases fetchOwn config shared after.source with
    | error message => rfl
    | ok result => rfl

/-- A participant that is free claims a partition, if there is one left. -/
theorem outputTurn_free (idle : Idle (releasePending (ownProbes config shared) state))
    (free : Free (releasePending (ownProbes config shared) state).source) (counter : Nat) :
    outputTurn (parallelProbes config shared) capacity (state.move (·,counter)) =
      .ok (if shared.buildShape.partitions ≤ counter then
          .done ((releasePending (ownProbes config shared) state).move (·,counter + 1)) false
        else .again ({releasePending (ownProbes config shared) state with
          source := {(releasePending (ownProbes config shared) state).source with claimed := some counter}}.move (·,counter + 1))) := by
  have moved := releasePending_move (shows_counter config shared counter) state
  have turn := (pendingTurn (parallelProbes config shared) capacity (state.move (·,counter))).2
  rw [← turn,moved]
  generalize releasePending (ownProbes config shared) state = after at idle free
  have idle' : Idle (after.move (·,counter)) := ⟨⟨idle.lanes,idle.output,idle.qualified⟩,idle.free,idle.settled⟩
  rw [idleTurn idle',fetchedTurn]
  change (fetchProbe config shared (after.source,counter) >>= _) = _
  unfold fetchProbe
  dsimp only
  rw [if_pos free.claims]
  split
  · simp only [bind,Except.bind]
    have empty : decide ((after.move (·,counter)).output ≠ []) = false := decide_eq_false (not_not_intro idle.output)
    rw [empty]
    rfl
  · rfl

/-- The pairs that are neither published nor claimed are those of the partitions from the counter on. -/
abbrev unclaimedPairs (config : Config) (shared : SharedFiles ι) (inner outer : Nat → List (Row ι)) (counter : Nat) : List (ι × ι) :=
  stockPairs config inner outer counter shared.buildShape.partitions

/-- What a turn leaves: pairs move from the unclaimed ones to the participant and on to its pages, and less is to be done. -/
structure TurnKeeps (shared : SharedFiles ι) (capacity : Nat) (inner outer : Nat → List (Row ι)) (own : Output config ι)
    (total : List (ι × ι)) (counter weight : Nat) (after : Output config ι × Nat) (left : List (ι × ι)) (lighter : Nat) : Prop where
  due : Due shared capacity after.1 lighter left
  paged : Paged capacity own → Paged capacity after.1
  ledger : (after.1.pages.flatten ++ (left ++ unclaimedPairs config shared inner outer after.2)).Perm
    (own.pages.flatten ++ (total ++ unclaimedPairs config shared inner outer counter))
  less : toLex (shared.buildShape.partitions - after.2,lighter) < toLex (shared.buildShape.partitions - counter,weight)
  grows : counter ≤ after.2
  last : after.1.status = .ended → shared.buildShape.partitions ≤ after.2

omit [Inhabited ι] in
theorem lighter_lt {partitions counter lighter weight : Nat} (less : lighter < weight) :
    toLex (partitions - counter,lighter) < toLex (partitions - counter,weight) := by
  rw [Prod.Lex.toLex_lt_toLex]
  exact .inr ⟨rfl,less⟩

omit [Inhabited ι] in
theorem free_move {idle : OutputState (Participant config ι)} (partition : Nat) (free : Idle idle) :
    Idle {idle with source := {idle.source with claimed := some partition}} :=
  ⟨⟨free.lanes,free.output,free.qualified⟩,free.free,free.settled⟩

theorem Output.turn_keeps (files : FilesHold config shared inner outer) (positive : 0 < capacity) (small : capacity ≤ pgBatchSize)
    {weight : Nat} (due : Due shared capacity own weight total) (running : own.status = .running) (counter : Nat) :
    ∃ left lighter, TurnKeeps shared capacity inner outer own total counter weight (own.turn shared capacity counter) left lighter := by
  have turn : own.turn shared capacity counter =
      own.behind counter (outputTurn (parallelProbes config shared) capacity (own.state.move (·,counter))) := by
    rw [Output.turn,running]
  rw [turn]
  have going {partitions : Nat} (ended : own.status = .ended) : partitions ≤ counter := by
    rw [running] at ended
    cases ended
  cases due with
  | ended status => rw [running] at status; cases status
  | failed status => rw [running] at status; cases status
  | @running turns _ _ delivers =>
    cases delivers with
    | refused failed may =>
      rw [outputTurn_own counter failed fun _ _ same => by cases same]
      exact ⟨total,0,.failed rfl may,id,.refl _,lighter_lt (Nat.succ_pos _),Nat.le_refl _,fun ended => by cases ended⟩
    | @again turns _ next _ ran later =>
      rw [outputTurn_own counter ran fun _ _ same => by cases same]
      exact ⟨total,_,.running running later,id,.refl _,lighter_lt (Nat.lt_succ_self _),Nat.le_refl _,going⟩
    | @page turns _ next _ rest ran held some_ fits later split =>
      rw [outputTurn_own counter ran fun _ _ same => by cases same; exact held]
      refine ⟨rest,_,.running running later,fun paged page member => ?_,?_,lighter_lt (Nat.lt_succ_self _),Nat.le_refl _,going⟩
      · rcases List.mem_append.mp member with old | new
        · exact paged page old
        · rw [List.mem_singleton.mp new]
          refine ⟨fun none => some_ (List.map_eq_nil_iff.mp none),?_⟩
          rw [List.length_map]
          exact fits
      · change ((own.pages ++ [next.output.map next.source.pairTags]).flatten ++ _).Perm _
        rw [List.flatten_append,List.flatten_singleton,List.append_assoc,← List.append_assoc (List.map _ _)]
        exact (split.append_right _).append_left _
    | ended idle ran free =>
      rw [outputTurn_free idle free counter]
      by_cases none : shared.buildShape.partitions ≤ counter
      · rw [if_pos none]
        have gone : shared.buildShape.partitions - (counter + 1) = shared.buildShape.partitions - counter := by omega
        refine ⟨[],0,.ended rfl,id,?_,?_,Nat.le_succ _,fun _ => Nat.le_succ_of_le none⟩
        · change (own.pages.flatten ++ ([] ++ stockPairs config inner outer (counter + 1) _)).Perm _
          rw [unclaimedPairs,stockPairs_end none,stockPairs_end (Nat.le_succ_of_le none)]
        · change toLex (shared.buildShape.partitions - (counter + 1),0) < _
          rw [gone]
          exact lighter_lt (Nat.succ_pos _)
      · rw [if_neg none]
        have inside := Nat.not_le.mp none
        generalize releasePending (ownProbes config shared) own.state = after at idle free
        have supplies : Supplies shared ({after.source with claimed := some counter} : Participant config ι)
            (partitionPairs config inner outer counter) :=
          claimed_supplies files inside rfl ⟨rfl,free.opened,free.shift⟩
        have loop : Loop (ownProbes config shared) Participant.pairTags (Supplies shared)
            {after with source := {after.source with claimed := some counter}} (partitionPairs config inner outer counter) :=
          .idle (free_move counter idle) supplies
        have room : after.output.length < capacity := by
          rw [idle.output]
          exact positive
        obtain ⟨turns,delivers⟩ := loop.delivers positive small room
        refine ⟨_,_,.running running delivers,id,?_,?_,Nat.le_succ _,fun ended => Nat.le_succ_of_le (going ended)⟩
        · change (own.pages.flatten ++ (_ ++ stockPairs config inner outer (counter + 1) _)).Perm _
          rw [unclaimedPairs,stockPairs_step inside,List.nil_append]
        · rw [Prod.Lex.toLex_lt_toLex]
          exact .inl (Nat.sub_lt_sub_left inside (Nat.lt_succ_self _))

/-- Before its first turn a participant has nothing to publish. -/
theorem start_due {own : Participant config ι} (free : Free own) : Due shared capacity (⟨outputStart own,[],.running⟩ : Output config ι) 1 [] := by
  have ended : (ownProbes config shared).fetch own = .ok (own,.ended) := fetchOwn_claims free.claims
  exact .running rfl (.ended ⟨⟨rfl,rfl,rfl⟩,rfl,rfl⟩ ended free)

end Turns

end PgBatch.ParallelJoin
