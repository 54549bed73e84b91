import PgBatch.Nodes.HashJoinOutputRun

/-! The turns of `produce_output` one by one, for machines that take turns with others: how
many of them it takes up to the end of the source, and that a machine does not see what its
source carries along. -/
namespace PgBatch.HashJoin
open Words Chains
variable {σ τ κ : Type}

/-- From here on the turns publish these pairs, page by page, and come to the end of the source within so many turns,
unless one of them fails in a way it may. -/
inductive Delivers (probes : Probes σ) (name : σ → Nat × Nat → κ) (Refused : String → Prop) (Final : σ → Prop) (capacity : Nat) :
    Nat → OutputState σ → List κ → Prop
  | refused {turns : Nat} {state : OutputState σ} {total : List κ} {message : String}
      (failed : outputTurn probes capacity state = .error message) (may : Refused message) :
      Delivers probes name Refused Final capacity turns state total
  | ended {turns : Nat} {state : OutputState σ} {after : σ} (idle : Idle (releasePending probes state))
      (ran : probes.fetch (releasePending probes state).source = .ok (after,.ended))
      (final : Final (releasePending probes state).source) : Delivers probes name Refused Final capacity turns state []
  | again {turns : Nat} {state next : OutputState σ} {total : List κ}
      (ran : outputTurn probes capacity state = .ok (.again next))
      (later : Delivers probes name Refused Final capacity turns next total) :
      Delivers probes name Refused Final capacity (turns + 1) state total
  | page {turns : Nat} {state next : OutputState σ} {total rest : List κ}
      (ran : outputTurn probes capacity state = .ok (.done next true)) (held : next.held = true) (some : next.output ≠ [])
      (fits : next.output.length ≤ capacity) (later : Delivers probes name Refused Final capacity turns next.fresh rest)
      (split : (next.output.map (name next.source) ++ rest).Perm total) :
      Delivers probes name Refused Final capacity (turns + 1) state total

section Delivering
variable {probes : Probes σ} {name : σ → Nat × Nat → κ} {Refused : String → Prop} {Final : σ → Prop} {capacity turns : Nat}
  {state : OutputState σ} {total other : List κ}

theorem Delivers.perm (delivers : Delivers probes name Refused Final capacity turns state total) (perm : total.Perm other) :
    Delivers probes name Refused Final capacity turns state other := by
  induction delivers generalizing other with
  | refused failed may => exact .refused failed may
  | ended idle ran final =>
    rw [List.Perm.eq_nil perm.symm]
    exact .ended idle ran final
  | again ran _ ih => exact .again ran (ih perm)
  | page ran held some fits later split _ => exact .page ran held some fits later (split.trans perm)

theorem Delivers.release (delivers : Delivers probes name Refused Final capacity turns (releasePending probes state) total) :
    Delivers probes name Refused Final capacity turns state total := by
  obtain ⟨again,turn⟩ := pendingTurn probes capacity state
  cases delivers with
  | refused failed may => exact .refused (turn ▸ failed) may
  | ended idle ran final =>
    rw [again] at idle ran final
    exact .ended idle ran final
  | again ran later => exact .again (turn ▸ ran) later
  | page ran held some fits later split => exact .page (turn ▸ ran) held some fits later split

/-- Each page makes the pairs that are left fewer, and between two pages the turns come to an end. -/
theorem Loop.delivers (positive : 0 < capacity) (small : capacity ≤ pgBatchSize)
    (loop : Loop probes name (FeedsTo probes name Refused Final) state total) (room : state.output.length < capacity) :
    ∃ turns, Delivers probes name Refused Final capacity turns state total := by
  generalize size : total.length = count
  induction count using Nat.strong_induction_on generalizing state total with
  | _ count ih =>
    have closed : TurnRule probes name Refused Final capacity fun total state =>
        total.length ≤ count → ∃ turns, Delivers probes name Refused Final capacity turns state total := by
      constructor
      · exact fun failed may _ => ⟨0,.refused failed may⟩
      · intro state after idle ran final _
        have released : releasePending probes state = state := if_neg (by simp [idle.settled])
        rw [← released] at idle ran final
        exact ⟨0,.ended idle ran final⟩
      · intro state next total ran behind few
        obtain ⟨turns,delivers⟩ := behind few
        exact ⟨turns + 1,.again ran delivers⟩
      · intro state next total ran returned few
        cases returned with
        | page content serves held some fits right left ledger loop =>
          have shorter : left.length < count := by
            have length := ledger.length_eq
            have := List.length_pos_of_ne_nil some
            rw [List.length_append,List.length_map] at length
            omega
          obtain ⟨turns,delivers⟩ := ih left.length shorter loop positive rfl
          exact ⟨turns + 1,.page ran held some fits delivers (serves.name ▸ ledger)⟩
      · intro state total _ behind few
        obtain ⟨turns,delivers⟩ := behind few
        exact ⟨turns,delivers.release⟩
      · intro state total other behind perm few
        obtain ⟨turns,delivers⟩ := behind (perm.length_eq ▸ few)
        exact ⟨turns,delivers.perm perm⟩
    exact loop.rule closed positive small room (Nat.le_of_eq size)

end Delivering

/-! Sources that carry something along. -/

def OutputState.move (put : σ → τ) (state : OutputState σ) : OutputState τ :=
  ⟨put state.source,state.held,state.nextRow,state.lanes,state.probeDonePending,state.output,state.outputQualified⟩

def OutputTurn.move (put : σ → τ) : OutputTurn σ → OutputTurn τ
  | again state => again (state.move put)
  | done state found => done (state.move put) found

/-- Both sources show the machine the same batch. -/
structure Shows (probes : Probes σ) (probes' : Probes τ) (put : σ → τ) : Prop where
  finish : ∀ source, probes'.finish (put source) = put (probes.finish source)
  selection : ∀ source, probes'.selection (put source) = probes.selection source
  probeHash : ∀ source, probes'.probeHash (put source) = probes.probeHash source
  findHead : ∀ source, probes'.findHead (put source) = probes.findHead source
  next : ∀ source, probes'.next (put source) = probes.next source
  hasDuplicates : ∀ source, probes'.hasDuplicates (put source) = probes.hasDuplicates source
  qualify : ∀ source first output, probes'.qualify (put source) first output =
    (probes.qualify source first output).map fun result => (put result.1,result.2)

section Moving
variable {probes : Probes σ} {probes' : Probes τ} {put : σ → τ} (shows : Shows probes probes' put) (capacity : Nat)
include shows

theorem windowLoop_move (source : σ) (left row : Nat) (lanes : List Lane) :
    windowLoop probes' (put source) left row lanes = windowLoop probes source left row lanes := by
  induction left generalizing row lanes with
  | zero => rfl
  | succ left ih => simp only [windowLoop,shows.selection,shows.probeHash,shows.findHead,ih]

theorem uniqueLoop_move (source : σ) (left row : Nat) (output : List (Nat × Nat)) :
    uniqueLoop probes' capacity (put source) left row output = uniqueLoop probes capacity source left row output := by
  induction left generalizing row output with
  | zero => rfl
  | succ left ih => simp only [uniqueLoop,shows.selection,shows.probeHash,shows.findHead,ih]

theorem qualifyOutput_move (state : OutputState σ) :
    qualifyOutput probes' (state.move put) = (qualifyOutput probes state).map (OutputState.move put) := by
  unfold qualifyOutput
  simp only [OutputState.move,shows.qualify]
  split
  · rfl
  · cases probes.qualify state.source state.outputQualified state.output <;> rfl

theorem fullOutput_move (state : OutputState σ) :
    fullOutput probes' capacity (state.move put) = (fullOutput probes capacity state).map (OutputTurn.move put) := by
  rw [fullOutput,fullOutput,qualifyOutput_move shows]
  cases qualifyOutput probes state with
  | error message => rfl
  | ok after =>
    simp only [bind,Except.bind,Except.map]
    change Except.ok (if after.output.length = capacity then _ else _) = _
    split <;> rfl

theorem batchEnd_move (state : OutputState σ) :
    batchEnd probes' (state.move put) = (batchEnd probes state).map (OutputTurn.move put) := by
  have ends (after : OutputState σ) :
      (if after.output = [] then Except.ok (ε := String)
          (OutputTurn.again {after.move put with source := probes'.finish (after.move put).source, held := false})
        else .ok (.done {after.move put with probeDonePending := true} true)) =
      (if after.output = [] then Except.ok (.again {after with source := probes.finish after.source, held := false})
        else .ok (.done {after with probeDonePending := true} true)).map (OutputTurn.move put) := by
    split
    · simp only [OutputState.move,shows.finish]
      rfl
    · rfl
  have output : (state.move put).output = state.output := rfl
  unfold batchEnd
  rw [qualifyOutput_move shows,output]
  by_cases none : state.output = []
  · rw [if_pos none,if_pos none]
    exact ends state
  · rw [if_neg none,if_neg none]
    cases qualifyOutput probes state with
    | error message => rfl
    | ok after => exact ends after

theorem probeTurn_move (state : OutputState σ) :
    probeTurn probes' capacity (state.move put) = (probeTurn probes capacity state).map (OutputTurn.move put) := by
  have window : loadProbeWindow probes' (state.move put) = (loadProbeWindow probes state).move put := by
    simp only [loadProbeWindow,OutputState.move,shows.selection,windowLoop_move shows]
  have unique : probeUniqueRows probes' capacity (state.move put) = (probeUniqueRows probes capacity state).move put := by
    simp only [probeUniqueRows,OutputState.move,shows.selection,uniqueLoop_move shows]
  have duplicates : probes'.hasDuplicates (state.move put).source = probes.hasDuplicates state.source := shows.hasDuplicates _
  unfold probeTurn
  rw [duplicates,window,unique]
  split
  · dsimp only
    have lanes : ((loadProbeWindow probes state).move put).lanes = (loadProbeWindow probes state).lanes := rfl
    rw [lanes,batchEnd_move shows]
    split <;> rfl
  · dsimp only
    have output : ((probeUniqueRows probes capacity state).move put).output = (probeUniqueRows probes capacity state).output := rfl
    rw [output,fullOutput_move shows,batchEnd_move shows]
    split <;> rfl

theorem releasePending_move (state : OutputState σ) :
    releasePending probes' (state.move put) = (releasePending probes state).move put := by
  unfold releasePending
  have waits : (state.move put).probeDonePending = state.probeDonePending := rfl
  rw [waits]
  split
  · simp only [OutputState.move,shows.finish]
  · rfl

/-- A turn is the same one, if fetching is. -/
theorem outputTurn_move (state : OutputState σ)
    (fetches : (releasePending probes state).lanes = [] → (releasePending probes state).held = false →
      probes'.fetch (put (releasePending probes state).source) =
        (probes.fetch (releasePending probes state).source).map fun result => (put result.1,result.2)) :
    outputTurn probes' capacity (state.move put) = (outputTurn probes capacity state).map (OutputTurn.move put) := by
  unfold outputTurn
  rw [releasePending_move shows]
  generalize releasePending probes state = state at fetches
  have lanes : (state.move put).lanes = state.lanes := rfl
  have held : (state.move put).held = state.held := rfl
  have round : probeRound probes' capacity (state.move put) = (probeRound probes capacity state).move put := by
    simp only [probeRound,OutputState.move,shows.next]
  dsimp only
  rw [lanes,held,round,probeTurn_move shows]
  split
  · have output : ((probeRound probes capacity state).move put).output = (probeRound probes capacity state).output := rfl
    rw [output,fullOutput_move shows]
    split <;> rfl
  · rename_i noLanes
    split
    · rfl
    · rename_i free
      have same : probes'.fetch (state.move put).source =
          (probes.fetch state.source).map fun result => (put result.1,result.2) :=
        fetches (Classical.not_not.mp noLanes) (Bool.eq_false_iff.mpr free)
      unfold fetchedTurn
      rw [same]
      cases probes.fetch state.source with
      | error message => rfl
      | ok result =>
        obtain ⟨source,fetched⟩ := result
        cases fetched with
        | again => rfl
        | ended => rfl
        | found =>
          exact probeTurn_move shows capacity {state with source := source, held := true, nextRow := 0}

end Moving

end PgBatch.HashJoin
