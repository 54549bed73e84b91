import PgBatch.Nodes.HashJoinOutput

/-! Runs of `produce_output`: whatever comes out of the probe batches is published once,
a page at a time, and each page belongs to the batch that is still held. -/
namespace PgBatch.HashJoin
open Words Chains

section Feeding
variable {σ κ : Type}

/-- While `Held` the probe batch has this content, and the conditions sift its pairs. -/
structure BatchHeld (probes : Probes σ) (name : σ → Nat × Nat → κ) (Held : σ → Prop) (content : Content κ) : Prop where
  serves : ∀ source, Held source → Serves probes name source content
  qualified : ∀ source, Held source → ∀ first output, first ≤ output.length → output.length ≤ pgBatchSize →
    (∀ pair ∈ output, pair ∈ content.pairs) → ∃ after, probes.qualify source first output =
      .ok (after,output.take first ++ (output.drop first).filter content.passes) ∧ Held after

/-- From here on the source delivers batches with these pairs, in some order, unless it fails in a way it may;
it comes to its end in a `Final` state. -/
inductive FeedsTo (probes : Probes σ) (name : σ → Nat × Nat → κ) (Refused : String → Prop) (Final : σ → Prop) : σ → List κ → Prop
  | refused {source : σ} {total : List κ} {message : String} (failed : probes.fetch source = .error message)
      (may : Refused message) : FeedsTo probes name Refused Final source total
  | ended {source after : σ} {total : List κ} (ran : probes.fetch source = .ok (after,.ended)) (final : Final source)
      (none : total = []) : FeedsTo probes name Refused Final source total
  | again {source after : σ} {total : List κ} (ran : probes.fetch source = .ok (after,.again))
      (later : FeedsTo probes name Refused Final after total) : FeedsTo probes name Refused Final source total
  | found {source after : σ} {total rest : List κ} (content : Content κ) (Held : σ → Prop)
      (ran : probes.fetch source = .ok (after,.found)) (held : Held after) (batch : BatchHeld probes name Held content)
      (later : ∀ last, Held last → FeedsTo probes name Refused Final (probes.finish last) rest)
      (split : (content.emits ++ rest).Perm total) : FeedsTo probes name Refused Final source total

/-- It may come to its end in any state. -/
abbrev Feeds (probes : Probes σ) (name : σ → Nat × Nat → κ) (Refused : String → Prop) : σ → List κ → Prop :=
  FeedsTo probes name Refused fun _ => True

variable {probes : Probes σ} {name : σ → Nat × Nat → κ} {Refused : String → Prop} {Final : σ → Prop}

theorem FeedsTo.perm {source : σ} {total other : List κ} (feeds : FeedsTo probes name Refused Final source total)
    (perm : total.Perm other) : FeedsTo probes name Refused Final source other := by
  induction feeds generalizing other with
  | refused failed may => exact .refused failed may
  | ended ran final none => exact .ended ran final (List.Perm.eq_nil (none ▸ perm.symm))
  | again ran _ ih => exact .again ran (ih perm)
  | found content Held ran held batch later split _ => exact .found content Held ran held batch later (split.trans perm)

end Feeding

section Loop
variable {σ κ : Type}

def aheadOf (content : Content κ) (work : Work) (nextRow : Nat) : List (Nat × Nat) :=
  workPairs work ++ pairsOf content.found (content.selection.rowsFrom nextRow)

/-- Every turn with the batch makes this less. -/
def heldWeight (content : Content κ) (work : Work) (nextRow : Nat) : Nat :=
  (aheadOf content work nextRow).length + work.length + 2 * (content.selection.rowsFrom nextRow).length

/-- A batch is held; `total` is what has to come out of the call and those that follow, `rest` of it behind the batch. -/
structure Holding (Held : σ → Prop) (state : OutputState σ) (content : Content κ) (rest : List κ) (work : Work)
    (total : List κ) : Prop where
  held : state.held = true
  settled : state.probeDonePending = false
  source : Held state.source
  linked : List.Forall₂ (LaneLinked content.next) state.lanes work
  qualified : state.outputQualified ≤ state.output.length
  passed : ∀ pair ∈ state.output.take state.outputQualified, content.passes pair = true
  inside : ∀ pair ∈ state.output ++ workPairs work, pair ∈ content.pairs
  ledger : (content.names (state.output ++ aheadOf content work state.nextRow) ++ rest).Perm total

/-- Nothing is in the output yet. -/
structure Cleared (state : OutputState σ) : Prop where
  lanes : state.lanes = []
  output : state.output = []
  qualified : state.outputQualified = 0

/-- No batch is held, and nothing is left to do. -/
structure Idle (state : OutputState σ) : Prop extends Cleared state where
  free : state.held = false
  settled : state.probeDonePending = false

/-- What holds before every turn; `Later` says what a source delivers from a turn on that has no batch. -/
inductive Loop (probes : Probes σ) (name : σ → Nat × Nat → κ) (Later : σ → List κ → Prop) (state : OutputState σ)
    (total : List κ) : Prop
  | idle (idle : Idle state) (later : Later state.source total)
  | pending (content : Content κ) (Held : σ → Prop) (waits : state.probeDonePending = true) (cleared : Cleared state)
      (source : Held state.source) (later : ∀ last, Held last → Later (probes.finish last) total)
  | holding (content : Content κ) (Held : σ → Prop) (rest : List κ) (work : Work)
      (batch : BatchHeld probes name Held content) (later : ∀ last, Held last → Later (probes.finish last) rest)
      (holding : Holding Held state content rest work total)

/-- The state of a call, with its output reset. -/
def OutputState.fresh (state : OutputState σ) : OutputState σ :=
  {state with output := [], outputQualified := 0}

/-- What a call leaves: nothing more, or a page of the batch that is held, and the rest for the calls to come. -/
inductive Returned (probes : Probes σ) (name : σ → Nat × Nat → κ) (Later : σ → List κ → Prop) (capacity : Nat)
    (total : List κ) (next : OutputState σ) : Bool → Prop
  | nothing (empty : total = []) : Returned probes name Later capacity total next false
  | page (content : Content κ) (serves : Serves probes name next.source content) (held : next.held = true)
      (some : next.output ≠ []) (fits : next.output.length ≤ capacity)
      (right : ∀ pair ∈ next.output, pair ∈ content.pairs ∧ content.passes pair = true) (left : List κ)
      (ledger : (next.output.map content.name ++ left).Perm total)
      (loop : Loop probes name Later next.fresh left) : Returned probes name Later capacity total next true

variable {probes : Probes σ} {name : σ → Nat × Nat → κ} {Refused : String → Prop} {Final : σ → Prop} {Later : σ → List κ → Prop}
  {Held : σ → Prop} {state next : OutputState σ} {content : Content κ} {rest : List κ} {work : Work} {total : List κ} {capacity : Nat}

/-- The output that has passed the conditions. -/
def OutputState.sifted (state : OutputState σ) (content : Content κ) (source : σ) : OutputState σ :=
  {state with
    source := source
    output := state.output.filter content.passes
    outputQualified := (state.output.filter content.passes).length}

/-- Behind the conditions is what passes them. -/
theorem qualifyOutput_spec (batch : BatchHeld probes name Held content)
    (holding : Holding Held state content rest work total) (small : state.output.length ≤ pgBatchSize) :
    ∃ source, qualifyOutput probes state = .ok (state.sifted content source) ∧
      Holding Held (state.sifted content source) content rest work total := by
  have kept : (state.output.take state.outputQualified).filter content.passes =
      state.output.take state.outputQualified := List.filter_eq_self.mpr holding.passed
  have names : content.names (state.output.filter content.passes ++ aheadOf content work state.nextRow) =
      content.names (state.output ++ aheadOf content work state.nextRow) := by
    simp [Content.names,List.filter_filter]
  have holds (source : σ) (held : Held source) :
      Holding Held (state.sifted content source) content rest work total := by
    refine ⟨holding.held,holding.settled,held,holding.linked,Nat.le_refl _,?_,?_,?_⟩
    · intro pair member
      exact (List.mem_filter.mp (List.mem_of_mem_take member)).2
    · intro pair member
      refine holding.inside pair ?_
      rcases List.mem_append.mp member with shown | later
      · exact List.mem_append_left _ (List.mem_filter.mp shown).1
      · exact List.mem_append_right _ later
    · exact names ▸ holding.ledger
  unfold qualifyOutput
  split
  · rename_i all
    have whole : state.output.filter content.passes = state.output := by
      rwa [all,List.take_length] at kept
    refine ⟨state.source,?_,holds state.source holding.source⟩
    rw [OutputState.sifted,whole,← all]
  · obtain ⟨source,ran,held⟩ := batch.qualified state.source holding.source state.outputQualified state.output
      holding.qualified small fun pair member => holding.inside pair (List.mem_append_left _ member)
    have parts : state.output.take state.outputQualified ++
        (state.output.drop state.outputQualified).filter content.passes = state.output.filter content.passes := by
      rw [← kept,← List.filter_append,List.take_append_drop]
    refine ⟨source,?_,holds source held⟩
    rw [ran]
    simp only [bind,Except.bind,parts]
    rfl

/-- How a turn with a batch may end, with less to do than `bound` before another one with it. -/
inductive TurnOk (probes : Probes σ) (name : σ → Nat × Nat → κ) (Later : σ → List κ → Prop) (Held : σ → Prop)
    (content : Content κ) (rest : List κ) (capacity : Nat) (total : List κ) (bound : Nat) : OutputTurn σ → Prop
  | again {next : OutputState σ} {work : Work} (less : heldWeight content work next.nextRow < bound)
      (room : next.output.length < capacity) (holding : Holding Held next content rest work total) :
      TurnOk probes name Later Held content rest capacity total bound (.again next)
  | released {next : OutputState σ} (idle : Idle next) (last : σ) (held : Held last)
      (source : next.source = probes.finish last) (ledger : rest.Perm total) :
      TurnOk probes name Later Held content rest capacity total bound (.again next)
  | done {next : OutputState σ} (returned : Returned probes name Later capacity total next true) :
      TurnOk probes name Later Held content rest capacity total bound (.done next true)

theorem sifted_names (state : OutputState σ) (content : Content κ) (source : σ) :
    content.names (state.sifted content source).output = (state.sifted content source).output.map content.name := by
  simp [Content.names,OutputState.sifted,List.filter_filter]

section Turns
variable (batch : BatchHeld probes name Held content)
  (later : ∀ last, Held last → Later (probes.finish last) rest)
include batch later

/-- A full output is returned, or it has room again. -/
theorem fullOutput_spec (positive : 0 < capacity) (small : capacity ≤ pgBatchSize)
    (holding : Holding Held state content rest work total) (full : state.output.length = capacity) {bound : Nat}
    (less : heldWeight content work state.nextRow < bound) :
    ∃ turn, fullOutput probes capacity state = .ok turn ∧
      TurnOk probes name Later Held content rest capacity total bound turn := by
  obtain ⟨source,ran,sifted⟩ := qualifyOutput_spec batch holding (full ▸ small)
  have fewer : (state.sifted content source).output.length ≤ capacity := full ▸ List.length_filter_le ..
  refine ⟨_,by rw [fullOutput,ran]; rfl,?_⟩
  split
  · rename_i still
    have some : (state.sifted content source).output ≠ [] := by
      intro none
      rw [none,List.length_nil] at still
      omega
    refine .done (.page content (batch.serves _ sifted.source) sifted.held some fewer ?_ _ ?_
      (.holding content Held rest work batch later
        ⟨sifted.held,sifted.settled,sifted.source,sifted.linked,Nat.le_refl 0,by simp [OutputState.fresh],?_,.refl _⟩))
    · intro pair member
      exact ⟨sifted.inside pair (List.mem_append_left _ member),(List.mem_filter.mp member).2⟩
    · have ledger := sifted.ledger
      rw [Content.names_append,sifted_names,List.append_assoc] at ledger
      exact ledger
    · exact fun pair member => sifted.inside pair (List.mem_append_right _ (by simpa [OutputState.fresh] using member))
  · rename_i notFull
    exact .again less (Nat.lt_of_le_of_ne fewer notFull) sifted

/-- At the end of a batch what has come together of it is returned, or the batch is let go. -/
theorem batchEnd_spec (small : capacity ≤ pgBatchSize) (holding : Holding Held state content rest [] total)
    (room : state.output.length < capacity) (ended : content.selection.rowsFrom state.nextRow = []) (bound : Nat) :
    ∃ turn, batchEnd probes state = .ok turn ∧
      TurnOk probes name Later Held content rest capacity total bound turn := by
  have ahead : aheadOf content [] state.nextRow = [] := by
    rw [aheadOf,ended]
    rfl
  have released {source : σ} (held : Held source) (ledger : rest.Perm total) (output : List (Nat × Nat))
      (empty : output = []) (lanes : state.lanes = []) (count : Nat) (zero : count = 0) :
      TurnOk probes name Later Held content rest capacity total bound (.again {state with
        source := probes.finish source, held := false, output := output, outputQualified := count}) := by
    subst empty zero
    exact .released ⟨⟨lanes,rfl,rfl⟩,rfl,holding.settled⟩ source held rfl ledger
  have lanes : state.lanes = [] := by
    have linked := holding.linked
    generalize state.lanes = lanes at linked
    cases linked
    rfl
  unfold batchEnd
  by_cases empty : state.output = []
  · have ledger := holding.ledger
    have zero : state.outputQualified = 0 := by
      have qualified := holding.qualified
      rw [empty] at qualified
      exact Nat.le_zero.mp qualified
    rw [empty,ahead] at ledger
    refine ⟨_,by rw [if_pos empty]; exact if_pos empty,?_⟩
    exact released holding.source (by simpa [Content.names] using ledger) state.output empty lanes _ zero
  · obtain ⟨source,ran,sifted⟩ := qualifyOutput_spec batch holding (Nat.le_trans (Nat.le_of_lt room) small)
    have ledger := sifted.ledger
    rw [show aheadOf content [] (state.sifted content source).nextRow = [] from ahead,List.append_nil,
      sifted_names] at ledger
    rw [if_neg empty,ran]
    by_cases none : (state.sifted content source).output = []
    · rw [none] at ledger
      refine ⟨_,if_pos none,?_⟩
      exact released sifted.source (by simpa using ledger) _ none lanes _ (by
        have count : (state.sifted content source).outputQualified = (state.sifted content source).output.length := rfl
        rw [count,none]
        rfl)
    · refine ⟨_,if_neg none,.done (.page content (batch.serves _ sifted.source) sifted.held none ?_ ?_ _ ledger
        (.pending content Held rfl ⟨lanes,rfl,rfl⟩ sifted.source later))⟩
      · exact (List.length_filter_le ..).trans (Nat.le_of_lt room)
      · intro pair member
        exact ⟨sifted.inside pair (List.mem_append_left _ member),(List.mem_filter.mp member).2⟩

/-- A turn that has the batch, but no lanes. -/
theorem probeTurn_spec (positive : 0 < capacity) (small : capacity ≤ pgBatchSize)
    (holding : Holding Held state content rest [] total) (room : state.output.length < capacity) :
    ∃ turn, probeTurn probes capacity state = .ok turn ∧
      TurnOk probes name Later Held content rest capacity total (heldWeight content [] state.nextRow) turn := by
  have serves := batch.serves _ holding.source
  have enough : (content.selection.rowsFrom state.nextRow).length ≤ (probes.selection state.source).nrows :=
    serves.selection ▸ length_rowsFrom ..
  unfold probeTurn
  split
  · rename_i duplicates
    unfold loadProbeWindow
    cases window : windowLoop probes state.source (probes.selection state.source).nrows state.nextRow [] with
    | mk after lanes =>
      obtain ⟨visits,work,rows_,linked,pairs,few,empty⟩ := windowLoop_spec serves enough .nil window
      rw [List.nil_append] at linked
      have ahead : aheadOf content work after = aheadOf content [] state.nextRow := by
        rw [aheadOf,aheadOf,rows_,pairsOf_append,pairs]
        rfl
      have grown : Holding Held {state with nextRow := after, lanes := lanes} content rest work total := by
        refine ⟨holding.held,holding.settled,holding.source,linked,holding.qualified,holding.passed,?_,?_⟩
        · intro pair member
          rcases List.mem_append.mp member with shown | later
          · exact holding.inside pair (List.mem_append_left _ shown)
          · exact pairsOf_visits rows_ (pairs ▸ later)
        · rw [ahead]
          exact holding.ledger
      dsimp only
      split
      · rename_i some
        refine ⟨_,rfl,.again ?_ room grown⟩
        have visited : 0 < visits.length := by
          refine Nat.lt_of_lt_of_le (List.length_pos_of_ne_nil fun none => some ?_) few
          rw [none] at linked
          cases linked
          rfl
        have lengths := congrArg List.length rows_
        rw [List.length_append] at lengths
        simp only [heldWeight,ahead,List.length_nil]
        omega
      · rename_i none
        have none : lanes = [] := Classical.not_not.mp none
        subst none
        cases linked
        exact batchEnd_spec batch later small grown room (empty rfl) _
  · rename_i unique
    unfold probeUniqueRows
    cases straight : uniqueLoop probes capacity state.source (probes.selection state.source).nrows state.nextRow
        state.output with
    | mk after output =>
      obtain ⟨visits,rows_,grown,fits,empty⟩ := uniqueLoop_spec serves (Bool.eq_false_iff.mpr unique) enough
        (Nat.le_of_lt room) straight
      have moved : output ++ aheadOf content [] after = state.output ++ aheadOf content [] state.nextRow := by
        rw [aheadOf,aheadOf,rows_,pairsOf_append,grown]
        simp
      have taken : Holding Held {state with nextRow := after, output := output} content rest [] total := by
        refine ⟨holding.held,holding.settled,holding.source,holding.linked,?_,?_,?_,?_⟩
        · change state.outputQualified ≤ output.length
          rw [grown,List.length_append]
          exact Nat.le_add_right_of_le holding.qualified
        · change ∀ pair ∈ output.take state.outputQualified, _
          rw [grown,List.take_append_of_le_length holding.qualified]
          exact holding.passed
        · intro pair member
          change pair ∈ output ++ workPairs [] at member
          rw [grown,workPairs_nil,List.append_nil] at member
          rcases List.mem_append.mp member with shown | later
          · exact holding.inside pair (List.mem_append_left _ shown)
          · exact pairsOf_visits rows_ later
        · change (content.names (output ++ aheadOf content [] after) ++ _).Perm _
          rw [moved]
          exact holding.ledger
      have lengths := congrArg List.length rows_
      have pairs := congrArg List.length moved
      rw [List.length_append] at lengths
      rw [List.length_append,List.length_append] at pairs
      dsimp only
      split
      · rename_i full
        refine fullOutput_spec batch later positive small taken full ?_
        have visited : 0 < visits.length := by
          apply List.length_pos_of_ne_nil
          rintro rfl
          rw [grown] at full
          simp [pairsOf] at full
          omega
        simp only [heldWeight,List.length_nil]
        omega
      · rename_i notFull
        exact batchEnd_spec batch later small taken (Nat.lt_of_le_of_ne fits notFull)
          (empty (Nat.lt_of_le_of_ne fits notFull)) _

/-- A turn with a batch that has lanes. -/
theorem roundTurn_spec (positive : 0 < capacity) (small : capacity ≤ pgBatchSize)
    (holding : Holding Held state content rest work total) (room : state.output.length < capacity)
    (some : state.lanes ≠ []) :
    ∃ turn, outputTurn probes capacity state = .ok turn ∧
      TurnOk probes name Later Held content rest capacity total (heldWeight content work state.nextRow) turn := by
  have released : releasePending probes state = state := if_neg (by simp [holding.settled])
  have linked := holding.linked
  have next := (batch.serves _ holding.source).next
  unfold outputTurn
  rw [released]
  dsimp only
  rw [if_pos some]
  rw [← next] at linked
  unfold probeRound
  cases round : roundLoop capacity (probes.next state.source) state.lanes state.output with
  | mk done more =>
    obtain ⟨others,after⟩ := more
    obtain ⟨kept,taken,grown,fits,linked',perm,less⟩ := roundLoop_spec linked room round
    rw [next] at linked'
    rw [if_neg some] at less
    have moved : (after ++ aheadOf content kept state.nextRow).Perm (state.output ++ aheadOf content work state.nextRow) := by
      rw [grown,aheadOf,aheadOf,List.append_assoc,← List.append_assoc taken]
      exact (perm.append_right _).append_left _
    have stepped : Holding Held {state with
        lanes := done.filter (fun lane => lane.link ≠ 0) ++ others, output := after} content rest kept total := by
      refine ⟨holding.held,holding.settled,holding.source,linked',?_,?_,?_,?_⟩
      · change state.outputQualified ≤ after.length
        rw [grown,List.length_append]
        exact Nat.le_add_right_of_le holding.qualified
      · change ∀ pair ∈ after.take state.outputQualified, _
        rw [grown,List.take_append_of_le_length holding.qualified]
        exact holding.passed
      · intro pair member
        change pair ∈ after ++ workPairs kept at member
        refine holding.inside pair ?_
        rw [grown,List.append_assoc] at member
        exact (perm.append_left state.output).subset member
      · exact ((content.names_perm moved).append_right _).trans holding.ledger
    have lighter : heldWeight content kept state.nextRow < heldWeight content work state.nextRow := by
      simp only [heldWeight,aheadOf,List.length_append]
      omega
    dsimp only
    split
    · rename_i full
      exact fullOutput_spec batch later positive small stepped full lighter
    · rename_i notFull
      exact ⟨_,rfl,.again lighter (Nat.lt_of_le_of_ne fits notFull) stepped⟩

/-- Any turn with a batch. -/
theorem holdingTurn_spec (positive : 0 < capacity) (small : capacity ≤ pgBatchSize)
    (holding : Holding Held state content rest work total) (room : state.output.length < capacity) :
    ∃ turn, outputTurn probes capacity state = .ok turn ∧
      TurnOk probes name Later Held content rest capacity total (heldWeight content work state.nextRow) turn := by
  by_cases none : state.lanes = []
  · have released : releasePending probes state = state := if_neg (by simp [holding.settled])
    have linked := holding.linked
    rw [none] at linked
    cases linked
    unfold outputTurn
    rw [released]
    dsimp only
    rw [if_neg (not_not_intro none),if_pos holding.held]
    exact probeTurn_spec batch later positive small holding room
  · exact roundTurn_spec batch later positive small holding room none

end Turns

/-! The rule of the turns. -/

theorem idleTurn (idle : Idle state) : outputTurn probes capacity state = fetchedTurn probes capacity state := by
  have released : releasePending probes state = state := if_neg (by simp [idle.settled])
  unfold outputTurn
  rw [released]
  dsimp only
  rw [if_neg (not_not_intro idle.lanes),if_neg (by simp [idle.free])]

/-- A pending batch is let go before anything else. -/
theorem pendingTurn (probes : Probes σ) (capacity : Nat) (state : OutputState σ) :
    releasePending probes (releasePending probes state) = releasePending probes state ∧
      outputTurn probes capacity (releasePending probes state) = outputTurn probes capacity state := by
  have again : releasePending probes (releasePending probes state) = releasePending probes state := by
    cases waits : state.probeDonePending with
    | false =>
      have same : releasePending probes state = state := if_neg (by simp [waits])
      rw [same,same]
    | true =>
      have released : releasePending probes state =
          {state with source := probes.finish state.source, held := false, probeDonePending := false} := if_pos waits
      rw [released]
      rfl
  refine ⟨again,?_⟩
  unfold outputTurn
  rw [again]

/-- What holds at the end of the turns, and before a turn if it holds behind it. -/
structure TurnRule (probes : Probes σ) (name : σ → Nat × Nat → κ) (Refused : String → Prop) (Final : σ → Prop) (capacity : Nat)
    (Good : List κ → OutputState σ → Prop) : Prop where
  refused : ∀ {state : OutputState σ} {total : List κ} {message : String},
    outputTurn probes capacity state = .error message → Refused message → Good total state
  ended : ∀ {state : OutputState σ} {after : σ}, Idle state → probes.fetch state.source = .ok (after,.ended) →
    Final state.source → Good [] state
  again : ∀ {state next : OutputState σ} {total : List κ}, outputTurn probes capacity state = .ok (.again next) →
    Good total next → Good total state
  page : ∀ {state next : OutputState σ} {total : List κ}, outputTurn probes capacity state = .ok (.done next true) →
    Returned probes name (FeedsTo probes name Refused Final) capacity total next true → Good total state
  release : ∀ {state : OutputState σ} {total : List κ}, Idle (releasePending probes state) →
    Good total (releasePending probes state) → Good total state
  perm : ∀ {state : OutputState σ} {total other : List κ}, Good total state → total.Perm other → Good other state

section Rules
variable {Good : List κ → OutputState σ → Prop} (closed : TurnRule probes name Refused Final capacity Good)
include closed

/-- The turns with a batch, by what is left of it. -/
theorem Holding.rule (batch : BatchHeld probes name Held content)
    (later : ∀ last, Held last → FeedsTo probes name Refused Final (probes.finish last) rest) (positive : 0 < capacity)
    (small : capacity ≤ pgBatchSize)
    (behind : ∀ last, Held last → ∀ next : OutputState σ, Idle next → next.source = probes.finish last → Good rest next)
    (holding : Holding Held state content rest work total) (room : state.output.length < capacity) : Good total state := by
  generalize left : heldWeight content work state.nextRow = bound
  induction bound using Nat.strong_induction_on generalizing state work with
  | _ bound ih =>
    obtain ⟨turn,ran,ok⟩ := holdingTurn_spec batch later positive small holding room
    cases ok with
    | again less room' holding' => exact closed.again ran (ih _ (left ▸ less) holding' room' rfl)
    | released idle last held source ledger => exact closed.again ran (closed.perm (behind last held _ idle source) ledger)
    | done returned => exact closed.page ran returned

/-- The turns without a batch, by what the source delivers. -/
theorem FeedsTo.rule {source : σ} (feeds : FeedsTo probes name Refused Final source total) (positive : 0 < capacity)
    (small : capacity ≤ pgBatchSize) (idle : Idle state) (here : state.source = source) : Good total state := by
  induction feeds generalizing state with
  | @refused source total message failed may =>
    have turned : outputTurn probes capacity state = .error message := by
      rw [idleTurn idle,fetchedTurn,here,failed]
      rfl
    exact closed.refused turned may
  | @ended source after total ran final none =>
    rw [none]
    exact closed.ended idle (here ▸ ran) (here ▸ final)
  | @again source after total ran later ih =>
    have turned : outputTurn probes capacity state = .ok (.again {state with source := after}) := by
      rw [idleTurn idle,fetchedTurn,here,ran]
      rfl
    exact closed.again turned (ih ⟨⟨idle.lanes,idle.output,idle.qualified⟩,idle.free,idle.settled⟩ rfl)
  | @found source after total rest content Held ran held batch later split ih =>
    have holding : Holding Held {state with source := after, held := true, nextRow := 0} content rest [] total := by
      refine ⟨rfl,idle.settled,held,by rw [idle.lanes]; exact .nil,by rw [idle.qualified]; exact Nat.zero_le _,
        by simp [idle.output],by simp [idle.output],?_⟩
      rw [idle.output]
      exact split
    have room : state.output.length < capacity := by rwa [idle.output]
    have behind (last : σ) (held : Held last) (next : OutputState σ) (idle : Idle next)
        (source : next.source = probes.finish last) : Good rest next :=
      ih last held idle source
    obtain ⟨turn,probed,ok⟩ := probeTurn_spec batch later positive small holding room
    have turned : outputTurn probes capacity state = .ok turn := by
      rw [idleTurn idle,fetchedTurn,here,ran]
      exact probed
    cases ok with
    | again _ room' holding' => exact closed.again turned (holding'.rule closed batch later positive small behind room')
    | released idle last held source ledger => exact closed.again turned (closed.perm (behind last held _ idle source) ledger)
    | done returned => exact closed.page turned returned

/-- A batch whose last rows were returned is let go at the start of the next call. -/
theorem Loop.rule (positive : 0 < capacity) (small : capacity ≤ pgBatchSize)
    (loop : Loop probes name (FeedsTo probes name Refused Final) state total) (room : state.output.length < capacity) :
    Good total state := by
  cases loop with
  | idle idle feeds => exact feeds.rule closed positive small idle rfl
  | holding content Held rest work batch later holding =>
    exact holding.rule closed batch later positive small
      (fun last held next idle source => (later last held).rule closed positive small idle source) room
  | pending content Held waits cleared source later =>
    have released : releasePending probes state =
        {state with source := probes.finish state.source, held := false, probeDonePending := false} := if_pos waits
    have idle : Idle (releasePending probes state) := by
      rw [released]
      exact ⟨⟨cleared.lanes,cleared.output,cleared.qualified⟩,rfl,rfl⟩
    exact closed.release idle ((later _ source).rule closed positive small idle (by rw [released]))

end Rules

/-! A call comes to an end. -/

/-- How a call may end. -/
inductive Outcome (probes : Probes σ) (name : σ → Nat × Nat → κ) (Refused : String → Prop) (Final : σ → Prop) (capacity : Nat)
    (total : List κ) : Except String (OutputState σ × Bool) → Prop
  | refused {message : String} (may : Refused message) : Outcome probes name Refused Final capacity total (.error message)
  | returned {next : OutputState σ} {found : Bool}
      (returned : Returned probes name (FeedsTo probes name Refused Final) capacity total next found) :
      Outcome probes name Refused Final capacity total (.ok (next,found))

/-- The loop comes to an end. -/
def Ends (probes : Probes σ) (name : σ → Nat × Nat → κ) (Refused : String → Prop) (Final : σ → Prop) (capacity : Nat)
    (total : List κ) (state : OutputState σ) : Prop :=
  ∃ bound result, (∀ fuel, bound < fuel → outputLoop probes capacity fuel state = some result) ∧
    Outcome probes name Refused Final capacity total result

theorem Ends.done {found : Bool} (ran : outputTurn probes capacity state = .ok (.done next found))
    (returned : Returned probes name (FeedsTo probes name Refused Final) capacity total next found) :
    Ends probes name Refused Final capacity total state := by
  refine ⟨0,_,fun fuel enough => ?_,.returned returned⟩
  obtain ⟨more,rfl⟩ := Nat.exists_eq_succ_of_ne_zero (Nat.ne_of_gt enough)
  rw [outputLoop,ran]

theorem endsRule : TurnRule probes name Refused Final capacity (Ends probes name Refused Final capacity) := by
  constructor
  · intro state total message failed may
    refine ⟨0,_,fun fuel enough => ?_,.refused may⟩
    obtain ⟨more,rfl⟩ := Nat.exists_eq_succ_of_ne_zero (Nat.ne_of_gt enough)
    rw [outputLoop,failed]
  · intro state after idle ran _
    have turned : outputTurn probes capacity state = .ok (.done {state with source := after} false) := by
      rw [idleTurn idle,fetchedTurn,ran]
      simp only [bind,Except.bind,idle.output]
      rfl
    exact .done turned (.nothing rfl)
  · intro state next total ran ends
    obtain ⟨bound,result,last,outcome⟩ := ends
    refine ⟨bound + 1,result,fun fuel enough => ?_,outcome⟩
    obtain ⟨more,rfl⟩ := Nat.exists_eq_succ_of_ne_zero (Nat.ne_of_gt (Nat.zero_lt_of_lt enough))
    rw [outputLoop,ran]
    exact last more (Nat.lt_of_succ_lt_succ enough)
  · exact fun ran returned => .done ran returned
  · intro state total _ ends
    obtain ⟨bound,result,last,outcome⟩ := ends
    refine ⟨bound,result,fun fuel enough => ?_,outcome⟩
    rw [← last fuel enough]
    cases fuel with
    | zero => rfl
    | succ fuel => rw [outputLoop,outputLoop,(pendingTurn probes capacity state).2]
  · intro state total other ends perm
    obtain ⟨bound,result,last,outcome⟩ := ends
    refine ⟨bound,result,last,?_⟩
    cases outcome with
    | refused may => exact .refused may
    | returned returned =>
      cases returned with
      | nothing empty => exact .returned (.nothing (List.Perm.eq_nil (empty ▸ perm.symm)))
      | page content serves held some fits right left ledger loop =>
        exact .returned (.page content serves held some fits right left (ledger.trans perm) loop)

/-! The calls. -/

/-- The calls that found something, with the pages that were published. -/
inductive Calls (probes : Probes σ) (name : σ → Nat × Nat → κ) (capacity : Nat) (first : OutputState σ) :
    List (List κ) → OutputState σ → Prop
  | start : Calls probes name capacity first [] first
  | call {pages : List (List κ)} {state next : OutputState σ} {fuel : Nat} :
      Calls probes name capacity first pages state →
      produceOutput probes capacity fuel state = some (.ok (next,true)) →
      Calls probes name capacity first (pages ++ [next.output.map (name next.source)]) next

/-- More turns than it takes change nothing. -/
theorem outputLoop_fuel {fuel more : Nat} {result : Except String (OutputState σ × Bool)}
    (ran : outputLoop probes capacity fuel state = some result) (enough : fuel ≤ more) :
    outputLoop probes capacity more state = some result := by
  induction fuel generalizing more state with
  | zero => cases ran
  | succ fuel ih =>
    obtain ⟨more,rfl⟩ := Nat.exists_eq_succ_of_ne_zero (Nat.ne_of_gt (Nat.lt_of_lt_of_le (Nat.succ_pos fuel) enough))
    unfold outputLoop at ran ⊢
    cases turn : outputTurn probes capacity state with
    | error message => rwa [turn] at ran
    | ok ended =>
      rw [turn] at ran
      cases ended with
      | again next => exact ih ran (Nat.le_of_succ_le_succ enough)
      | done next found => exact ran

theorem Loop.start {source : σ} (feeds : FeedsTo probes name Refused Final source total) :
    Loop probes name (FeedsTo probes name Refused Final) (outputStart source).fresh total :=
  .idle ⟨⟨rfl,rfl,rfl⟩,rfl,rfl⟩ feeds

/-- Whatever the calls so far, the pages and what is to come are the pairs of all batches. -/
theorem Calls.ledger (positive : 0 < capacity) (small : capacity ≤ pgBatchSize) {source : σ}
    (feeds : FeedsTo probes name Refused Final source total) {pages : List (List κ)}
    (calls : Calls probes name capacity (outputStart source) pages state) :
    ∃ left, Loop probes name (FeedsTo probes name Refused Final) state.fresh left ∧ (pages.flatten ++ left).Perm total := by
  induction calls with
  | start => exact ⟨_,Loop.start feeds,.refl _⟩
  | @call pages state next fuel _ ran ih =>
    obtain ⟨left,loop,perm⟩ := ih
    obtain ⟨bound,result,ends,outcome⟩ := loop.rule endsRule positive small positive
    have same := ends (max fuel (bound + 1)) (by omega)
    have found : outputLoop probes capacity (max fuel (bound + 1)) state.fresh = some (.ok (next,true)) :=
      outputLoop_fuel ran (Nat.le_max_left ..)
    rw [found] at same
    cases same
    cases outcome with
    | returned returned =>
      cases returned with
      | page content serves held some fits right later ledger loop' =>
        refine ⟨later,loop',?_⟩
        rw [serves.name,List.flatten_append,List.flatten_singleton,List.append_assoc]
        exact (ledger.append_left _).trans perm

/-- What a call gives: a page with some pairs of the batch that is still held, no more than fit, or nothing once
`pages` have all there are. -/
def Gives (probes : Probes σ) (name : σ → Nat × Nat → κ) (Refused : String → Prop) (capacity : Nat) (total : List κ)
    (pages : List (List κ)) : Except String (OutputState σ × Bool) → Prop
  | .error message => Refused message
  | .ok (_,false) => pages.flatten.Perm total
  | .ok (next,true) => next.output ≠ [] ∧ next.output.length ≤ capacity ∧ next.held = true ∧ ∃ content : Content κ,
      Serves probes name next.source content ∧ ∀ pair ∈ next.output, pair ∈ content.pairs ∧ content.passes pair = true

/-- Every call comes to an end, and the calls do: the last one finds nothing, unless one of them fails. -/
theorem produce_right (positive : 0 < capacity) (small : capacity ≤ pgBatchSize) {source : σ}
    (feeds : FeedsTo probes name Refused Final source total) :
    (∀ pages state, Calls probes name capacity (outputStart source) pages state → ∃ bound result,
      (∀ fuel, bound < fuel → produceOutput probes capacity fuel state = some result) ∧
      Gives probes name Refused capacity total pages result) ∧
    ∃ pages state bound result, Calls probes name capacity (outputStart source) pages state ∧
      (∀ fuel, bound < fuel → produceOutput probes capacity fuel state = some result) ∧
      ∀ next, result ≠ .ok (next,true) := by
  constructor
  · intro pages state calls
    obtain ⟨left,loop,perm⟩ := calls.ledger positive small feeds
    obtain ⟨bound,result,ends,outcome⟩ := loop.rule endsRule positive small positive
    refine ⟨bound,result,ends,?_⟩
    cases outcome with
    | refused may => exact may
    | returned returned =>
      cases returned with
      | nothing empty => rwa [empty,List.append_nil] at perm
      | page content serves held some fits right => exact ⟨some,fits,held,content,serves,right⟩
  · have more (pages : List (List κ)) (state : OutputState σ) (left : List κ)
        (calls : Calls probes name capacity (outputStart source) pages state)
        (loop : Loop probes name (FeedsTo probes name Refused Final) state.fresh left) :
        ∃ pages state bound result, Calls probes name capacity (outputStart source) pages state ∧
          (∀ fuel, bound < fuel → produceOutput probes capacity fuel state = some result) ∧
          ∀ next, result ≠ .ok (next,true) := by
      generalize size : left.length = count
      induction count using Nat.strong_induction_on generalizing pages state left with
      | _ count ih =>
        obtain ⟨bound,result,ends,outcome⟩ := loop.rule endsRule positive small positive
        cases outcome with
        | refused => exact ⟨pages,state,bound,_,calls,ends,fun next => by simp⟩
        | returned returned =>
          cases returned with
          | nothing => exact ⟨pages,state,bound,_,calls,ends,fun next => by simp⟩
          | page content serves held some fits right later ledger loop' =>
            have shorter : later.length < count := by
              have length := ledger.length_eq
              rw [List.length_append,List.length_map] at length
              have := List.length_pos_of_ne_nil some
              omega
            exact ih _ shorter _ _ _ (calls.call (ends _ (Nat.lt_succ_self _))) loop' rfl
    exact more [] (outputStart source) _ .start (Loop.start feeds)

end Loop

theorem outputCapacity_positive (maxRows : Int) : 0 < outputCapacity maxRows ∧ outputCapacity maxRows ≤ pgBatchSize := by
  unfold outputCapacity pgBatchSize
  split <;> omega

end PgBatch.HashJoin
