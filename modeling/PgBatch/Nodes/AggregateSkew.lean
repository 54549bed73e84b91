import PgBatch.Nodes.AggregateGroups

/-! Grouped aggregation for any input, sums that overflow included: every call
returns, the calls come to an end, and no partition is split beyond the last hash
bit. Which rows are spilled where does not depend on the accumulators, so the node
is compared with one that has none. -/
namespace PgBatch.Aggregate
open Words Columnar Spill Grouping Results

/-- The node without its accumulators. -/
def mute (own : BatchAgg) : BatchAgg :=
  {own with inputs := own.inputs.map fun input => {input with flags := 0}, hasCountStar := false}

/-- The only error that an accumulator raises. -/
def OutOfRange (message : String) : Prop :=
  message = "bigint out of range"

/-- Two tables with the same groups. -/
def SameKeys (groups others : Groups) : Prop :=
  groups.map Prod.fst = others.map Prod.fst

variable {own : BatchAgg}

section Mute

@[simp] theorem mute_groupLimit : (mute own).groupLimit = own.groupLimit := rfl

@[simp] theorem mute_groupInput : (mute own).groupInput = own.groupInput := rfl

@[simp] theorem mute_spillBufferLimit : (mute own).spillBufferLimit = own.spillBufferLimit := rfl

@[simp] theorem length_mute : (mute own).inputs.length = own.inputs.length :=
  List.length_map ..

@[simp] theorem sourceCells_mute (row : Column) : sourceCells (mute own) row = sourceCells own row := by
  simp [sourceCells,mute]

@[simp] theorem loadGroupVectors_mute (batch : InputBatch) : loadGroupVectors (mute own) batch = loadGroupVectors own batch := by
  simp [loadGroupVectors,mute]

@[simp] theorem spillBlockVectors_mute (block : Store Column) : spillBlockVectors (mute own) block = spillBlockVectors own block := by
  simp [spillBlockVectors]

@[simp] theorem rowHash_mute (cells : List (Option Int4)) : rowHash (mute own) cells = rowHash own cells := rfl

theorem reduceColumn_mute (cells : List (Option Int4)) : reduceColumn 0#32 cells = zeroReduction := by
  unfold reduceColumn
  induction cells with
  | nil => rfl
  | cons cell rest ih =>
    cases cell <;> exact ih

/-- Without accumulators nothing overflows. -/
theorem summable_mute (rows : List Column) : Summable (mute own) rows := by
  intro key start _
  have none_ : (summary (mute own) start).countStar = 0 := rfl
  refine ⟨by rw [none_]; decide,fun value member => ?_⟩
  simp only [summary,mute,List.map_map,List.mem_map,Function.comp_apply] at member
  obtain ⟨input,_,rfl⟩ := member
  rw [show (0 : BitVec 32) = 0#32 from rfl,reduceColumn_mute]
  decide

theorem newSpill_mute (state : AggState) (npartitions : Nat) :
    newSpill (mute own) state npartitions = newSpill own state npartitions := by
  simp [newSpill,spillDesc]

theorem repartitionSpill_mute (state : AggState) (work : SpillWork) :
    repartitionSpill (mute own) state work = repartitionSpill own state work := by
  have block (hashShift npartitions : Nat) : repartitionBlock (mute own) hashShift npartitions =
      repartitionBlock own hashShift npartitions := by
    funext writers block
    simp [repartitionBlock]
  unfold repartitionSpill
  simp only [newSpill_mute,block]

end Mute

/-! Advancing a group: its accumulators may overflow, the groups stay. -/

section Advance
variable {groups others : Groups} {cells : List (Option Int4)} {key : GroupKey}

theorem addInt64Checked_error {target addend : Int} {message : String}
    (failed : addInt64Checked target addend = .error message) : OutOfRange message := by
  unfold addInt64Checked at failed
  split at failed
  · cases failed
  · cases failed
    rfl

theorem advanceValue_error {flags : BitVec 32} {value : Int4Reduction} {cell : Option Int4} {message : String}
    (failed : advanceValue flags value cell = .error message) : OutOfRange message := by
  cases cell with
  | none => cases failed
  | some input =>
    unfold advanceValue at failed
    dsimp only at failed
    by_cases unused : flags = 0#32
    · rw [if_pos unused] at failed
      cases failed
    · rw [if_neg unused] at failed
      by_cases counted : flags &&& reduceCount ≠ 0#32
      · rw [if_pos counted] at failed
        cases count : addInt64Checked value.count 1 with
        | error other =>
          rw [count] at failed
          cases failed
          exact addInt64Checked_error count
        | ok total =>
          rw [count] at failed
          by_cases summed : flags &&& reduceSum ≠ 0#32
          · simp only [if_pos summed,bind,Except.bind] at failed
            cases sum : addInt64Checked value.sum input.toInt with
            | error other =>
              rw [sum] at failed
              cases failed
              exact addInt64Checked_error sum
            | ok total =>
              rw [sum] at failed
              cases failed
          · simp only [if_neg summed,bind,Except.bind] at failed
            cases failed
      · rw [if_neg counted] at failed
        by_cases summed : flags &&& reduceSum ≠ 0#32
        · simp only [if_pos summed,bind,Except.bind] at failed
          cases sum : addInt64Checked value.sum input.toInt with
          | error other =>
            rw [sum] at failed
            cases failed
            exact addInt64Checked_error sum
          | ok total =>
            rw [sum] at failed
            cases failed
        · simp only [if_neg summed,bind,Except.bind] at failed
          cases failed

theorem advanceValues_error {inputs : List AggInput} {values : List Int4Reduction} {message : String}
    (failed : advanceValues inputs values cells = .error message) : OutOfRange message := by
  induction inputs generalizing values cells with
  | nil => cases failed
  | cons input inputs ih =>
    cases values with
    | nil => cases failed
    | cons value values =>
      cases cells with
      | nil => cases failed
      | cons cell cells =>
        unfold advanceValues at failed
        cases one : advanceValue input.flags value cell with
        | error other =>
          rw [one] at failed
          cases failed
          exact advanceValue_error one
        | ok next =>
          rw [one] at failed
          cases rest : advanceValues inputs values cells with
          | error other =>
            simp only [bind,Except.bind,rest] at failed
            cases failed
            exact ih rest
          | ok nexts =>
            simp only [bind,Except.bind,rest] at failed
            cases failed

theorem advanceGroupEntry_error {entry : GroupValues} {message : String}
    (failed : advanceGroupEntry own cells entry = .error message) : OutOfRange message := by
  unfold advanceGroupEntry at failed
  have values (countStar : Int) (failed : (advanceValues own.inputs entry.values cells >>= fun values =>
      Except.ok (GroupValues.mk countStar values)) = Except.error message) : OutOfRange message := by
    cases rest : advanceValues own.inputs entry.values cells with
    | error other =>
      rw [rest] at failed
      cases failed
      exact advanceValues_error rest
    | ok nexts =>
      rw [rest] at failed
      cases failed
  by_cases counted : own.hasCountStar = true
  · rw [if_pos counted] at failed
    cases count : addInt64Checked entry.countStar 1 with
    | error other =>
      rw [count] at failed
      cases failed
      exact addInt64Checked_error count
    | ok total =>
      rw [count] at failed
      exact values total failed
  · rw [if_neg counted] at failed
    exact values _ failed

theorem advanceGroupEntry_mute (entry : GroupValues) : ∃ after, advanceGroupEntry (mute own) cells entry = .ok after := by
  have values (inputs : List AggInput) (values : List Int4Reduction) (cells : List (Option Int4)) :
      ∃ after, advanceValues (inputs.map fun input => {input with flags := 0}) values cells = .ok after := by
    induction inputs generalizing values cells with
    | nil => exact ⟨[],rfl⟩
    | cons input inputs ih =>
      cases values with
      | nil => exact ⟨[],rfl⟩
      | cons value values =>
        cases cells with
        | nil => exact ⟨[],rfl⟩
        | cons cell cells =>
          obtain ⟨after,ran⟩ := ih values cells
          refine ⟨value :: after,?_⟩
          rw [List.map_cons,advanceValues,ran]
          cases cell <;> rfl
  obtain ⟨after,ran⟩ := values own.inputs entry.values cells
  refine ⟨⟨entry.countStar,after⟩,?_⟩
  unfold advanceGroupEntry
  change (advanceValues (own.inputs.map fun input => {input with flags := 0}) entry.values cells >>= _) = _
  rw [ran]
  rfl

theorem advance_follows (same : SameKeys groups others) :
    Follows OutOfRange (fun after others' => SameKeys after groups ∧ SameKeys others' others)
      (advance (advanceGroupEntry own cells) key groups) (advance (advanceGroupEntry (mute own) cells) key others) := by
  induction groups generalizing others with
  | nil =>
    have none_ : others = [] := List.map_eq_nil_iff.mp same.symm
    subst none_
    exact .ok ⟨rfl,rfl⟩
  | cons entry rest ih =>
    cases others with
    | nil => cases same
    | cons other others =>
      obtain ⟨first,later⟩ := List.cons.inj same
      obtain ⟨name,value⟩ := entry
      obtain ⟨name',value'⟩ := other
      change name = name' at first
      subst first
      unfold advance
      by_cases here : name = key
      · rw [if_pos here,if_pos here]
        cases ran : advanceGroupEntry own cells value with
        | error message => exact .inl ⟨message,rfl,advanceGroupEntry_error ran⟩
        | ok after =>
          obtain ⟨after',ran'⟩ := @advanceGroupEntry_mute own cells value'
          rw [ran']
          exact .ok ⟨rfl,rfl⟩
      · rw [if_neg here,if_neg here]
        refine .bind (ih later) fun after others' kept => .ok ?_
        exact ⟨congrArg (name :: ·) kept.1,congrArg (name :: ·) kept.2⟩

theorem find_isSome : (find groups key).isSome = decide (key ∈ groups.map Prod.fst) := by
  induction groups with
  | nil => rfl
  | cons entry rest ih =>
    obtain ⟨name,value⟩ := entry
    unfold find at ih ⊢
    rw [List.lookup_cons]
    by_cases same : key = name
    · simp [same]
    · have different : (key == name) = false := beq_eq_false_iff_ne.mpr same
      rw [different]
      simp only [ih,List.map_cons,List.mem_cons,same,false_or]

theorem SameKeys.find (same : SameKeys groups others) : (find groups key).isSome = (find others key).isSome := by
  rw [find_isSome,find_isSome,show groups.map Prod.fst = others.map Prod.fst from same]

theorem SameKeys.length (same : SameKeys groups others) : groups.length = others.length := by
  simpa using congrArg List.length same

theorem SameKeys.advance (same : SameKeys groups others) : Follows OutOfRange SameKeys
    (Grouping.advance (advanceGroupEntry own cells) key groups)
    (Grouping.advance (advanceGroupEntry (mute own) cells) key others) := by
  rcases advance_follows same with failed | ⟨after,after',ran,ran',kept,kept'⟩
  · exact .inl failed
  · exact .inr ⟨after,after',ran,ran',Eq.trans kept (Eq.trans same (Eq.symm kept'))⟩

theorem SameKeys.enter (same : SameKeys groups others) : SameKeys (groups ++ [(key,zeroValues own)])
    (others ++ [(key,zeroValues (mute own))]) := by
  unfold SameKeys at *
  rw [List.map_append,List.map_append,same]
  rfl

theorem loadRows_follows {vectors : List Column} {visits : List Nat} (same : SameKeys groups others) :
    Follows OutOfRange (fun one two => SameKeys one.1 two.1 ∧ one.2 = two.2) (loadRows own vectors groups visits)
      (loadRows (mute own) vectors others visits) := by
  induction visits generalizing groups others with
  | nil => exact .ok ⟨same,rfl⟩
  | cons row rest ih =>
    unfold loadRows
    dsimp only
    rw [rowHash_mute,same.find,same.length,mute_groupLimit]
    split
    · exact .bind same.advance fun _ _ kept => ih kept
    · split
      · exact .ok ⟨same,rfl⟩
      · exact .bind same.enter.advance fun _ _ kept => ih kept

end Advance

/-- Two loops over one partition whose bodies follow each other. -/
theorem readLoop_follows {σ τ ρ : Type} {Refusal : String → Prop} {related : σ → τ → Prop}
    {body : σ → Columnar.Store ρ (BitVec 32) Int4 → Except String (σ × Bool)}
    {body' : τ → Columnar.Store ρ (BitVec 32) Int4 → Except String (τ × Bool)}
    (each : ∀ state other block, related state other →
      Follows Refusal (fun one two => related one.1 two.1 ∧ one.2 = two.2) (body state block) (body' other block))
    {set : SpillSet ρ} {reader : Reader} {state : σ} {other : τ} (start : related state other)
    {result : SpillSet ρ × τ × Bool} (ran : readLoop body' set reader other = .ok result) :
    (∃ message, readLoop body set reader state = .error message ∧ Refusal message) ∨
      ∃ last, readLoop body set reader state = .ok (result.1,last,result.2.2) ∧ related last result.2.1 := by
  generalize size : (remaining set reader).length = count
  induction count using Nat.strong_induction_on generalizing set reader state other with
  | _ count ih =>
    unfold readLoop at ran ⊢
    split at ran
    · cases ran
    · cases ran
      exact .inr ⟨state,rfl,start⟩
    · rename_i set' reader' block next
      have shorter := readerNext_shorter next
      rcases each state other block start with ⟨message,failed,allowed⟩ | ⟨one,two,first,second,kept,more⟩
      · exact .inl ⟨message,by rw [failed],allowed⟩
      · obtain ⟨state',more'⟩ := one
        obtain ⟨other',_⟩ := two
        cases more
        rw [first]
        rw [second] at ran
        cases more' with
        | false =>
          cases ran
          exact .inr ⟨state',rfl,kept⟩
        | true => exact ih _ (size ▸ shorter) kept ran rfl

/-- Loading a partition overflows an accumulator, succeeds, or finds more groups than fit. -/
theorem loadSpillGroups_total (grouped : own.groupInput < own.inputs.length) {state : AggState} {work : SpillWork}
    {source : List Column} (ready : WorkReady (mute own) state work source) :
    (∃ message, loadSpillGroups own (state.sets work.set) work.partition = .error message ∧ OutOfRange message) ∨
      ∃ after groups more, loadSpillGroups own (state.sets work.set) work.partition = .ok (after,groups,more) ∧
        Reads (state.sets work.set) after ∧
        (more = false → own.groupLimit < (source.map (rowKey (mute own))).dedup.length) := by
  obtain ⟨all,rfl,holds⟩ := ready.holds
  have grouped' : (mute own).groupInput < (mute own).inputs.length := by rw [length_mute]; exact grouped
  obtain ⟨after,groups,more,ran,reads,kept⟩ := loadSpillGroups_spec grouped' holds ready.ncolumns ready.frozen
    ready.partition (summable_mute _)
  unfold loadSpillGroups at ran ⊢
  obtain ⟨⟨set,reader⟩,opened,loop⟩ := Results.bind_ok.mp ran
  rw [opened]
  have each (groups others : Groups) (block : Columnar.Store Column (BitVec 32) Int4) (same : SameKeys groups others) :
      Follows OutOfRange (fun one two => SameKeys one.1 two.1 ∧ one.2 = two.2)
        (loadRows own (spillBlockVectors own block) groups (rows (blockSelection block)))
        (loadRows (mute own) (spillBlockVectors (mute own) block) others (rows (blockSelection block))) := by
    rw [spillBlockVectors_mute]
    exact loadRows_follows same
  have start : SameKeys [] [] := rfl
  rcases readLoop_follows each start loop with failed | ⟨last,ran',_⟩
  · exact .inl failed
  · refine .inr ⟨after,last,more,ran',reads,fun less => ?_⟩
    subst less
    exact kept

/-! The input: the two nodes spill the same rows. -/

/-- Two row loops that differ in their accumulators only. -/
structure SameLoop (one two : RowLoop) : Prop where
  groups : SameKeys one.groups two.groups
  spilling : one.spilling = two.spilling
  hashes : one.hashes = two.hashes
  parts : one.partitionRows = two.partitionRows

theorem advanceRow_follows {vectors : List Column} {one two : RowLoop} (same : SameLoop one two) (row : Nat) :
    Follows OutOfRange SameLoop (advanceRow own vectors one row) (advanceRow (mute own) vectors two row) := by
  obtain ⟨groups,spilling,hashes,parts⟩ := same
  unfold advanceRow
  dsimp only
  rw [rowHash_mute,groups.find,groups.length,mute_groupLimit,spilling,hashes,parts]
  split
  · exact .bind groups.advance fun _ _ kept => .ok ⟨kept,rfl,rfl,rfl⟩
  · split
    · exact .bind groups.enter.advance fun _ _ kept => .ok ⟨kept,rfl,rfl,rfl⟩
    · exact .ok ⟨groups,rfl,rfl,rfl⟩

/-- Two states that differ in their accumulators only. -/
structure SameSpill (one two : AggState) : Prop where
  groups : SameKeys one.mainGroups two.mainGroups
  inputDone : one.inputDone = two.inputDone
  spilling : one.spilling = two.spilling
  initialSpill : one.initialSpill = two.initialSpill
  sets : one.sets = two.sets
  nsets : one.nsets = two.nsets
  spillWork : one.spillWork = two.spillWork
  hashes : one.hashes = two.hashes

theorem ensureInitialSpill_same {one two : AggState} (same : SameSpill one two) {result : AggState × Nat}
    (ran : ensureInitialSpill (mute own) two = .ok result) :
    ∃ after, ensureInitialSpill own one = .ok (after,result.2) ∧ SameSpill after result.1 := by
  unfold ensureInitialSpill at ran ⊢
  rw [same.initialSpill]
  cases spill : two.initialSpill with
  | some index =>
    rw [spill] at ran
    cases ran
    exact ⟨one,rfl,same⟩
  | none =>
    rw [spill] at ran
    dsimp only at ran ⊢
    rw [newSpill_mute] at ran
    obtain ⟨made,created,rest⟩ := Results.bind_ok.mp ran
    cases rest
    obtain ⟨set,fresh,updated⟩ := Results.bind_ok.mp created
    cases updated
    obtain ⟨groups,inputDone,spilling,_,sets,nsets,spillWork,hashes⟩ := same
    have made : newSpill own one 32 = .ok {one with
        sets := Function.update one.sets one.nsets set, nsets := one.nsets + 1} := by
      unfold newSpill
      rw [fresh]
      rfl
    refine ⟨{one with
      sets := Function.update one.sets one.nsets set, nsets := one.nsets + 1, initialSpill := some one.nsets},?_,
      groups,inputDone,spilling,congrArg some nsets,?_,congrArg (· + 1) nsets,spillWork,hashes⟩
    · rw [made,← nsets]
      rfl
    · dsimp only
      rw [sets,nsets]

theorem advanceGroupedBatch_follows {one two : AggState} (same : SameSpill one two) {batch : InputBatch} {after : AggState}
    (ran : advanceGroupedBatch (mute own) two batch = .ok after) :
    (∃ message, advanceGroupedBatch own one batch = .error message ∧ OutOfRange message) ∨
      ∃ next, advanceGroupedBatch own one batch = .ok next ∧ SameSpill next after := by
  unfold advanceGroupedBatch at ran ⊢
  split at ran
  · cases ran
  · rename_i small
    rw [if_neg small]
    dsimp only at ran ⊢
    rw [loadGroupVectors_mute] at ran
    have start : SameLoop ⟨one.mainGroups,one.spilling,one.hashes,fun _ => 0#64⟩
        ⟨two.mainGroups,two.spilling,two.hashes,fun _ => 0#64⟩ := ⟨same.groups,same.spilling,same.hashes,rfl⟩
    have loops := Follows.foldlM (fun one two row (_ : row ∈ rows (batch.selection.words 0)) kept =>
      @advanceRow_follows own (loadGroupVectors own batch) one two kept row) start
    rcases loops with ⟨message,failed,overflow⟩ | ⟨loop,loop',first,second,kept⟩
    · exact .inl ⟨message,by rw [failed]; rfl,overflow⟩
    · refine .inr ?_
      rw [second] at ran
      rw [first]
      dsimp only [bind,Except.bind] at ran ⊢
      rw [kept.spilling]
      have middle : SameSpill {one with mainGroups := loop.groups, spilling := loop'.spilling, hashes := loop.hashes}
          {two with mainGroups := loop'.groups, spilling := loop'.spilling, hashes := loop'.hashes} :=
        ⟨kept.groups,same.inputDone,rfl,same.initialSpill,same.sets,same.nsets,same.spillWork,kept.hashes⟩
      split at ran
      · rename_i spilling
        rw [if_pos spilling]
        obtain ⟨⟨made,index⟩,ensured,rest⟩ := Results.bind_ok.mp ran
        obtain ⟨made',ensured',same'⟩ := ensureInitialSpill_same middle ensured
        rw [ensured']
        dsimp only at rest ⊢
        obtain ⟨writers,wrote,done⟩ := Results.bind_ok.mp rest
        cases done
        rw [same'.sets,kept.parts,kept.hashes,wrote]
        exact ⟨_,rfl,same'.groups,same'.inputDone,same'.spilling,same'.initialSpill,by rw [← same'.sets],same'.nsets,
          same'.spillWork,same'.hashes⟩
      · rename_i resident
        rw [if_neg resident]
        cases ran
        exact ⟨_,rfl,middle⟩

/-- What ends a run that the input or an accumulator stops. -/
def Refused (message : String) : Prop :=
  OutOfRange message ∨ ∃ batch, publishBatch pgBatchSize batch = .error message

/-- Reading the input: both nodes come to the same partitions, unless this one is stopped. -/
theorem collectInput_total (grouped : own.groupInput < own.inputs.length) (batches : List InputBatch) :
    (∃ message, collectInput own (aggStart batches) = .error message ∧ Refused message) ∨
      ∃ after after' taken kept spilled, collectInput own (aggStart batches) = .ok after ∧ SameSpill after after' ∧
        Collected (mute own) after' taken kept spilled := by
  have grouped' : (mute own).groupInput < (mute own).inputs.length := by rw [length_mute]; exact grouped
  let related : AggState → AggState → Prop := fun one two =>
    SameSpill one two ∧ ∃ taken kept spilled, Collected (mute own) two taken kept spilled
  have start : related {aggStart batches with input := []} {aggStart batches with input := []} :=
    ⟨⟨rfl,rfl,rfl,rfl,rfl,rfl,rfl,rfl⟩,[],[],[],collected_start _ _⟩
  let step : BatchAgg → AggState → InputBatch → Except String AggState := fun own state batch => do
    publishBatch pgBatchSize batch
    advanceGroupedBatch own state batch
  have each (one two : AggState) (batch : InputBatch) (_ : batch ∈ (aggStart batches).input) (kept : related one two) :
      Follows Refused related (step own one batch) (step (mute own) two batch) := by
    obtain ⟨same,taken,kept,spilled,collected⟩ := kept
    change Follows Refused related (publishBatch pgBatchSize batch >>= fun _ => advanceGroupedBatch own one batch)
      (publishBatch pgBatchSize batch >>= fun _ => advanceGroupedBatch (mute own) two batch)
    cases published : publishBatch pgBatchSize batch with
    | error message => exact .inl ⟨message,rfl,.inr ⟨batch,published⟩⟩
    | ok _ =>
      obtain ⟨after,kept',spilled',ran,collected'⟩ :=
        advanceGroupedBatch_spec grouped' collected published (summable_mute _)
      rcases advanceGroupedBatch_follows same ran with ⟨message,failed,overflow⟩ | ⟨next,ran',same'⟩
      · exact .inl ⟨message,failed,.inl overflow⟩
      · exact .inr ⟨next,after,ran',ran,same',_,_,_,collected'⟩
  rcases Follows.foldlM each start with failed | ⟨after,after',ran,_,same,taken,kept,spilled,collected⟩
  · exact .inl failed
  · exact .inr ⟨after,after',taken,kept,spilled,ran,same,collected⟩

/-! The partitions: the work list stands for the rows that were spilled. -/

/-- The input has been read, and every work item stands for the rows of a partition. -/
structure Waiting (own : BatchAgg) (state : AggState) : Prop where
  inputDone : state.inputDone = true
  queue : ∃ queue, QueueReady (mute own) state state.spillWork queue

theorem finishGroupInput_total (scan : HashScan) {state other : AggState} (same : SameSpill state other)
    {taken kept spilled : List Column} (collected : Collected (mute own) other taken kept spilled) :
    ∃ after, finishGroupInput scan state = .ok after ∧ Waiting own after := by
  obtain ⟨after,ran,emitting⟩ := finishGroupInput_spec scan collected (summable_mute _)
  obtain ⟨inputDone,queue,ready,_⟩ := emitting
  unfold finishGroupInput at ran ⊢
  dsimp only at ran ⊢
  rw [same.initialSpill]
  cases spill : other.initialSpill with
  | none =>
    rw [spill] at ran
    cases ran
    refine ⟨_,rfl,rfl,queue,?_⟩
    dsimp only at ready ⊢
    rw [same.spillWork]
    exact ready.keep (keepsSets_of_eq same.sets same.nsets)
  | some index =>
    rw [spill] at ran
    dsimp only at ran ⊢
    obtain ⟨set,ended,rest⟩ := Results.bind_ok.mp ran
    obtain ⟨works,listed,done⟩ := Results.bind_ok.mp rest
    cases done
    rw [same.sets,same.spillWork,ended]
    dsimp only [bind,Except.bind]
    rw [listed]
    exact ⟨_,rfl,rfl,queue,ready.keep (keepsSets_of_eq rfl same.nsets)⟩

/-- One call for the next partition: it ends, and splits no partition beyond the last hash bit. -/
theorem prepareNext_total (grouped : own.groupInput < own.inputs.length) (limit : 2 ≤ own.groupLimit) (scan : HashScan)
    {state : AggState} (waiting : Waiting own state) :
    (∃ message, prepareNextSpillPartition own scan state = .error message ∧ OutOfRange message) ∨
      ∃ after more, prepareNextSpillPartition own scan state = .ok (after,more) ∧ Waiting own after := by
  obtain ⟨inputDone,queue,ready⟩ := waiting
  generalize heavy : weight state.spillWork = bound
  induction bound using Nat.strong_induction_on generalizing state queue with
  | _ bound ih =>
    cases listed : state.spillWork with
    | nil =>
      refine .inr ⟨_,false,prepareNext_nil listed,inputDone,[],?_⟩
      rw [QueueReady,listed]
      exact .nil
    | cons work rest =>
      rw [listed] at ready
      obtain ⟨source,others,first,ready',rfl⟩ := List.forall₂_cons_left_iff.mp ready
      rcases loadSpillGroups_total grouped first with ⟨message,failed,overflow⟩ | ⟨read,groups,loaded,ran,reads,kept⟩
      · refine .inl ⟨message,?_,overflow⟩
        rw [prepareNextSpillPartition]
        split
        · rename_i none_
          rw [none_] at listed
          cases listed
        · rename_i some_
          rw [some_] at listed
          cases listed
          rw [failed]
      · let opened : AggState := {state with spillWork := rest, sets := Function.update state.sets work.set read}
        have keeps : KeepsSets state opened := by
          refine ⟨Nat.le_refl _,fun index _ => ?_⟩
          by_cases same : index = work.set
          · subst same
            simpa [opened] using reads
          · simpa [opened,same] using Reads.refl _
        have still : QueueReady (mute own) opened rest others := QueueReady.keep ready' keeps
        rw [prepareNext_cons listed ran]
        cases loaded with
        | true => exact .inr ⟨_,true,rfl,inputDone,others,still.keep (keepsSets_of_eq rfl rfl)⟩
        | false =>
          -- Rows with one whole hash have at most two keys, and two groups always fit.
          have more : work.hashShift < 32 := by
            by_contra last
            have few := aligned_keys (by
              have all : work.hashShift = 32 := Nat.le_antisymm first.shift (by omega)
              exact all ▸ first.aligned)
            have many := kept rfl
            omega
          have grouped' : (mute own).groupInput < (mute own).inputs.length := by rw [length_mute]; exact grouped
          obtain ⟨after,added,split,same,joined,_⟩ :=
            repartitionSpill_spec grouped' (first.keep keeps) still more
          rw [repartitionSpill_mute] at split
          have less := repartitionSpill_lighter split
          have rest' := ih (weight after.spillWork) (by rw [← heavy,listed]; exact less) (same.trans inputDone)
            (others ++ added) joined rfl
          have step : (repartitionSpill own opened work >>= prepareNextSpillPartition own scan) =
              prepareNextSpillPartition own scan after := by
            rw [split]
            rfl
          dsimp only
          rw [if_neg (by decide),step]
          exact rest'

/-- The calls of the node up to its end, which may be an error. -/
inductive Runs (own : BatchAgg) (scan : HashScan) : AggState → List Result → Option String → Prop
  | done {state after : AggState} : aggExecGrouped own scan state = .ok (after,none) → Runs own scan state [] none
  | failed {state : AggState} {message : String} : aggExecGrouped own scan state = .error message →
      Runs own scan state [] (some message)
  | row {state after : AggState} {result : Result} {results : List Result} {ending : Option String} :
      aggExecGrouped own scan state = .ok (after,some result) → Runs own scan after results ending →
      Runs own scan state (result :: results) ending

theorem Runs.of_eq {scan : HashScan} {state other : AggState} {results : List Result} {ending : Option String}
    (runs : Runs own scan other results ending)
    (same : aggExecGrouped own scan state = aggExecGrouped own scan other) : Runs own scan state results ending := by
  cases runs with
  | done ended => exact .done (same.trans ended)
  | failed stopped => exact .failed (same.trans stopped)
  | row delivered rest => exact .row (same.trans delivered) rest

theorem nextGroup_error {scan : HashScan} {state : AggState} {message : String} (done : state.groupSeq = [])
    (failed : prepareNextSpillPartition own scan state = .error message) :
    nextGroup own scan state = .error message := by
  rw [nextGroup]
  split
  · rename_i some_
    rw [done] at some_
    cases some_
  · split
    · rename_i other
      rw [failed] at other
      cases other
      rfl
    · rename_i ended
      rw [failed] at ended
      cases ended
    · rename_i prepared
      rw [failed] at prepared
      cases prepared

/-- From there on the node comes to its end. -/
theorem waiting_runs (grouped : own.groupInput < own.inputs.length) (limit : 2 ≤ own.groupLimit) (scan : HashScan)
    {state : AggState} (waiting : Waiting own state) :
    ∃ results ending, Runs own scan state results ending ∧ ∀ message, ending = some message → OutOfRange message := by
  have calls {state : AggState} (waiting : Waiting own state) : aggExecGrouped own scan state = nextGroup own scan state := by
    rw [aggExecGrouped,if_pos waiting.inputDone]
  generalize heavy : weight state.spillWork = bound
  induction bound using Nat.strong_induction_on generalizing state with
  | _ bound ih =>
    generalize table : state.groupSeq = left
    induction left generalizing state with
    | nil =>
      rcases prepareNext_total grouped limit scan waiting with ⟨message,failed,overflow⟩ | ⟨after,more,ran,waiting'⟩
      · refine ⟨[],some message,.failed ?_,?_⟩
        · rw [calls waiting,nextGroup_error table failed]
        · rintro _ ⟨⟩
          exact overflow
      · have step := nextGroup_nil table ran
        cases more with
        | false =>
          have ended : aggExecGrouped own scan state = .ok (after,none) := (calls waiting).trans step
          exact ⟨[],none,.done ended,by simp⟩
        | true =>
          obtain ⟨results,ending,runs,fine⟩ := ih _ (heavy ▸ prepareNext_lighter ran) waiting' rfl
          exact ⟨results,ending,runs.of_eq (((calls waiting).trans step).trans (calls waiting').symm),fine⟩
    | cons entry rest ih' =>
      obtain ⟨inputDone,queue,ready⟩ := waiting
      have waiting' : Waiting own {state with groupSeq := rest} :=
        ⟨inputDone,queue,ready.keep (keepsSets_of_eq rfl rfl)⟩
      obtain ⟨results,ending,runs,fine⟩ := ih' waiting' heavy rfl
      exact ⟨_ :: results,ending,.row ((calls ⟨inputDone,queue,ready⟩).trans (nextGroup_cons table)) runs,fine⟩

theorem refused_not_skewed {message : String} (refused : Refused message) :
    message ≠ "pg_batch aggregate cannot repartition a skewed group set" := by
  rcases refused with rfl | ⟨batch,failed⟩
  · decide
  · unfold publishBatch at failed
    dsimp only at failed
    split at failed
    · cases failed
      decide
    · split at failed
      · cases failed
        decide
      · split at failed
        · cases failed
          decide
        · cases failed

/-- For every plan with a group key, every limit of at least two groups and all batches, the node comes
to its end after finitely many rows, and never because of a partition that cannot be split. -/
theorem repartition_terminates {plan : List (AggKind × Int)} {groupLimit spillBufferLimit : Nat} {own : BatchAgg}
    {column : Nat} (begun : aggBegin plan groupLimit spillBufferLimit = .ok own)
    (keyed : (AggKind.groupKey,(column : Int)) ∈ plan) (limit : 2 ≤ groupLimit) (scan : HashScan)
    (batches : List InputBatch) :
    ∃ results ending, Runs own scan (aggStart batches) results ending ∧
      ending ≠ some "pg_batch aggregate cannot repartition a skewed group set" ∧
      ∀ message, ending = some message → Refused message := by
  obtain ⟨setup,limits⟩ := aggBegin_begun begun
  obtain ⟨_,input,found,_⟩ := setup.keyed column keyed
  have grouped : own.groupInput < own.inputs.length := (List.getElem?_eq_some_iff.mp found).1
  suffices total : ∃ results ending, Runs own scan (aggStart batches) results ending ∧
      ∀ message, ending = some message → Refused message by
    obtain ⟨results,ending,runs,fine⟩ := total
    exact ⟨results,ending,runs,fun skewed => refused_not_skewed (fine _ skewed) rfl,fine⟩
  have unread : ¬ (aggStart batches).inputDone = true := Bool.false_ne_true
  rcases collectInput_total grouped batches with ⟨message,failed,refused⟩ |
    ⟨middle,other,taken,kept,spilled,ran,same,collected⟩
  · refine ⟨[],some message,.failed ?_,?_⟩
    · unfold aggExecGrouped
      rw [if_neg unread,failed]
      rfl
    · rintro _ ⟨⟩
      exact refused
  · obtain ⟨after,finished,waiting⟩ := finishGroupInput_total scan same collected
    obtain ⟨results,ending,runs,fine⟩ := waiting_runs grouped (limits ▸ limit) scan waiting
    have start : aggExecGrouped own scan (aggStart batches) = aggExecGrouped own scan after := by
      unfold aggExecGrouped
      rw [if_neg unread,if_pos waiting.inputDone,ran]
      change (finishGroupInput scan middle >>= _) = _
      rw [finished]
      rfl
    exact ⟨results,ending,runs.of_eq start,fun message stopped => .inl (fine message stopped)⟩

/-- Three groups under a limit of two, two batches, one of them with a null key: the partitions run out. -/
theorem three_groups_terminate :
    ∃ own, aggBegin [(.groupKey,0),(.countStar,-1),(.sumInt4,1)] 2 1024 = .ok own ∧
      ∃ results ending, Runs own ⟨id,fun _ => .refl _⟩ (aggStart
          [⟨⟨3,by decide,fun _ => 7#64⟩,fun column row => if column = 0 ∧ row = 0 then none else some (BitVec.ofNat 32 row)⟩,
            ⟨⟨1,by decide,fun _ => 1#64⟩,fun column _ => if column = 0 then none else some 5#32⟩]) results ending ∧
        ending ≠ some "pg_batch aggregate cannot repartition a skewed group set" := by
  refine ⟨_,rfl,?_⟩
  obtain ⟨results,ending,runs,fine,_⟩ := @repartition_terminates
    [(.groupKey,0),(.countStar,-1),(.sumInt4,1)] 2 1024 _ 0
    rfl (List.mem_cons_self ..) (Nat.le_refl 2) ⟨id,fun _ => .refl _⟩
    [⟨⟨3,by decide,fun _ => 7#64⟩,fun column row => if column = 0 ∧ row = 0 then none else some (BitVec.ofNat 32 row)⟩,
      ⟨⟨1,by decide,fun _ => 1#64⟩,fun column _ => if column = 0 then none else some 5#32⟩]
  exact ⟨results,ending,runs,fine⟩

end PgBatch.Aggregate
