import PgBatch.Kernels.Reduce
import PgBatch.Library.Grouping
import PgBatch.Bridge.Publish
import PgBatch.Spill.Set
import Mathlib.Tactic.Positivity

/-! Grouped aggregation (`nodes/aggregate.c`).
Groups enter the first table while it has room; from then on the rows of other
groups are spilled by their hash, and every spilled partition is loaded into a
table of its own or, when that overflows, split again by the next hash bits. -/
namespace PgBatch.Aggregate
open Words Columnar Spill Grouping

inductive AggKind where
  | groupKey
  | countStar
  | countColumn
  | sumInt4
  | minInt4
  | maxInt4
deriving DecidableEq, Repr

/-- `input` is an index into the inputs; the source has `-1` for `count(*)`. -/
structure AggSpec where
  kind : AggKind
  input : Option Nat
deriving DecidableEq, Repr

structure AggInput where
  column : Nat
  flags : BitVec 32
deriving DecidableEq, Repr

/-- What `agg_begin` sets up of a `BatchAggState`. -/
structure BatchAgg where
  aggs : List AggSpec
  inputs : List AggInput
  hasCountStar : Bool
  grouped : Bool
  groupInput : Nat
  groupLimit : Nat
  spillBufferLimit : Nat

def aggregateFlag : AggKind → BitVec 32
  | .countColumn => reduceCount
  | .sumInt4 => reduceSum
  | .minInt4 => reduceMin
  | .maxInt4 => reduceMax
  -- unreachable
  | .countStar => 0
  | .groupKey => 0

/-- The input that reads a column, entered if there is none yet. -/
def inputOf (inputs : List AggInput) (column : Nat) : Nat × List AggInput :=
  match inputs.findIdx? fun input => input.column == column with
  | some index => (index,inputs)
  | none => (inputs.length,inputs ++ [⟨column,0⟩])

def addFlag (inputs : List AggInput) (index : Nat) (flag : BitVec 32) : List AggInput :=
  inputs.modify index fun input => {input with flags := input.flags ||| flag}

/-- The loop body of `agg_begin` for one aggregate of the plan. -/
def addAgg (own : BatchAgg) (agg : AggKind × Int) : Except String BatchAgg :=
  if agg.1 = .countStar then .ok {own with aggs := own.aggs ++ [⟨.countStar,none⟩], hasCountStar := true}
  else if agg.2 < 0 then .error "pg_batch aggregate input is missing from child slot"
  else
    let (index,inputs) := inputOf own.inputs agg.2.toNat
    let own := {own with aggs := own.aggs ++ [AggSpec.mk agg.1 (some index)], inputs := inputs}
    if agg.1 = .groupKey then
      if own.grouped ∧ own.groupInput ≠ index then .error "pg_batch aggregate has more than one group key"
      else .ok {own with grouped := true, groupInput := index}
    else .ok {own with inputs := addFlag own.inputs index (aggregateFlag agg.1)}

/-- `agg_begin`: the kinds and columns of the plan, and the two limits that follow from `hash_mem`. -/
def aggBegin (plan : List (AggKind × Int)) (groupLimit spillBufferLimit : Nat) : Except String BatchAgg :=
  plan.foldlM addAgg (⟨[],[],false,false,0,groupLimit,spillBufferLimit⟩ : BatchAgg)

structure GroupKey where
  value : Int4
  isnull : Bool
deriving DecidableEq, Repr

/-- A `GroupEntry` behind its key. -/
structure GroupValues where
  countStar : Int
  values : List Int4Reduction
deriving DecidableEq, Repr

/-- A table of `GroupEntry`, whose keys are compared byte by byte. -/
abbrev Groups := List (GroupKey × GroupValues)

/-- `hash_seq_search` visits every entry of a table once, in an order of its own. -/
structure HashScan where
  order : Groups → Groups
  perm : ∀ groups, (order groups).Perm groups

def addInt64Checked (target addend : Int) : Except String Int :=
  if InInt64 (target + addend) then .ok (target + addend) else .error "bigint out of range"

/-- What `find_group` sets a new entry to. -/
def zeroValues (own : BatchAgg) : GroupValues :=
  ⟨0,own.inputs.map fun _ => zeroReduction⟩

/-- The `min`, `max` and `has_value` part of `advance_group_entry`. -/
def extend (flags : BitVec 32) (value : Int4Reduction) (input : Int4) : Int4Reduction :=
  if value.hasValue then
    {value with
      min := if flags &&& reduceMin ≠ 0#32 ∧ input.toInt < value.min.toInt then input else value.min
      max := if flags &&& reduceMax ≠ 0#32 ∧ value.max.toInt < input.toInt then input else value.max}
  else {value with min := input, max := input, hasValue := true}

def advanceValue (flags : BitVec 32) (value : Int4Reduction) (cell : Option Int4) : Except String Int4Reduction :=
  match cell with
  | none => .ok value
  | some input =>
    if flags = 0#32 then .ok value
    else do
      let count ← if flags &&& reduceCount ≠ 0#32 then addInt64Checked value.count 1 else .ok value.count
      let sum ← if flags &&& reduceSum ≠ 0#32 then addInt64Checked value.sum input.toInt else .ok value.sum
      .ok (extend flags {value with count := count, sum := sum} input)

/-- The input loop of `advance_group_entry`. -/
def advanceValues : List AggInput → List Int4Reduction → List (Option Int4) → Except String (List Int4Reduction)
  | input :: inputs,value :: values,cell :: cells => do
    let value ← advanceValue input.flags value cell
    let values ← advanceValues inputs values cells
    .ok (value :: values)
  | _,_,_ => .ok []

def advanceGroupEntry (own : BatchAgg) (cells : List (Option Int4)) (entry : GroupValues) :
    Except String GroupValues := do
  let countStar ← if own.hasCountStar then addInt64Checked entry.countStar 1 else .ok entry.countStar
  let values ← advanceValues own.inputs entry.values cells
  .ok ⟨countStar,values⟩

/-- `load_group_vectors`. -/
def loadGroupVectors (own : BatchAgg) (batch : InputBatch) : List Column :=
  own.inputs.map fun input => batch.column input.column

/-- The inputs in one row of the vectors. -/
def cellsAt (vectors : List Column) (row : Nat) : List (Option Int4) :=
  vectors.map fun vector => vector row

def groupHash : Option Int4 → BitVec 32 × GroupKey
  | none => (murmurhash32 0x9e3779b9#32,⟨0,true⟩)
  | some value => (murmurhash32 value,⟨value,false⟩)

/-- `group_hash` of the group input. -/
def rowHash (own : BatchAgg) (cells : List (Option Int4)) : BitVec 32 × GroupKey :=
  groupHash (cells.getD own.groupInput none)

/-- `(hash >> shift) & (npartitions - 1)`. -/
def partitionAt (shift npartitions : Nat) (hash : BitVec 32) : Nat :=
  (hash >>> shift).toNat &&& (npartitions - 1)

structure SpillWork where
  set : Nat
  partition : Nat
  hashShift : Nat
deriving DecidableEq, Repr

/-- The changing part of a `BatchAggState` with the batches of its child. Spill
sets live in an arena: a pointer to one is its index. The tag of a spilled row is
a ghost: the child's row it was taken from. -/
structure AggState where
  input : List InputBatch
  mainGroups : Groups
  groupSeq : Groups
  inputDone : Bool
  spilling : Bool
  initialSpill : Option Nat
  sets : Nat → SpillSet Column
  nsets : Nat
  spillWork : List SpillWork
  hashes : Nat → BitVec 32

/-- The state after `agg_begin`, with the batches that the child is going to publish. -/
def aggStart (batches : List InputBatch) : AggState where
  input := batches
  mainGroups := []
  groupSeq := []
  inputDone := false
  spilling := false
  initialSpill := none
  sets := fun _ => ⟨create 0 0 0,false,fun _ => 0⟩
  nsets := 0
  spillWork := []
  hashes := fun _ => 0#32

/-- `spill_desc`: an int4 attribute for each input. -/
def spillDesc (own : BatchAgg) : List Attribute :=
  own.inputs.map fun _ => ⟨false,true⟩

/-- `pg_batch_spill_create`, the set being remembered in `spill_sets`. -/
def newSpill (own : BatchAgg) (state : AggState) (npartitions : Nat) : Except String AggState := do
  let set ← spillCreate (spillDesc own) own.inputs.length npartitions own.spillBufferLimit
  .ok {state with sets := Function.update state.sets state.nsets set, nsets := state.nsets + 1}

/-- A row of the vectors as `pg_batch_spill_write` stores it. -/
def vectorRow (vectors : List Column) (hashes : Nat → BitVec 32) (tag : Nat → Column) (row : Nat) : Row Column :=
  ⟨tag row,hashes row,(cellsAt vectors row).map inputValue⟩

/-- The loop over `partition_rows` that ends a batch and a block. -/
def writePartitions (npartitions nrows : Nat) (partitionRows : Nat → BitVec 64) (row : Nat → Row Column)
    (writers : Writers Column) : Except String (Writers Column) :=
  (List.range npartitions).foldlM
    (fun writers partition =>
      if partitionRows partition = 0#64 then .ok writers
      else spillWrite writers partition nrows (partitionRows partition) row) writers

/-- The state of the row loop of `advance_grouped_batch`. -/
structure RowLoop where
  groups : Groups
  spilling : Bool
  hashes : Nat → BitVec 32
  partitionRows : Nat → BitVec 64

def advanceRow (own : BatchAgg) (vectors : List Column) (loop : RowLoop) (row : Nat) : Except String RowLoop :=
  let cells := cellsAt vectors row
  let (hash,key) := rowHash own cells
  let loop := {loop with hashes := Function.update loop.hashes row hash}
  if (find loop.groups key).isSome then do
    let groups ← advance (advanceGroupEntry own cells) key loop.groups
    .ok {loop with groups := groups}
  else if loop.spilling = false ∧ loop.groups.length < own.groupLimit then do
    let groups ← advance (advanceGroupEntry own cells) key (loop.groups ++ [(key,zeroValues own)])
    .ok {loop with groups := groups}
  else
    let partition := partitionAt 0 32 hash
    .ok {loop with
      spilling := true
      partitionRows := Function.update loop.partitionRows partition (loop.partitionRows partition ||| bit 64 row)}

/-- `ensure_initial_spill`, with the set it makes sure of. -/
def ensureInitialSpill (own : BatchAgg) (state : AggState) : Except String (AggState × Nat) :=
  match state.initialSpill with
  | some index => .ok (state,index)
  | none => do
    let made ← newSpill own state 32
    .ok ({made with initialSpill := some state.nsets},state.nsets)

def advanceGroupedBatch (own : BatchAgg) (state : AggState) (batch : InputBatch) : Except String AggState :=
  if batch.selection.nwords ≠ 1 ∨ pgBatchSize < batch.selection.nrows then
    .error "pg_batch grouped aggregate requires batches of at most 64 rows"
  else do
    let vectors := loadGroupVectors own batch
    let loop ← (rows (batch.selection.words 0)).foldlM (advanceRow own vectors)
      ⟨state.mainGroups,state.spilling,state.hashes,fun _ => 0#64⟩
    let state := {state with mainGroups := loop.groups, spilling := loop.spilling, hashes := loop.hashes}
    if loop.spilling then do
      let (state,index) ← ensureInitialSpill own state
      let writers ← writePartitions 32 batch.selection.nrows loop.partitionRows
        (vectorRow vectors loop.hashes fun row column => batch.column column row) (state.sets index).toWriters
      .ok {state with sets := Function.update state.sets index {state.sets index with toWriters := writers}}
    else .ok state

/-- The work items of the partitions of a finished set that are not empty. -/
def appendSpillWork (set : SpillSet Column) (index npartitions hashShift : Nat) (works : List SpillWork) :
    Except String (List SpillWork) :=
  (List.range npartitions).foldlM
    (fun works partition => do
      if ← spillPartitionEmpty set partition then .ok works
      else .ok (works ++ [⟨index,partition,hashShift⟩])) works

def finishGroupInput (scan : HashScan) (state : AggState) : Except String AggState :=
  let state := {state with inputDone := true, groupSeq := scan.order state.mainGroups}
  match state.initialSpill with
  | none => .ok state
  | some index => do
    let set ← spillFinish (state.sets index) true
    let works ← appendSpillWork set index 32 5 state.spillWork
    .ok {state with sets := Function.update state.sets index set, spillWork := works}

/-- `spill_block_vectors`. -/
def spillBlockVectors (own : BatchAgg) (block : Store Column) : List Column :=
  (List.range own.inputs.length).map fun column row =>
    if block.valid column row then some (block.values column row) else none

/-- The row loop of `load_spill_groups`; `false` when another group does not fit. -/
def loadRows (own : BatchAgg) (vectors : List Column) (groups : Groups) : List Nat → Except String (Groups × Bool)
  | [] => .ok (groups,true)
  | row :: rest =>
    let cells := cellsAt vectors row
    let key := (rowHash own cells).2
    if (find groups key).isSome then do
      let groups ← advance (advanceGroupEntry own cells) key groups
      loadRows own vectors groups rest
    else if own.groupLimit ≤ groups.length then .ok (groups,false)
    else do
      let groups ← advance (advanceGroupEntry own cells) key (groups ++ [(key,zeroValues own)])
      loadRows own vectors groups rest

def loadSpillGroups (own : BatchAgg) (set : SpillSet Column) (partition : Nat) :
    Except String (SpillSet Column × Groups × Bool) := do
  let (set,reader) ← readerOpen set partition
  readLoop (fun groups block => loadRows own (spillBlockVectors own block) groups (rows (blockSelection block)))
    set reader []

/-- The block loop of `repartition_spill`. -/
def repartitionBlock (own : BatchAgg) (hashShift npartitions : Nat) (writers : Writers Column)
    (block : Store Column) : Except String (Writers Column × Bool) := do
  let partitionRows :=
    gather (fun row => partitionAt hashShift npartitions (block.hashes row)) (blockSelection block)
  let writers ← writePartitions npartitions block.nrows partitionRows
    (vectorRow (spillBlockVectors own block) block.hashes block.tags) writers
  .ok (writers,true)

def repartitionSpill (own : BatchAgg) (state : AggState) (work : SpillWork) : Except String AggState :=
  if 32 ≤ work.hashShift then .error "pg_batch aggregate cannot repartition a skewed group set"
  else do
    let hashBits := min 5 (32 - work.hashShift)
    let child := state.nsets
    let state ← newSpill own state (2 ^ hashBits)
    let (set,reader) ← readerOpen (state.sets work.set) work.partition
    let (set,writers,_) ← readLoop (repartitionBlock own work.hashShift (2 ^ hashBits)) set reader
      (state.sets child).toWriters
    let finished ← spillFinish {state.sets child with toWriters := writers} true
    let works ← appendSpillWork finished child (2 ^ hashBits) (work.hashShift + hashBits) state.spillWork
    .ok {state with
      sets := Function.update (Function.update state.sets work.set set) child finished
      spillWork := works}

/-! Every round of the emission loops leaves less work: an item is replaced by at
most 32 items whose shift is larger. -/

def weight (works : List SpillWork) : Nat :=
  (works.map fun work => 33 ^ (32 - work.hashShift)).sum

@[simp] theorem weight_cons (work : SpillWork) (works : List SpillWork) :
    weight (work :: works) = 33 ^ (32 - work.hashShift) + weight works := by
  simp [weight]

@[simp] theorem weight_append (left right : List SpillWork) : weight (left ++ right) = weight left + weight right := by
  simp [weight]

theorem weight_eq {works : List SpillWork} {hashShift : Nat} (shifted : ∀ work ∈ works, work.hashShift = hashShift) :
    weight works = works.length * 33 ^ (32 - hashShift) := by
  have weights : works.map (fun work => 33 ^ (32 - work.hashShift)) = works.map fun _ => 33 ^ (32 - hashShift) :=
    List.map_congr_left fun work member => by rw [shifted work member]
  rw [weight,weights,List.map_const',List.sum_replicate_nat]

theorem appendSpillWork_shape {set : SpillSet Column} {index npartitions hashShift : Nat}
    {works result : List SpillWork} (ran : appendSpillWork set index npartitions hashShift works = .ok result) :
    ∃ added, result = works ++ added ∧ added.length ≤ npartitions ∧ ∀ work ∈ added, work.hashShift = hashShift := by
  unfold appendSpillWork at ran
  induction npartitions generalizing result with
  | zero =>
    cases ran
    exact ⟨[],by simp⟩
  | succ count ih =>
    rw [List.range_succ,List.foldlM_append] at ran
    obtain ⟨middle,early,last⟩ := Results.bind_ok.mp ran
    obtain ⟨added,rfl,few,shifted⟩ := ih early
    rw [List.foldlM_cons] at last
    obtain ⟨final,step,done⟩ := Results.bind_ok.mp last
    cases done
    obtain ⟨empty,_,kept⟩ := Results.bind_ok.mp step
    cases empty with
    | true =>
      cases kept
      exact ⟨added,rfl,by omega,shifted⟩
    | false =>
      cases kept
      refine ⟨added ++ [⟨index,count,hashShift⟩],by simp,by simp; omega,?_⟩
      intro work member
      rcases List.mem_append.mp member with old | new
      · exact shifted work old
      · rw [List.mem_singleton.mp new]

theorem newSpill_spillWork {own : BatchAgg} {state after : AggState} {npartitions : Nat}
    (ran : newSpill own state npartitions = .ok after) : after.spillWork = state.spillWork := by
  obtain ⟨set,_,made⟩ := Results.bind_ok.mp ran
  cases made
  rfl

theorem repartitionSpill_lighter {own : BatchAgg} {state after : AggState} {work : SpillWork}
    (ran : repartitionSpill own state work = .ok after) :
    weight after.spillWork < weight (work :: state.spillWork) := by
  unfold repartitionSpill at ran
  split at ran
  · cases ran
  · rename_i shallow
    obtain ⟨made,created,ran⟩ := Results.bind_ok.mp ran
    obtain ⟨opened,_,ran⟩ := Results.bind_ok.mp ran
    obtain ⟨read,_,ran⟩ := Results.bind_ok.mp ran
    obtain ⟨finished,_,ran⟩ := Results.bind_ok.mp ran
    obtain ⟨works,listed,ran⟩ := Results.bind_ok.mp ran
    cases ran
    obtain ⟨added,rfl,few,shifted⟩ := appendSpillWork_shape listed
    have many : 2 ^ min 5 (32 - work.hashShift) ≤ 32 :=
      Nat.pow_le_pow_right (by decide : 0 < 2) (Nat.min_le_left 5 _)
    have deeper : 33 ^ (32 - (work.hashShift + min 5 (32 - work.hashShift))) ≤ 33 ^ (31 - work.hashShift) :=
      Nat.pow_le_pow_right (by decide) (by omega)
    have children : added.length * 33 ^ (32 - (work.hashShift + min 5 (32 - work.hashShift))) ≤
        32 * 33 ^ (31 - work.hashShift) := Nat.mul_le_mul (by omega) deeper
    have step : 33 ^ (32 - work.hashShift) = 33 * 33 ^ (31 - work.hashShift) := by
      rw [show 32 - work.hashShift = 31 - work.hashShift + 1 by omega,pow_succ,Nat.mul_comm]
    have positive : 0 < 33 ^ (31 - work.hashShift) := by positivity
    rw [weight_append,weight_cons,weight_eq shifted,newSpill_spillWork created,step]
    omega

def prepareNextSpillPartition (own : BatchAgg) (scan : HashScan) (state : AggState) :
    Except String (AggState × Bool) :=
  match _ : state.spillWork with
  | [] => .ok ({state with groupSeq := []},false)
  | work :: rest =>
    match loadSpillGroups own (state.sets work.set) work.partition with
    | .error message => .error message
    | .ok (set,groups,loaded) =>
      let state := {state with spillWork := rest, sets := Function.update state.sets work.set set}
      if loaded then .ok ({state with groupSeq := scan.order groups},true)
      else match _ : repartitionSpill own state work with
        | .error message => .error message
        | .ok state => prepareNextSpillPartition own scan state
termination_by weight state.spillWork
decreasing_by
  rename_i listed _ repartitioned
  rw [listed]
  exact repartitionSpill_lighter repartitioned

/-- One round of the loop of `prepare_next_spill_partition`, on an item that was read without an error. -/
theorem prepareNext_cons {own : BatchAgg} {scan : HashScan} {state : AggState} {work : SpillWork}
    {rest : List SpillWork} {set : SpillSet Column} {groups : Groups} {loaded : Bool}
    (listed : state.spillWork = work :: rest)
    (load : loadSpillGroups own (state.sets work.set) work.partition = .ok (set,groups,loaded)) :
    prepareNextSpillPartition own scan state =
      let state := {state with spillWork := rest, sets := Function.update state.sets work.set set}
      if loaded then .ok ({state with groupSeq := scan.order groups},true)
      else repartitionSpill own state work >>= prepareNextSpillPartition own scan := by
  rw [prepareNextSpillPartition]
  split
  · rename_i none
    rw [none] at listed
    cases listed
  · rename_i some
    rw [some] at listed
    cases listed
    rw [load]
    cases loaded with
    | true => rfl
    | false =>
      dsimp only
      rw [if_neg (by decide),if_neg (by decide)]
      split
      · rename_i failed
        rw [failed]
        rfl
      · rename_i ran
        rw [ran]
        rfl

theorem prepareNext_nil {own : BatchAgg} {scan : HashScan} {state : AggState} (listed : state.spillWork = []) :
    prepareNextSpillPartition own scan state = .ok ({state with groupSeq := []},false) := by
  rw [prepareNextSpillPartition]
  split
  · rfl
  · rename_i some
    rw [some] at listed
    cases listed

theorem prepareNext_lighter {own : BatchAgg} {scan : HashScan} {state after : AggState}
    (ran : prepareNextSpillPartition own scan state = .ok (after,true)) :
    weight after.spillWork < weight state.spillWork := by
  generalize heavy : weight state.spillWork = bound
  induction bound using Nat.strong_induction_on generalizing state with
  | _ bound ih =>
    cases listed : state.spillWork with
    | nil =>
      rw [prepareNext_nil listed] at ran
      cases ran
    | cons work rest =>
      cases load : loadSpillGroups own (state.sets work.set) work.partition with
      | error message =>
        rw [prepareNextSpillPartition] at ran
        split at ran
        · cases ran
        · rename_i some
          rw [some] at listed
          cases listed
          rw [load] at ran
          cases ran
      | ok result =>
        obtain ⟨set,groups,loaded⟩ := result
        rw [prepareNext_cons listed load] at ran
        cases loaded with
        | true =>
          cases ran
          rw [← heavy,listed,weight_cons]
          have positive : 0 < 33 ^ (32 - work.hashShift) := by positivity
          exact Nat.lt_add_of_pos_left positive
        | false =>
          obtain ⟨middle,split,rest'⟩ := Results.bind_ok.mp ran
          have less := repartitionSpill_lighter split
          rw [← heavy,listed]
          refine Nat.lt_trans (ih _ ?_ rest' rfl) less
          rw [← heavy,listed]
          exact less

abbrev Result := List (Option Int)

/-- `store_group_result`: a result column is NULL or a number. -/
def storeGroupResult (own : BatchAgg) (entry : GroupKey × GroupValues) : Result :=
  own.aggs.map fun agg =>
    let value := match agg.input with
      | none => zeroReduction
      | some index => entry.2.values.getD index zeroReduction
    match agg.kind with
    | .groupKey => if entry.1.isnull then none else some entry.1.value.toInt
    | .countStar => some entry.2.countStar
    | .countColumn => some value.count
    | .sumInt4 => if value.hasValue then some value.sum else none
    | .minInt4 => if value.hasValue then some value.min.toInt else none
    | .maxInt4 => if value.hasValue then some value.max.toInt else none

/-- The second loop of `agg_exec_grouped`. -/
def nextGroup (own : BatchAgg) (scan : HashScan) (state : AggState) : Except String (AggState × Option Result) :=
  match state.groupSeq with
  | entry :: rest => .ok ({state with groupSeq := rest},some (storeGroupResult own entry))
  | [] => match _ : prepareNextSpillPartition own scan state with
    | .error message => .error message
    | .ok (state,false) => .ok (state,none)
    | .ok (state,true) => nextGroup own scan state
termination_by weight state.spillWork
decreasing_by
  rename_i prepared
  exact prepareNext_lighter prepared

/-- The first loop of `agg_exec_grouped`. -/
def collectInput (own : BatchAgg) (state : AggState) : Except String AggState :=
  state.input.foldlM
    (fun state batch => do
      publishBatch pgBatchSize batch
      advanceGroupedBatch own state batch) {state with input := []}

def aggExecGrouped (own : BatchAgg) (scan : HashScan) (state : AggState) :
    Except String (AggState × Option Result) := do
  if state.inputDone then nextGroup own scan state
  else
    let state ← collectInput own state
    let state ← finishGroupInput scan state
    nextGroup own scan state

/-- The executor calls the node until it returns no more rows. -/
inductive Emits (own : BatchAgg) (scan : HashScan) : AggState → List Result → Prop
  | done {state after : AggState} : aggExecGrouped own scan state = .ok (after,none) → Emits own scan state []
  | row {state after : AggState} {result : Result} {results : List Result} :
      aggExecGrouped own scan state = .ok (after,some result) → Emits own scan after results →
      Emits own scan state (result :: results)

end PgBatch.Aggregate
