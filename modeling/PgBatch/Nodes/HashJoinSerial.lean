import PgBatch.Nodes.HashJoinPartitionsRun
import PgBatch.Nodes.HashJoinProbeRun

/-! A serial hash join without residual conditions, from its two children to its output:
the end of `build_hash_table`, `fetch_probe_batch` in memory and behind a spill, and what
`produce_output` asks of the probe batch and of the table. -/
namespace PgBatch.HashJoin
open Words Columnar Spill
variable {ι : Type}

/-! The end of `build_hash_table`. -/

/-- The table of the resident rows, if there are any. -/
def finishResidentTable (config : Config) (build : BuildStore ι) : Except String (BuildStore ι) :=
  if 0 < build.nrows then finishTable config {build with hashShift := 0} else .ok build

/-- What `build_hash_table` does behind its loop; without build rows it leaves the partitions alone. -/
def finishBuild (config : Config) (state : BuildState ι) : Except String (BuildState ι) :=
  match state.spill with
  | none => do
    let build ← finishTable config state.build
    .ok ⟨build,none,build.nrows⟩
  | some spill =>
    if state.buildRows = 0 then .ok state
    else do
      let set ← spillFinish spill.buildSpill false
      let build ← finishResidentTable config state.build
      .ok ⟨build,some {spill with
        residentPartitions := spill.residentPartitions.filter fun partition => spill.residentPartitionRows partition ≠ 0
        buildSpill := set},state.buildRows⟩

/-! Probing. -/

/-- Where a join that has built its table is: with all its rows in memory, before its partitions or among them. -/
inductive SerialPhase (ι : Type) where
  | memory (table : BuildStore ι) (input : List (Batch ι))
  | routing (spill : BuildSpill ι) (buildRows : Nat) (state : ProbeState ι)
  | partitions (spill : BuildSpill ι) (state : PartitionState ι)

/-- The probe side of a join, with `probe_hashes` and `probe_hash_rows`. -/
structure SerialJoin (config : Config) (ι : Type) where
  phase : SerialPhase ι
  side : ProbeSide config ι
  probeHashes : Nat → BitVec 32
  probeHashRows : BitVec 64

namespace SerialPhase

/-- `build`, which is the table while there is a probe batch. -/
def table : SerialPhase ι → BuildStore ι
  | memory table _ => table
  | routing _ _ state => state.build
  | partitions _ state => state.build

end SerialPhase

section Sides
variable {config : Config}

/-- A batch of the outer child, with no column bound yet. -/
def ProbeSide.ofInput (side : ProbeSide config ι) (batch : Batch ι) : ProbeSide config ι :=
  {side with source := .input batch, columns := noColumns}

/-- The block of the resident rows, which has the columns of the outer side; columns that are bound stay. -/
def ProbeSide.ofResident (side : ProbeSide config ι) (block : ProbeBlock ι) : ProbeSide config ι :=
  if wide : block.ncolumns = config.nouterColumns then ⟨.resident,block,side.probeBlock,side.columns,wide⟩
  else {side with source := .resident}

/-- The block of a partition, with no column bound yet. -/
def ProbeSide.ofSpilled (side : ProbeSide config ι) (block : Store ι) : ProbeSide config ι :=
  {side with source := .spilled, probeBlock := block, columns := noColumns}

/-- `probe_columns` behind a turn that found no batch: those of the batch that was divided. -/
def routedColumns (spill : BuildSpill ι) (buildRows : Nat) (side : ProbeSide config ι) :
    List (Batch ι) → Except String (Nat → InputColumn)
  | [] => .ok side.columns
  | batch :: _ => routeColumns spill buildRows side batch

theorem int_rows (nrows : Nat) : nrows % 2 ^ 31 < 2 ^ 31 :=
  Nat.mod_lt _ (Nat.two_pow_pos 31)

theorem batch_rows (batch : Batch ι) : batch.nrows < 2 ^ 31 :=
  Nat.lt_of_le_of_lt batch.small (by decide)

/-- `probe_batch->selection`; the rows of a block are counted by an `int`. -/
def ProbeSide.rowSelection (side : ProbeSide config ι) : Selection :=
  match side.source with
  | .input batch => ⟨batch.nrows,batch_rows batch,fun _ => side.selection⟩
  | .resident => ⟨side.residentBlock.batchRows % 2 ^ 31,int_rows _,fun _ => side.selection⟩
  | .spilled => ⟨side.probeBlock.nrows % 2 ^ 31,int_rows _,fun _ => side.selection⟩

/-- What the bound columns have in a row. -/
def ProbeSide.cells (side : ProbeSide config ι) (row column : Nat) : Option Int4 :=
  side.read (side.columns column).vector row

/-- The ghost of a probe row. -/
def ProbeSide.tag (side : ProbeSide config ι) (row : Nat) : ι :=
  match side.source with
  | .input batch => batch.tag row
  | .resident => side.residentBlock.tags row
  | .spilled => side.probeBlock.tags row

end Sides

namespace SerialJoin
variable {config : Config}

/-- `load_probe_hash`. -/
def loadProbeHash (join : SerialJoin config ι) (row : Nat) : Option (BitVec 32) :=
  match join.side.source with
  | .resident => some (join.side.residentBlock.hashes row)
  | .spilled => some (join.side.probeBlock.hashes row)
  | .input _ => if join.probeHashRows.getLsbD row then some (join.probeHashes row) else none

/-- `find_build_head`; a table has an empty bucket, so that no search is longer than its buckets. -/
def findHead (join : SerialJoin config ι) (hash : BitVec 32) (row : Nat) : Nat :=
  (findBuildHead config join.phase.table.nbuckets join.phase.table (join.side.cells row) hash).getD 0

/-- `finish_probe_batch`. -/
def finishProbeBatch (join : SerialJoin config ι) : SerialJoin config ι :=
  match join.phase with
  | .memory _ _ => join
  | .routing spill buildRows state =>
    if state.fromResident then {join with phase := .routing spill buildRows (finishProbe state)} else join
  | .partitions _ _ => join

/-- `fetch_probe_batch` with all build rows in memory. -/
def fetchInput (join : SerialJoin config ι) (table : BuildStore ι) :
    List (Batch ι) → Except String (SerialJoin config ι × Fetched)
  | [] => .ok (join,.ended)
  | batch :: rest => do
    let side ← prepareProbeKeys (join.side.ofInput batch)
    let (hashes,hashRows) := outerHashed config batch
    .ok (⟨.memory table rest,side,hashes,hashRows⟩,.found)

/-- A turn of `fetch_probe_batch` that divides the outer rows. -/
def fetchRouted [Inhabited ι] (join : SerialJoin config ι) (spill : BuildSpill ι) (buildRows : Nat) (state : ProbeState ι) :
    Except String (SerialJoin config ι × Fetched) := do
  let (next,turn) ← fetchTurn config spill buildRows (outerHashed config) state
  match turn with
  | .again => do
    let columns ← routedColumns spill buildRows join.side state.input
    .ok (⟨.routing spill buildRows next,{join.side with columns := columns},join.probeHashes,join.probeHashRows⟩,.again)
  | .delivered => do
    let side ← prepareProbeKeys (join.side.ofResident next.block)
    .ok (⟨.routing spill buildRows next,side,join.probeHashes,join.probeHashRows⟩,.found)
  | .partitions => .ok ({join with phase := .partitions spill (partitionsStart spill next.probe next.build)},.again)
  | .nothing => .ok ({join with phase := .routing spill buildRows next},.ended)

/-- A turn of `hash_join_fetch_spilled_probe_batch`. -/
def fetchSpilled [Inhabited ι] (join : SerialJoin config ι) (spill : BuildSpill ι) (state : PartitionState ι) :
    Except String (SerialJoin config ι × Fetched) := do
  let (next,turn) ← partitionTurn config spill state
  match turn with
  | .again => .ok ({join with phase := .partitions spill next},.again)
  | .block => do
    let side ← prepareProbeKeys (join.side.ofSpilled next.probeBlock)
    .ok (⟨.partitions spill next,side,join.probeHashes,join.probeHashRows⟩,.found)
  | .ended => .ok ({join with phase := .partitions spill next},.ended)

/-- A turn of `fetch_probe_batch`. -/
def fetchProbeBatch [Inhabited ι] (join : SerialJoin config ι) : Except String (SerialJoin config ι × Fetched) :=
  match join.phase with
  | .memory table input => join.fetchInput table input
  | .routing spill buildRows state => join.fetchRouted spill buildRows state
  | .partitions spill state => join.fetchSpilled spill state

/-- The rows of an output row. -/
def pairTags (join : SerialJoin config ι) (pair : Nat × Nat) : ι × ι :=
  (join.side.tag pair.1,join.phase.table.tags pair.2)

end SerialJoin

/-- What `produce_output` makes use of; without conditions all rows of the output qualify. -/
def serialProbes [Inhabited ι] (config : Config) : Probes (SerialJoin config ι) where
  fetch := SerialJoin.fetchProbeBatch
  finish := SerialJoin.finishProbeBatch
  selection := fun join => join.side.rowSelection
  probeHash := SerialJoin.loadProbeHash
  findHead := SerialJoin.findHead
  next := fun join build _ => join.phase.table.next build
  hasDuplicates := fun join => join.phase.table.hasDuplicates
  qualify := fun join _ output => .ok (join,output)

/-! The start. -/

/-- The blocks of `hash_join_begin_spill`, with nothing in them and no column bound. -/
def emptySide [Inhabited ι] (config : Config) : ProbeSide config ι :=
  ⟨.spilled,initResidentBlock config.nouterColumns,.zero,noColumns,rfl⟩

/-- The phase in which a join begins to probe. -/
def startPhase [Inhabited ι] (config : Config) (state : BuildState ι) (outer : List (Batch ι)) :
    Except String (SerialPhase ι) :=
  match state.spill with
  | none => .ok (.memory state.build outer)
  | some spill => do
    let probe ← beginProbe config spill.npartitions
    .ok (.routing spill state.buildRows (probeStart config state.build probe outer))

/-- `build_hash_table`, with the outer batches that are to come. -/
def buildHashTable [Inhabited ι] (config : Config) (store : BuildStore ι) (inner outer : List (Batch ι)) :
    Except String (SerialJoin config ι) := do
  let state ← buildBatches config store inner
  let state ← finishBuild config state
  let phase ← startPhase config state outer
  .ok ⟨phase,emptySide config,fun _ => 0#32,0#64⟩

end PgBatch.HashJoin
