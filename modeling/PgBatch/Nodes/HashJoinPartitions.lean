import PgBatch.Nodes.HashJoinProbeBuffer

/-! The spilled partitions of a serial hash join, which are joined one after another
(`nodes/hash_join_spill.c`). The build rows of a partition are loaded in chunks, and its
probe rows are read once for each of them; a partition of many chunks is divided first. -/
namespace PgBatch.HashJoin
open Words Columnar Spill
open Parallel (partitionOf nextPartitionCount)
variable {ι : Type}

/-- `build_files` and `probe_files`, or `repartition_build_files` and `repartition_probe_files`. -/
inductive Level
  | partitions
  | repartitions
deriving DecidableEq, Repr

inductive Side
  | build
  | probe
deriving DecidableEq, Repr

/-- An array of files with the spill set they are read from. -/
structure SpillFiles (ι : Type) where
  files : Nat → Option HashSpillFile
  set : SpillSet ι

def Side.choose {α : Type} (build probe : α) : Side → α
  | .build => build
  | .probe => probe

def Level.choose {α : Type} (partitions repartitions : α) : Level → α
  | .partitions => partitions
  | .repartitions => repartitions

/-- What `hash_join_fetch_spilled_probe_batch` works on; `nextPartition` is the one behind
`current_partition`, and `repartitioned` says that there are `repartition_build_files`. -/
structure PartitionState (ι : Type) where
  build : BuildStore ι
  files : Level → Side → SpillFiles ι
  nextPartition : Nat
  partitionActive : Bool
  active : Option (Level × Nat)
  activeHashShift : Nat
  buildBlock : Store ι
  buildBlockRow : Nat
  buildFileEof : Bool
  buildPartitionMore : Bool
  probeBlock : Store ι
  repartitioned : Bool
  nrepartitions : Nat
  nextRepartition : Nat
  repartitionHashShift : Nat

/-- `PG_BATCH_REPARTITION_MIN_PASSES`. -/
def repartitionMinPasses : Nat := 6

/-! Files. The source holds pointers to files that are there; a file that is not reads as one without a reader. -/

namespace SpillFiles

def file (files : SpillFiles ι) (partition : Nat) : HashSpillFile :=
  (files.files partition).getD ⟨partition,none⟩

/-- A file is left with this reader, and its set as it was read. -/
def keep (files : SpillFiles ι) (partition : Nat) (set : SpillSet ι) (reader : Option Reader) : SpillFiles ι :=
  ⟨Function.update files.files partition (some ⟨(files.file partition).partition,reader⟩),set⟩

/-- The pointer to a file is set to NULL. -/
def drop (files : SpillFiles ι) (partition : Nat) : SpillFiles ι :=
  {files with files := Function.update files.files partition none}

def has (files : SpillFiles ι) (partition : Nat) : Bool :=
  (files.files partition).isSome

end SpillFiles

/-- The reader of a file, which is opened when there is none. -/
def fileReader (files : SpillFiles ι) (partition : Nat) : Except String (SpillSet ι × Reader) :=
  match (files.file partition).reader with
  | some reader => .ok (files.set,reader)
  | none => readerOpen files.set (files.file partition).partition

/-- The check of `hash_join_use_spill_block`. -/
def useSpillBlock (ncolumns : Nat) (set : SpillSet ι) (block : Option (Store ι)) : Except String (Option (Store ι)) :=
  if block.isSome ∧ set.ncolumns ≠ ncolumns then .error "invalid pg_batch hash join spill block" else .ok block

/-- `read_spill_block`. -/
def readSpillBlock (ncolumns : Nat) (files : SpillFiles ι) (partition : Nat) :
    Except String (SpillFiles ι × Option (Store ι)) := do
  let (set,reader) ← fileReader files partition
  let (set,reader,block) ← readerNext set reader
  let block ← useSpillBlock ncolumns set block
  .ok (files.keep partition set (some reader),block)

/-- `rewind_spill_file`. -/
def rewindSpillFile (files : SpillFiles ι) (partition : Nat) : Except String (SpillFiles ι) :=
  match (files.file partition).reader with
  | none => .ok files
  | some reader => do
    let (set,reader) ← readerRewind files.set reader
    .ok (files.keep partition set (some reader))

namespace PartitionState

/-- One of the arrays of files is changed. -/
def setFiles (state : PartitionState ι) (level : Level) (side : Side) (files : SpillFiles ι) : PartitionState ι :=
  {state with files := Function.update state.files level (Function.update (state.files level) side files)}

/-- `active_build_file` and `active_probe_file`, when there are such. -/
def place (state : PartitionState ι) : Level × Nat :=
  state.active.getD (.partitions,0)

end PartitionState

/-! Chunks of build rows. -/

/-- A row of the build block to load, if the file has one. -/
def nextBuildRow (config : Config) (state : PartitionState ι) : Except String (PartitionState ι × Bool) :=
  if state.buildBlockRow < state.buildBlock.nrows then .ok (state,true)
  else do
    let (level,partition) := state.place
    let (files,block) ← readSpillBlock config.ninnerColumns (state.files level .build) partition
    match block with
    | none => .ok ({state.setFiles level .build files with buildFileEof := true},false)
    | some block => .ok ({state.setFiles level .build files with buildBlock := block, buildBlockRow := 0},true)

/-- `append_spill_build_row` for the next row of the block. -/
def appendSpillBuildRow (config : Config) (state : PartitionState ι) : Except String (PartitionState ι) := do
  let build ← appendBuildRow config state.build (state.buildBlock.row config.ninnerColumns state.buildBlockRow)
  .ok {state with build := build, buildBlockRow := state.buildBlockRow + 1}

/-- The loops of `load_build_chunk`, row by row: at most `left` rows more. -/
def loadRows (config : Config) : Nat → PartitionState ι → Except String (PartitionState ι)
  | 0, state => .ok state
  | left + 1, state => do
    let (state,more) ← nextBuildRow config state
    if more then do
      let state ← appendSpillBuildRow config state
      loadRows config left state
    else .ok state

/-- `hash_join_finish_build_table`; no search for a bucket takes more steps than there are buckets. -/
def finishTable (config : Config) (store : BuildStore ι) : Except String (BuildStore ι) :=
  (finishBuildTable config (chooseBucketCount store.nrows) store).getD (.error "endless search for a bucket")

/-- `load_build_chunk`. -/
def loadBuildChunk (config : Config) (spill : BuildSpill ι) (state : PartitionState ι) :
    Except String (PartitionState ι × Bool) := do
  let state ← loadRows config spill.buildChunkRows
    {state with build := {resetBuildStore state.build with hashShift := state.activeHashShift}}
  if state.build.nrows = 0 then .ok ({state with buildPartitionMore := false},false)
  else do
    let build ← finishTable config state.build
    .ok ({state with
      build := build
      buildPartitionMore := !state.buildFileEof || decide (state.buildBlockRow < state.buildBlock.nrows)},true)

/-! Dividing a partition. -/

/-- The partition that a hash selects behind the bits that are used up. -/
def repartitionOf (hashShift npartitions : Nat) (hash : BitVec 32) : Nat :=
  partitionOf npartitions (hash >>> hashShift)

/-- The body of the loop that links the rows of a block; rows without build rows to match are left out. -/
def linkSpillRow (hashShift npartitions : Nat) (matching : Option (Nat → Option HashSpillFile)) (block : Store ι)
    (links : Links) (row : Nat) : Links :=
  let partition := repartitionOf hashShift npartitions (block.hashes row)
  if matching.any fun files => (files partition).isNone then links else links.add partition row

/-- `write_spill_rows`. -/
def writeSpillRows [Inhabited ι] (block : Store ι) (linked : Nat → List Nat) (files : SpillFiles ι) (partition : Nat) :
    Except String (SpillFiles ι) := do
  let writers ← spillWriteDense files.set.toWriters partition (storeBlock block (linked partition))
  .ok ⟨spillFile files.files partition,{files.set with toWriters := writers}⟩

/-- The body of the loop of `repartition_file`. -/
def repartitionBlock [Inhabited ι] (ncolumns width hashShift npartitions : Nat)
    (matching : Option (Nat → Option HashSpillFile)) (files : SpillFiles ι) (block : Store ι) :
    Except String (SpillFiles ι × Bool) :=
  if width ≠ ncolumns then .error "invalid pg_batch hash join spill block"
  else do
    let links := (List.range block.nrows).foldl (linkSpillRow hashShift npartitions matching block) Links.empty
    let files ← links.used.foldlM (writeSpillRows block links.linked) files
    .ok (files,true)

/-- `repartition_file`; the reader is closed behind it. -/
def repartitionFile [Inhabited ι] (ncolumns : Nat) (source : SpillFiles ι) (partition hashShift npartitions : Nat)
    (matching : Option (Nat → Option HashSpillFile)) (files : SpillFiles ι) :
    Except String (SpillFiles ι × SpillFiles ι) := do
  let source ← rewindSpillFile source partition
  let (set,reader) ← fileReader source partition
  let (set,files,_) ← readLoop (repartitionBlock ncolumns source.set.ncolumns hashShift npartitions matching) set reader files
  .ok (source.keep partition set none,files)

/-- What `repartition_current_partition` sets up for a side. -/
def createRepartitions (config : Config) (ncolumns npartitions : Nat) : Except String (SpillFiles ι) := do
  let set ← spillCreate (spillTupleDesc ncolumns) ncolumns npartitions (config.memoryLimit / 4)
  .ok ⟨fun _ => none,set⟩

/-- The body of `repartition_current_partition` behind its test. -/
def dividePartition [Inhabited ι] (config : Config) (spill : BuildSpill ι) (state : PartitionState ι)
    (partition npartitions : Nat) : Except String (PartitionState ι) := do
  let build ← createRepartitions config config.ninnerColumns npartitions
  let probe ← createRepartitions config config.nouterColumns npartitions
  let (oldBuild,build) ← repartitionFile config.ninnerColumns (state.files .partitions .build) partition
    spill.partitionShift npartitions none build
  let (oldProbe,probe) ← repartitionFile config.nouterColumns (state.files .partitions .probe) partition
    spill.partitionShift npartitions (some build.files) probe
  let buildSet ← spillFinish build.set false
  let probeSet ← spillFinish probe.set true
  .ok {state with
    files := Level.choose (Side.choose (oldBuild.drop partition) (oldProbe.drop partition))
      (Side.choose {build with set := buildSet} {probe with set := probeSet})
    repartitioned := true
    nrepartitions := npartitions
    nextRepartition := 0
    repartitionHashShift := spill.partitionShift + partitionBits npartitions}

/-- `repartition_current_partition`, which leaves a partition of few chunks as it is. -/
def repartitionCurrentPartition [Inhabited ι] (config : Config) (spill : BuildSpill ι) (state : PartitionState ι)
    (partition : Nat) : Except String (PartitionState ι × Bool) :=
  let required := (spill.buildPartitionRows partition + spill.buildChunkRows - 1) / spill.buildChunkRows
  if spill.buildPartitionRows partition ≤ spill.buildChunkRows ∨ required < repartitionMinPasses then .ok (state,false)
  else do
    let state ← dividePartition config spill state partition (nextPartitionCount required)
    .ok (state,true)

/-! The partitions in turn. -/

/-- `finish_active_partition`. -/
def finishActivePartition (state : PartitionState ι) : PartitionState ι :=
  match state.active with
  | none => state
  | some (level,partition) =>
    let build := (state.files level .build).keep partition (state.files level .build).set none
    let probe := (state.files level .probe).keep partition (state.files level .probe).set none
    {(state.setFiles level .build build).setFiles level .probe probe with active := none}

/-- `start_partition_files`. -/
def startPartitionFiles (config : Config) (spill : BuildSpill ι) (state : PartitionState ι) (level : Level)
    (partition hashShift : Nat) : Except String (PartitionState ι × Bool) := do
  let build ← rewindSpillFile (state.files level .build) partition
  let (state,loaded) ← loadBuildChunk config spill {state.setFiles level .build build with
    active := some (level,partition)
    activeHashShift := hashShift
    buildBlock := {state.buildBlock with nrows := 0}
    buildBlockRow := 0
    buildFileEof := false}
  if loaded then do
    let probe ← rewindSpillFile (state.files level .probe) partition
    .ok ({state.setFiles level .probe probe with partitionActive := true},true)
  else .ok (state,false)

/-- `finish_repartition`: the files of the part behind `nextRepartition` are dropped. -/
def finishRepartition (state : PartitionState ι) : PartitionState ι :=
  if state.nextRepartition = 0 then state
  else
    let partition := state.nextRepartition - 1
    (state.setFiles .repartitions .build ((state.files .repartitions .build).drop partition)).setFiles .repartitions .probe
      ((state.files .repartitions .probe).drop partition)

/-- The loop over the parts of a divided partition, of which `left` are left. -/
def startRepartitions (config : Config) (spill : BuildSpill ι) :
    Nat → PartitionState ι → Except String (PartitionState ι × Bool)
  | 0, state => .ok ({state with repartitioned := false, nrepartitions := 0, nextRepartition := 0},false)
  | left + 1, state =>
    let partition := state.nextRepartition
    let next := {state with nextRepartition := partition + 1}
    if (next.files .repartitions .build).has partition && (next.files .repartitions .probe).has partition then do
      let (state,started) ← startPartitionFiles config spill next .repartitions partition next.repartitionHashShift
      if started then .ok (state,true) else startRepartitions config spill left state
    else startRepartitions config spill left (finishRepartition next)

/-- The part of the loop of `start_next_partition` for a partition that is divided. -/
def startRepartition (config : Config) (spill : BuildSpill ι) (state : PartitionState ι) :
    Except String (PartitionState ι × Bool) :=
  if state.repartitioned then
    startRepartitions config spill (state.nrepartitions - state.nextRepartition) (finishRepartition state)
  else .ok (state,false)

/-- The loops of `start_next_partition`, with `left` partitions left. There are parts of a divided partition only
behind the turn that divides it. -/
def startPartitions [Inhabited ι] (config : Config) (spill : BuildSpill ι) :
    Nat → PartitionState ι → Except String (PartitionState ι × Bool)
  | 0, state => do
    let (state,started) ← startRepartition config spill state
    if started then .ok (state,true)
    else .ok ({state with nextPartition := state.nextPartition + 1, partitionActive := false},false)
  | left + 1, state => do
    let (state,started) ← startRepartition config spill state
    if started then .ok (state,true)
    else
      let partition := state.nextPartition
      let next := {state with nextPartition := partition + 1}
      if (next.files .partitions .build).has partition && (next.files .partitions .probe).has partition then do
        let (state,divided) ← repartitionCurrentPartition config spill next partition
        if divided then startPartitions config spill left state
        else do
          let (state,started) ← startPartitionFiles config spill state .partitions partition spill.partitionShift
          if started then .ok (state,true) else startPartitions config spill left state
      else startPartitions config spill left next

def startNextPartition [Inhabited ι] (config : Config) (spill : BuildSpill ι) (state : PartitionState ι) :
    Except String (PartitionState ι × Bool) :=
  startPartitions config spill (spill.npartitions - state.nextPartition) (finishActivePartition state)

/-- The end of the probe rows: they are read again for the next chunk, if there is one. -/
def nextChunk (config : Config) (spill : BuildSpill ι) (state : PartitionState ι) : Except String (PartitionState ι) :=
  if state.buildPartitionMore then do
    let (state,loaded) ← loadBuildChunk config spill state
    if loaded then do
      let (level,partition) := state.place
      let probe ← rewindSpillFile (state.files level .probe) partition
      .ok (state.setFiles level .probe probe)
    else .ok {state with partitionActive := false}
  else .ok {state with partitionActive := false}

/-- A turn of `hash_join_fetch_spilled_probe_batch` with an active partition. -/
def activeTurn (config : Config) (spill : BuildSpill ι) (state : PartitionState ι) :
    Except String (PartitionState ι × Bool) := do
  let (level,partition) := state.place
  let (files,block) ← readSpillBlock config.nouterColumns (state.files level .probe) partition
  match block with
  | some block => .ok ({state.setFiles level .probe files with probeBlock := block},true)
  | none => do
    let state ← nextChunk config spill (state.setFiles level .probe files)
    .ok (state,false)

/-- How a turn of `hash_join_fetch_spilled_probe_batch` ends. -/
inductive PartitionTurn
  | again
  | block
  | ended
deriving DecidableEq, Repr

/-- A turn with an active partition, and how it ends. -/
def blockTurn (config : Config) (spill : BuildSpill ι) (state : PartitionState ι) :
    Except String (PartitionState ι × PartitionTurn) := do
  let (state,found) ← activeTurn config spill state
  .ok (state,if found then .block else .again)

/-- One turn of the loop of `hash_join_fetch_spilled_probe_batch`. -/
def partitionTurn [Inhabited ι] (config : Config) (spill : BuildSpill ι) (state : PartitionState ι) :
    Except String (PartitionState ι × PartitionTurn) :=
  if state.partitionActive then blockTurn config spill state
  else do
    let (state,started) ← startNextPartition config spill state
    if started then blockTurn config spill state else .ok (state,.ended)

/-- The partitions when all outer rows have been divided among them. -/
def partitionsStart (spill : BuildSpill ι) (probe : ProbeSpill ι) (build : BuildStore ι) : PartitionState ι where
  build := build
  files := fun _ => Side.choose ⟨spill.buildFiles,spill.buildSpill⟩ ⟨probe.probeFiles,probe.probeSpill⟩
  nextPartition := 0
  partitionActive := false
  active := none
  activeHashShift := 0
  buildBlock := build.toStore.wipe
  buildBlockRow := 0
  buildFileEof := false
  buildPartitionMore := false
  probeBlock := build.toStore.wipe
  repartitioned := false
  nrepartitions := 0
  nextRepartition := 0
  repartitionHashShift := 0

end PgBatch.HashJoin
