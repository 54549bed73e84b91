import PgBatch.Spill.SharedBlocks
import PgBatch.Nodes.HashJoinServing
import Mathlib.Data.Nat.Log

/-! The spilled partitions of a parallel hash join (`nodes/parallel_hash_join.c`). When both
sides are in their shared files a participant claims a partition, loads its build rows chunk
by chunk into a table of its own and reads its probe rows once for each chunk; a partition
of many chunks is divided once more, into private files. -/
namespace PgBatch.ParallelJoin
open Words Columnar Spill HashJoin
open Parallel (nextPartitionCount sharedPartitionCount)
variable {ι : Type}

/-- The shared files of both sides, and the text of a file that cannot be opened. -/
structure SharedFiles (ι : Type) where
  buildShape : SharedShape
  probeShape : SharedShape
  build : SharedSpill Nat ι
  probe : SharedSpill Nat ι
  missing : String

/-- `repartition_build` and `repartition_probe`; `next` is the part behind `current_repartition`. -/
structure Repartition (ι : Type) where
  build : SpillSet ι
  probe : SpillSet ι
  nrepartitions : Nat
  next : Nat

/-- The readers of the partition that is worked on. -/
inductive Opened (ι : Type) where
  /-- `build_reader` and `probe_reader`. -/
  | whole (build probe : BlockReader ι)
  /-- `repartition_build_reader` and `repartition_probe_reader`. -/
  | divided (parts : Repartition ι) (build probe : Reader)

/-- What a participant has of its own; `claimed` is a partition of its that has not been started. -/
structure Participant (config : Config) (ι : Type) where
  build : BuildStore ι
  claimed : Option Nat
  opened : Option (Opened ι)
  buildMaybeMore : Bool
  side : ProbeSide config ι

/-- `PARALLEL_REPARTITION_MIN_PASSES`. -/
def parallelRepartitionMinPasses : Nat := 6

/-- `build_chunk_rows`, as `parallel_hash_join_prepare` sets it. -/
def buildChunkRows (config : Config) : Nat :=
  let perRow := max 1 (config.ninnerColumns * 4 + 8 + 2)
  max blockRows (min (2 ^ 32 - 1) (config.memoryLimit / perRow / blockRows * blockRows))

/-! The build store. -/

theorem growBuildStore_larger {store store' : BuildStore ι} (grew : growBuildStore store = .ok store') :
    store.capacity < store'.capacity ∧ 8 * store'.capacity ≤ maxAllocSize := by
  unfold growBuildStore resizeBuildStore at grew
  generalize (if store.capacity = 0 then 1024 else store.capacity * 2 % 2 ^ 32) = capacity at grew
  split at grew
  · cases grew
  · rename_i larger
    split at grew
    · cases grew
    · rename_i small
      cases grew
      exact ⟨Nat.not_le.mp larger,Nat.not_lt.mp small⟩

/-- The first loop of `hash_join_append_dense_build`. -/
def makeRoomFor (nrows : Nat) (store : BuildStore ι) : Except String (BuildStore ι) :=
  if store.capacity - store.nrows < nrows then
    match _ : growBuildStore store with
    | .error message => .error message
    | .ok store => makeRoomFor nrows store
  else .ok store
termination_by maxAllocSize - store.capacity
decreasing_by
  have larger := growBuildStore_larger ‹_›
  omega

def appendBlockRow (config : Config) (block : Store ι) (store : BuildStore ι) (row : Nat) : BuildStore ι :=
  {store with
    toStore := store.toStore.append config.ninnerColumns (block.tags row) (block.hashes row) fun column => block.cell column row}

/-- `hash_join_append_dense_build` for a block with so many columns. -/
def appendDenseBuild (config : Config) (width : Nat) (block : Store ι) (store : BuildStore ι) :
    Except String (BuildStore ι) :=
  if width ≠ config.ninnerColumns then .error "invalid pg_batch parallel build block"
  else do
    let store ← makeRoomFor block.nrows store
    .ok ((List.range block.nrows).foldl (appendBlockRow config block) store)

/-- `parallel_hash_join_find_head` in the table of the participant, whose bucket is that of the whole hash. -/
def findLocalHead (config : Config) (fuel : Nat) (store : BuildStore ι) (probe : Nat → Option Int4) (hash : BitVec 32) :
    Option Nat :=
  (Probing.probe (nextBucket store)
    (fun bucket => store.buckets bucket == 0 || localMatches config store probe hash (store.buckets bucket - 1))
    fuel (hash.toNat &&& (store.nbuckets - 1))).map store.buckets

/-! Blocks of a partition, with the number of columns of the files they come from. -/

section Partitions
variable (config : Config) (shared : SharedFiles ι)

def nextBuildBlock : Opened ι → Except String (Opened ι × Nat × Option (Store ι))
  | .whole build probe => do
    let (build,block) ← blockReaderNext shared.missing shared.buildShape shared.build build
    .ok (.whole build probe,shared.buildShape.ncolumns,block)
  | .divided parts build probe => do
    let (set,build,block) ← readerNext parts.build build
    .ok (.divided {parts with build := set} build probe,set.ncolumns,block)

def nextProbeBlock : Opened ι → Except String (Opened ι × Nat × Option (Store ι))
  | .whole build probe => do
    let (probe,block) ← blockReaderNext shared.missing shared.probeShape shared.probe probe
    .ok (.whole build probe,shared.probeShape.ncolumns,block)
  | .divided parts build probe => do
    let (set,probe,block) ← readerNext parts.probe probe
    .ok (.divided {parts with probe := set} build probe,set.ncolumns,block)

def rewindProbe : Opened ι → Except String (Opened ι)
  | .whole build probe => .ok (.whole build (blockReaderRewind probe))
  | .divided parts build probe => do
    let (set,probe) ← readerRewind parts.probe probe
    .ok (.divided {parts with probe := set} build probe)

/-- The loop of `load_local_build_chunk`, over at most `left` blocks; each of them has rows. -/
def loadBlocks : Nat → Opened ι → BuildStore ι → Except String (Opened ι × BuildStore ι)
  | 0, opened, build => .ok (opened,build)
  | left + 1, opened, build =>
    if build.nrows < buildChunkRows config then do
      let (opened,width,block) ← nextBuildBlock shared opened
      match block with
      | none => .ok (opened,build)
      | some block => do
        let build ← appendDenseBuild config width block build
        loadBlocks left opened build
    else .ok (opened,build)

/-- `load_local_build_chunk`. -/
def loadLocalBuildChunk (own : Participant config ι) (opened : Opened ι) :
    Except String (Participant config ι × Opened ι × Bool) := do
  let (opened,build) ← loadBlocks config shared (buildChunkRows config) opened (resetBuildStore own.build)
  if build.nrows = 0 then .ok ({own with build := build},opened,false)
  else do
    let build ← finishTable config build
    .ok ({own with build := build, buildMaybeMore := decide (buildChunkRows config ≤ build.nrows)},opened,true)

/-! Dividing a partition. -/

/-- `partition_bits`. -/
def sharedPartitionBits (partitions : Nat) : Nat := Nat.clog 2 partitions

/-- A row of a block as `pg_batch_spill_write` reads it. -/
def blockRow (ncolumns : Nat) (block : Store ι) (row : Nat) : Row ι :=
  ⟨block.tags row,block.hashes row,(List.range ncolumns).map fun column =>
    inputValue (if block.valid column row then some (block.values column row) else none)⟩

/-- The selected rows of a block that belong to one part. -/
def writeRepartition [Inhabited ι] (shift partitions : Nat) (block : Store ι) (selection : BitVec 64) (writers : Writers ι)
    (partition : Nat) : Except String (Writers ι) :=
  let selected := gather (fun row => repartitionOf shift partitions (block.hashes row)) (selection &&& wordMask block.nrows) partition
  if selected = 0#64 then .ok writers
  else spillWrite writers partition block.nrows selected (blockRow writers.ncolumns block)

/-- `write_repartition_block`. -/
def writeRepartitionBlock [Inhabited ι] (shift partitions : Nat) (set : SpillSet ι) (block : Store ι) (selection : BitVec 64) :
    Except String (SpillSet ι) := do
  let writers ← (List.range partitions).foldlM (writeRepartition shift partitions block selection) set.toWriters
  .ok {set with toWriters := writers}

/-- A probe row whose part has no build rows is dropped. -/
def dropUnmatchedRow (shift partitions : Nat) (build : SpillSet ι) (block : Store ι) (rows : BitVec 64) (row : Nat) :
    Except String (BitVec 64) := do
  let empty ← spillPartitionEmpty build (repartitionOf shift partitions (block.hashes row))
  .ok (if empty then rows &&& ~~~ bit 64 row else rows)

/-- The body of the loop of `repartition_shared_partition` over the probe rows. -/
def repartitionProbeBlock [Inhabited ι] (shift partitions : Nat) (build set : SpillSet ι) (block : Store ι) :
    Except String (SpillSet ι) := do
  let rows ← (List.range block.nrows).foldlM (dropUnmatchedRow shift partitions build block) (blockSelection block)
  if rows ≠ 0#64 then writeRepartitionBlock shift partitions set block rows else .ok set

/-- `repartition_shared_partition`. -/
def repartitionSharedPartition [Inhabited ι] (partition buildRows : Nat) : Except String (Repartition ι) := do
  let partitions := nextPartitionCount ((buildRows + buildChunkRows config - 1) / buildChunkRows config)
  let shift := sharedPartitionBits shared.buildShape.partitions
  let build ← spillCreate (spillTupleDesc config.ninnerColumns) config.ninnerColumns partitions (config.memoryLimit / 4)
  let probe ← spillCreate (spillTupleDesc config.nouterColumns) config.nouterColumns partitions (config.memoryLimit / 4)
  let reader ← blockReaderOpen shared.buildShape partition
  let build ← sharedReadLoop shared.missing shared.buildShape shared.build
    (fun set block => writeRepartitionBlock shift partitions set block (blockSelection block)) reader build
  let build ← spillFinish build false
  let reader ← blockReaderOpen shared.probeShape partition
  let probe ← sharedReadLoop shared.missing shared.probeShape shared.probe
    (repartitionProbeBlock shift partitions build) reader probe
  let probe ← spillFinish probe true
  .ok ⟨build,probe,partitions,0⟩

/-! The parts of a divided partition. -/

/-- The body of the loop of `start_next_repartition` for a part: its readers, if both sides have rows. -/
def openRepartition (parts : Repartition ι) (partition : Nat) : Except String (Option (Opened ι)) := do
  let noBuild ← spillPartitionEmpty parts.build partition
  let noProbe ← spillPartitionEmpty parts.probe partition
  if noBuild || noProbe then .ok none
  else do
    let (build,buildReader) ← readerOpen parts.build partition
    let (probe,probeReader) ← readerOpen parts.probe partition
    .ok (some (.divided {parts with build := build, probe := probe} buildReader probeReader))

/-- The sets that are left when the readers are closed. -/
def Opened.parts (parts : Repartition ι) : Opened ι → Repartition ι
  | .whole _ _ => parts
  | .divided parts _ _ => parts

/-- The loop of `start_next_repartition` over the parts, of which `left` are left. -/
def startRepartitions : Nat → Participant config ι → Repartition ι → Except String (Participant config ι)
  | 0, own, _ => .ok {own with opened := none}
  | left + 1, own, parts => do
    let next : Repartition ι := {parts with next := parts.next + 1}
    let opened ← openRepartition next parts.next
    match opened with
    | none => startRepartitions left own next
    | some opened => do
      let (own,opened,loaded) ← loadLocalBuildChunk config shared own opened
      if loaded then .ok {own with opened := some opened} else startRepartitions left own (opened.parts next)

/-- `start_next_repartition`; it leaves no readers when there is no part left to join. -/
def startNextRepartition (own : Participant config ι) (parts : Repartition ι) : Except String (Participant config ι) :=
  startRepartitions config shared (parts.nrepartitions - parts.next) own parts

/-- The readers of a partition that is read as a whole. -/
def openPartition (partition : Nat) : Except String (Opened ι) := do
  let build ← blockReaderOpen shared.buildShape partition
  let probe ← blockReaderOpen shared.probeShape partition
  .ok (.whole build probe)

/-- The body of the loop of `start_next_partition` for the partition that was claimed. -/
def startPartition [Inhabited ι] (own : Participant config ι) (partition : Nat) : Except String (Participant config ι) := do
  let buildRows ← sharedPartitionRows shared.buildShape shared.build.untagged partition
  let probeRows ← sharedPartitionRows shared.probeShape shared.probe.untagged partition
  if buildRows = 0 ∨ probeRows = 0 then .ok own
  else if parallelRepartitionMinPasses ≤ (buildRows + buildChunkRows config - 1) / buildChunkRows config then do
    let parts ← repartitionSharedPartition config shared partition buildRows
    startNextRepartition config shared own parts
  else do
    let opened ← openPartition shared partition
    let (own,opened,loaded) ← loadLocalBuildChunk config shared own opened
    .ok {own with opened := if loaded then some opened else none}

/-! A turn of `parallel_hash_join_fetch_probe`. -/

/-- The end of the readers: the next part of a divided partition, or no readers any more. -/
def finishOpened (own : Participant config ι) : Opened ι → Except String (Participant config ι)
  | .whole _ _ => .ok {own with opened := none}
  | .divided parts _ _ => startNextRepartition config shared own parts

/-- The probe rows are at their end: they are read once more for the next chunk of build rows, if there is one. -/
def chunkTurn (own : Participant config ι) (opened : Opened ι) : Except String (Participant config ι) :=
  if own.buildMaybeMore then do
    let (own,opened,loaded) ← loadLocalBuildChunk config shared own opened
    if loaded then do
      let opened ← rewindProbe opened
      .ok {own with opened := some opened}
    else finishOpened config shared own opened
  else finishOpened config shared own opened

/-- A turn with readers. -/
def openedTurn (own : Participant config ι) (opened : Opened ι) : Except String (Participant config ι × Fetched) := do
  let (opened,width,block) ← nextProbeBlock shared opened
  match block with
  | some block =>
    if width ≠ config.nouterColumns then .error "invalid pg_batch hash join spill block"
    else do
      let side ← prepareProbeKeys (own.side.ofSpilled block)
      .ok ({own with opened := some opened, side := side},.found)
  | none => do
    let own ← chunkTurn config shared own opened
    .ok (own,.again)

/-- A participant that has a partition works on it by itself. -/
def fetchOwn [Inhabited ι] (own : Participant config ι) : Except String (Participant config ι × Fetched) :=
  match own.claimed,own.opened with
  | some partition,_ => do
    let own ← startPartition config shared {own with claimed := none} partition
    .ok (own,.again)
  | none,some opened => openedTurn config shared own opened
  | none,none => .ok (own,.ended)

/-- It claims the next one when it has none. -/
def Participant.claims (own : Participant config ι) : Bool :=
  own.claimed.isNone && own.opened.isNone

/-- A turn of the loops of `parallel_hash_join_fetch_probe` and `start_next_partition`; `next_partition`, which all
participants share, is moved by each claim. -/
def fetchProbe [Inhabited ι] (state : Participant config ι × Nat) : Except String ((Participant config ι × Nat) × Fetched) :=
  if state.1.claims then
    if shared.buildShape.partitions ≤ state.2 then .ok ((state.1,state.2 + 1),.ended)
    else .ok (({state.1 with claimed := some state.2},state.2 + 1),.again)
  else do
    let (own,fetched) ← fetchOwn config shared state.1
    .ok ((own,state.2),fetched)

end Partitions

end PgBatch.ParallelJoin
