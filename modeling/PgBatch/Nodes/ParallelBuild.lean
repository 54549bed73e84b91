import PgBatch.Library.Barrier
import PgBatch.Library.Doubling
import PgBatch.Spill.Shared

/-! The shared build of the parallel hash join (`nodes/parallel_hash_join.c`).
Any number of participants run `parallel_hash_join_prepare` against one barrier.
A participant's next atomic access of the shared state is `execute`; a run lets
the participants move one such access at a time, in any order. -/
namespace PgBatch.Parallel
open Words Columnar Spill Barriers Doubling

def chunkRows : Nat := 1024

/-- `build_chunk_size`: header, hashes, links, validity words and values. -/
def buildChunkSize (ncolumns : Nat) : Nat :=
  16 + 4 * chunkRows + 4 * chunkRows + 8 * ncolumns * (chunkRows / 64) + 4 * ncolumns * chunkRows

/-- What `start_chunk` reserves: the chunk, its directory entry and its buckets. -/
def reservation (ncolumns : Nat) : Nat :=
  buildChunkSize ncolumns + (8 + 4 * 4 * chunkRows)

/-- `next_partition_count`: nine doublings lead from 2 to the bound of 1024. -/
def nextPartitionCount (required : Nat) : Nat :=
  doubled (fun result => result < required && result < 1024) 9 2

def sharedPartitionCount (plannedPartitions participants : Nat) : Nat :=
  nextPartitionCount (max plannedPartitions (participants * 2))

/-- `choose_bucket_count`: at most 21 doublings lead from 1024 to 2^31. -/
def chooseBucketCount (rows : Nat) : Nat :=
  doubled (fun result => result < rows * 2 % 2 ^ 64 && result < 2 ^ 31) 21 1024

theorem chooseBucketCount_spec (rows : Nat) : rows * 2 % 2 ^ 64 ≤ chooseBucketCount rows ∨ 2 ^ 31 ≤ chooseBucketCount rows := by
  rcases doubled_stops (fun result => result < rows * 2 % 2 ^ 64 && result < 2 ^ 31) 21 1024 with stopped | full
  · simp only [Bool.and_eq_false_iff,decide_eq_false_iff_not,Nat.not_lt] at stopped
    exact stopped
  · exact .inr (Nat.le_of_eq (by rw [chooseBucketCount,full]; rfl))

/-- What the plan and `initialize_shared_state` fix for the whole join. -/
structure Config where
  ninnerColumns : Nat
  innerKeys : List Nat
  keyed : innerKeys ≠ []
  npartitions : Nat
  power : ∃ bits, npartitions = 2 ^ bits
  plannedPartitions : Nat
  memoryLimit : Nat
  sharedMemoryLimit : Nat

theorem firstColumn_ne_nil : ([0] : List Nat) ≠ [] :=
  List.cons_ne_nil 0 []

theorem four_power : ∃ bits, 4 = 2 ^ bits :=
  ⟨2,rfl⟩

def partitionOf (npartitions : Nat) (hash : BitVec 32) : Nat :=
  hash.toNat &&& (npartitions - 1)

/-- Where `publish_chunk` returns to. -/
inductive Resume (τ : Type) where
  | append (batch : Batch τ) (rows : BitVec 64)
  | spill (batch : Batch τ) (rows : BitVec 64)
  | done

inductive Fault where
  | nullPointer
  | error (message : String)
deriving DecidableEq, Repr

/-- The next access a participant makes. `arrive` and `wait` carry the `case` of
`parallel_hash_join_prepare` they stand in. -/
inductive Pc (τ : Type) where
  | outside
  | loop
  | next
  | decide (batch : Batch τ)
  | append (batch : Batch τ) (rows : BitVec 64)
  | reserve (batch : Batch τ) (rows : BitVec 64)
  | refuse (batch : Batch τ) (rows : BitVec 64)
  | recheck (batch : Batch τ) (rows : BitVec 64)
  | publish (resume : Resume τ)
  | count (nrows : Nat) (resume : Resume τ)
  | spill (batch : Batch τ) (rows : BitVec 64)
  | countSpilled (nrows : Nat)
  | arrive (case : Nat)
  | wait (case start : Nat)
  | setup
  | bind
  | sweep
  | claim (spilled : Bool)
  | drain (chunk : Store τ)
  | link (index : Nat) (chunk : Store τ) (row : Nat)
  | swap (index : Nat) (chunk : Store τ) (row head : Nat)
  | inspect (index : Nat) (chunk : Store τ) (row : Nat)
  | detect (index : Nat) (chunk : Store τ) (row link : Nat)
  | finishWriter (spilled : Bool)
  | branch
  | probe
  | ready
  | left (spilled : Bool)
  | detached
  | stuck (case : Nat) (fault : Fault)

/-- `ParallelHashShared`. A chunk is private to its participant until it is
published, so that only published chunks live here. `dsa` counts the allocated
pointers; the arrays behind `directory` and `buckets` stand beside them. -/
structure Shared (ι τ : Type) where
  barrier : Barrier
  dsa : Nat
  chunks : List (Store τ)
  nchunks : Nat
  directory : Option Nat
  directoryChunks : List (Store τ)
  buckets : Option Nat
  bucketHeads : Nat → Nat
  links : Nat → Nat
  nbuckets : Nat
  allocatedBytes : Nat
  buildRows : Nat
  spilled : Bool
  hasDuplicates : Bool
  nextChunk : Nat
  buildSpill : SharedSpill ι τ

/-- `ParallelHashJoinLocal` with the participant's share of the inner batches.
`taken` is a ghost: the batches it has fetched. -/
structure Local (τ : Type) where
  pc : Pc τ
  input : List (Batch τ)
  taken : List (Batch τ)
  chunk : Option (Store τ)
  directory : Option Nat
  buckets : Option Nat
  buildWriter : Option (Writers τ)

variable {ι τ : Type} [DecidableEq ι] [Inhabited τ]

/-- `get_writer` for the build side. -/
def getBuildWriter (config : Config) (self : Local τ) : Writers τ :=
  self.buildWriter.getD (create config.ninnerColumns config.npartitions (config.memoryLimit / 4))

def Resume.pc : Resume τ → Pc τ
  | .append batch rows => .append batch rows
  | .spill batch rows => .spill batch rows
  | .done => .arrive 0

/-- What follows `BarrierArriveAndWait` in each `case`. -/
def afterBarrier : Nat → Bool → Pc τ
  | 0, elected => if elected then .setup else .loop
  | 1, _ => .bind
  | _, _ => .loop

/-- The rows of a batch with the hashes that `hash_batch` left for them. -/
def hashedRow (config : Config) (batch : Batch τ) (row : Nat) : Row τ :=
  ⟨batch.tag row,(hashBatch config.innerKeys batch).1 row,
    (List.range config.ninnerColumns).map fun column => inputValue (batch.column column row)⟩

/-- `partitions[partition]` of `spill_vectors`. -/
def partitionWord (npartitions : Nat) (hashes : Nat → BitVec 32) (pending : BitVec 64) (partition : Nat) :
    BitVec 64 :=
  gather (fun row => partitionOf npartitions (hashes row)) pending partition

def spillVectors (config : Config) (writer : Writers τ) (batch : Batch τ) (pending : BitVec 64) :
    Except String (Writers τ) :=
  (List.range config.npartitions).foldlM
    (fun writer partition =>
      let selected := partitionWord config.npartitions (hashBatch config.innerKeys batch).1 pending partition
      if selected = 0#64 then .ok writer
      else sharedSpillWrite writer partition batch.nrows selected (hashedRow config batch)) writer

/-- The row loop of `spill_chunk` for one partition; `out` is the block being gathered. -/
def spillChunkRows (config : Config) (chunk : Store τ) (partition : Nat) (writer : Writers τ) (out : Store τ) :
    List Nat → Except String (Writers τ × Store τ)
  | [] => .ok (writer,out)
  | row :: rest =>
    if partitionOf config.npartitions (chunk.hashes row) ≠ partition then
      spillChunkRows config chunk partition writer out rest
    else
      let out := out.append config.ninnerColumns (chunk.tags row) (chunk.hashes row)
        (fun column => chunk.cell column row)
      if out.nrows = blockRows then do
        let writer ← sharedSpillWriteDense writer partition out
        spillChunkRows config chunk partition writer out.wipe rest
      else spillChunkRows config chunk partition writer out rest

def spillChunkPartition (config : Config) (chunk : Store τ) (writer : Writers τ) (partition : Nat) :
    Except String (Writers τ) := do
  let (writer,out) ← spillChunkRows config chunk partition writer .zero (List.range chunk.nrows)
  if 0 < out.nrows then sharedSpillWriteDense writer partition out else .ok writer

def spillChunk (config : Config) (chunk : Store τ) (writer : Writers τ) : Except String (Writers τ) :=
  (List.range config.npartitions).foldlM (spillChunkPartition config chunk) writer

/-- `setup_shared_hash`, run by the elected participant. -/
def setupSharedHash (shared : Shared ι τ) : Shared ι τ :=
  let shared := if 0 < shared.nchunks then
      {shared with directory := some shared.dsa, dsa := shared.dsa + 1, directoryChunks := shared.chunks}
    else shared
  if shared.spilled then shared
  else {shared with
    nbuckets := chooseBucketCount shared.buildRows
    buckets := some shared.dsa
    dsa := shared.dsa + 1
    bucketHeads := fun _ => 0}

def rowId (index row : Nat) : Nat :=
  (index * chunkRows + row) % 2 ^ 32

def bucketOf (shared : Shared ι τ) (hash : BitVec 32) : Nat :=
  hash.toNat &&& (shared.nbuckets - 1)

/-- The key test of `detect_build_duplicate`: all keys but the last. -/
def sameKeyPrefix (config : Config) (left : Store τ) (row : Nat) (right : Store τ) (other : Nat) : Bool :=
  left.hashes row == right.hashes other &&
    config.innerKeys.dropLast.all (fun key => left.values key row == right.values key other)

/-- One access of the shared state by a participant. -/
def execute (config : Config) (id : ι) (shared : Shared ι τ) (self : Local τ) : Shared ι τ × Local τ :=
  match self.pc with
  | .outside => ({shared with barrier := shared.barrier.attach},{self with pc := .loop})
  | .loop =>
    (shared,{self with pc := match shared.barrier.phase with
      | 0 => .next
      | 1 => .arrive 1
      | 2 => .sweep
      | 3 => .branch
      | _ => .ready})
  -- collect_build
  | .next => match self.input with
    | [] => (shared,{self with pc := .publish .done})
    | batch :: rest => (shared,{self with pc := .decide batch, input := rest, taken := self.taken ++ [batch]})
  | .decide batch =>
    let rows := (hashBatch config.innerKeys batch).2
    (shared,{self with pc := if shared.spilled then .publish (.spill batch rows) else .append batch rows})
  | .append batch rows =>
    if rows = 0#64 then (shared,{self with pc := .recheck batch rows})
    else match self.chunk with
      | none => (shared,{self with pc := if shared.spilled then .recheck batch rows else .reserve batch rows})
      | some chunk =>
        let row := rightmost rows
        let chunk := chunk.append config.ninnerColumns (batch.tag row) ((hashBatch config.innerKeys batch).1 row)
          (fun column => inputValue (batch.column column row))
        let rows := rows &&& (rows - 1#64)
        (shared,{self with
          chunk := some chunk
          pc := if chunk.nrows = chunkRows then .publish (.append batch rows) else .append batch rows})
  | .reserve batch rows =>
    let old := shared.allocatedBytes
    let size := reservation config.ninnerColumns
    let shared := {shared with allocatedBytes := (old + size) % 2 ^ 64}
    if config.sharedMemoryLimit < old ∨ config.sharedMemoryLimit - old < size then
      (shared,{self with pc := .refuse batch rows})
    else (shared,{self with chunk := some .zero, pc := .append batch rows})
  | .refuse batch rows => ({shared with spilled := true},{self with pc := .recheck batch rows})
  | .recheck batch rows =>
    (shared,{self with pc := if rows ≠ 0#64 ∧ shared.spilled then .publish (.spill batch rows) else .next})
  | .publish resume => match self.chunk with
    | none => (shared,{self with pc := resume.pc})
    | some chunk =>
      if chunk.nrows = 0 then (shared,{self with chunk := none, pc := resume.pc})
      else ({shared with chunks := chunk :: shared.chunks, nchunks := shared.nchunks + 1},
        {self with chunk := none, pc := .count chunk.nrows resume})
  | .count nrows resume => ({shared with buildRows := shared.buildRows + nrows},{self with pc := resume.pc})
  | .spill batch rows => match spillVectors config (getBuildWriter config self) batch rows with
    | .error message => (shared,{self with pc := .stuck 0 (.error message)})
    | .ok writer => (shared,{self with buildWriter := some writer, pc := .countSpilled (popcount rows)})
  | .countSpilled nrows => ({shared with buildRows := shared.buildRows + nrows},{self with pc := .next})
  -- BarrierArriveAndWait
  | .arrive case =>
    let start := shared.barrier.phase
    let (barrier,released) := shared.barrier.arrive
    ({shared with barrier := barrier},
      {self with pc := if released then afterBarrier case true else .wait case start})
  | .wait case start =>
    if shared.barrier.phase = start + 1 then
      let (barrier,elected) := shared.barrier.wake start
      ({shared with barrier := barrier},{self with pc := afterBarrier case elected})
    else (shared,self)
  | .setup => (setupSharedHash shared,{self with pc := .loop})
  | .bind => (shared,{self with directory := shared.directory, buckets := shared.buckets, pc := .loop})
  -- build_or_spill_chunks
  | .sweep => (shared,{self with pc := .claim shared.spilled})
  | .claim spilled =>
    let index := shared.nextChunk
    let shared := {shared with nextChunk := index + 1}
    if shared.nchunks ≤ index then (shared,{self with pc := .finishWriter spilled})
    else match shared.directory,shared.directoryChunks[index]? with
      | some _,some chunk => (shared,{self with pc := if spilled then .drain chunk else .link index chunk 0})
      | _,_ => (shared,{self with pc := .stuck 2 .nullPointer})
  | .drain chunk => match spillChunk config chunk (getBuildWriter config self) with
    | .error message => (shared,{self with pc := .stuck 2 (.error message)})
    | .ok writer => (shared,{self with buildWriter := some writer, pc := .claim true})
  | .link index chunk row =>
    if chunk.nrows ≤ row then (shared,{self with pc := .claim false})
    else match self.buckets with
      | none => (shared,{self with pc := .stuck 2 .nullPointer})
      | some _ =>
        (shared,{self with pc := .swap index chunk row (shared.bucketHeads (bucketOf shared (chunk.hashes row)))})
  | .swap index chunk row head =>
    let bucket := bucketOf shared (chunk.hashes row)
    let shared := {shared with links := Function.update shared.links (rowId index row) head}
    if shared.bucketHeads bucket = head then
      ({shared with bucketHeads := Function.update shared.bucketHeads bucket ((rowId index row + 1) % 2 ^ 32)},
        {self with pc := .inspect index chunk row})
    else (shared,{self with pc := .swap index chunk row (shared.bucketHeads bucket)})
  | .inspect index chunk row =>
    (shared,{self with
      pc := if shared.hasDuplicates then .link index chunk (row + 1)
        else .detect index chunk row (shared.links (rowId index row))})
  | .detect index chunk row link =>
    if link = 0 then (shared,{self with pc := .link index chunk (row + 1)})
    else if shared.nchunks ≤ (link - 1) / chunkRows then
      (shared,{self with pc := .stuck 2 (.error "invalid pg_batch shared hash row")})
    else match self.directory,shared.directoryChunks[(link - 1) / chunkRows]? with
      | some _,some other =>
        if sameKeyPrefix config chunk row other ((link - 1) % chunkRows) then
          ({shared with hasDuplicates := true},{self with pc := .link index chunk (row + 1)})
        else (shared,{self with pc := .detect index chunk row (shared.links (link - 1))})
      | _,_ => (shared,{self with pc := .stuck 2 .nullPointer})
  | .finishWriter spilled =>
    if spilled then match sharedSpillWriterFinish shared.buildSpill id (getBuildWriter config self) with
      | .error message => (shared,{self with pc := .stuck 2 (.error message)})
      | .ok (spill,writer) =>
        ({shared with buildSpill := spill},{self with buildWriter := some writer, pc := .arrive 2})
    else (shared,{self with pc := .arrive 2})
  -- case 3: the probe side is partitioned, which leaves the build side alone
  | .branch => (shared,{self with pc := if shared.spilled then .probe else .ready})
  | .probe => (shared,{self with pc := .arrive 3})
  | .ready => (shared,{self with pc := .left shared.spilled})
  -- a lookup of `parallel_hash_join_find_head` in the shared buckets
  | .left spilled => match spilled,self.buckets with
    | false,none => (shared,{self with pc := .stuck 3 .nullPointer})
    | _,_ => (shared,self)
  | .detached => (shared,self)
  | .stuck _ _ => (shared,self)

structure State (ι τ : Type) where
  shared : Shared ι τ
  locals : ι → Local τ

/-- A participant makes its next access, or one that has left shuts down. -/
inductive Action (ι : Type) where
  | run (id : ι)
  | shutdown (id : ι)
deriving DecidableEq, Repr

def State.act (config : Config) (state : State ι τ) : Action ι → State ι τ
  | .run id =>
    let (shared,self) := execute config id state.shared (state.locals id)
    ⟨shared,Function.update state.locals id self⟩
  | .shutdown id => match (state.locals id).pc with
    | .left _ =>
      ⟨{state.shared with barrier := state.shared.barrier.detach},
        Function.update state.locals id {state.locals id with pc := .detached}⟩
    | _ => state

/-- The shared state `initialize_shared_state` leaves, nobody having attached. -/
def State.initial (config : Config) (inputs : ι → List (Batch τ)) : State ι τ where
  shared := {
    barrier := .init, dsa := 0, chunks := [], nchunks := 0, directory := none, directoryChunks := [],
    buckets := none, bucketHeads := fun _ => 0, links := fun _ => 0, nbuckets := 0,
    allocatedBytes := 0, buildRows := 0, spilled := decide (1 < config.plannedPartitions),
    hasDuplicates := false, nextChunk := 0, buildSpill := sharedSpillInitialize }
  locals := fun id => ⟨.outside,inputs id,[],none,none,none,none⟩

/-- The state after a run, given by the order in which the participants move. -/
def State.after (config : Config) (state : State ι τ) (run : List (Action ι)) : State ι τ :=
  run.foldl (State.act config) state

end PgBatch.Parallel
