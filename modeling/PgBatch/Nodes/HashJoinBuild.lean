import PgBatch.Library.Result
import PgBatch.Spill.Set
import PgBatch.Nodes.ParallelBuild

/-! The build side of the serial hash join (`nodes/hash_join.c` and
`nodes/hash_join_spill.c`). Inner rows go to the build store; once they no
longer fit, some partitions stay there and the others are written to a spill
set, and a partition that outgrows its room is evicted. -/
namespace PgBatch.HashJoin
open Words Columnar Spill Doubling
open Parallel (partitionOf nextPartitionCount)

/-- What `hash_join_begin` fixes. Raw columns are numbered by the join; the batch
columns say where a batch of the child has them. -/
structure Config where
  nouterColumns : Nat
  ninnerColumns : Nat
  outerBatchColumns : Nat → Nat
  innerBatchColumns : Nat → Nat
  outerKeys : List Nat
  innerKeys : List Nat
  keyed : innerKeys ≠ []
  paired : outerKeys.length = innerKeys.length
  outerInside : ∀ key ∈ outerKeys, key < nouterColumns
  innerInside : ∀ key ∈ innerKeys, key < ninnerColumns
  memoryLimit : Nat
  positive : 0 < memoryLimit
  plannedPartitions : Nat
  estimatedRows : Nat

/-- `BuildStore`: the rows with the links and buckets of their hash table. -/
structure BuildStore (ι : Type) extends Columnar.Store ι (BitVec 32) Int4 where
  capacity : Nat
  next : Nat → Nat
  buckets : Nat → Nat
  nbuckets : Nat
  hashShift : Nat
  hasDuplicates : Bool

structure HashSpillFile where
  partition : Nat
  reader : Option Reader
deriving DecidableEq, Repr

/-- What `hash_join_begin_spill` sets up for the build side. -/
structure BuildSpill (ι : Type) where
  npartitions : Nat
  partitionShift : Nat
  residentPartitions : List Nat
  residentPartitionRows : Nat → Nat
  residentBuildRows : Nat
  residentMemoryLimit : Nat
  bloomWords : Option (Nat → BitVec 64)
  bloomNbits : Nat
  buildFiles : Nat → Option HashSpillFile
  buildSpill : SpillSet ι
  buildPartitionRows : Nat → Nat
  buildChunkRows : Nat

/-- `spilled` is set when there is a `spill`. -/
structure BuildState (ι : Type) where
  build : BuildStore ι
  spill : Option (BuildSpill ι)
  buildRows : Nat

variable {ι : Type}

/-- `MaxAllocSize`: what one array may take. -/
def maxAllocSize : Nat := 2 ^ 30 - 1

def resetBuildStore (store : BuildStore ι) : BuildStore ι :=
  {store with
    toStore := store.toStore.wipe
    capacity := 0
    next := fun _ => 0
    buckets := fun _ => 0
    nbuckets := 0
    hasDuplicates := false}

/-- `resize_build_store`; new validity words are zeroed, new links are as large as any array. -/
def resizeBuildStore (store : BuildStore ι) (newCapacity : Nat) : Except String (BuildStore ι) :=
  if newCapacity ≤ store.capacity then .error "pg_batch hash join build side is too large"
  else if maxAllocSize < 8 * newCapacity then .error "invalid memory alloc request size"
  else .ok {store with
    valid := fun column row => decide (row / 64 < (store.capacity + 63) / 64) && store.valid column row
    capacity := newCapacity}

def growBuildStore (store : BuildStore ι) : Except String (BuildStore ι) :=
  resizeBuildStore store (if store.capacity = 0 then 1024 else store.capacity * 2 % 2 ^ 32)

def makeRoom (store : BuildStore ι) : Except String (BuildStore ι) :=
  if store.nrows = store.capacity then growBuildStore store else .ok store

/-- `append_build_row_hash`; validity bits are only ever set. -/
def appendBuildRow (config : Config) (store : BuildStore ι) (row : Row ι) : Except String (BuildStore ι) := do
  let store ← makeRoom store
  .ok {store with toStore := store.toStore.append config.ninnerColumns row.tag row.hash row.cell}

/-- Row `row` of a batch with the hashes that `hash_input_batch` left for it. -/
def inputRow (ncolumns : Nat) (columns : Batch ι) (hashes : Nat → BitVec 32) (row : Nat) : Row ι :=
  ⟨columns.tag row,hashes row,(List.range ncolumns).map fun column => inputValue (columns.column column row)⟩

/-- The batch in raw columns, as `hash_join_load_input_column` binds them. -/
def loadColumns (batchColumns : Nat → Nat) (batch : Batch ι) : Batch ι :=
  {batch with column := fun column => batch.column (batchColumns column)}

def estimatedBuildMemory (nrows ncolumns : Nat) : Nat :=
  let capacity := doubled (fun capacity => capacity < nrows && capacity ≤ (2 ^ 32 - 1) / 2) 21 1024
  capacity * (4 * 2 + 4 * ncolumns) + (capacity + 63) / 64 * 8 * ncolumns + capacity * 4 * 2

/-! The Bloom filter over the hashes of the build rows. -/

def bloomPosition (nbits : Nat) (hash : BitVec 32) : Nat :=
  hash.toNat &&& (nbits - 1)

def bloomAdd (nbits : Nat) (words : Nat → BitVec 64) (hash : BitVec 32) : Nat → BitVec 64 :=
  let first := bloomPosition nbits hash
  Function.update words (first / 64) (words (first / 64) ||| bit 64 (first % 64))

def bloomMayContain (nbits : Nat) (words : Nat → BitVec 64) (hash : BitVec 32) : Bool :=
  let first := bloomPosition nbits hash
  (words (first / 64)).getLsbD (first % 64)

/-! Writing rows to the partitions. -/

/-- `spill_file`. -/
def spillFile (files : Nat → Option HashSpillFile) (partition : Nat) : Nat → Option HashSpillFile :=
  match files partition with
  | some _ => files
  | none => Function.update files partition (some ⟨partition,none⟩)

/-- Gather `items` in blocks of `size`; a block is flushed when it is full, the last one at the end. -/
def inBlocks {σ : Type} (size : Nat) (flush : σ → List Nat → Except String σ) (state : σ) (block : List Nat) :
    List Nat → Except String σ
  | [] => if block = [] then .ok state else flush state block
  | item :: rest =>
    if block.length + 1 = size then do
      let state ← flush state (block ++ [item])
      inBlocks size flush state [] rest
    else inBlocks size flush state (block ++ [item]) rest

/-- The rows of a batch linked by partition, and the partitions in the order of their first rows. -/
structure Links where
  used : List Nat
  linked : Nat → List Nat

def Links.empty : Links := ⟨[],fun _ => []⟩

def Links.add (links : Links) (partition row : Nat) : Links where
  used := if links.linked partition = [] then links.used ++ [partition] else links.used
  linked := Function.update links.linked partition (links.linked partition ++ [row])

/-- `write_partition_rows` for the build side. -/
def writeBuildRows [Inhabited ι] (row : Nat → Row ι) (partition : Nat) (spill : BuildSpill ι) (block : List Nat) :
    Except String (BuildSpill ι) := do
  let selection := block.foldl (fun selection row => selection ||| bit 64 row) 0#64
  let writers ← spillWrite spill.buildSpill.toWriters partition pgBatchSize selection row
  .ok {spill with
    buildSpill := {spill.buildSpill with toWriters := writers}
    buildFiles := spillFile spill.buildFiles partition}

/-- The body of the loop that links the build rows by partition; rows of the
resident partitions are left to the caller. -/
def routeBuildRow (hashes : Nat → BitVec 32) (state : BuildSpill ι × Links × BitVec 64) (row : Nat) :
    BuildSpill ι × Links × BitVec 64 :=
  let (spill,links,residentRows) := state
  let partition := partitionOf spill.npartitions (hashes row)
  if partition ∈ spill.residentPartitions then (spill,links,residentRows ||| bit 64 row)
  else ({spill with
      buildPartitionRows := Function.update spill.buildPartitionRows partition
        (spill.buildPartitionRows partition + 1)},links.add partition row,residentRows)

/-- `hash_join_spill_input_batch` for the build side. -/
def spillBuildBatch [Inhabited ι] (config : Config) (spill : BuildSpill ι) (columns : Batch ι)
    (hashes : Nat → BitVec 32) (hashRows : BitVec 64) : Except String (BuildSpill ι × BitVec 64) := do
  let bloomWords := spill.bloomWords.map fun words =>
    (rows hashRows).foldl (fun words row => bloomAdd spill.bloomNbits words (hashes row)) words
  let (spill,links,residentRows) := (rows hashRows).foldl (routeBuildRow hashes)
    ({spill with bloomWords := bloomWords},Links.empty,0#64)
  let spill ← links.used.foldlM
    (fun spill partition =>
      inBlocks pgBatchSize (writeBuildRows (inputRow config.ninnerColumns columns hashes) partition) spill []
        (links.linked partition)) spill
  .ok (spill,residentRows)

/-- The block of `write_store_block`. -/
def storeBlock (store : Columnar.Store ι (BitVec 32) Int4) (block : List Nat) : Store ι where
  nrows := block.length
  tags := fun index => store.tags (block.getD index 0)
  hashes := fun index => store.hashes (block.getD index 0)
  values := fun column index => store.values column (block.getD index 0)
  valid := fun column index => store.valid column (block.getD index 0)

def writeStoreBlock [Inhabited ι] (store : BuildStore ι) (partition : Nat) (spill : BuildSpill ι) (block : List Nat) :
    Except String (BuildSpill ι) := do
  let writers ← spillWriteDense spill.buildSpill.toWriters partition (storeBlock store.toStore block)
  .ok {spill with
    buildSpill := {spill.buildSpill with toWriters := writers}
    buildFiles := spillFile spill.buildFiles partition}

/-- One partition of `hash_join_spill_build_store`. -/
def spillStorePartition [Inhabited ι] (store : BuildStore ι) (spill : BuildSpill ι) (partition : Nat) :
    Except String (BuildSpill ι) :=
  if partition ∈ spill.residentPartitions then .ok spill
  else
    let members := (List.range store.nrows).filter fun row =>
      partitionOf spill.npartitions (store.hashes row) == partition
    inBlocks pgBatchSize (writeStoreBlock store partition)
      {spill with
        buildPartitionRows := Function.update spill.buildPartitionRows partition
          (spill.buildPartitionRows partition + members.length)} [] members

/-- `hash_join_spill_build_store`: write out the rows of all partitions that are
not resident and move the others together. -/
def spillBuildStore [Inhabited ι] (config : Config) (store : BuildStore ι) (spill : BuildSpill ι) :
    Except String (BuildStore ι × BuildSpill ι) := do
  let spill ← (List.range spill.npartitions).foldlM (spillStorePartition store) spill
  let resident := fun hash => decide (partitionOf spill.npartitions hash ∈ spill.residentPartitions)
  let compacted := store.toStore.compact config.ninnerColumns resident
  .ok ({store with toStore := compacted},{spill with
    residentPartitionRows := (List.range store.nrows).foldl
      (fun counts row =>
        let partition := partitionOf spill.npartitions (store.hashes row)
        if resident (store.hashes row) then Function.update counts partition (counts partition + 1) else counts)
      (fun _ => 0)
    residentBuildRows := compacted.nrows})

/-- The search of `limit_resident_build`: the first of the largest partitions, if any has rows. -/
def largestResident (spill : BuildSpill ι) : Option Nat :=
  (spill.residentPartitions.foldl
    (fun (largest,largestRows) partition =>
      if largestRows < spill.residentPartitionRows partition then
        (some partition,spill.residentPartitionRows partition)
      else (largest,largestRows)) ((none : Option Nat),0)).1

theorem largestResident_mem {spill : BuildSpill ι} {largest : Nat} (found : largestResident spill = some largest) :
    largest ∈ spill.residentPartitions ∧ 0 < spill.residentPartitionRows largest := by
  have search (partitions : List Nat) (best : Option Nat × Nat)
      (start : ∀ partition, best.1 = some partition →
        partition ∈ spill.residentPartitions ∧ 0 < spill.residentPartitionRows partition)
      (members : ∀ partition ∈ partitions, partition ∈ spill.residentPartitions) :
      ∀ partition, (partitions.foldl
        (fun (largest,largestRows) partition =>
          if largestRows < spill.residentPartitionRows partition then
            (some partition,spill.residentPartitionRows partition)
          else (largest,largestRows)) best).1 = some partition →
        partition ∈ spill.residentPartitions ∧ 0 < spill.residentPartitionRows partition := by
    induction partitions generalizing best with
    | nil => exact start
    | cons first rest ih =>
      refine ih _ ?_ fun partition member => members partition (List.mem_cons_of_mem _ member)
      intro partition chosen
      dsimp only at chosen
      split at chosen
      · cases chosen
        exact ⟨members _ (List.mem_cons_self ..),by omega⟩
      · exact start partition chosen
  exact search _ (none,0) (fun _ => nofun) (fun _ => id) largest found

theorem inBlocks_keeps {σ : Type} {size : Nat} {flush : σ → List Nat → Except String σ} (Kept : σ → Prop)
    (each : ∀ before block after, flush before block = .ok after → Kept before → Kept after) {items block : List Nat}
    {first last : σ} (ran : inBlocks size flush first block items = .ok last) (start : Kept first) : Kept last := by
  induction items generalizing first block with
  | nil =>
    unfold inBlocks at ran
    split at ran
    · cases ran
      exact start
    · exact each _ _ _ ran start
  | cons item rest ih =>
    unfold inBlocks at ran
    split at ran
    · obtain ⟨middle,flushed,others⟩ := Results.bind_ok.mp ran
      exact ih others (each _ _ _ flushed start)
    · exact ih ran start

theorem spillBuildStore_resident [Inhabited ι] {config : Config} {store store' : BuildStore ι} {spill spill' : BuildSpill ι}
    (ran : spillBuildStore config store spill = .ok (store',spill')) :
    spill'.residentPartitions = spill.residentPartitions := by
  obtain ⟨written,wrote,rest⟩ := Results.bind_ok.mp ran
  cases rest
  refine Results.foldlM_keeps (fun middle => middle.residentPartitions = spill.residentPartitions) ?_ wrote rfl
  intro before partition after ran same
  unfold spillStorePartition at ran
  split at ran
  · cases ran
    exact same
  · refine inBlocks_keeps (fun middle => middle.residentPartitions = spill.residentPartitions) ?_ ran same
    intro before block after flushed same
    obtain ⟨_,_,done⟩ := Results.bind_ok.mp flushed
    cases done
    exact same

/-- `limit_resident_build`. -/
def limitResidentBuild [Inhabited ι] (config : Config) (store : BuildStore ι) (spill : BuildSpill ι) :
    Except String (BuildStore ι × BuildSpill ι) :=
  if spill.residentPartitions = [] ∨
      estimatedBuildMemory store.nrows config.ninnerColumns ≤ spill.residentMemoryLimit then .ok (store,spill)
  else match _ : largestResident spill with
    | none => .ok (store,spill)
    | some largest =>
      match _ : spillBuildStore config store
          {spill with residentPartitions := spill.residentPartitions.erase largest} with
      | .error message => .error message
      | .ok (store,spill) => limitResidentBuild config store spill
termination_by spill.residentPartitions.length
decreasing_by
  rename_i found ran
  have member := (largestResident_mem found).1
  rw [spillBuildStore_resident ran,List.length_erase_of_mem member]
  exact Nat.sub_lt (List.length_pos_of_mem member) Nat.one_pos

/-- The body of the loop that stores the resident rows of a batch. -/
def appendResidentRow (config : Config) (columns : Batch ι) (hashes : Nat → BitVec 32)
    (state : BuildStore ι × BuildSpill ι) (row : Nat) : Except String (BuildStore ι × BuildSpill ι) := do
  let (store,spill) := state
  let partition := partitionOf spill.npartitions (hashes row)
  let store ← appendBuildRow config store (inputRow config.ninnerColumns columns hashes row)
  .ok (store,{spill with
    residentPartitionRows := Function.update spill.residentPartitionRows partition
      (spill.residentPartitionRows partition + 1)
    residentBuildRows := spill.residentBuildRows + 1})

/-- `append_or_spill_build_batch`; the number is the rows it accepted. -/
def appendOrSpillBuildBatch [Inhabited ι] (config : Config) (store : BuildStore ι) (spill : BuildSpill ι)
    (columns : Batch ι) (hashes : Nat → BitVec 32) (hashRows : BitVec 64) :
    Except String (BuildStore ι × BuildSpill ι × Nat) := do
  let (spill,residentRows) ← spillBuildBatch config spill columns hashes hashRows
  let (store,spill) ← (rows residentRows).foldlM (appendResidentRow config columns hashes) (store,spill)
  let (store,spill) ← limitResidentBuild config store spill
  .ok (store,spill,popcount hashRows)

/-! Setting up the spill. -/

def spillTupleDesc (ncolumns : Nat) : List Attribute :=
  List.replicate ncolumns ⟨false,true⟩

/-- `partition_bits`. -/
def partitionBits (npartitions : Nat) : Nat := npartitions.log2

/-- The number of bits of the Bloom filter that is set up for so many rows. -/
def bloomBits (memoryLimit estimatedRows : Nat) : Nat :=
  let desired := max 64 (estimatedRows * 8 % 2 ^ 64)
  let most := max 64 (memoryLimit / 16 * 8)
  let nbits := doubled (fun nbits => nbits < desired && nbits ≤ most / 2) 58 64
  if most < nbits then nbits / 2 else nbits

/-- The value of a C `int` that a 64-bit number is cast to. -/
def castInt (value : Nat) : Int :=
  (BitVec.ofNat 32 value).toInt

/-- The build side of `hash_join_begin_spill`. -/
def beginSpill (config : Config) (store : BuildStore ι) (estimatedBytes estimatedRows : Nat) :
    Except String (BuildSpill ι) := do
  let required := (estimatedBytes + config.memoryLimit - 1) % 2 ^ 64 / config.memoryLimit
  let npartitions := nextPartitionCount (max required config.plannedPartitions)
  let buildSpill ← spillCreate (spillTupleDesc config.ninnerColumns) config.ninnerColumns npartitions
    (config.memoryLimit / 4)
  let nbits := bloomBits config.memoryLimit estimatedRows
  let bloom := 0 < estimatedRows && 2 ≤ nbits / estimatedRows
  let ncolumns := max config.ninnerColumns config.nouterColumns
  let bytes := 4 * npartitions + 4 * npartitions * pgBatchSize + (4 * pgBatchSize + 8) * npartitions * ncolumns
  let residentMemoryLimit := config.memoryLimit -
    min config.memoryLimit (min bytes (config.memoryLimit / 4) + if bloom then nbits / 8 else 0)
  let perPartition := max 1 (estimatedBytes / npartitions)
  let nresident := min (npartitions - 1 : Int) (castInt (residentMemoryLimit / perPartition))
  .ok {
    npartitions := npartitions
    partitionShift := partitionBits npartitions
    residentPartitions := List.range (if nresident = 0 then 1 else nresident).toNat
    residentPartitionRows := fun _ => 0
    residentBuildRows := 0
    residentMemoryLimit := residentMemoryLimit
    bloomWords := if bloom then
        some ((List.range store.nrows).foldl (fun words row => bloomAdd nbits words (store.hashes row)) fun _ => 0#64)
      else none
    bloomNbits := if bloom then nbits else 0
    buildFiles := fun _ => none
    buildSpill := buildSpill
    buildPartitionRows := fun _ => 0
    buildChunkRows := max 64 (min (2 ^ 32 - 1)
      (config.memoryLimit / 2 / max 1 (estimatedBuildMemory 1024 config.ninnerColumns / 1024)))}

/-! The loop over the inner batches. -/

/-- The empty store, with as much room as the planner expects to need, if it fits. -/
def firstStore (config : Config) (store : BuildStore ι) : Except String (BuildStore ι) :=
  let store := {resetBuildStore store with hashShift := 0}
  let initial := doubled (fun capacity => capacity < config.estimatedRows && capacity ≤ (2 ^ 32 - 1) / 2) 21 1024
  if config.plannedPartitions = 1 ∧ estimatedBuildMemory initial config.ninnerColumns ≤ config.memoryLimit
    then resizeBuildStore store initial
  else .ok store

/-- A join that is planned with partitions has them from the start. -/
def firstSpill (config : Config) (store : BuildStore ι) : Except String (Option (BuildSpill ι)) :=
  if 1 < config.plannedPartitions then do
    let spill ← beginSpill config store (config.memoryLimit * config.plannedPartitions % 2 ^ 64) config.estimatedRows
    .ok (some spill)
  else .ok none

/-- `build_hash_table` before its first batch. -/
def buildStart (config : Config) (store : BuildStore ι) : Except String (BuildState ι) := do
  let store ← firstStore config store
  let spill ← firstSpill config store
  .ok ⟨store,spill,0⟩

/-- The switch to partitions, when the rows stored and the batch no longer fit. -/
def switchToSpill [Inhabited ι] (config : Config) (state : BuildState ι) (batch : Batch ι) :
    Except String (BuildState ι) :=
  let nrows := state.build.nrows + popcount batch.selection
  let estimated := estimatedBuildMemory nrows config.ninnerColumns
  match state.spill with
  | some _ => .ok state
  | none =>
    if estimated ≤ config.memoryLimit then .ok state
    else do
      let spill ← beginSpill config state.build estimated nrows
      let (store,spill) ← spillBuildStore config state.build spill
      let (store,spill) ← limitResidentBuild config store spill
      .ok ⟨store,some spill,state.buildRows + state.build.nrows⟩

/-- The hashes and the rows without NULL keys of a batch. -/
def hashed (config : Config) (batch : Batch ι) : (Nat → BitVec 32) × BitVec 64 :=
  hashBatch config.innerKeys (loadColumns config.innerBatchColumns batch)

/-- A batch is stored as it is, or divided among the partitions. -/
def takeBatch [Inhabited ι] (config : Config) (state : BuildState ι) (batch : Batch ι) :
    Except String (BuildState ι) :=
  let columns := loadColumns config.innerBatchColumns batch
  let (hashes,hashRows) := hashed config batch
  match state.spill with
  | some spill => do
    let (store,spill,accepted) ← appendOrSpillBuildBatch config state.build spill columns hashes hashRows
    .ok ⟨store,some spill,state.buildRows + accepted⟩
  | none => do
    let store ← (rows hashRows).foldlM
      (fun store row => appendBuildRow config store (inputRow config.ninnerColumns columns hashes row)) state.build
    .ok {state with build := store}

/-- The body of the loop over the inner batches. -/
def buildBatch [Inhabited ι] (config : Config) (state : BuildState ι) (batch : Batch ι) :
    Except String (BuildState ι) := do
  let state ← switchToSpill config state batch
  takeBatch config state batch

end PgBatch.HashJoin
