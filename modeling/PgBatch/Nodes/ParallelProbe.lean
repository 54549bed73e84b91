import PgBatch.Nodes.ParallelDivide
import PgBatch.Nodes.ParallelBuildWrites
import PgBatch.Nodes.HashJoinRouting

/-! The probe side of a spilled parallel hash join: `partition_probe` writes the outer rows of
a participant into its own files, but for rows whose partition has no build rows. -/
namespace PgBatch.ParallelJoin
open Words Columnar Spill HashJoin Joining
open Parallel (partitionOf sharedPartitionCount nextPartitionCount)
variable {ι : Type}

theorem sharedPartitionCount_power (plannedPartitions participants : Nat) :
    ∃ bits, sharedPartitionCount plannedPartitions participants = 2 ^ bits := by
  obtain ⟨rounds,_,power⟩ := Doubling.doubled_power
    (fun result => result < max plannedPartitions (participants * 2) && result < 1024) 9 2
  exact ⟨rounds + 1,by rw [sharedPartitionCount,nextPartitionCount,power,pow_succ]⟩

/-- What `initialize_shared_state` fixes for so many participants. -/
def sharedConfig (config : Config) (participants : Nat) : Parallel.Config where
  ninnerColumns := config.ninnerColumns
  innerKeys := config.innerKeys
  keyed := config.keyed
  npartitions := sharedPartitionCount config.plannedPartitions participants
  power := sharedPartitionCount_power config.plannedPartitions participants
  plannedPartitions := config.plannedPartitions
  memoryLimit := config.memoryLimit
  sharedMemoryLimit := if (2 ^ 64 - 1) / participants < config.memoryLimit then 2 ^ 64 - 1 else config.memoryLimit * participants

/-- The same for the outer side. -/
def probeConfig (config : Config) (participants : Nat) : Parallel.Config :=
  {sharedConfig config participants with
    ninnerColumns := config.nouterColumns
    innerKeys := config.outerKeys
    keyed := config.outer_keyed}

/-- The sizes of the shared files of the build side. -/
def buildShape (config : Config) (participants : Nat) : SharedShape :=
  ⟨participants,(sharedConfig config participants).npartitions,config.ninnerColumns⟩

def probeShape (config : Config) (participants : Nat) : SharedShape :=
  ⟨participants,(sharedConfig config participants).npartitions,config.nouterColumns⟩

section Probing
variable (config : Config) (participants : Nat)

/-- `get_writer` for the probe side. -/
def getProbeWriter (writer : Option (Writers ι)) : Writers ι :=
  writer.getD (create config.nouterColumns (sharedConfig config participants).npartitions (config.memoryLimit / 4))

/-- A row whose partition has no build rows is dropped. -/
def dropUnbuiltRow (build : SharedSpill Nat ι) (hashes : Nat → BitVec 32) (rows : BitVec 64) (row : Nat) :
    Except String (BitVec 64) := do
  let built ← sharedPartitionRows (buildShape config participants) build.untagged
    (partitionOf (sharedConfig config participants).npartitions (hashes row))
  .ok (if built = 0 then rows &&& ~~~ bit 64 row else rows)

/-- The rows of an outer batch, with the keys' hashes, that are written. -/
def writeProbe [Inhabited ι] (writer : Option (Writers ι)) (batch : Batch ι) (rows : BitVec 64) :
    Except String (Option (Writers ι)) :=
  if rows = 0#64 then .ok writer
  else do
    let writer ← Parallel.spillVectors (probeConfig config participants) (getProbeWriter config participants writer)
      (loadColumns config.outerBatchColumns batch) rows
    .ok (some writer)

/-- The body of the loop of `partition_probe`. -/
def partitionProbeBatch [Inhabited ι] (build : SharedSpill Nat ι) (writer : Option (Writers ι)) (batch : Batch ι) :
    Except String (Option (Writers ι)) := do
  let kept ← (rows (outerHashed config batch).2).foldlM
    (dropUnbuiltRow config participants build (outerHashed config batch).1) (outerHashed config batch).2
  writeProbe config participants writer batch kept

end Probing

/-! What it writes. -/

section Writes
variable {config : Config} {participants : Nat}

/-- Of these rows, those that go to a partition. -/
def routedRows (config : Config) (participants : Nat) (built : Nat → List (Row ι)) (stored : List (Row ι)) (partition : Nat) :
    List (Row ι) :=
  if built partition = [] then []
  else part (rowPart 0 (sharedConfig config participants).npartitions) stored partition

theorem partition_part (config : Config) (participants : Nat) (hash : BitVec 32) :
    partitionOf (sharedConfig config participants).npartitions hash =
      repartitionOf 0 (sharedConfig config participants).npartitions hash := by
  rw [repartitionOf,BitVec.ushiftRight_zero]

theorem npartitions_positive (config : Config) (participants : Nat) : 0 < (sharedConfig config participants).npartitions :=
  nextPartitionCount_positive _

/-- A writer of the probe side that is still open, with what the participant has written. -/
structure ProbeWrites (config : Config) (participants : Nat) (built : Nat → List (Row ι)) (writer : Option (Writers ι))
    (stored : List (Row ι)) : Prop where
  writable : Parallel.Writable (probeConfig config participants) (getProbeWriter config participants writer)
  contents : ∀ partition, (getProbeWriter config participants writer).contents partition =
    routedRows config participants built stored partition

theorem start_writes (config : Config) (participants : Nat) (built : Nat → List (Row ι)) :
    ProbeWrites config participants built none [] := by
  refine ⟨⟨create_valid _ _ _,rfl,rfl,rfl⟩,fun partition => ?_⟩
  rw [routedRows]
  split <;> rfl

theorem routedRows_append (config : Config) (participants : Nat) (built : Nat → List (Row ι)) (first later : List (Row ι))
    (partition : Nat) : routedRows config participants built (first ++ later) partition =
      routedRows config participants built first partition ++ routedRows config participants built later partition := by
  unfold routedRows
  split
  · rfl
  · exact part_append ..

variable [Inhabited ι] {built : Nat → List (Row ι)} {build : SharedSpill Nat ι} {writer : Option (Writers ι)}
  {stored : List (Row ι)}

omit [Inhabited ι] in
/-- What is written of a batch is what its partitions want. -/
theorem pendingRows_routed {batch : Batch ι} {kept : BitVec 64}
    (left : rows kept = (rows (outerHashed config batch).2).filter fun row =>
      !(built (partitionOf (sharedConfig config participants).npartitions ((outerHashed config batch).1 row))).isEmpty)
    (partition : Nat) :
    Parallel.partRows (probeConfig config participants)
        (Parallel.pendingRows (probeConfig config participants) (loadColumns config.outerBatchColumns batch) kept) partition =
      routedRows config participants built (outerRows config batch) partition := by
  rw [Parallel.partRows,Parallel.pendingRows,left,routedRows,outerRows]
  by_cases none : built partition = []
  · rw [if_pos none,List.filter_eq_nil_iff]
    intro row member
    obtain ⟨index,kept,rfl⟩ := List.mem_map.mp member
    rw [decide_eq_true_eq]
    intro here
    change partitionOf (sharedConfig config participants).npartitions ((outerHashed config batch).1 index) = partition at here
    have some_ := (List.mem_filter.mp kept).2
    rw [here,none] at some_
    cases some_
  · rw [if_neg none,part,List.filter_map,List.filter_map,List.filter_filter]
    congr 1
    apply List.filter_congr
    intro row _
    change (decide (partitionOf (sharedConfig config participants).npartitions ((outerHashed config batch).1 row) = partition) && _) =
      (repartitionOf 0 (sharedConfig config participants).npartitions ((outerHashed config batch).1 row) == partition)
    rw [← partition_part]
    by_cases here : partitionOf (sharedConfig config participants).npartitions ((outerHashed config batch).1 row) = partition
    · simp [here,none]
    · simp [here]

/-- An outer batch is divided. -/
theorem partitionProbeBatch_ok (holds : SharedHolds (buildShape config participants) build built)
    (writes : ProbeWrites config participants built writer stored) (batch : Batch ι) :
    ∃ after, partitionProbeBatch config participants build writer batch = .ok after ∧
      ProbeWrites config participants built after (stored ++ outerRows config batch) := by
  have drops (row : Nat) (word : BitVec 64) : dropUnbuiltRow config participants build (outerHashed config batch).1 word row =
      .ok (if !(built (partitionOf (sharedConfig config participants).npartitions ((outerHashed config batch).1 row))).isEmpty
        then word else word &&& ~~~ bit 64 row) := by
    have inside : partitionOf (sharedConfig config participants).npartitions ((outerHashed config batch).1 row) <
        (buildShape config participants).partitions := Parallel.partitionOf_lt (sharedConfig config participants).power _
    rw [dropUnbuiltRow,holds.partitionRows inside]
    change Except.ok _ = _
    simp only [List.length_eq_zero_iff]
    cases built (partitionOf (sharedConfig config participants).npartitions ((outerHashed config batch).1 row)) <;> rfl
  obtain ⟨kept,ran,left⟩ := dropRows_ok (fun row _ word => drops row word)
    fun row (member : row ∈ rows (outerHashed config batch).2) => member
  unfold partitionProbeBatch
  rw [ran]
  change ∃ after, writeProbe config participants writer batch kept = .ok after ∧ _
  have hashed : Parallel.Hashed (probeConfig config participants) (loadColumns config.outerBatchColumns batch) kept := by
    intro row member
    rw [left] at member
    exact (List.mem_filter.mp member).1
  have routed := pendingRows_routed left
  unfold writeProbe
  split
  · rename_i none
    refine ⟨writer,rfl,writes.writable,fun partition => ?_⟩
    rw [writes.contents,routedRows_append,← routed,none]
    simp [Parallel.pendingRows,Parallel.partRows]
  · obtain ⟨after,wrote,stores⟩ := Parallel.spillVectors_stores (probeConfig config participants) writes.writable
      (loadColumns config.outerBatchColumns batch) hashed
    refine ⟨some after,by rw [wrote]; rfl,stores.writable,fun partition => ?_⟩
    change after.contents partition = _
    rw [stores.contents,writes.contents,routedRows_append,← routed]
    split
    · rfl
    · rename_i beyond
      congr 1
      symm
      rw [Parallel.partRows,List.filter_eq_nil_iff]
      intro row _
      rw [decide_eq_true_eq]
      intro here
      exact beyond (here ▸ Parallel.partitionOf_lt (probeConfig config participants).power row.hash)

end Writes

end PgBatch.ParallelJoin
