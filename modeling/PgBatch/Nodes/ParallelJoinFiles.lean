import PgBatch.Nodes.ParallelJoin
import PgBatch.Nodes.ParallelBuildFiles
import PgBatch.Nodes.HashJoinEquijoin

/-! What the shared files of a parallel join stand for once both sides are in them: the files
of a partition have its rows, and the pairs of all partitions are those of the batches that
have been read. -/
namespace PgBatch.ParallelJoin
open Words Columnar Spill HashJoin Joining
variable {n : Nat} {ι : Type} {config : Config}

namespace JoinState

/-- The build rows of a partition. -/
abbrev built (state : JoinState config n ι) : Nat → List (Row ι) :=
  state.build.shared.buildSpill.exportedRows config.ninnerColumns

/-- The probe rows of a partition. -/
abbrev probed (state : JoinState config n ι) : Nat → List (Row ι) :=
  state.probeSpill.exportedRows config.nouterColumns

end JoinState

section Inner
variable {inners : Fin n → List (Batch ι)} {state : JoinState config n ι}

/-- The rows that the build has read are those of the batches. -/
theorem fetched_accepted (assigned : ∀ id, (state.build.locals id).taken ++ (state.build.locals id).input = innerInput config inners id) :
    Parallel.fetchedRows (sharedConfig config n) state.build = acceptedRows config (state.innerTaken inners) := by
  rw [Parallel.fetchedRows,acceptedRows,JoinState.innerTaken,List.flatMap_assoc]
  refine List.flatMap_congr fun id _ => ?_
  have taken : (state.build.locals id).taken =
      ((inners id).take (state.build.locals id).taken.length).map (loadColumns config.innerBatchColumns) := by
    rw [List.map_take]
    change _ = (innerInput config inners id).take _
    rw [← assigned id,List.take_left]
  exact (congrArg (List.flatMap (Batch.accepted config.innerKeys config.ninnerColumns)) taken).trans (List.flatMap_map ..)

theorem acceptedRows_shared {inner : List (Batch ι)} {row : Row ι} (member : row ∈ acceptedRows config inner) :
    SharedBuildRow config row := by
  refine ⟨acceptedRows_builds member,?_⟩
  obtain ⟨batch,_,taken⟩ := List.mem_flatMap.mp member
  obtain ⟨index,kept,rfl⟩ := List.mem_map.mp taken
  obtain ⟨values,found⟩ := Option.isSome_iff_exists.mp (List.mem_filter.mp kept).2
  exact (accepted_row config.innerInside found).2.2

variable (ledger : Parallel.Ledger (sharedConfig config n) (innerInput config inners) state.build)
  (late : 3 ≤ state.build.shared.barrier.phase)
include ledger late

/-- The build files, taken together, are the inner rows. -/
theorem built_rows (spilled : state.build.shared.spilled = true) :
    ((List.range (sharedConfig config n).npartitions).flatMap state.built).Perm (acceptedRows config (state.innerTaken inners)) := by
  rw [← fetched_accepted ledger.assigned]
  exact Parallel.files_rows ledger late spilled

theorem built_part (index : Nat) : state.built index =
    part (rowPart 0 (sharedConfig config n).npartitions) ((List.range (sharedConfig config n).npartitions).flatMap state.built) index := by
  have placed (index : Nat) (row : Row ι) (member : row ∈ state.built index) :
      rowPart 0 (sharedConfig config n).npartitions row = index :=
    (partition_part config n row.hash).symm.trans (Parallel.files_partition ledger late index row member)
  refine (part_flatMap placed (fun beyond above => List.eq_nil_iff_forall_not_mem.mpr fun row member => ?_) index).symm
  have inside : repartitionOf 0 (sharedConfig config n).npartitions row.hash < (sharedConfig config n).npartitions :=
      repartitionOf_lt (npartitions_positive config n) row.hash
  have here := placed beyond row member
  rw [rowPart] at here
  omega

theorem built_shared (spilled : state.build.shared.spilled = true) (partition : Nat) :
    ∀ row ∈ state.built partition, SharedBuildRow config row := by
  intro row member
  rw [built_part ledger late] at member
  exact acceptedRows_shared ((built_rows ledger late spilled).subset (mem_part.mp member).1)

end Inner

/-! Both sides. -/

section Both
variable {inners : Fin n → List (Batch ι)} {state : JoinState config n ι}

/-- The rows of the outer batches that have been read. -/
def JoinState.outerStored (state : JoinState config n ι) : List (Row ι) :=
  state.outerTaken.flatMap (outerRows config)

theorem probed_routed (files : ∀ id partition, (state.probeSpill.files id partition).flatMap (Store.rows config.nouterColumns) =
      routedRows config n state.built ((state.members id).taken.flatMap (outerRows config)) partition) (partition : Nat) :
    state.probed partition = routedRows config n state.built state.outerStored partition := by
  have each (ids : List (Fin n)) : (ids.flatMap fun id =>
      (state.probeSpill.files id partition).flatMap (Store.rows config.nouterColumns)) = routedRows config n state.built
        ((ids.flatMap fun id => (state.members id).taken).flatMap (outerRows config)) partition := by
    induction ids with
    | nil =>
      rw [routedRows]
      split <;> rfl
    | cons id rest ih =>
      rw [List.flatMap_cons,List.flatMap_cons,List.flatMap_append,routedRows_append,ih,files]
  exact each (List.finRange n)

variable (ledger : Parallel.Ledger (sharedConfig config n) (innerInput config inners) state.build)
  (late : 3 ≤ state.build.shared.barrier.phase) (spilled : state.build.shared.spilled = true)
  (routed : ∀ partition, state.probed partition = routedRows config n state.built state.outerStored partition)
include ledger late spilled routed

/-- A participant may read the files. -/
theorem files_hold (inner : Exported config.ninnerColumns state.build.shared.buildSpill)
    (outer : Exported config.nouterColumns state.probeSpill) (missing : String) :
    FilesHold config (state.files missing) state.built state.probed := by
  refine ⟨inner.holds _,outer.holds _,rfl,rfl,rfl,built_shared ledger late spilled,fun partition row member => ?_⟩
  rw [routed,routedRows] at member
  split at member
  · cases member
  · obtain ⟨batch,_,stored⟩ := List.mem_flatMap.mp (mem_part.mp member).1
    exact outerRows_probes stored

/-- The pairs of the partitions are the join. -/
theorem partitions_join : (stockPairs config state.built state.probed 0 (sharedConfig config n).npartitions).Perm
    (equiJoin config state.outerTaken (state.innerTaken inners)) := by
  have rows := built_rows ledger late spilled
  have pairs := @parts_pairs _ config _ 0 0
    (fun _ => (List.range (sharedConfig config n).npartitions).flatMap state.built) (fun _ => state.outerStored)
    state.built state.probed (npartitions_positive config n)
    (fun row member => acceptedRows_builds (rows.subset member))
    (fun row member => by
      obtain ⟨batch,_,stored⟩ := List.mem_flatMap.mp member
      exact outerRows_probes stored)
    (built_part ledger late) routed
  refine pairs.trans ?_
  rw [partitionPairs,equiJoin,← acceptedRows_entries]
  refine matchPairs_perm (List.Perm.of_eq ?_) (rows.map _)
  rw [JoinState.outerStored,List.map_flatMap]
  exact List.flatMap_congr fun batch _ => outerRows_entries config batch

end Both

end PgBatch.ParallelJoin
