import PgBatch.Nodes.ParallelProbe
import PgBatch.Nodes.ParallelTurns
import PgBatch.Nodes.ParallelBuildLedger

/-! A parallel hash join that spills, as a system. Its participants run the build against one
barrier, divide their outer batches once all build files are there, and then join the
partitions, of which each is claimed by one of them. In a run they move one step at a time,
in any order. -/
namespace PgBatch.ParallelJoin
open Words Columnar Spill HashJoin
variable {n : Nat} {ι : Type}

/-- The outer batches that a participant is still to read and, as a ghost, those it has read,
with its `probe_writer`; behind the last one it exports its files. -/
structure Member (ι : Type) where
  outer : List (Batch ι)
  taken : List (Batch ι)
  probeWriter : Option (Writers ι)
  partitioned : Bool

/-- The state of all participants; `next_partition` and `probe_spill` are shared. -/
structure JoinState (config : Config) (n : Nat) (ι : Type) where
  build : Parallel.State (Fin n) ι
  probeSpill : SharedSpill (Fin n) ι
  nextPartition : Nat
  members : Fin n → Member ι
  outputs : Fin n → Output config ι

inductive JoinAction (n : Nat) where
  /-- The next access in `parallel_hash_join_prepare`, or a shutdown. -/
  | build (action : Parallel.Action (Fin n))
  /-- A turn of the loop of `partition_probe`. -/
  | probe (id : Fin n)
  /-- A turn of `produce_output`. -/
  | output (id : Fin n)

/-- `BuildStore` as it is allocated. -/
def allocatedBuild [Inhabited ι] : BuildStore ι :=
  {Store.zero with capacity := 0, next := fun _ => 0, buckets := fun _ => 0, nbuckets := 0, hashShift := 0, hasDuplicates := false}

/-- The output as `parallel_hash_join_prepare` leaves it. -/
def readyOutput [Inhabited ι] (config : Config) : Output config ι :=
  ⟨outputStart ⟨allocatedBuild,none,none,false,emptySide config⟩,[],.running⟩

/-- The share of the inner side as the build reads it. -/
def innerInput (config : Config) (inners : Fin n → List (Batch ι)) (id : Fin n) : List (Batch ι) :=
  (inners id).map (loadColumns config.innerBatchColumns)

/-- The join before any participant has attached, with what the children have for each of them. -/
def JoinState.initial [Inhabited ι] (config : Config) (inners outers : Fin n → List (Batch ι)) : JoinState config n ι where
  build := Parallel.State.initial (sharedConfig config n) (innerInput config inners)
  probeSpill := sharedSpillInitialize
  nextPartition := 0
  members := fun id => ⟨outers id,[],none,false⟩
  outputs := fun _ => readyOutput config

namespace JoinState
variable {config : Config} [Inhabited ι]

/-- The files of both sides. -/
def files (missing : String) (state : JoinState config n ι) : SharedFiles ι :=
  ⟨buildShape config n,probeShape config n,state.build.shared.buildSpill.numbered,state.probeSpill.numbered,missing⟩

/-- A participant in `partition_probe`. -/
def partitioning (state : JoinState config n ι) (id : Fin n) : Bool :=
  match (state.build.locals id).pc with
  | .probe => !(state.members id).partitioned
  | _ => false

/-- A batch is divided, or behind the last one the files are exported. -/
def partitionTurn (state : JoinState config n ι) (id : Fin n) (own : Member ι) :
    Except String (SharedSpill (Fin n) ι × Member ι) :=
  match own.outer with
  | [] => do
    let (spill,writer) ← sharedSpillWriterFinish state.probeSpill id (getProbeWriter config n own.probeWriter)
    .ok (spill,{own with probeWriter := some writer, partitioned := true})
  | batch :: rest => do
    let writer ← partitionProbeBatch config n state.build.shared.buildSpill.numbered own.probeWriter batch
    .ok (state.probeSpill,{own with outer := rest, taken := own.taken ++ [batch], probeWriter := writer})

/-- A turn of `partition_probe`; one that fails is the last of its participant. -/
def partition (state : JoinState config n ι) (id : Fin n) : JoinState config n ι :=
  match (state.outputs id).status with
  | .running => match state.partitionTurn id (state.members id) with
    | .error message =>
      {state with outputs := Function.update state.outputs id {state.outputs id with status := .failed message}}
    | .ok (spill,own) => {state with probeSpill := spill, members := Function.update state.members id own}
  | .ended | .failed _ => state

/-- A turn of the output of a participant that has left `parallel_hash_join_prepare`, with both sides in files. -/
def produce (missing : String) (capacity : Nat) (state : JoinState config n ι) (id : Fin n) : JoinState config n ι :=
  match (state.build.locals id).pc with
  | .left true =>
    let (output,nextPartition) := (state.outputs id).turn (state.files missing) capacity state.nextPartition
    {state with nextPartition := nextPartition, outputs := Function.update state.outputs id output}
  | _ => state

def act (missing : String) (capacity : Nat) (state : JoinState config n ι) : JoinAction n → JoinState config n ι
  | .build action =>
    if state.partitioning action.id then state
    else {state with build := state.build.act (sharedConfig config n) action}
  | .probe id => if state.partitioning id then state.partition id else state
  | .output id => state.produce missing capacity id

/-- The state after a run. -/
def after (missing : String) (capacity : Nat) (state : JoinState config n ι) (run : List (JoinAction n)) : JoinState config n ι :=
  run.foldl (act missing capacity) state

/-! What a run has come to. -/

omit [Inhabited ι]

/-- The inner batches that have been read. -/
def innerTaken (inners : Fin n → List (Batch ι)) (state : JoinState config n ι) : List (Batch ι) :=
  (List.finRange n).flatMap fun id => (inners id).take (state.build.locals id).taken.length

def outerTaken (state : JoinState config n ι) : List (Batch ι) :=
  (List.finRange n).flatMap fun id => (state.members id).taken

/-- The pairs of all pages that have been returned. -/
def published (state : JoinState config n ι) : List (ι × ι) :=
  (List.finRange n).flatMap fun id => (state.outputs id).pages.flatten

end JoinState

end PgBatch.ParallelJoin
