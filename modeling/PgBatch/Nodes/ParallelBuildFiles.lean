import PgBatch.Nodes.ParallelBuildLedger
import PgBatch.Nodes.HashJoinRouting
import PgBatch.Spill.SharedBlocks
import Mathlib.Algebra.BigOperators.Fin

/-! The build files of a parallel join: each participant exports its own at the end of phase 2,
as its writer has them, and behind that phase they stay as they are, with all rows of the
build in the files of their partitions. -/
namespace PgBatch.Parallel
open Words Columnar Spill Joining

section Steps
variable {ι τ : Type} [DecidableEq ι] [Inhabited τ]

/-- A participant exports its files when it finishes its writer, and at no other position. -/
theorem execute_spill (config : Config) (id : ι) (shared : Shared ι τ) (own : Local τ) :
    (execute config id shared own).1.buildSpill = shared.buildSpill ∨ own.pc = .finishWriter true ∧
      ∃ writer, sharedSpillWriterFinish shared.buildSpill id (getBuildWriter config own) =
        .ok ((execute config id shared own).1.buildSpill,writer) := by
  obtain ⟨pc,input,taken,chunk,directory,buckets,writer⟩ := own
  cases pc with
  | finishWriter spilled =>
    cases spilled with
    | false => exact .inl rfl
    | true =>
      cases finished : sharedSpillWriterFinish shared.buildSpill id
          (getBuildWriter config ⟨.finishWriter true,input,taken,chunk,directory,buckets,writer⟩) with
      | error message =>
        refine .inl ?_
        simp only [execute,if_true,finished]
      | ok result =>
        refine .inr ⟨rfl,result.2,?_⟩
        simp only [execute,if_true,finished]
  | setup =>
    refine .inl ?_
    simp only [execute,setupSharedHash]
    (repeat' split) <;> rfl
  | _ =>
    refine .inl ?_
    simp only [execute]
    try (repeat' split) <;> rfl

variable [Fintype ι] {config : Config} {inputs : ι → List (Batch τ)} {state : State ι τ}

/-- What is exported is what the writers hold. -/
theorem act_exported (ledger : Ledger config inputs state) (exported : Exported config.ninnerColumns state.shared.buildSpill)
    (action : Action ι) : Exported config.ninnerColumns (state.act config action).shared.buildSpill := by
  cases action with
  | shutdown id =>
    obtain ⟨barrier,same⟩ := shutdown_shared config state id
    rw [same]
    exact exported
  | run id =>
    change Exported config.ninnerColumns (execute config id state.shared (state.locals id)).1.buildSpill
    rcases execute_spill config id state.shared (state.locals id) with same | ⟨finishing,writer,finished⟩
    · rw [same]
      exact exported
    · have phase := (ledger.protocol.placed id).home 2 (by rw [finishing]; rfl)
      have open_ : ¬ Closed state.shared (state.locals id).pc := by
        rintro (late | meeting)
        · omega
        · rw [finishing] at meeting
          cases meeting
      obtain ⟨writable,_,_⟩ := getBuildWriter_spec (ledger.orderly id) open_
      obtain ⟨shared',after,ran,exported',_⟩ := exported.finish id writable.valid writable.ncolumns writable.unfinished
      rw [finished] at ran
      cases ran
      exact exported'

/-- Behind phase 2 nothing is exported. -/
theorem act_files (ledger : Ledger config inputs state) (late : 3 ≤ state.shared.barrier.phase) (action : Action ι) :
    (state.act config action).shared.buildSpill = state.shared.buildSpill := by
  cases action with
  | shutdown id =>
    obtain ⟨barrier,same⟩ := shutdown_shared config state id
    rw [same]
  | run id =>
    rcases execute_spill config id state.shared (state.locals id) with same | ⟨finishing,_⟩
    · exact same
    · have phase := (ledger.protocol.placed id).home 2 (by rw [finishing]; rfl)
      omega

/-- Behind phase 0 it is settled whether the build spills. -/
theorem act_decided (ledger : Ledger config inputs state) (begun : state.shared.barrier.phase ≠ 0) (action : Action ι) :
    (state.act config action).shared.spilled = state.shared.spilled := by
  cases action with
  | shutdown id =>
    obtain ⟨barrier,same⟩ := shutdown_shared config state id
    rw [same]
  | run id =>
    cases meets : (state.locals id).pc.meets with
    | true =>
      obtain ⟨barrier,same⟩ := execute_meets config id state.shared (state.locals id) meets
      change (execute config id state.shared (state.locals id)).1.spilled = _
      rw [same]
    | false =>
      refine (execute_quiet config id state.shared (state.locals id) meets).decided fun home => ?_
      exact begun ((ledger.protocol.placed id).home 0 home)

/-- Nor is a batch read any more. -/
theorem act_taken (ledger : Ledger config inputs state) (begun : state.shared.barrier.phase ≠ 0) (action : Action ι) (id : ι) :
    ((state.act config action).locals id).taken = (state.locals id).taken :=
  ((act_input config state action id).2 fun reading => begun ((ledger.protocol.placed id).home 0 (by rw [reading]; rfl))).1

theorem act_later (ledger : Ledger config inputs state) (action : Action ι) :
    state.shared.barrier.phase ≤ (state.act config action).shared.barrier.phase := by
  rcases act_phase config ledger.protocol action with same | ⟨next,_⟩ <;> omega

end Steps

/-! The rows of the files. -/

section Rows
variable {n : Nat} {τ : Type} {config : Config} {inputs : Fin n → List (Batch τ)} {state : State (Fin n) τ}

theorem coe_flatMap_finRange {α : Type} (each : Fin n → List α) :
    (((List.finRange n).flatMap each : List α) : Multiset α) = ∑ id, (each id : Multiset α) := by
  rw [Fin.sum_univ_def]
  induction List.finRange n with
  | nil => rfl
  | cons id rest ih => rw [List.flatMap_cons,← Multiset.coe_add,ih,List.map_cons,List.sum_cons]

theorem coe_flatMap_range {α : Type} (count : Nat) (each : Nat → List α) :
    (((List.range count).flatMap each : List α) : Multiset α) = ∑ index ∈ Finset.range count, (each index : Multiset α) := by
  induction count with
  | zero => rfl
  | succ count ih => rw [List.range_succ,List.flatMap_append,← Multiset.coe_add,ih,List.flatMap_singleton,Finset.sum_range_succ]

/-- All rows that have been read, participant by participant. -/
def fetchedRows (config : Config) (state : State (Fin n) τ) : List (Row τ) :=
  (List.finRange n).flatMap fun id => (state.locals id).fetched config

/-- Each row of the build is in the files of one partition. -/
theorem files_rows (ledger : Ledger config inputs state) (late : 3 ≤ state.shared.barrier.phase)
    (spilled : state.shared.spilled = true) :
    ((List.range config.npartitions).flatMap (state.shared.buildSpill.exportedRows config.ninnerColumns)).Perm
      (fetchedRows config state) := by
  have stored := (ledger_stored ledger late).spilled spilled
  rw [← Multiset.coe_eq_coe,coe_flatMap_range,fetchedRows,coe_flatMap_finRange,← stored,Finset.sum_comm]
  exact Finset.sum_congr rfl fun partition _ => coe_flatMap_finRange fun id =>
    (state.shared.buildSpill.files id partition).flatMap (Store.rows config.ninnerColumns)

/-- It is the partition of its hash. -/
theorem files_partition (ledger : Ledger config inputs state) (late : 3 ≤ state.shared.barrier.phase) (partition : Nat) :
    ∀ row ∈ state.shared.buildSpill.exportedRows config.ninnerColumns partition, rowPartition config row = partition := by
  intro row member
  obtain ⟨id,_,there⟩ := List.mem_flatMap.mp member
  exact (ledger_stored ledger late).partitioned id partition row there

end Rows

end PgBatch.Parallel
