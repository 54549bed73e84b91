import PgBatch.Spill.Writer

/-! The shared spill service: every participant writes its own file for each
partition, and publishes its row counts when it has finished. -/
namespace PgBatch.Spill
open Words Columnar
variable {ι τ : Type}

/-- `PgBatchSharedSpill` with the files its participants have exported. -/
structure SharedSpill (ι τ : Type) where
  rows : ι → Nat → Nat
  files : ι → Nat → List (Store τ)
  finished : ι → Bool

def sharedSpillInitialize : SharedSpill ι τ :=
  ⟨fun _ _ => 0,fun _ _ => [],fun _ => false⟩

def sharedService : Service where
  outOfRange := fun partition => s!"pg_batch shared spill partition {partition} is out of range"
  invalidWrite := "invalid shared pg_batch spill write"
  invalidDenseWrite := "invalid dense shared pg_batch spill write"

def sharedSpillWrite [Inhabited τ] (writer : Writers τ) (partition nrows : Nat) (selection : BitVec 64)
    (row : Nat → Row τ) : Except String (Writers τ) :=
  sharedService.write writer partition nrows selection row

def sharedSpillWriteDense [Inhabited τ] (writer : Writers τ) (partition : Nat) (block : Store τ) :
    Except String (Writers τ) :=
  sharedService.writeDense writer partition block

variable [DecidableEq ι]

def sharedSpillWriterFinish (shared : SharedSpill ι τ) (participant : ι) (writer : Writers τ) :
    Except String (SharedSpill ι τ × Writers τ) :=
  if writer.finished then .error "pg_batch shared spill writer is already finished"
  else
    let writer := {finishWriters writer with finished := true}
    .ok ({ rows := Function.update shared.rows participant writer.partitionRows
           files := Function.update shared.files participant writer.files
           finished := Function.update shared.finished participant true },writer)

theorem sharedSpillWriterFinish_moves (shared : SharedSpill ι τ) (participant : ι) {writer : Writers τ}
    (valid : writer.Valid) (unfinished : writer.finished = false) :
    ∃ after, sharedSpillWriterFinish shared participant writer =
        .ok (⟨Function.update shared.rows participant after.partitionRows,
          Function.update shared.files participant after.files,
          Function.update shared.finished participant true⟩,after) ∧
      after.Valid ∧ after.finished = true ∧ after.ncolumns = writer.ncolumns ∧
      after.npartitions = writer.npartitions ∧ after.contents = writer.contents ∧
      ∀ partition, after.writers partition = none := by
  obtain ⟨⟨same,held,contents⟩,empty⟩ := finishWriters_moves valid
  refine ⟨{finishWriters writer with finished := true},?_,⟨held.open_,held.flushed,held.counted⟩,rfl,
    same.ncolumns,same.npartitions,contents,empty⟩
  simp [sharedSpillWriterFinish,unfinished]

end PgBatch.Spill
