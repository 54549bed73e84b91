import PgBatch.Kernels.Vector

/-! The checks of `bridge/bridge.c` on a batch that a source publishes. They are
what a consumer may rely on. -/
namespace PgBatch
open Words

/-- What a consumer reads of a `PgBatch`: its selection and its int4 columns. -/
structure InputBatch where
  selection : Selection
  column : Nat → Column

/-- `publish_batch` for a consumer that asked for at most `maxRows` rows. -/
def publishBatch (maxRows : Nat) (batch : InputBatch) : Except String Unit :=
  let selection := batch.selection
  if selection.nrows = 0 then .error "pg_batch source published an invalid batch"
  else if 0 < maxRows ∧ maxRows < selection.nrows then .error "pg_batch source exceeded the requested batch size"
  else if selection.nrows % 64 ≠ 0 ∧
      selection.words (selection.nwords - 1) &&& (BitVec.allOnes 64 <<< (selection.nrows % 64)) ≠ 0#64 then
    .error "pg_batch source selected rows beyond the end of its batch"
  else .ok ()

/-- The rows that a batch selects, each as what its columns say. -/
def InputBatch.selectedRows (batch : InputBatch) : List Column :=
  batch.selection.visits.map fun row column => batch.column column row

theorem publishBatch_small {batch : InputBatch} (published : publishBatch pgBatchSize batch = .ok ()) :
    0 < batch.selection.nrows ∧ batch.selection.nrows ≤ 64 ∧ batch.selection.nwords = 1 := by
  unfold publishBatch pgBatchSize at published
  dsimp only at published
  split at published
  · cases published
  · split at published
    · cases published
    · refine ⟨by omega,by omega,?_⟩
      unfold Selection.nwords
      omega

/-- A published batch of one word selects no row beyond its end. -/
theorem publishBatch_clear {batch : InputBatch} (published : publishBatch pgBatchSize batch = .ok ()) :
    batch.selection.word 0 = batch.selection.words 0 := by
  obtain ⟨some,small,one⟩ := publishBatch_small published
  unfold publishBatch at published
  dsimp only at published
  rw [if_neg (by omega),if_neg (by unfold pgBatchSize; omega)] at published
  apply BitVec.eq_of_getLsbD_eq
  intro index inside
  rw [getLsbD_word]
  by_cases within : index < batch.selection.nrows
  · simp [inside,within]
  · -- The bit beyond the end is one of those the check found clear.
    have partly : batch.selection.nrows % 64 = batch.selection.nrows := Nat.mod_eq_of_lt (by omega)
    have clear : batch.selection.words 0 &&& (BitVec.allOnes 64 <<< batch.selection.nrows) = 0#64 := by
      by_contra set
      rw [if_pos ⟨by omega,by rw [one,partly]; exact set⟩] at published
      cases published
    have bit := congrArg (fun word => word.getLsbD index) clear
    simp only [BitVec.getLsbD_and,BitVec.getLsbD_shiftLeft,BitVec.getLsbD_allOnes,BitVec.getLsbD_zero] at bit
    have reached : index - batch.selection.nrows < 64 := by omega
    simp only [inside,within,reached,decide_true,decide_false,Bool.not_false,Bool.and_true] at bit
    simp [within,bit]

theorem selectedRows_published {batch : InputBatch} (published : publishBatch pgBatchSize batch = .ok ()) :
    batch.selectedRows = (rows (batch.selection.words 0)).map fun row column => batch.column column row := by
  obtain ⟨_,_,one⟩ := publishBatch_small published
  simp [InputBatch.selectedRows,Selection.visits,one,publishBatch_clear published]

end PgBatch
