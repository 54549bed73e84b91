import PgBatch.Kernels.Selection
import Mathlib.Data.Finset.Basic

/-! The unary runtime (`runtime/unary.c`) over its input (`runtime/input.c`): a node
with one child, whose batches it processes in place and hands on, as batches or
row by row. -/
namespace PgBatch.Unary
open Words
variable {π δ : Type}

/-- A `PgBatch`, with what a slot shows of its rows. -/
structure Batch (δ : Type) where
  selection : Selection
  tableOid : Nat
  tid : Nat → Nat × Nat
  column : Nat → Nat → Option δ

structure Tuple (δ : Type) where
  values : List (Option δ)
  tid : Nat × Nat
  tableOid : Nat

namespace Batch

/-- One row, in the given columns. -/
def tuple (columns : List Nat) (batch : Batch δ) (row : Nat) : Tuple δ :=
  ⟨columns.map fun column => batch.column column row,batch.tid row,batch.tableOid⟩

/-- The selected rows. -/
def tuples (columns : List Nat) (batch : Batch δ) : List (Tuple δ) :=
  batch.selection.visits.map (batch.tuple columns)

/-- `pg_batch_row_count`. -/
def rowCount (batch : Batch δ) : Nat :=
  if batch.selection.nwords = 1 then popcount (batch.selection.words 0)
  else ((List.range batch.selection.nwords).map fun word => popcount (batch.selection.words word)).sum

end Batch

inductive OutputMode where
  | rows | batch
deriving DecidableEq, Repr

/-- `PgBatchRequestSpec`. -/
structure RequestSpec where
  filterColumns : Finset Nat
  projectColumns : Finset Nat
  outputMode : OutputMode
  maxRows : Nat

/-- A call of `ExecProcNode` on the child: the batches it had returned in this scan, and
whether its binding held a batch that was not finished. -/
structure Asked (δ : Type) where
  before : List (Batch δ)
  unfinished : Bool

/-- `PgBatchInput` with its child: the batches that are left of the child's scan, and
whether the child's binding holds an unfinished batch. `fetched` and `asked` are ghosts. -/
structure Input (δ : Type) where
  scan : Nat
  left : List (Batch δ)
  active : Option (Batch δ)
  unfinished : Bool
  fetched : List (Batch δ)
  asked : List (Asked δ)

def inputFetch (input : Input δ) : Input δ × Option (Batch δ) :=
  let asked := input.asked ++ [⟨input.fetched,input.unfinished⟩]
  match input.left with
  | [] => ({input with asked := asked},none)
  | batch :: rest => ({input with
      left := rest
      active := some batch
      unfinished := true
      fetched := input.fetched ++ [batch]
      asked := asked},some batch)

/-- `pg_batch_input_next`. -/
def inputNext (input : Input δ) : Except String (Input δ × Option (Batch δ)) :=
  if input.active.isSome then
    if input.unfinished then
      .error "pg_batch input requested a new batch before finishing the previous one"
    else .ok (inputFetch {input with active := none})
  else .ok (inputFetch input)

/-- `pg_batch_input_finish`. -/
def inputFinish (input : Input δ) : Except String (Input δ) :=
  match input.active with
  | none => .error "pg_batch input has no active batch"
  | some _ =>
    if input.unfinished then .ok {input with active := none, unfinished := false}
    else .error "pg_batch cannot finish a slot without an active batch"

/-- `pg_batch_input_select_row` on a row view: a finished batch has lost its generation. -/
def inputSelectRow (input : Input δ) (row : Nat) : Except String (Batch δ) :=
  match input.active with
  | none => .error "pg_batch input has no active batch"
  | some batch =>
    if !input.unfinished || decide (batch.selection.nrows ≤ row) || !batch.selection.contains row then
      .error s!"pg_batch cannot select row {row}"
    else .ok batch

/-- `pg_batch_input_copy_row`. -/
def inputCopyRow (input : Input δ) (row : Nat) (batchColumns : List Nat) : Except String (Tuple δ) := do
  let batch ← inputSelectRow input row
  .ok (batch.tuple batchColumns row)

/-- `ExecReScan` on the child, which lets go of its batch, and `pg_batch_input_rescan`. -/
def inputRescan (input : Input δ) (left : List (Batch δ)) : Input δ :=
  {input with scan := input.scan + 1, left := left, active := none, unfinished := false, fetched := []}

/-- What a `PgBatchUnaryProcess` makes of a batch; it may call `pg_batch_unary_stop`. -/
structure Processed (π δ : Type) where
  priv : π
  batch : Batch δ
  rows : Nat
  stop : Bool

/-- `PgBatchUnaryRowMode`: the child's slot, or its projection, or a copy. -/
inductive RowMode (δ : Type) where
  | inputRow (project : Batch δ → Nat → Tuple δ)
  | copyRow (batchColumns : List Nat)

/-- `PgBatchUnaryConfig`, with the child: the batches of each of its scans under a request. -/
structure Config (π δ : Type) where
  child : RequestSpec → Nat → List (Batch δ)
  childColumns : Nat
  ncolumns : Nat
  filterColumns : Finset Nat
  projectColumns : Finset Nat
  maxRows : Nat
  rowMode : RowMode δ
  process : Option (π → Batch δ → Except String (Processed π δ))

structure Stats where
  inputBatches : Nat
  inputRows : Nat
  outputRows : Nat
deriving DecidableEq, Repr

/-- `PgBatchUnary`. -/
structure State (π δ : Type) where
  input : Input δ
  request : RequestSpec
  childRequest : RequestSpec
  privateData : π
  requestForwarded : Bool
  stopped : Bool
  activeBatch : Option (Batch δ)
  nextRow : Option Nat
  stats : Stats

/-- `max_rows` of two requests, where zero sets no limit. -/
def minRows (current other : Nat) : Nat :=
  if 0 < other then if current = 0 then other else min current other else current

def forwardRequest (config : Config π δ) (state : State π δ) : Except String (State π δ) :=
  if config.childColumns ≠ config.ncolumns then
    .error s!"pg_batch cannot unary through {config.childColumns} columns as {config.ncolumns} columns"
  else
    let child := state.childRequest
    let request : RequestSpec := {
      filterColumns := child.filterColumns ∪ config.filterColumns ∪ state.request.filterColumns
      projectColumns := child.projectColumns ∪ config.projectColumns ∪ state.request.projectColumns
      outputMode := .batch
      maxRows := minRows (minRows child.maxRows config.maxRows) state.request.maxRows }
    .ok {state with
      childRequest := request
      input := {state.input with left := config.child request state.input.scan}
      requestForwarded := true}

def Config.run (config : Config π δ) (privateData : π) (batch : Batch δ) : Except String (Processed π δ) :=
  match config.process with
  | none => .ok ⟨privateData,batch,batch.rowCount,false⟩
  | some process => process privateData batch

theorem inputFetch_left {input next : Input δ} {batch : Batch δ} (fetched : inputFetch input = (next,some batch)) :
    next.left.length < input.left.length := by
  unfold inputFetch at fetched
  split at fetched
  · cases fetched
  · rename_i rest left
    cases fetched
    simp [left]

theorem inputNext_left {input next : Input δ} {batch : Batch δ} (fetched : inputNext input = .ok (next,some batch)) :
    next.left.length < input.left.length := by
  unfold inputNext at fetched
  split at fetched
  · split at fetched
    · cases fetched
    · have shorter := inputFetch_left (Except.ok.inj fetched)
      exact shorter
  · exact inputFetch_left (Except.ok.inj fetched)

theorem inputFinish_ok {input next : Input δ} (finished : inputFinish input = .ok next) :
    next = {input with active := none, unfinished := false} := by
  unfold inputFinish at finished
  split at finished
  · cases finished
  · split at finished
    · exact (Except.ok.inj finished).symm
    · cases finished

/-- `fetch_batch`. -/
def fetchBatch (config : Config π δ) (state : State π δ) : Except String (State π δ × Bool) :=
  if state.stopped then .ok (state,false)
  else match _ : inputNext state.input with
    | .error message => .error message
    | .ok (input,none) => .ok ({state with input := input},false)
    | .ok (input,some batch) =>
      match config.run state.privateData batch with
      | .error message => .error message
      | .ok done =>
        let processed : State π δ := {state with
          input := {input with active := some done.batch}
          privateData := done.priv
          stopped := state.stopped || done.stop
          stats := {state.stats with
            inputBatches := state.stats.inputBatches + 1
            inputRows := state.stats.inputRows + batch.rowCount}}
        if done.rows = 0 then
          match _ : inputFinish processed.input with
          | .error message => .error message
          | .ok input => fetchBatch config {processed with input := input}
        else .ok ({processed with
          activeBatch := some done.batch
          nextRow := done.batch.selection.next 0
          stats := {processed.stats with outputRows := processed.stats.outputRows + done.rows}},true)
termination_by state.input.left.length
decreasing_by
  rename_i fetched _ finished
  have shorter := inputNext_left fetched
  rw [inputFinish_ok finished]
  exact shorter

inductive Result (δ : Type) where
  | empty
  | batch (batch : Batch δ)
  | row (tuple : Tuple δ)

def Result.isEmpty : Result δ → Bool
  | .empty => true
  | .batch _ | .row _ => false

def execBatch (config : Config π δ) (state : State π δ) : Except String (State π δ × Result δ) := do
  let (state,more) ← fetchBatch config {state with activeBatch := none}
  if !more then .ok (state,.empty)
  else match state.activeBatch, state.nextRow with
    | some batch, some row => do
      let _ ← inputSelectRow state.input row
      .ok (state,.batch batch)
    | _, _ => .error "pg_batch cannot select row -1"

def takeRow (config : Config π δ) (input : Input δ) (row : Nat) : Except String (Tuple δ) :=
  match config.rowMode with
  | .copyRow batchColumns => inputCopyRow input row batchColumns
  | .inputRow project => do
    let batch ← inputSelectRow input row
    .ok (project batch row)

theorem fetchBatch_eq (config : Config π δ) (state : State π δ) :
    fetchBatch config state =
      if state.stopped then .ok (state,false)
      else match inputNext state.input with
        | .error message => .error message
        | .ok (input,none) => .ok ({state with input := input},false)
        | .ok (input,some batch) =>
          match config.run state.privateData batch with
          | .error message => .error message
          | .ok done =>
            let processed : State π δ := {state with
              input := {input with active := some done.batch}
              privateData := done.priv
              stopped := state.stopped || done.stop
              stats := {state.stats with
                inputBatches := state.stats.inputBatches + 1
                inputRows := state.stats.inputRows + batch.rowCount}}
            if done.rows = 0 then
              match inputFinish processed.input with
              | .error message => .error message
              | .ok input => fetchBatch config {processed with input := input}
            else .ok ({processed with
              activeBatch := some done.batch
              nextRow := done.batch.selection.next 0
              stats := {processed.stats with outputRows := processed.stats.outputRows + done.rows}},true) := by
  rw [fetchBatch]
  congr 1
  split <;> rename_i result <;> simp only [result]
  split
  · rfl
  · congr 1
    split <;> rename_i finished <;> simp only [finished]

theorem fetchBatch_left {config : Config π δ} {state next : State π δ}
    (fetched : fetchBatch config state = .ok (next,true)) : next.input.left.length < state.input.left.length := by
  induction size : state.input.left.length using Nat.strong_induction_on generalizing state with
  | _ size_ ih =>
    subst size
    rw [fetchBatch_eq] at fetched
    split at fetched
    · cases fetched
    · split at fetched
      · cases fetched
      · cases fetched
      · rename_i input batch result
        have shorter := inputNext_left result
        split at fetched
        · cases fetched
        · rename_i done ran
          dsimp only at fetched
          split at fetched
          · split at fetched
            · cases fetched
            · rename_i finish finished
              rw [inputFinish_ok finished] at fetched
              exact Nat.lt_trans (ih _ shorter fetched rfl) shorter
          · obtain ⟨rfl,_⟩ := Prod.mk.inj (Except.ok.inj fetched)
            exact shorter

/-- The loop of `exec_row`; it goes round when the batch at hand has no row left. -/
def execRow (config : Config π δ) (state : State π δ) : Except String (State π δ × Result δ) :=
  match _ : if state.activeBatch.isSome then .ok (state,true) else fetchBatch config state with
  | .error message => .error message
  | .ok (next,false) => .ok (next,.empty)
  | .ok (next,true) =>
    match next.activeBatch, next.nextRow with
    | some batch, some row =>
      match takeRow config next.input row with
      | .error message => .error message
      | .ok tuple => .ok ({next with nextRow := batch.selection.next (row + 1)},.row tuple)
    | _, _ =>
      match _ : inputFinish next.input with
      | .error message => .error message
      | .ok input => execRow config {next with input := input, activeBatch := none}
termination_by 2 * state.input.left.length + if state.activeBatch.isSome then 1 else 0
decreasing_by
  rename_i fetched finished
  rw [inputFinish_ok finished]
  split at fetched
  · obtain ⟨rfl,_⟩ := Prod.mk.inj (Except.ok.inj fetched)
    simp_all
  · have shorter := fetchBatch_left fetched
    simp only [Option.isSome_none,Bool.false_eq_true,if_false]
    omega

/-- `pg_batch_unary_exec`. -/
def exec (config : Config π δ) (state : State π δ) : Except String (State π δ × Result δ) :=
  match if state.requestForwarded then .ok state else forwardRequest config state with
  | .error message => .error message
  | .ok state => match state.request.outputMode with
    | .batch => execBatch config state
    | .rows => execRow config state

/-- `pg_batch_unary_rescan`. -/
def rescan (config : Config π δ) (state : State π δ) : State π δ :=
  {state with
    input := inputRescan state.input (config.child state.childRequest (state.input.scan + 1))
    activeBatch := none
    nextRow := none
    stopped := false
    stats := ⟨0,0,0⟩}

/-- The state `pg_batch_unary_create` leaves, with the request its consumer sets. -/
def create (privateData : π) (request childRequest : RequestSpec) : State π δ where
  input := ⟨0,[],none,false,[],[]⟩
  request := request
  childRequest := childRequest
  privateData := privateData
  requestForwarded := false
  stopped := false
  activeBatch := none
  nextRow := none
  stats := ⟨0,0,0⟩

end PgBatch.Unary
