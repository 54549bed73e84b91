import PgBatch.Library.Words
import Mathlib.Logic.Function.Basic
import Mathlib.Logic.Relation

/-! Who holds a batch. Bindings and batches are two sets of objects that point at
each other; `bridge/bridge.c` publishes, finishes, clears and detaches, and hands
out row views that are checked against the generation of their batch. -/
namespace PgBatch.Bridge
open Words
variable {β κ : Type}

/-- `PgBatchOps`; of its callbacks only whether they are there. -/
structure BatchOps where
  abiVersion : Nat
  structSize : Nat
  getDatumColumn : Bool
  release : Bool
deriving DecidableEq, Repr

/-- `PgBatchSelection`, as a source fills it in. -/
structure RawSelection where
  nrows : Int
  nwords : Int
  words : Option (Nat → BitVec 64)

structure Batch where
  abiVersion : Nat
  structSize : Nat
  selection : RawSelection
  ops : Option BatchOps
  generation : BitVec 64

structure Binding (κ : Type) where
  maxRows : Int
  batch : Option κ
  validatedOps : Option BatchOps
  requestSealed : Bool
  finished : Bool

/-- The bridge: a detached binding is gone. -/
structure State (β κ : Type) where
  bindings : β → Option (Binding κ)
  batches : κ → Batch
  nextBatchGeneration : BitVec 64

/-- `PG_BATCH_ABI_VERSION` and `PG_BATCH_OPS_ABI_VERSION`. -/
def abiVersion : Nat := 1

/-- `PG_BATCH_MIN_SIZE`, `PG_BATCH_OPS_MIN_SIZE`, the size of `PgBatchOps` through
`release`, and `PG_BATCH_ROW_VIEW_MIN_SIZE`. -/
def minSize : Nat := 64
def opsMinSize : Nat := 24
def opsReleaseSize : Nat := 48
def rowViewMinSize : Nat := 48

def validateAbi (version structSize expectedVersion : Nat) (what : String) (requiredSize : Nat) : Except String Unit :=
  if version ≠ expectedVersion ∨ structSize < requiredSize then .error s!"incompatible {what} ABI" else .ok ()

/-- `pg_batch_selection_contains`. -/
def RawSelection.contains (selection : RawSelection) (row : Nat) : Bool :=
  selection.words.elim false fun words => (words (row / 64)).getLsbD (row % 64)

/-- The checks of `publish_batch` on the batch itself. -/
def checkBatch (binding : Binding κ) (batch : Batch) : Except String Unit := do
  validateAbi batch.abiVersion batch.structSize abiVersion "batch" minSize
  match batch.ops, batch.selection.words with
  | some ops, some words =>
    let selection := batch.selection
    if selection.nrows ≤ 0 ∨ selection.nwords ≠ (selection.nrows + 63) / 64 then
      .error "pg_batch source published an invalid batch"
    else if batch.generation ≠ 0#64 then .error "pg_batch source published a batch that is already active"
    else if 0 < binding.maxRows ∧ binding.maxRows < selection.nrows then
      .error "pg_batch source exceeded the requested batch size"
    else if selection.nrows % 64 ≠ 0 ∧
        words (selection.nwords - 1).toNat &&& (BitVec.allOnes 64 <<< (selection.nrows % 64).toNat) ≠ 0#64 then
      .error "pg_batch source selected rows beyond the end of its batch"
    else if binding.validatedOps = some ops then .ok ()
    else do
      validateAbi ops.abiVersion ops.structSize abiVersion "batch operations" opsMinSize
      if ops.getDatumColumn then .ok () else .error "pg_batch source must provide Datum materialization"
  | _, _ => .error "pg_batch source published an invalid batch"

/-- `next_batch_generation++`, once more when the counter has wrapped to zero. -/
def nextGeneration (next : BitVec 64) : Except String (BitVec 64 × BitVec 64) :=
  if next ≠ 0#64 then .ok (next,next + 1#64)
  else if next + 1#64 ≠ 0#64 then .ok (next + 1#64,next + 1#64 + 1#64)
  else .error "pg_batch generation counter wrapped around"

section Operations
variable [DecidableEq β] [DecidableEq κ]

def publishBatch (state : State β κ) (id : β) (binding : Binding κ) (batch : Option κ) :
    Except String (State β κ) :=
  if binding.batch.isSome then
    .error "pg_batch source published a new batch before clearing the previous one"
  else match batch with
    | none => .error "pg_batch source published an invalid batch"
    | some key => do
      let batch := state.batches key
      checkBatch binding batch
      let (generation,next) ← nextGeneration state.nextBatchGeneration
      .ok { bindings := Function.update state.bindings id (some {binding with
              batch := some key, validatedOps := batch.ops, requestSealed := true, finished := false})
            batches := Function.update state.batches key {batch with generation := generation}
            nextBatchGeneration := next }

/-- `release_batch`, with the batch whose `release` callback it calls. -/
def releaseBatch (state : State β κ) (id : β) (binding : Binding κ) : State β κ × Option κ :=
  match binding.batch with
  | none => (state,none)
  | some key =>
    let batch := state.batches key
    ({state with
        bindings := Function.update state.bindings id (some {binding with batch := none, finished := false})
        batches := Function.update state.batches key {batch with generation := 0#64}},
      if batch.ops.elim false fun ops => decide (opsReleaseSize ≤ ops.structSize) && ops.release then some key
      else none)

def finish (state : State β κ) (id : β) (binding : Binding κ) : Except String (State β κ) :=
  match binding.batch with
  | none => .error "pg_batch cannot finish a slot without an active batch"
  | some key =>
    if binding.finished then .error "pg_batch cannot finish a slot without an active batch"
    else .ok {state with
      bindings := Function.update state.bindings id (some {binding with finished := true})
      batches := Function.update state.batches key {state.batches key with generation := 0#64}}

def clear (state : State β κ) (id : β) (binding : Binding κ) : State β κ × Option κ :=
  releaseBatch state id binding

def detachBinding (state : State β κ) (id : β) (binding : Binding κ) : State β κ × Option κ :=
  let (state,released) := releaseBatch state id binding
  ({state with bindings := Function.update state.bindings id none},released)

end Operations

def selectRow (state : State β κ) (binding : Binding κ) (row : Int) : Except String Unit :=
  match binding.batch with
  | none => .error s!"pg_batch cannot select row {row}"
  | some key =>
    let selection := (state.batches key).selection
    if binding.finished ∨ row < 0 ∨ selection.nrows ≤ row ∨ selection.contains row.toNat = false then
      .error s!"pg_batch cannot select row {row}"
    else .ok ()

/-- `PgBatchRowView`; `slot` is the binding that it was taken from. -/
structure RowView (β κ : Type) where
  structSize : Nat
  slot : β
  batch : Option κ
  generation : BitVec 64

/-- `get_row_view`, filling in a view of a given size. -/
def getRowView (state : State β κ) (id : β) (binding : Binding κ) (structSize : Nat) :
    Except String (RowView β κ) :=
  if structSize < rowViewMinSize then .error "pg_batch received an incompatible row view"
  else match binding.batch with
    | none => .error "pg_batch binding has no active batch"
    | some key =>
      if binding.finished then .error "pg_batch binding has no active batch"
      else .ok ⟨structSize,id,some key,(state.batches key).generation⟩

/-- `pg_batch_row_view_select`: the slot in which the row is made visible. -/
def rowViewSelect (state : State β κ) (view : RowView β κ) (row : Int) : Except String β :=
  match view.batch with
  | none => .error s!"pg_batch cannot select row {row}"
  | some key =>
    let batch := state.batches key
    if view.structSize < rowViewMinSize ∨ view.generation = 0#64 ∨ batch.generation ≠ view.generation ∨ row < 0 ∨
        batch.selection.nrows ≤ row ∨ batch.selection.contains row.toNat = false then
      .error s!"pg_batch cannot select row {row}"
    else .ok view.slot

/-- A binding holds a batch that it has not finished. -/
def State.Active (state : State β κ) (id : β) (key : κ) : Prop :=
  ∃ binding, state.bindings id = some binding ∧ binding.batch = some key ∧ binding.finished = false

/-! Runs. Publications are numbered in the order in which they succeed. -/

/-- A call of a `release` callback: the publication it ends, and whether the batch
was then held unfinished by no other binding. -/
structure ReleaseCall where
  publication : Nat
  alone : Prop

/-- The bridge with the history that its properties are about. -/
structure System (β κ : Type) where
  state : State β κ
  published : Nat
  publication : β → Nat
  releases : List ReleaseCall
  views : List (RowView β κ × Nat)

inductive Action (β κ : Type) where
  | publish (id : β) (key : κ)
  | selectRow (id : β) (row : Int)
  | getRowView (id : β) (structSize : Nat)
  | finish (id : β)
  | clear (id : β)
  | detach (id : β)
  | touch (key : κ) (selection : RawSelection)

/-- The record of a `release` callback that a clear or detach calls. -/
def System.released (system : System β κ) (id : β) (key : Option κ) : List ReleaseCall :=
  match key with
  | none => system.releases
  | some key => ⟨system.publication id,∀ other, other ≠ id → ¬ system.state.Active other key⟩ :: system.releases

section Steps
variable [DecidableEq β] [DecidableEq κ]

/-- A step that is not rejected. `touch` is what sources and consumers do to the rows
of a batch between the calls. -/
inductive Step (before : System β κ) : Action β κ → System β κ → Prop
  | publish {id : β} {key : κ} {binding : Binding κ} {state : State β κ}
      (attached : before.state.bindings id = some binding)
      (ran : publishBatch before.state id binding (some key) = .ok state) :
      Step before (.publish id key) {before with
        state := state
        published := before.published + 1
        publication := Function.update before.publication id (before.published + 1)}
  | selectRow {id : β} {row : Int} {binding : Binding κ} (attached : before.state.bindings id = some binding)
      (ran : Bridge.selectRow before.state binding row = .ok ()) : Step before (.selectRow id row) before
  | getRowView {id : β} {structSize : Nat} {binding : Binding κ} {view : RowView β κ}
      (attached : before.state.bindings id = some binding)
      (ran : Bridge.getRowView before.state id binding structSize = .ok view) :
      Step before (.getRowView id structSize) {before with views := (view,before.publication id) :: before.views}
  | finish {id : β} {binding : Binding κ} {state : State β κ} (attached : before.state.bindings id = some binding)
      (ran : Bridge.finish before.state id binding = .ok state) :
      Step before (.finish id) {before with state := state}
  | clear {id : β} {binding : Binding κ} (attached : before.state.bindings id = some binding) :
      Step before (.clear id) {before with
        state := (Bridge.clear before.state id binding).1
        releases := before.released id (Bridge.clear before.state id binding).2}
  | detach {id : β} {binding : Binding κ} (attached : before.state.bindings id = some binding) :
      Step before (.detach id) {before with
        state := (detachBinding before.state id binding).1
        releases := before.released id (detachBinding before.state id binding).2}
  | touch (key : κ) (selection : RawSelection) :
      Step before (.touch key selection) {before with state := {before.state with
        batches := Function.update before.state.batches key {before.state.batches key with selection := selection}}}

/-- Fresh bindings and batches, before the first publish. -/
structure Started (system : System β κ) : Prop where
  bindings : ∀ id binding, system.state.bindings id = some binding → binding.batch = none
  batches : ∀ key, (system.state.batches key).generation = 0#64
  next : system.state.nextBatchGeneration = 1#64
  published : system.published = 0
  releases : system.releases = []
  views : system.views = []

/-- Any sequence of steps. -/
abbrev Reached (start : System β κ) : System β κ → Prop :=
  Relation.ReflTransGen (fun before after => ∃ action, Step before action after) start

end Steps

end PgBatch.Bridge
