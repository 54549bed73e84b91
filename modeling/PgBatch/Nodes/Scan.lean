import PgBatch.Nodes.HeapSlot
import PgBatch.Expr.Correct

/-! PgBatchScan (`nodes/scan.c`): the batches of a heap, a bitmap or a source, on
which the conditions planned for it run as kernels, one condition after the other. -/
namespace PgBatch.Scan
open PgBatch.Expr Words Results

/-- `BatchQualState`; `machine` is the part of its expression that changes. -/
structure BatchQual where
  expr : Program
  machine : Machine
  column : Nat
  sourceColumn : Finset Nat
  heapColumns : Finset Nat
  exactHeapColumns : Finset Nat
  recheckOnly : Bool

/-- `resolve_scan_var`, on the Var that setrefs leaves: its place in the compact layout. -/
def resolveScanVar (sourceAttnums : List Nat) (var : Var) : Option Nat :=
  if var.varattno.toNat ∈ sourceAttnums then some (columnOf sourceAttnums var.varattno.toNat) else none

def invalidCondition : String := "pg_batch received an invalid batch condition"

def negativeMember : String := "negative bitmapset member not allowed"

/-- The buffers of an expression before its first batch. -/
def freshMachine : Machine :=
  ⟨none,⟨fun _ _ => 0#32,fun _ _ => false⟩,none⟩

section Begin
variable {κ : Type} (conditions : Conditions κ) (layout : Layout)

def beginQual (qual : κ) (recheck : Bool) : Except String BatchQual :=
  if !supportsFilter (conditions.tree qual) 0 then .error invalidCondition
  else do
    let expr ← compileFilter (conditions.tree qual) (resolveScanVar layout.sourceAttnums)
    match expr.column with
    | none => .error negativeMember
    | some column => .ok ⟨expr,freshMachine,column,{column},∅,∅,recheck⟩

/-- The first loop over the conditions, each with its flag of the list. -/
def beginQuals : List κ → List Bool → Except String (List BatchQual)
  | [],_ => .ok []
  | _ :: _,[] => .error "Assert (list_length (batch_recheck_flags) == state->nquals)"
  | qual :: quals,recheck :: flags => do
    let state ← beginQual conditions layout qual recheck
    let rest ← beginQuals quals flags
    .ok (state :: rest)

/-- What is prepared for a condition: its column, and those of later conditions that
its cursor passes. -/
def columnsAhead (column : Nat) (future : List BatchQual) : Finset Nat :=
  insert column ((future.map BatchQual.column).filter fun other =>
    layout.sourceAttnums.getD other 0 ≤ layout.sourceAttnums.getD column 0).toFinset

/-- The second loop. -/
def withHeapColumns : List BatchQual → List BatchQual
  | [] => []
  | qual :: future =>
    let columns := columnsAhead layout qual.column future
    {qual with heapColumns := columns, exactHeapColumns := columns.filter (· ∈ layout.exactFilterColumns)} ::
      withHeapColumns future

/-- `scan_begin`. -/
def scanBegin (plan : ScanPlan κ) : Except String (List BatchQual) := do
  let quals ← beginQuals conditions plan.layout plan.batchQuals plan.batchRecheckFlags
  .ok (withHeapColumns plan.layout quals)

end Begin

/-- The operations of a `PgBatch` that the node calls, in the filter phase and for
the selected rows; `getDatum` is how its slot shows one row. -/
structure BatchOps (β : Type) where
  selection : β → Selection
  store : β → Selection → β
  prepareColumns : β → Finset Nat → Except String β
  getInt4 : β → Nat → Except String (β × Int4Vector)
  getDatum : β → Nat → Nat → Except String (Option Datum)

/-- Where the batches come from, with the settings of the kernels. -/
structure Source where
  native : Bool
  mode : HeapScanMode
  params : Params
  enableSimd : Bool
  simdAvailable : Bool

/-- A run of a kernel: what was prepared for it, and the batch it found. -/
structure KernelRun (β : Type) where
  column : Nat
  columns : Finset Nat
  batch : β

section Filter
variable {β : Type} (ops : BatchOps β) (source : Source) (pageRecheck : Bool)

/-- The columns that `filter_batch` prepares for a condition. -/
def BatchQual.columns (qual : BatchQual) : Finset Nat :=
  if source.native then qual.sourceColumn
  else if source.mode = .bitmap ∧ pageRecheck = false then qual.exactHeapColumns
  else qual.heapColumns

def lostBatch : String := "pg_batch expression has no batch"

/-- `pg_batch_expr_bind` and `pg_batch_expr_apply_filter`; the expression prepares its
own column and reads it. -/
def applyQual (qual : BatchQual) (batch : β) : Except String (BatchQual × β) := do
  let batch ← ops.prepareColumns batch {qual.column}
  let (batch,vector) ← ops.getInt4 batch qual.column
  let machine ← applyFilter source.params qual.expr source.enableSimd source.simdAvailable
    (bind qual.machine ⟨ops.selection batch,fun _ => vector⟩)
  match machine.bound with
  | none => .error lostBatch
  | some bound => .ok ({qual with machine := machine},ops.store batch bound.selection)

/-- `filter_batch`, with the runs of its kernels. -/
def filterBatch : List BatchQual → β → Except String (List BatchQual × β × List (KernelRun β))
  | [],batch => .ok ([],batch,[])
  | qual :: rest,batch =>
    if !(ops.selection batch).hasRows then .ok (qual :: rest,batch,[])
    else if qual.recheckOnly && !pageRecheck then do
      let (rest,batch,runs) ← filterBatch rest batch
      .ok (qual :: rest,batch,runs)
    else do
      let columns := qual.columns source pageRecheck
      let prepared ← ops.prepareColumns batch columns
      let (qual',filtered) ← applyQual ops source qual prepared
      let (rest,batch,runs) ← filterBatch rest filtered
      .ok (qual' :: rest,batch,⟨qual.column,columns,prepared⟩ :: runs)

end Filter

/-- A page as the table AM returns it, with the tuples it found visible. -/
structure Page where
  recheck : Bool
  tuples : List HeapTuple

/-- The rows of a heap batch: the request's limit, and at most `PG_BATCH_SIZE`. -/
def batchSize (maxRows : Nat) : Nat :=
  if 0 < maxRows then min maxRows 64 else 64

theorem batchSize_pos (maxRows : Nat) : 0 < batchSize maxRows := by
  unfold batchSize
  split <;> omega

theorem batchSize_le (maxRows : Nat) : batchSize maxRows ≤ 64 := by
  unfold batchSize
  split <;> omega

/-- The batches of `next_batch` over the tuples of a page from `next_page_row` on. -/
def pageBatches (maxRows : Nat) (tuples : List HeapTuple) : List (List HeapTuple) :=
  if tuples.isEmpty then []
  else tuples.take (batchSize maxRows) :: pageBatches maxRows (tuples.drop (batchSize maxRows))
termination_by tuples.length
decreasing_by
  rename_i filled
  have := batchSize_pos maxRows
  cases tuples with
  | nil => exact absurd rfl filled
  | cons => simp only [List.length_drop,List.length_cons]; omega

/-- `pg_batch_load_batch`. -/
def loadBatch (layout : Layout) (tableOid : Nat) (tuples : List HeapTuple) : HeapSlot where
  sourceAttnums := layout.sourceAttnums
  tuples := fun row => tuples.getD row ⟨(0,0),0,fun _ => none⟩
  tableOid := tableOid
  cursors := fun _ => 0
  columns := fun _ => ⟨fun _ => 0,fun _ => false,0#64⟩
  selection := ⟨min tuples.length 64,by omega,fun _ => wordMask tuples.length⟩

/-- The batches of a heap scan, each with its `page_recheck`. -/
def heapBatches (layout : Layout) (mode : HeapScanMode) (tableOid maxRows : Nat) (pages : List Page) :
    List (Bool × HeapSlot) :=
  pages.flatMap fun page => (pageBatches maxRows page.tuples).map fun tuples =>
    (decide (mode = .bitmap) && page.recheck,loadBatch layout tableOid tuples)

/-- `PgBatchOps` of a heap batch. -/
def heapOps : BatchOps HeapSlot where
  selection := HeapSlot.selection
  store := fun slot selection => {slot with selection := selection}
  prepareColumns := fun slot columns => heapPrepareColumns slot columns (slot.selection.words 0) .filter
  getInt4 := fun slot column => do
    let (slot,vector) ← heapGetDatumColumn slot column (slot.selection.words 0) .filter
    .ok (slot,.datum vector.values vector.isnull)
  getDatum := fun slot column row => do
    let (_,vector) ← heapGetDatumColumn slot column (bit 64 row) .project
    .ok (vector.cell row)

/-- The node: the batches that its source has yet to deliver. -/
structure ScanState (β : Type) where
  quals : List BatchQual
  left : List (Bool × β)
  runs : List (KernelRun β)

section Exec
variable {β : Type} (ops : BatchOps β) (source : Source)

/-- The loop of `scan_exec`: the next batch that has a row left. -/
def scanLoop : List (Bool × β) → List BatchQual → List (KernelRun β) → Except String (ScanState β × Option β)
  | [],quals,runs => .ok (⟨quals,[],runs⟩,none)
  | (pageRecheck,batch) :: left,quals,runs => do
    let (quals,batch,more) ← filterBatch ops source pageRecheck quals batch
    if (ops.selection batch).rowCount = 0 then scanLoop left quals (runs ++ more)
    else .ok (⟨quals,left,runs ++ more⟩,some batch)

def scanExec (state : ScanState β) : Except String (ScanState β × Option β) :=
  scanLoop ops source state.left state.quals state.runs

/-- The calls of a whole scan: the batches up to the end. -/
inductive Calls : ScanState β → List β → ScanState β → Prop
  | ended (before after) (ran : scanExec ops source before = .ok (after,none)) : Calls before [] after
  | batch (before middle after batch batches) (ran : scanExec ops source before = .ok (middle,some batch))
      (rest : Calls middle batches after) : Calls before (batch :: batches) after

end Exec

end PgBatch.Scan
