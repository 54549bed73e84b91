import PgBatch.Sources.CompressedPrune
import PgBatch.Sources.Filter

/-! The scan of a compressed relation (`pg_batch_compressed_scan_next`): a cursor over
groups, stored batches and rows, which publishes one window at a time. -/
namespace PgBatch.Compressed
open Sources Scan Expr Words Results

inductive SourceScanMode where
  | batch | prune | filter
deriving DecidableEq, Repr

/-- `CompressedScan`; `active` is the window that its reader has not released. -/
structure CompressedScan where
  relation : CompressedRelation
  maxRows : Nat
  sourceAttnums : List Nat
  mode : SourceScanMode
  quals : List SourceQual
  groupIndex : Nat
  batchIndex : Nat
  batchRow : Nat
  groupReady : Bool
  pruneQualsReady : Bool
  active : Option Window

def compressedErrors : WindowErrors where
  outOfRange := fun column => s!"pg_batch column {column} is out of range"
  unknown := fun column => s!"pg_batch column {column} is out of range"
  unprepared := fun column => s!"pg_batch column {column} has not been prepared"

/-- What `begin_scan` reads of a plan: a condition that filters, or prunes, or both. -/
structure SourceSpec (κ : Type) where
  filterExpr : Option κ
  attnum : Nat
  op : Int4Op
  scalarExpr : Option Node
  prunable : Bool

section Begin
variable {κ : Type} (conditions : Conditions κ)

/-- One turn of the loop of `begin_scan`, from `palloc0_array`. -/
def beginQual (sourceAttnums : List Nat) (spec : SourceSpec κ) : Except String SourceQual := do
  let expr ← match spec.filterExpr with
    | none => .ok none
    | some qual => (beginSourceQual conditions sourceAttnums qual).map some
  .ok ⟨expr,spec.prunable,spec.attnum,spec.op,spec.scalarExpr,some 0#32⟩

def beginScan (relation : CompressedRelation) (maxRows : Nat) (sourceAttnums : List Nat) (mode : SourceScanMode)
    (specs : List (SourceSpec κ)) : Except String CompressedScan := do
  let quals ← specs.mapM (beginQual conditions sourceAttnums)
  .ok ⟨relation,maxRows,sourceAttnums,mode,quals,0,0,0,false,false,none⟩

end Begin

/-- `rescan`. -/
def rescan (scan : CompressedScan) : CompressedScan :=
  {scan with groupIndex := 0, batchIndex := 0, batchRow := 0, groupReady := false, pruneQualsReady := false}

/-- `release_batch`. -/
def releaseBatch (scan : CompressedScan) : CompressedScan :=
  {scan with active := none}

def unknownAttribute : String := "access beyond the columns of a batch"

/-- The column of an attribute, over the rows of the window. -/
def decodeColumn (ncolumns : Nat) (batch : CompressedBatch) (start nrows attnum : Nat) : Except String ArrowArray :=
  if 0 < attnum ∧ attnum ≤ ncolumns then .ok (arrowColumn batch attnum start nrows) else .error unknownAttribute

def notReleased : String := "Assert (scan->active == NULL)"

/-- `load_batch`. -/
def loadBatch (scan : CompressedScan) (batch : CompressedBatch) (start nrows : Nat) : Except String Window :=
  if scan.active.isSome then .error notReleased
  else .ok (openWindow scan.sourceAttnums (decodeColumn scan.relation.ncolumns batch start nrows) nrows)

def endBatch (group : StorageGroup) : Nat :=
  group.firstBatch + group.nbatches

/-- The statistics rule a group out. -/
def skipsGroup (mode : SourceScanMode) (quals : List SourceQual) (group : StorageGroup) : Bool :=
  mode ≠ .batch && groupMayMatch group quals ≠ .match_

/-- The part of a turn that runs once for a group. -/
def enterGroup (scan : CompressedScan) (group : StorageGroup) : CompressedScan :=
  if scan.groupReady then scan
  else if skipsGroup scan.mode scan.quals group then
    {scan with groupReady := true, batchIndex := endBatch group, batchRow := 0}
  else {scan with groupReady := true}

/-- Behind the rows of a window: the next row of the stored batch, or the next batch. -/
def advance (scan : CompressedScan) (stored : CompressedBatch) (nrows : Nat) : CompressedScan :=
  if scan.batchRow + nrows = stored.nrows then {scan with batchIndex := scan.batchIndex + 1, batchRow := 0}
  else {scan with batchRow := scan.batchRow + nrows}

inductive Turn where
  | again
  | published (window : Window)
  | ended

def unknownBatch : String := "access beyond the batches of a relation"

section Next
variable (source : Source)

/-- `filter_batch`. -/
def filterBatch (quals : List SourceQual) (window : Window) : Except String (List SourceQual × Window) :=
  filterWindow compressedErrors source SourceQual.expr (fun qual expr => {qual with expr := some expr}) quals window

/-- The conditions run in filter mode only. -/
def filterLoaded (scan : CompressedScan) (window : Window) : Except String (List SourceQual × Window) :=
  if scan.mode = .filter then filterBatch source scan.quals window else .ok (scan.quals,window)

/-- A window with no row left is released. -/
def publishLoaded (scan : CompressedScan) (quals : List SourceQual) (window : Window) : CompressedScan × Turn :=
  if window.selection.words 0 = 0#64 then ({scan with quals := quals, active := none},.again)
  else ({scan with quals := quals, active := some window},.published window)

/-- `nrows` of the next window. -/
def nextRows (scan : CompressedScan) (stored : CompressedBatch) : Nat :=
  min (batchSize scan.maxRows) (stored.nrows - scan.batchRow)

/-- The part of a turn that takes the next rows of a stored batch. -/
def takeWindow (scan : CompressedScan) (stored : CompressedBatch) : Except String (CompressedScan × Turn) := do
  let window ← loadBatch scan stored scan.batchRow (nextRows scan stored)
  let (quals,window) ← filterLoaded source (advance scan stored (nextRows scan stored)) window
  .ok (publishLoaded (advance scan stored (nextRows scan stored)) quals window)

/-- One turn of the loop of `pg_batch_compressed_scan_next`. -/
def scanTurn (scan : CompressedScan) : Except String (CompressedScan × Turn) :=
  match scan.relation.groups[scan.groupIndex]? with
  | none => .ok (scan,.ended)
  | some group =>
    if (enterGroup scan group).batchIndex < endBatch group then
      match scan.relation.batches[(enterGroup scan group).batchIndex]? with
      | none => .error unknownBatch
      | some stored => takeWindow source (enterGroup scan group) stored
    else .ok ({enterGroup scan group with groupIndex := scan.groupIndex + 1, groupReady := false},.again)

def outOfRounds : String := "the cursor does not come to an end"

def scanLoop : Nat → CompressedScan → Except String (CompressedScan × Option Window)
  | 0,_ => .error outOfRounds
  | rounds + 1,scan => do
    let (scan,turn) ← scanTurn source scan
    match turn with
    | .again => scanLoop rounds scan
    | .published window => .ok (scan,some window)
    | .ended => .ok (scan,none)

def prepareQual (params : Params) (qual : SourceQual) : Except String SourceQual :=
  match qual.scalarExpr with
  | none => .ok qual
  | some scalar => do
    let value ← evalScalar params scalar
    .ok {qual with scalar := value}

def preparePruneQuals (scan : CompressedScan) : Except String CompressedScan := do
  let quals ← scan.quals.mapM (prepareQual source.params)
  .ok {scan with quals := quals, pruneQualsReady := true}

/-- The scalars are evaluated once, before the first group. -/
def readyScan (scan : CompressedScan) : Except String CompressedScan :=
  if scan.pruneQualsReady then .ok scan else preparePruneQuals source scan

/-- Every turn leaves a group or takes at least one row. -/
def CompressedRelation.rounds (relation : CompressedRelation) : Nat :=
  relation.groups.length + (relation.batches.map CompressedBatch.nrows).sum + 1

/-- `pg_batch_compressed_scan_next`. -/
def scanNext (scan : CompressedScan) : Except String (CompressedScan × Option Window) := do
  let scan ← readyScan source scan
  scanLoop source scan.relation.rounds scan

/-- The calls of a whole scan, whose reader releases each window before the next call. -/
inductive Calls : CompressedScan → List Window → CompressedScan → Prop
  | ended (before after) (ran : scanNext source before = .ok (after,none)) : Calls before [] after
  | window (before middle after window windows) (ran : scanNext source before = .ok (middle,some window))
      (rest : Calls (releaseBatch middle) windows after) : Calls before (window :: windows) after

/-- The states that calls, releases and rescans lead to. -/
inductive Reached (begun : CompressedScan) : CompressedScan → Prop
  | begun : Reached begun begun
  | next (before after result) (reached : Reached begun before) (ran : scanNext source before = .ok (after,result)) :
      Reached begun after
  | release (before) (reached : Reached begun before) : Reached begun (releaseBatch before)
  | rescan (before) (reached : Reached begun before) : Reached begun (rescan before)

end Next

end PgBatch.Compressed
