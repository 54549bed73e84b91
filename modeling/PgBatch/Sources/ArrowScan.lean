import PgBatch.Library.Cursor
import PgBatch.Kernels.SelectionWalk
import PgBatch.Sources.Filter

/-! The scan of a foreign table over an Arrow stream (`examples/arrow_fdw/scan.c`): records
are loaded one after the other and cut into windows, which a reader of batches takes whole
and the row path one row at a time. -/
namespace PgBatch.ArrowFdw
open Sources Scan Expr Results

/-- A record batch as nanoarrow decodes it: an array for each column of the table. -/
structure RecordBatch where
  length : Nat
  columns : Nat → ArrowArray

/-- `PgBatchFdwScan`. `left` are the messages that its reader has not come to, and `active`
is the window that was not released yet. -/
structure FdwScan where
  natts : Nat
  columnPruning : Bool
  maxRows : Nat
  sourceAttnums : List Nat
  file : List RecordBatch
  left : List RecordBatch
  record : Option RecordBatch
  recordLength : Nat
  recordOffset : Nat
  quals : List BatchQual
  active : Option Window
  scalarRow : Int

def fdwErrors : WindowErrors where
  outOfRange := fun column => s!"pg_batch_fdw compact column {column} is out of range"
  unknown := fun column => s!"pg_batch_fdw column {column} has not been prepared"
  unprepared := fun column => s!"pg_batch_fdw column {column} has not been prepared"

/-! Records. -/

/-- `decode_column`. -/
def decodeColumn (natts : Nat) (record : RecordBatch) (attnum : Nat) : Except String ArrowArray :=
  if 0 < attnum ∧ attnum ≤ natts then .ok (record.columns (attnum - 1))
  else .error s!"pg_batch_fdw column {attnum} is out of range"

/-- `release_record`. -/
def releaseRecord (scan : FdwScan) : FdwScan :=
  {scan with record := none, recordLength := 0, recordOffset := 0}

/-- The column that `load_record` takes the length of a record from. -/
def lengthAttnum (scan : FdwScan) : Nat :=
  match scan.quals,scan.sourceAttnums with
  | qual :: _,attnums => attnums.getD qual.column 0
  | [],attnum :: _ => attnum
  | [],[] => 1

def checkLength (column : ArrowArray) : Except String Nat :=
  if 2 ^ 31 ≤ column.length then .error "Arrow record batch is too large" else .ok column.length

/-- Without column pruning all columns are decoded at once. -/
def decodeAhead (scan : FdwScan) (record : RecordBatch) : Except String Unit :=
  if scan.columnPruning then .ok ()
  else (List.range scan.natts).foldlM (fun _ index => (decodeColumn scan.natts record (index + 1)).map fun _ => ()) ()

/-- `load_record`, which says whether there was one. -/
def loadRecord (scan : FdwScan) : Except String (FdwScan × Bool) :=
  match scan.left with
  | [] => .ok (releaseRecord scan,false)
  | record :: left => do
    let column ← decodeColumn scan.natts record (lengthAttnum scan)
    let length ← checkLength column
    decodeAhead scan record
    .ok ({scan with left := left, record := some record, recordLength := length, recordOffset := 0},true)

/-! Windows. -/

/-- What `prepare_column` makes of the array of a record. -/
def windowArray (source : ArrowArray) (start nrows : Nat) : ArrowArray :=
  {source with length := nrows, offset := source.offset + start}

def decodeWindow (natts : Nat) (record : RecordBatch) (start nrows attnum : Nat) : Except String ArrowArray := do
  let source ← decodeColumn natts record attnum
  .ok (windowArray source start nrows)

inductive Turn where
  | again
  | published (window : Window)
  | ended

/-- `release_batch`. -/
def releaseBatch (scan : FdwScan) : FdwScan :=
  {scan with active := none}

/-- `nrows` of the next window. -/
def nextRows (scan : FdwScan) : Nat :=
  min (batchSize scan.maxRows) (scan.recordLength - scan.recordOffset)

def nextWindow (scan : FdwScan) (record : RecordBatch) : Window :=
  openWindow scan.sourceAttnums (decodeWindow scan.natts record scan.recordOffset (nextRows scan)) (nextRows scan)

/-- The end of a turn: a window with no row left is not published. -/
def finishWindow (scan : FdwScan) (quals : List BatchQual) (window : Window) : FdwScan × Turn :=
  if window.selection.words 0 = 0#64 then
    ({scan with quals := quals, recordOffset := scan.recordOffset + nextRows scan, active := none},.again)
  else
    ({scan with quals := quals, recordOffset := scan.recordOffset + nextRows scan, active := some window},
      .published window)

def lostRecord : String := "access beyond the columns of a released record"

def outOfRounds : String := "the cursor does not come to an end"

section Next
variable (source : Source)

/-- `apply_source_quals`. -/
def applySourceQuals (quals : List BatchQual) (window : Window) : Except String (List BatchQual × Window) :=
  filterWindow fdwErrors source some (fun _ state => state) quals window

/-- The part of a turn that cuts a window. -/
def takeWindow (scan : FdwScan) (record : RecordBatch) : Except String (FdwScan × Turn) := do
  let (quals,window) ← applySourceQuals source scan.quals (nextWindow scan record)
  .ok (finishWindow scan quals window)

/-- The part of a turn that loads a record. -/
def takeRecord (scan : FdwScan) : Except String (FdwScan × Turn) := do
  let (scan,loaded) ← loadRecord scan
  .ok (scan,if loaded then .again else .ended)

/-- One turn of the loops of `pg_batch_fdw_scan_next`. -/
def scanTurn (scan : FdwScan) : Except String (FdwScan × Turn) :=
  if scan.recordLength ≤ scan.recordOffset then takeRecord scan
  else match scan.record with
  | none => .error lostRecord
  | some record => takeWindow source scan record

def scanLoop : Nat → FdwScan → Except String (FdwScan × Option Window)
  | 0,_ => .error outOfRounds
  | rounds + 1,scan => do
    let (scan,turn) ← scanTurn source scan
    match turn with
    | .again => scanLoop rounds scan
    | .published window => .ok (scan,some window)
    | .ended => .ok (scan,none)

/-- Every turn loads a record or takes at least one row. -/
def FdwScan.rounds (scan : FdwScan) : Nat :=
  scan.left.length + (scan.left.map RecordBatch.length).sum + (scan.recordLength - scan.recordOffset) + 1

/-- `pg_batch_fdw_scan_next`. -/
def scanNext (scan : FdwScan) : Except String (FdwScan × Option Window) :=
  if scan.active.isSome then .error "pg_batch_fdw batch was not released by its consumer"
  else scanLoop source scan.rounds scan

/-- `pg_batch_fdw_scan_rescan`. -/
def scanRescan (scan : FdwScan) : Except String FdwScan :=
  if scan.active.isSome then .error "pg_batch_fdw cannot rescan with an active batch"
  else .ok {releaseRecord scan with left := scan.file, scalarRow := -1}

/-! The row path. -/

/-- One turn of the loop over the attributes. -/
def fetchAttribute (row : Nat) (state : Window × List (Option (BitVec 64))) (column : Nat) :
    Except String (Window × List (Option (BitVec 64))) := do
  let (window,datum) ← getDatumColumn fdwErrors state.1 column (Words.bit 64 row)
  .ok (window,state.2 ++ [datum.cell row])

/-- A row as the slot gets it. -/
def fetchTuple (natts row : Nat) (window : Window) : Except String (Window × List (Option (BitVec 64))) :=
  (List.range natts).foldlM (fetchAttribute row) (window,[])

/-- A window that was just fetched is read from its first row. -/
def enterWindow (scan : FdwScan) : Option Window → FdwScan × Option Window
  | none => (scan,none)
  | some window => ({scan with scalarRow := -1},some window)

def foreignWindow (scan : FdwScan) : Except String (FdwScan × Option Window) :=
  match scan.active with
  | some window => .ok (scan,some window)
  | none => do
    let (scan,window) ← scanNext source scan
    .ok (enterWindow scan window)

inductive RowTurn where
  | again
  | stored (tuple : List (Option (BitVec 64)))
  | ended

def visitRow (scan : FdwScan) (window : Window) (row : Int) : Except String (FdwScan × RowTurn) :=
  if row < 0 then .ok (releaseBatch scan,.again)
  else do
    let (window,tuple) ← fetchTuple scan.natts row.toNat window
    .ok ({scan with active := some window, scalarRow := row},.stored tuple)

/-- One turn of the loop of `pg_batch_fdw_iterate_foreign_scan`. -/
def foreignTurn (scan : FdwScan) : Except String (FdwScan × RowTurn) := do
  let (scan,window) ← foreignWindow source scan
  match window with
  | none => .ok (scan,.ended)
  | some window => visitRow scan window (window.selection.nextAfter scan.scalarRow)

def foreignLoop : Nat → FdwScan → Except String (FdwScan × Option (List (Option (BitVec 64))))
  | 0,_ => .error outOfRounds
  | rounds + 1,scan => do
    let (scan,turn) ← foreignTurn source scan
    match turn with
    | .again => foreignLoop rounds scan
    | .stored tuple => .ok (scan,some tuple)
    | .ended => .ok (scan,none)

/-- `pg_batch_fdw_iterate_foreign_scan`: it leaves at most one window, and the next one has
a row. -/
def iterateForeignScan (scan : FdwScan) : Except String (FdwScan × Option (List (Option (BitVec 64)))) :=
  foreignLoop source 2 scan

/-- `pg_batch_fdw_rescan_foreign_scan`. -/
def rescanForeignScan (scan : FdwScan) : Except String FdwScan :=
  scanRescan (releaseBatch scan)

/-! Runs. -/

/-- The call of a reader that has released the window before. -/
def nextReleased (scan : FdwScan) : Except String (FdwScan × Option Window) :=
  scanNext source (releaseBatch scan)

/-- The states of a scan, whatever its readers have done with their windows. -/
inductive Reached (begun : FdwScan) : FdwScan → Prop
  | begun : Reached begun begun
  | next (before after result) (reached : Reached begun before) (ran : scanNext source before = .ok (after,result)) :
      Reached begun after
  | read (before window other) (reached : Reached begun before) (held : before.active = some window) :
      Reached begun {before with active := some other}
  | release (before) (reached : Reached begun before) : Reached begun (releaseBatch before)
  | rescan (before after) (reached : Reached begun before) (ran : scanRescan before = .ok after) : Reached begun after
  | iterate (before after result) (reached : Reached begun before)
      (ran : iterateForeignScan source before = .ok (after,result)) : Reached begun after
  | rescanForeign (before after) (reached : Reached begun before) (ran : rescanForeignScan before = .ok after) :
      Reached begun after

end Next

section Begin
variable {κ : Type} (conditions : Conditions κ) (natts : Nat) (columnPruning : Bool) (file : List RecordBatch)
  (specs : List κ)

/-- `pg_batch_fdw_scan_begin`. -/
def scanBegin (maxRows : Nat) (sourceAttnums : List Nat) : Except String FdwScan := do
  let quals ← specs.mapM (beginSourceQual conditions sourceAttnums)
  .ok ⟨natts,columnPruning,maxRows,sourceAttnums,file,file,none,0,0,quals,none,0⟩

/-- `pg_batch_fdw_begin_foreign_scan`: all attributes, and no limit. -/
def beginForeignScan : Except String FdwScan :=
  scanBegin conditions natts columnPruning file specs 0 (List.range' 1 natts)

end Begin

end PgBatch.ArrowFdw
