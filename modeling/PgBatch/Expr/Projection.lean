import PgBatch.Expr.Correct
import Mathlib.Data.Finset.Sort

/-! Projections (`expr/projection.c`): an output batch whose columns are expressions over
the bound input batch. A result is kept at three levels until the next bind: in the
expression, as the vector of a column, and as Datum rows under a row mask. -/
namespace PgBatch.Expr
open Words Results

/-- An input batch: the cells of its columns, and the vectors that it delivers, which show
these cells in the rows that are selected when it is asked. -/
structure SourceBatch where
  selection : Selection
  cells : Nat → Column
  deliver : Selection → Nat → Int4Vector
  delivers : ∀ selection column row, selection.Selected row → (deliver selection column).cell row = cells column row

/-- What an expression finds when it reads the batch now. -/
def SourceBatch.current (batch : SourceBatch) : Input :=
  ⟨batch.selection,batch.deliver batch.selection⟩

def SourceBatch.vars (batch : SourceBatch) (resolveVar : Var → Option Nat) (row : Nat) (var : Var) : Option Int4 :=
  (resolveVar var).bind fun column => batch.cells column row

/-! The buffers of an expression. -/

/-- What the buffers were allocated for: int32s, and bytes of validity. `values` tells a
buffer that was never allocated. -/
structure Storage where
  capacity : Nat
  values : Bool → Option Nat
  validity : Bool → Nat

def invalidRepalloc0 (oldsize size : Nat) : String :=
  s!"invalid repalloc0 call: oldsize {oldsize}, new size {size}"

def overrun : String := "write beyond the end of an allocation"

def validityBytes (nrows : Nat) : Nat :=
  (nrows + 7) / 8

/-- One turn of the loop of `ensure_capacity`. -/
def growBuffer (nrows : Nat) (storage : Storage) (index : Bool) : Except String Storage :=
  let grown := {storage with
    values := Function.update storage.values index (some nrows)
    validity := Function.update storage.validity index (validityBytes nrows)}
  match storage.values index with
  | none => .ok grown
  | some _ =>
    if validityBytes nrows < validityBytes storage.capacity
    then .error (invalidRepalloc0 (validityBytes storage.capacity) (validityBytes nrows))
    else .ok grown

/-- The buffers that the steps take turns in. -/
def Program.buffers (expr : Program) : List Bool :=
  if 1 < expr.steps.length then [false,true] else [false]

def ensureCapacity (expr : Program) (nrows : Nat) (storage : Storage) : Except String Storage :=
  if nrows ≤ storage.capacity then .ok storage
  else do
    let storage ← expr.buffers.foldlM (growBuffer nrows) storage
    .ok {storage with capacity := nrows}

/-- No kernel writes beyond a buffer. -/
def Storage.hasRoom (storage : Storage) (expr : Program) (nrows : Nat) : Bool :=
  expr.buffers.all fun index =>
    decide (nrows ≤ (storage.values index).getD 0) && decide (validityBytes nrows ≤ storage.validity index)

/-- `pg_batch_expr_get_int4` with its buffers: a Var alone writes to none of them. -/
def exprGetInt4 (params : Params) (expr : Program) (machine : Machine) (storage : Storage) :
    Except String (View × Machine × Storage) :=
  match machine.bound,machine.result with
  | none,_ => .error notBound
  | some _,some result => .ok (result,machine,storage)
  | some batch,none =>
    if expr.scalarValue.isNone && expr.steps.isEmpty then do
      let (view,machine) ← getInt4 params expr machine
      .ok (view,machine,storage)
    else do
      let storage ← ensureCapacity expr batch.selection.nrows storage
      if storage.hasRoom expr batch.selection.nrows then do
        let (view,machine) ← getInt4 params expr machine
        .ok (view,machine,storage)
      else .error overrun

/-! The Datum rows of an output column. -/

/-- `datum_values`, `datum_nulls` and `datum_rows`; the rows and words that they were
allocated for, unless they are NULL. -/
structure DatumCache where
  values : Nat → BitVec 64
  nulls : Nat → Bool
  rows : Nat → BitVec 64
  allocated : Option (Nat × Nat)
  capacity : Nat
  nwordCapacity : Nat

def ensureDatumCapacity (nrows nwords : Nat) (cache : DatumCache) : Except String DatumCache :=
  if nrows ≤ cache.capacity ∧ nwords ≤ cache.nwordCapacity then .ok cache
  else
    let grown := {cache with
      allocated := some (nrows,nwords)
      capacity := max cache.capacity nrows
      nwordCapacity := max cache.nwordCapacity nwords}
    match cache.allocated with
    | none => .ok {grown with rows := fun _ => 0#64}
    | some _ =>
      if nwords < cache.nwordCapacity then .error (invalidRepalloc0 (8 * cache.nwordCapacity) (8 * nwords))
      else .ok {grown with rows := fun word => if word < cache.nwordCapacity then cache.rows word else 0#64}

def DatumCache.hasRow (cache : DatumCache) (row : Nat) : Bool :=
  cache.allocated.any fun size => decide (row < size.1)

def DatumCache.hasWord (cache : DatumCache) (word : Nat) : Bool :=
  cache.allocated.any fun size => decide (word < size.2)

/-- The Datum and the mask bit of one row. -/
def storeDatum (vector : Int4Vector) (word : Nat) (cache : DatumCache) (bitno : Nat) : Except String DatumCache :=
  let row := 64 * word + bitno
  let isnull := vector.rowIsNull row
  if cache.hasRow row then .ok {cache with
    values := Function.update cache.values row (if isnull then 0#64 else int32GetDatum (vector.rowValue row))
    nulls := Function.update cache.nulls row isnull
    rows := Function.update cache.rows word (cache.rows word ||| bit 64 bitno)}
  else .error overrun

def fillWord (vector : Int4Vector) (wanted : Nat → BitVec 64) (cache : DatumCache) (word : Nat) :
    Except String DatumCache :=
  if cache.hasWord word then
    (Words.rows (wanted word &&& ~~~cache.rows word)).foldlM (storeDatum vector word) cache
  else .error overrun

/-- The loop of `projection_get_datum_column`. -/
def fillDatums (vector : Int4Vector) (wanted : Nat → BitVec 64) (nwords : Nat) (cache : DatumCache) :
    Except String DatumCache :=
  (List.range nwords).foldlM (fillWord vector wanted) cache

/-! The projection. -/

/-- `ProjectionColumn`; its vector is there when `vector_ready` is set. -/
structure ProjectionColumn where
  expr : Program
  machine : Machine
  storage : Storage
  vector : Option View
  cache : DatumCache

structure Projection where
  input : Option SourceBatch
  columns : List ProjectionColumn

def ProjectionColumn.empty (expr : Program) : ProjectionColumn where
  expr := expr
  machine := ⟨none,⟨fun _ _ => 0#32,fun _ _ => false⟩,none⟩
  storage := ⟨0,fun _ => none,fun _ => 0⟩
  vector := none
  cache := ⟨fun _ => 0#64,fun _ => false,fun _ => 0#64,none,0,0⟩

/-- `pg_batch_expr_projection_create`. -/
def projectionCreate (nodes : List Node) (resolveVar : Var → Option Nat) : Except String Projection := do
  let exprs ← nodes.mapM fun node => compileInt4 node resolveVar
  .ok ⟨none,exprs.map .empty⟩

def projectionOutOfRange (column : Nat) : String :=
  s!"pg_batch projection column {column + 1} is out of range"

/-- `prepare_one`. The expression reads the batch that it is bound to, with the selection
that the batch has now. -/
def prepareOne (params : Params) (projection : Projection) (column : Nat) : Except String Projection :=
  match projection.columns[column]? with
  | none => .error (projectionOutOfRange column)
  | some output =>
    if output.vector.isSome then .ok projection
    else do
      let (view,machine,storage) ← exprGetInt4 params output.expr
        {output.machine with bound := projection.input.map SourceBatch.current} output.storage
      let output := {output with machine := machine, storage := storage, vector := some view}
      .ok {projection with columns := projection.columns.set column output}

/-- `output->vector`, as its pointers show it. -/
def ProjectionColumn.int4 (output : ProjectionColumn) : Option Int4Vector :=
  output.vector.map fun view => view.vector output.machine.buffers

def projectionPrepareColumns (params : Params) (projection : Projection) (columns : Finset Nat) :
    Except String Projection :=
  columns.sort.foldlM (prepareOne params) projection

def projectionGetInt4 (params : Params) (projection : Projection) (column : Nat) :
    Except String (Projection × Option Int4Vector) := do
  let projection ← prepareOne params projection column
  .ok (projection,(projection.columns[column]?).bind ProjectionColumn.int4)

/-- `projection_get_datum_column`. -/
def projectionGetDatumColumn (params : Params) (projection : Projection) (column : Nat) (wanted : Nat → BitVec 64) :
    Except String (Projection × Option Int4Vector) := do
  let projection ← prepareOne params projection column
  match projection.input,projection.columns[column]? with
  | some input,some output => match output.int4 with
    | some vector => do
      let cache ← ensureDatumCapacity input.selection.nrows input.selection.nwords output.cache
      let cache ← fillDatums vector wanted input.selection.nwords cache
      .ok ({projection with columns := projection.columns.set column {output with cache := cache}},
        some (.datum cache.values cache.nulls))
    | none => .error notBound
  | _,_ => .error notBound

def bindColumn (input : SourceBatch) (output : ProjectionColumn) : ProjectionColumn :=
  {output with
    vector := none
    machine := bind output.machine input.current
    cache := {output.cache with
      rows := fun word => if word < output.cache.nwordCapacity then 0#64 else output.cache.rows word}}

/-- `pg_batch_expr_projection_bind`. -/
def projectionBind (projection : Projection) (input : SourceBatch) : Projection :=
  ⟨some input,projection.columns.map (bindColumn input)⟩

/-- A call of the projection, or its consumer removing rows from the selection, whose words
it shares with its input. -/
inductive ProjectionCall where
  | bind (input : SourceBatch)
  | shrink (words : Nat → BitVec 64)
  | prepareColumns (columns : Finset Nat)
  | getInt4 (column : Nat)
  | getDatumColumn (column : Nat) (wanted : Nat → BitVec 64)

/-- A call, with the vector that it returns. -/
def projectionCall (params : Params) (projection : Projection) :
    ProjectionCall → Except String (Projection × Option Int4Vector)
  | .bind input => .ok (projectionBind projection input,none)
  | .shrink words => .ok ({projection with input := projection.input.map fun input =>
      {input with selection := {input.selection with words := words}}},none)
  | .prepareColumns columns => do
    let projection ← projectionPrepareColumns params projection columns
    .ok (projection,none)
  | .getInt4 column => projectionGetInt4 params projection column
  | .getDatumColumn column wanted => projectionGetDatumColumn params projection column wanted

/-- The selection only shrinks, and the rows that are asked for are selected. -/
def ProjectionCall.Legal (projection : Projection) : ProjectionCall → Prop
  | .bind _ => True
  | .shrink words => ∀ input, projection.input = some input → ∀ word index,
      (words word).getLsbD index = true → (input.selection.words word).getLsbD index = true
  | .prepareColumns _ | .getInt4 _ => True
  | .getDatumColumn _ wanted => ∀ input, projection.input = some input → ∀ word index,
      word < input.selection.nwords → (wanted word).getLsbD index = true → input.selection.Selected (64 * word + index)

/-- The states of a projection after calls of which none failed; `Bound` restricts the
batches that it is bound to. -/
inductive Reaches (params : Params) (Bound : SourceBatch → Prop) (fresh : Projection) : Projection → Prop
  | start : Reaches params Bound fresh fresh
  | call (before after : Projection) (call : ProjectionCall) (answer : Option Int4Vector)
      (reached : Reaches params Bound fresh before) (legal : call.Legal before)
      (bound : ∀ input, call = .bind input → Bound input)
      (ran : projectionCall params before call = .ok (after,answer)) : Reaches params Bound fresh after

end PgBatch.Expr
