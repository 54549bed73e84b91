import PgBatch.Expr.Tree

/-! The compiler and the executor of `expr/expr.c`. A tree is unrolled around its
single Var into a chain of steps, each with one scalar operand; the two buffers
take turns as the output of a step. -/
namespace PgBatch.Expr

/-- `ArithmeticStep`. -/
structure Step where
  op : ArithmeticOp
  scalar : Option Node
  scalarOnLeft : Bool

/-- The compiled part of `PgBatchExpr`. -/
structure Program where
  column : Option Nat
  scalarValue : Option Node
  steps : List Step
  comparisonScalar : Option Node
  comparison : Int4Op
  isFilter : Bool

/-- `palloc0_object`, with `column = -1`. -/
def Program.empty (isFilter : Bool) : Program :=
  ⟨none,none,[],none,.eq,isFilter⟩

def appendStep (expr : Program) (op : ArithmeticOp) (scalar : Option Node) (scalarOnLeft : Bool) : Program :=
  {expr with steps := expr.steps ++ [⟨op,scalar,scalarOnLeft⟩]}

def unavailable : String := "pg_batch expression input column is unavailable"

def unsupportedInt4 : String := "pg_batch received an unsupported int4 expression"

def unsupportedFilter : String := "pg_batch received an unsupported filter expression"

def invalidArithmetic : String := "pg_batch received an invalid int4 arithmetic expression"

def compileValue (resolveVar : Var → Option Nat) : Program → Node → Except String Program
  | expr,.relabel arg _ => compileValue resolveVar expr arg
  | expr,.var var => match resolveVar var with
    | none => .error unavailable
    | some column => .ok {expr with column := some column}
  | expr,.unary opfuncid opresulttype arg => match analyzeValue 0 (.unary opfuncid opresulttype arg) with
    | none => .error unsupportedInt4
    | some 0 => .ok {expr with scalarValue := some (.unary opfuncid opresulttype arg)}
    | some _ => match arithmeticOp opfuncid 1 with
      | none => .error invalidArithmetic
      | some arithmetic => do
        let expr ← compileValue resolveVar expr arg
        .ok (appendStep expr arithmetic none false)
  | expr,.binary opfuncid opresulttype left right => match analyzeValue 0 (.binary opfuncid opresulttype left right) with
    | none => .error unsupportedInt4
    | some 0 => .ok {expr with scalarValue := some (.binary opfuncid opresulttype left right)}
    | some _ => match arithmeticOp opfuncid 2 with
      | none => .error invalidArithmetic
      | some arithmetic =>
        if analyzeValue 0 left = some 1 then do
          let expr ← compileValue resolveVar expr left
          .ok (appendStep expr arithmetic (some right) false)
        else do
          let expr ← compileValue resolveVar expr right
          .ok (appendStep expr arithmetic (some left) true)
  | expr,node => match analyzeValue 0 node with
    | none => .error unsupportedInt4
    | some _ => .ok {expr with scalarValue := some node}

def compileInt4 (node : Node) (resolveVar : Var → Option Nat) : Except String Program :=
  if supportsInt4 node 0 then compileValue resolveVar (.empty false) node else .error unsupportedInt4

def compileFilter (node : Node) (resolveVar : Var → Option Nat) : Except String Program :=
  match analyzeFilter node 0,stripRelabel node with
  | some (valueArg,comparison),.binary _ _ left right =>
    let value := if valueArg = 0 then left else right
    let scalar := if valueArg = 0 then right else left
    compileValue resolveVar {Program.empty true with comparison := comparison, comparisonScalar := some scalar} value
  | _,_ => .error unsupportedFilter

/-- A bound batch: what its columns deliver. -/
structure Input where
  selection : Selection
  column : Nat → Int4Vector

def notBound : String := "pg_batch expression is not bound to a batch"

def notRequested : String := "pg_batch column 0 was not requested"

/-- `ExecEvalExpr` of a variable-free tree. -/
def evalScalar (params : Params) (node : Node) : Except String (Option Int4) :=
  evaluate params (fun _ => none) node

def buildScalarVector (params : Params) (node : Node) (batch : Input) (buffers : Buffers) : Except String Buffers :=
  let buffers := buffers.clear false batch.selection.nrows
  if batch.selection.hasRows then do
    let value ← evalScalar params node
    match value with
    | none => .ok buffers
    | some value => .ok (batch.selection.visits.foldl (fun buffers row => buffers.store false row value) buffers)
  else .ok buffers

/-- The input, the buffers, and the buffer that the next step writes. -/
structure Pipe where
  input : View
  buffers : Buffers
  buffer : Bool

/-- The scalar operand of a step, which is not evaluated for an empty selection. -/
def stepScalar (params : Params) (hasRows : Bool) (step : Step) : Except String (Option Int4) :=
  match step.scalar with
  | some scalar => if hasRows then evalScalar params scalar else .ok (some 0#32)
  | none => .ok (some 0#32)

/-- What a step writes: a NULL scalar clears the validity of its buffer. -/
def stepOutput (batch : Input) (pipe : Pipe) (step : Step) : Option Int4 → Except String Buffers
  | none => .ok (pipe.buffers.clear pipe.buffer batch.selection.nrows)
  | some scalar => arithmeticScalar pipe.input batch.selection step.op scalar step.scalarOnLeft pipe.buffer pipe.buffers

/-- One turn of the loop of `pg_batch_expr_get_int4`. -/
def runStep (params : Params) (batch : Input) (pipe : Pipe) (step : Step) : Except String Pipe := do
  let scalar ← stepScalar params batch.selection.hasRows step
  let buffers ← stepOutput batch pipe step scalar
  .ok ⟨.buffer pipe.buffer,buffers,!pipe.buffer⟩

/-- The first input of `pg_batch_expr_get_int4`. -/
def firstInput (params : Params) (expr : Program) (batch : Input) (buffers : Buffers) : Except String Pipe :=
  match expr.scalarValue,expr.column with
  | some scalar,_ => do
    let buffers ← buildScalarVector params scalar batch buffers
    .ok ⟨.buffer false,buffers,false⟩
  | none,some column => .ok ⟨.column (batch.column column),buffers,false⟩
  | none,none => .error notRequested

/-- The state of an expression between two calls: its binding, buffers and result. -/
structure Machine where
  bound : Option Input
  buffers : Buffers
  result : Option View

def bind (machine : Machine) (batch : Input) : Machine :=
  {machine with bound := some batch, result := none}

def getInt4 (params : Params) (expr : Program) (machine : Machine) : Except String (View × Machine) :=
  match machine.bound,machine.result with
  | none,_ => .error notBound
  | some _,some result => .ok (result,machine)
  | some batch,none => do
    let first ← firstInput params expr batch machine.buffers
    let last ← expr.steps.foldlM (runStep params batch) first
    .ok (last.input,⟨some batch,last.buffers,some last.input⟩)

def notAFilter : String := "pg_batch value expression cannot be used as a filter"

/-- The selection that a comparison with `scalar` leaves; nothing compares with NULL. -/
def filterSelection (expr : Program) (enableSimd simdAvailable : Bool) (value : Int4Vector) (selection : Selection) :
    Option Int4 → Selection
  | none => selection.wipe
  | some scalar => filterInt4 value selection expr.comparison scalar enableSimd simdAvailable

def comparisonScalar (params : Params) (expr : Program) : Except String (Option Int4) :=
  match expr.comparisonScalar with
  | none => .error unsupported
  | some scalar => evalScalar params scalar

/-- `pg_batch_expr_apply_filter`, which leaves its selection in the bound batch. -/
def applyFilter (params : Params) (expr : Program) (enableSimd simdAvailable : Bool) (machine : Machine) :
    Except String Machine :=
  if !expr.isFilter then .error notAFilter
  else match machine.bound with
    | none => .error notBound
    | some batch =>
      if !batch.selection.hasRows then .ok machine
      else do
        let (value,machine) ← getInt4 params expr machine
        let scalar ← comparisonScalar params expr
        let selection := filterSelection expr enableSimd simdAvailable (value.vector machine.buffers) batch.selection scalar
        .ok {machine with bound := some {batch with selection := selection}}

end PgBatch.Expr
