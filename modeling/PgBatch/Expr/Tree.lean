import PgBatch.Kernels.Arithmetic

/-! The expression trees of `expr/expr.c`: which of them are supported, and what
they evaluate to. -/
namespace PgBatch.Expr

/-- Type oids. -/
inductive TypeId where
  | int4 | bool
  | other (oid : Nat)
deriving DecidableEq, Repr

inductive ParamKind where
  | paramExtern | paramExec | paramSublink | paramMultiexpr
deriving DecidableEq, Repr

structure Var where
  varno : Nat
  varattno : Int
  vartype : TypeId
  varlevelsup : Nat
  returningDefault : Bool
deriving DecidableEq, Repr

/-- An `OpExpr` has one or two arguments. `other` is every other kind of node. -/
inductive Node where
  | relabel (arg : Node) (resulttype : TypeId)
  | var (var : Var)
  | const (consttype : TypeId) (value : Option Int4)
  | param (kind : ParamKind) (id : Nat) (paramtype : TypeId)
  | unary (opfuncid : FuncId) (opresulttype : TypeId) (arg : Node)
  | binary (opfuncid : FuncId) (opresulttype : TypeId) (left right : Node)
  | other

def stripRelabel : Node → Node
  | .relabel arg _ => stripRelabel arg
  | node => node

def validVar (var : Var) (relid : Nat) : Bool :=
  var.vartype == .int4 && decide (0 < var.varattno) && var.varlevelsup == 0 && var.returningDefault &&
    (relid == 0 || var.varno == relid)

/-- `scalar_leaf` for a `Param`. -/
def scalarParam (kind : ParamKind) (paramtype : TypeId) : Bool :=
  paramtype == .int4 && (kind == .paramExtern || kind == .paramExec)

def arithmeticOp (funcid : FuncId) (nargs : Nat) : Option ArithmeticOp :=
  match funcid with
  | .int4pl => if nargs = 2 then some .add else none
  | .int4mi => if nargs = 2 then some .subtract else none
  | .int4mul => if nargs = 2 then some .multiply else none
  | .int4div => if nargs = 2 then some .divide else none
  | .int4mod => if nargs = 2 then some .modulo else none
  | .int4um => if nargs = 1 then some .negate else none
  | _ => none

/-- `analyze_value`: the number of Vars, at most one, of a supported tree. Its
`strip_relabel` is the first equation. -/
def analyzeValue (relid : Nat) : Node → Option Nat
  | .relabel arg _ => analyzeValue relid arg
  | .var var => if validVar var relid then some 1 else none
  | .const consttype _ => if consttype = .int4 then some 0 else none
  | .param kind _ paramtype => if scalarParam kind paramtype then some 0 else none
  | .unary opfuncid opresulttype arg =>
    if opresulttype = .int4 ∧ (arithmeticOp opfuncid 1).isSome then
      match analyzeValue relid arg with
      | none => none
      | some vars => if 1 < vars then none else some vars
    else none
  | .binary opfuncid opresulttype left right =>
    if opresulttype = .int4 ∧ (arithmeticOp opfuncid 2).isSome then
      match analyzeValue relid left with
      | none => none
      | some leftVars =>
        if 1 < leftVars then none
        else match analyzeValue relid right with
          | none => none
          | some rightVars => if 1 < leftVars + rightVars then none else some (leftVars + rightVars)
    else none
  | .other => none

def supportsInt4 (node : Node) (relid : Nat) : Bool :=
  (analyzeValue relid node).isSome

/-- `analyze_filter`: the argument that holds the Var, and the comparison. -/
def analyzeFilter (node : Node) (relid : Nat) : Option (Nat × Int4Op) :=
  match stripRelabel node with
  | .binary opfuncid opresulttype left right =>
    if opresulttype ≠ .bool then none
    else match analyzeValue relid left,analyzeValue relid right with
      | some leftVars,some rightVars =>
        if leftVars + rightVars ≠ 1 then none
        else
          let valueArg := if leftVars = 1 then 0 else 1
          (compareOp opfuncid valueArg).map fun comparison => (valueArg,comparison)
      | _,_ => none
  | _ => none

def supportsFilter (node : Node) (relid : Nat) : Bool :=
  (analyzeFilter node relid).isSome

/-! Evaluation, one node at a time. Every function is strict: it is called on its
arguments when none of them is NULL. -/

/-- The parameters of an execution. An initplan behind one may fail. -/
abbrev Params := ParamKind → Nat → Except String (Option Int4)

def unsupported : String := "unsupported node"

def strict (apply : Int4 → Int4 → Except String Int4) (left right : Option Int4) : Except String (Option Int4) :=
  match left,right with
  | some left,some right => (apply left right).map some
  | _,_ => .ok none

/-- The value of a tree. `unary` has its argument on the left, as `int4um` has. -/
def evaluate (params : Params) (vars : Var → Option Int4) : Node → Except String (Option Int4)
  | .relabel arg _ => evaluate params vars arg
  | .var var => .ok (vars var)
  | .const _ value => .ok value
  | .param kind id _ => params kind id
  | .unary opfuncid _ arg => do
    let value ← evaluate params vars arg
    match arithmeticOp opfuncid 1 with
    | none => .error unsupported
    | some op => strict (fun left _ => op.meaning left 0) value (some 0)
  | .binary opfuncid _ left right => do
    let leftValue ← evaluate params vars left
    let rightValue ← evaluate params vars right
    match arithmeticOp opfuncid 2 with
    | none => .error unsupported
    | some op => strict (fun left right => op.meaning left right) leftValue rightValue
  | .other => .error unsupported

/-- The comparison operators on int4. -/
def compareMeaning (left right : Int4) : FuncId → Option Bool
  | .int4eq => some (decide (left.toInt = right.toInt))
  | .int4ne => some (decide (left.toInt ≠ right.toInt))
  | .int4lt => some (decide (left.toInt < right.toInt))
  | .int4le => some (decide (left.toInt ≤ right.toInt))
  | .int4gt => some (decide (right.toInt < left.toInt))
  | .int4ge => some (decide (right.toInt ≤ left.toInt))
  | _ => none

/-- The value of a condition: true, false or NULL. -/
def evaluateFilter (params : Params) (vars : Var → Option Int4) (node : Node) : Except String (Option Bool) :=
  match stripRelabel node with
  | .binary opfuncid _ left right => do
    let leftValue ← evaluate params vars left
    let rightValue ← evaluate params vars right
    match leftValue,rightValue with
    | some left,some right => .ok (compareMeaning left right opfuncid)
    | _,_ => .ok none
  | _ => .error unsupported

/-- The Vars of a tree. -/
def treeVars : Node → List Var
  | .relabel arg _ => treeVars arg
  | .var var => [var]
  | .unary _ _ arg => treeVars arg
  | .binary _ _ left right => treeVars left ++ treeVars right
  | .const _ _ | .param _ _ _ | .other => []

/-! Facts about the analysis. -/

theorem analyzeValue_le (relid : Nat) (node : Node) {vars : Nat} (analyzed : analyzeValue relid node = some vars) :
    vars ≤ 1 := by
  induction node generalizing vars with
  | relabel arg _ ih => exact ih analyzed
  | var var =>
    simp only [analyzeValue] at analyzed
    split at analyzed <;> cases analyzed
    exact Nat.le_refl 1
  | const | param =>
    simp only [analyzeValue] at analyzed
    split at analyzed <;> cases analyzed
    exact Nat.zero_le 1
  | unary | binary =>
    simp only [analyzeValue] at analyzed
    (repeat' split at analyzed) <;> cases analyzed
    omega
  | other => cases analyzed

/-- `relid` only restricts the Vars. -/
theorem analyzeValue_any (relid : Nat) (node : Node) {vars : Nat} (analyzed : analyzeValue relid node = some vars) :
    analyzeValue 0 node = some vars := by
  induction node generalizing vars with
  | relabel arg _ ih => exact ih analyzed
  | var var =>
    simp only [analyzeValue] at analyzed ⊢
    have weaker : validVar var relid = true → validVar var 0 = true := by
      simp only [validVar,Bool.and_eq_true]
      exact fun valid => ⟨valid.1,rfl⟩
    by_cases valid : validVar var relid = true
    · rw [if_pos valid] at analyzed
      rw [if_pos (weaker valid)]
      exact analyzed
    · rw [if_neg valid] at analyzed
      contradiction
  | const | param => exact analyzed
  | unary opfuncid opresulttype arg ih =>
    simp only [analyzeValue] at analyzed ⊢
    split at analyzed
    · rename_i operator
      rw [if_pos operator]
      cases inner : analyzeValue relid arg with
      | none => simp [inner] at analyzed
      | some count =>
        rw [ih inner]
        simpa only [inner] using analyzed
    · contradiction
  | binary opfuncid opresulttype left right leftIh rightIh =>
    simp only [analyzeValue] at analyzed ⊢
    split at analyzed
    · rename_i operator
      rw [if_pos operator]
      cases first : analyzeValue relid left with
      | none => simp [first] at analyzed
      | some leftVars =>
        cases second : analyzeValue relid right with
        | none => simp [first,second] at analyzed
        | some rightVars =>
          rw [leftIh first,rightIh second]
          simpa only [first,second] using analyzed
    · contradiction
  | other => cases analyzed

theorem analyzeValue_unary {relid : Nat} {opfuncid : FuncId} {opresulttype : TypeId} {arg : Node} {vars : Nat}
    (analyzed : analyzeValue relid (.unary opfuncid opresulttype arg) = some vars) :
    ∃ op, arithmeticOp opfuncid 1 = some op ∧ analyzeValue relid arg = some vars := by
  simp only [analyzeValue] at analyzed
  split at analyzed
  · rename_i operator
    obtain ⟨op,known⟩ := Option.isSome_iff_exists.mp operator.2
    cases inner : analyzeValue relid arg with
    | none => simp [inner] at analyzed
    | some count =>
      simp only [inner] at analyzed
      split at analyzed <;> cases analyzed
      exact ⟨op,known,rfl⟩
  · contradiction

theorem analyzeValue_binary {relid : Nat} {opfuncid : FuncId} {opresulttype : TypeId} {left right : Node} {vars : Nat}
    (analyzed : analyzeValue relid (.binary opfuncid opresulttype left right) = some vars) :
    ∃ op leftVars rightVars, arithmeticOp opfuncid 2 = some op ∧ analyzeValue relid left = some leftVars ∧
      analyzeValue relid right = some rightVars ∧ leftVars + rightVars = vars := by
  simp only [analyzeValue] at analyzed
  split at analyzed
  · rename_i operator
    obtain ⟨op,known⟩ := Option.isSome_iff_exists.mp operator.2
    cases first : analyzeValue relid left with
    | none => simp [first] at analyzed
    | some leftVars =>
      cases second : analyzeValue relid right with
      | none => simp [first,second] at analyzed
      | some rightVars =>
        simp only [first,second] at analyzed
        (repeat' split at analyzed) <;> cases analyzed
        exact ⟨op,leftVars,rightVars,known,rfl,rfl,rfl⟩
  · contradiction

/-- The value of a variable-free tree does not depend on the row. -/
theorem evaluate_scalar (params : Params) (vars others : Var → Option Int4) (node : Node)
    (scalar : analyzeValue 0 node = some 0) : evaluate params vars node = evaluate params others node := by
  induction node with
  | relabel arg _ ih => exact ih scalar
  | var var =>
    simp only [analyzeValue] at scalar
    split at scalar <;> cases scalar
  | const | param => rfl
  | unary opfuncid opresulttype arg ih =>
    obtain ⟨_,_,inner⟩ := analyzeValue_unary scalar
    simp only [evaluate,ih inner]
  | binary opfuncid opresulttype left right leftIh rightIh =>
    obtain ⟨_,leftVars,rightVars,_,first,second,total⟩ := analyzeValue_binary scalar
    rw [Nat.add_eq_zero_iff] at total
    rw [total.1] at first
    rw [total.2] at second
    simp only [evaluate,leftIh first,rightIh second]
  | other => rfl

theorem analyzeValue_strip (relid : Nat) (node : Node) :
    analyzeValue relid (stripRelabel node) = analyzeValue relid node := by
  induction node with
  | relabel arg _ ih => exact ih
  | _ => rfl

theorem evaluate_strip (params : Params) (vars : Var → Option Int4) (node : Node) :
    evaluate params vars (stripRelabel node) = evaluate params vars node := by
  induction node with
  | relabel arg _ ih => exact ih
  | _ => rfl

theorem treeVars_strip (node : Node) : treeVars (stripRelabel node) = treeVars node := by
  induction node with
  | relabel arg _ ih => exact ih
  | _ => rfl

/-- The analysis counts the Vars. -/
theorem analyzeValue_vars {relid : Nat} {node : Node} {vars : Nat} (analyzed : analyzeValue relid node = some vars) :
    (treeVars node).length = vars := by
  induction node generalizing vars with
  | relabel arg _ ih => exact ih analyzed
  | var | const | param =>
    simp only [analyzeValue] at analyzed
    split at analyzed <;> cases analyzed
    rfl
  | unary opfuncid opresulttype arg ih =>
    obtain ⟨_,_,inner⟩ := analyzeValue_unary analyzed
    exact ih inner
  | binary opfuncid opresulttype left right leftIh rightIh =>
    obtain ⟨_,leftVars,rightVars,_,first,second,total⟩ := analyzeValue_binary analyzed
    rw [treeVars,List.length_append,leftIh first,rightIh second,total]
  | other => cases analyzed

/-- A tree depends on its Vars only. -/
theorem evaluate_congr (params : Params) {vars others : Var → Option Int4} {node : Node}
    (same : ∀ var ∈ treeVars node, vars var = others var) : evaluate params vars node = evaluate params others node := by
  induction node with
  | relabel arg _ ih => exact ih same
  | var var => rw [evaluate,evaluate,same var (List.mem_singleton_self var)]
  | const | param | other => rfl
  | unary opfuncid opresulttype arg ih => simp only [evaluate,ih same]
  | binary opfuncid opresulttype left right leftIh rightIh =>
    simp only [evaluate,leftIh fun var member => same var (List.mem_append_left _ member),
      rightIh fun var member => same var (List.mem_append_right _ member)]

theorem evaluateFilter_congr (params : Params) {vars others : Var → Option Int4} {node : Node}
    (same : ∀ var ∈ treeVars node, vars var = others var) :
    evaluateFilter params vars node = evaluateFilter params others node := by
  rw [← treeVars_strip] at same
  unfold evaluateFilter
  split
  · rename_i left right stripped
    rw [stripped] at same
    rw [evaluate_congr params fun var member => same var (List.mem_append_left _ member),
      evaluate_congr params fun var member => same var (List.mem_append_right _ member)]
  · rfl

end PgBatch.Expr
