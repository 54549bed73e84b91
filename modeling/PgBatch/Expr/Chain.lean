import PgBatch.Expr.Compile
import PgBatch.Library.Result

/-! The compiler preserves meaning: a compiled chain, run on one cell, agrees with
the tree. When several operands fail, the chain may report another one of them. -/
namespace PgBatch.Expr
open Results

/-- One step on one cell. -/
def scalarCell (step : Step) (cell : Option Int4) : Option Int4 → Except String (Option Int4)
  | none => .ok none
  | some scalar => cellArithmetic step.op scalar step.scalarOnLeft cell

def stepCell (params : Params) (cell : Option Int4) (step : Step) : Except String (Option Int4) := do
  let scalar ← stepScalar params true step
  scalarCell step cell scalar

theorem stepCell_unary (params : Params) (cell : Option Int4) (op : ArithmeticOp) :
    stepCell params cell ⟨op,none,false⟩ = strict (fun left _ => op.meaning left 0) cell (some 0) := by
  cases cell with
  | none => rfl
  | some value =>
    change (int4Arithmetic value 0#32 op).map some = (op.meaning value 0).map some
    rw [int4Arithmetic_eq]
    rfl

theorem scalarCell_eq (op : ArithmeticOp) (operand : Option Node) (scalarOnLeft : Bool) (cell scalar : Option Int4) :
    scalarCell ⟨op,operand,scalarOnLeft⟩ cell scalar =
      strict (fun left right => op.meaning left right) (if scalarOnLeft then scalar else cell)
        (if scalarOnLeft then cell else scalar) := by
  cases scalar with
  | none => cases scalarOnLeft <;> cases cell <;> rfl
  | some scalar =>
    cases cell with
    | none => cases scalarOnLeft <;> rfl
    | some value =>
      simp only [scalarCell,cellArithmetic,int4Arithmetic_eq]
      cases scalarOnLeft <;> rfl

/-- A variable-free tree is handed to the scalar executor as a whole. -/
theorem compileValue_scalar (resolveVar : Var → Option Nat) (expr : Program) (node : Node)
    (scalar : analyzeValue 0 node = some 0) :
    compileValue resolveVar expr node = .ok {expr with scalarValue := some (stripRelabel node)} := by
  induction node with
  | relabel arg _ ih => exact ih scalar
  | var var =>
    simp only [analyzeValue] at scalar
    split at scalar <;> cases scalar
  | other => cases scalar
  | _ => simp only [compileValue,scalar,stripRelabel]

/-- What compiling a tree with one Var appends to an expression. -/
def chainOf (resolveVar : Var → Option Nat) (expr : Program) (var : Var) (steps : List Step) : Except String Program :=
  match resolveVar var with
  | none => .error unavailable
  | some column => .ok {expr with column := some column, steps := expr.steps ++ steps}

/-- By induction on the tree: the subtree with the Var is compiled first, and the
chain grows by one step for each operator above it. -/
theorem compileValue_chain (resolveVar : Var → Option Nat) (node : Node) (single : analyzeValue 0 node = some 1) :
    ∃ var steps, var ∈ treeVars node ∧ (∀ expr, compileValue resolveVar expr node = chainOf resolveVar expr var steps) ∧
      ∀ params vars, Agree (steps.foldlM (stepCell params) (vars var)) (evaluate params vars node) := by
  -- A step appended to the chain of a subtree.
  have grow {arg : Node} {var : Var} {steps : List Step}
      (compiled : ∀ expr, compileValue resolveVar expr arg = chainOf resolveVar expr var steps) (step : Step)
      (expr : Program) :
      (do
        let expr ← compileValue resolveVar expr arg
        .ok (appendStep expr step.op step.scalar step.scalarOnLeft)) =
        chainOf resolveVar expr var (steps ++ [step]) := by
    rw [compiled]
    unfold chainOf
    cases resolveVar var with
    | none => rfl
    | some column => simp [appendStep,Bind.bind,Except.bind]
  have extend (params : Params) (vars : Var → Option Int4) {arg : Node} {var : Var} {steps : List Step}
      (agree : Agree (steps.foldlM (stepCell params) (vars var)) (evaluate params vars arg)) (step : Step) :
      Agree ((steps ++ [step]).foldlM (stepCell params) (vars var))
        (evaluate params vars arg >>= fun cell => stepCell params cell step) := by
    rw [List.foldlM_append]
    refine Agree.trans ?_ (agree.bind_left _)
    refine Agree.bind_right fun cell => ?_
    rw [List.foldlM_cons]
    cases stepCell params cell step <;> exact Agree.refl _
  induction node with
  | relabel arg _ ih => exact ih single
  | var var =>
    refine ⟨var,[],List.mem_singleton_self var,fun expr => ?_,fun params vars => Agree.refl _⟩
    cases resolved : resolveVar var <;> simp only [compileValue,chainOf,resolved,List.append_nil]
  | const | param =>
    simp only [analyzeValue] at single
    split at single <;> cases single
  | unary opfuncid opresulttype arg ih =>
    obtain ⟨op,known,inner⟩ := analyzeValue_unary single
    obtain ⟨var,steps,member,compiled,agree⟩ := ih inner
    refine ⟨var,steps ++ [⟨op,none,false⟩],member,fun expr => ?_,fun params vars => ?_⟩
    · simp only [compileValue,single,known]
      exact grow compiled ⟨op,none,false⟩ expr
    · refine (extend params vars (agree params vars) ⟨op,none,false⟩).trans ?_
      simp only [evaluate,known,stepCell_unary]
      exact Agree.refl _
  | binary opfuncid opresulttype left right leftIh rightIh =>
    obtain ⟨op,leftVars,rightVars,known,first,second,total⟩ := analyzeValue_binary single
    by_cases onLeft : leftVars = 1
    · have scalar : analyzeValue 0 right = some 0 := by rw [second]; congr; omega
      rw [onLeft] at first
      obtain ⟨var,steps,member,compiled,agree⟩ := leftIh first
      refine ⟨var,steps ++ [⟨op,some right,false⟩],List.mem_append_left _ member,fun expr => ?_,fun params vars => ?_⟩
      · simp only [compileValue,single,known,first,if_true]
        exact grow compiled ⟨op,some right,false⟩ expr
      · refine (extend params vars (agree params vars) ⟨op,some right,false⟩).trans ?_
        simp only [evaluate,known,stepCell,scalarCell_eq,stepScalar,evalScalar,
          evaluate_scalar params (fun _ => none) vars right scalar]
        exact Agree.refl _
    · have scalar : analyzeValue 0 left = some 0 := by rw [first]; congr; omega
      have var_ : analyzeValue 0 right = some 1 := by rw [second]; congr; omega
      obtain ⟨var,steps,member,compiled,agree⟩ := rightIh var_
      refine ⟨var,steps ++ [⟨op,some left,true⟩],List.mem_append_right _ member,fun expr => ?_,fun params vars => ?_⟩
      · simp only [compileValue,single,known,scalar,Option.some.injEq,Nat.zero_ne_one,if_false]
        exact grow compiled ⟨op,some left,true⟩ expr
      · refine (extend params vars (agree params vars) ⟨op,some left,true⟩).trans ?_
        simp only [evaluate,known,stepCell,scalarCell_eq,stepScalar,evalScalar,
          evaluate_scalar params (fun _ => none) vars left scalar]
        exact Agree.comm _ _ _
  | other => cases single

end PgBatch.Expr
