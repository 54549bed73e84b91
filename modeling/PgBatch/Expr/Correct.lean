import PgBatch.Expr.Execute

/-! What a batch gets from compiled expressions.
Everything the kernels compute is right for the cells as they see them. They see
the cells that the batch delivers if every row finds its own validity bit. -/
namespace PgBatch.Expr
open Words Results

theorem compareOp_meaning {funcid : FuncId} {comparison : Int4Op} (known : compareOp funcid 0 = some comparison)
    (left right : Int4) : compareMeaning left right funcid = some (int4Compare left right comparison) := by
  cases funcid <;> cases known <;>
    simp [compareMeaning,int4Compare,BitVec.slt,BitVec.sle,BitVec.toInt_inj,bne,beq_eq_decide]

/-- A Var on the right: the comparison is turned round. -/
theorem compareOp_commutes {funcid : FuncId} {comparison : Int4Op} (known : compareOp funcid 1 = some comparison)
    (left right : Int4) : compareMeaning left right funcid = some (int4Compare right left comparison) := by
  cases funcid <;> cases known <;>
    simp [compareMeaning,int4Compare,Int4Op.commute,BitVec.slt,BitVec.sle,BitVec.toInt_inj,bne,beq_eq_decide,eq_comm]

def compareCells (comparison : Int4Op) : Option Int4 → Option Int4 → Option Bool
  | some value,some scalar => some (int4Compare value scalar comparison)
  | _,_ => none

/-- A supported condition: a comparison of a tree with one Var and a variable-free tree. -/
structure Condition (node value scalar : Node) (comparison : Int4Op) : Prop where
  single : analyzeValue 0 value = some 1
  free : analyzeValue 0 scalar = some 0
  meaning : ∀ params vars, Agree (evaluateFilter params vars node) (do
    let value ← evaluate params vars value
    let scalar ← evalScalar params scalar
    .ok (compareCells comparison value scalar))

theorem analyzeFilter_condition {node : Node} {valueArg : Nat} {comparison : Int4Op} {relid : Nat}
    (analyzed : analyzeFilter node relid = some (valueArg,comparison)) :
    ∃ opfuncid opresulttype left right, stripRelabel node = .binary opfuncid opresulttype left right ∧
      Condition node (if valueArg = 0 then left else right) (if valueArg = 0 then right else left) comparison := by
  unfold analyzeFilter at analyzed
  split at analyzed
  · rename_i opfuncid opresulttype left right stripped
    refine ⟨opfuncid,opresulttype,left,right,stripped,?_⟩
    split at analyzed
    · cases analyzed
    · split at analyzed
      · rename_i leftVars rightVars first second
        have first := analyzeValue_any relid left first
        have second := analyzeValue_any relid right second
        split at analyzed
        · cases analyzed
        · rename_i single
          by_cases onLeft : leftVars = 1
          · obtain ⟨_,known,same⟩ := Option.map_eq_some_iff.mp analyzed
            rw [if_pos onLeft] at known
            simp only [if_pos onLeft,Prod.mk.injEq] at same
            obtain ⟨rfl,rfl⟩ := same
            have free : analyzeValue 0 right = some 0 := by rw [second]; congr; omega
            refine ⟨by rw [if_pos rfl,first,onLeft],free,fun params vars => ?_⟩
            simp only [evaluateFilter,stripped,if_true,evalScalar,
              evaluate_scalar params (fun _ => none) vars right free]
            refine Agree.bind_right fun value => Agree.bind_right fun scalar => ?_
            cases value <;> cases scalar <;> simp [compareCells,compareOp_meaning known,Agree.refl]
          · obtain ⟨_,known,same⟩ := Option.map_eq_some_iff.mp analyzed
            rw [if_neg onLeft] at known
            simp only [if_neg onLeft,Prod.mk.injEq] at same
            obtain ⟨rfl,rfl⟩ := same
            have free : analyzeValue 0 left = some 0 := by rw [first]; congr; omega
            refine ⟨by rw [if_neg (by omega),second]; congr; omega,free,fun params vars => ?_⟩
            simp only [evaluateFilter,stripped,Nat.one_ne_zero,if_false,evalScalar,
              evaluate_scalar params (fun _ => none) vars left free]
            refine Agree.trans ?_ (Agree.comm _ _ _)
            refine Agree.bind_right fun scalar => Agree.bind_right fun value => ?_
            cases value <;> cases scalar <;> simp [compareCells,compareOp_commutes known,Agree.refl]
      · cases analyzed
  · cases analyzed

theorem analyzeFilter_any {node : Node} {relid : Nat} {result : Nat × Int4Op}
    (analyzed : analyzeFilter node relid = some result) : analyzeFilter node 0 = some result := by
  unfold analyzeFilter at analyzed ⊢
  split at analyzed
  · split at analyzed
    · cases analyzed
    · rename_i boolean
      rw [if_neg boolean]
      split at analyzed
      · rename_i first second
        rw [analyzeValue_any relid _ first,analyzeValue_any relid _ second]
        exact analyzed
      · cases analyzed
  · cases analyzed

/-- What compiling a supported condition gives. -/
structure FilterShape (resolveVar : Var → Option Nat) (node : Node) (expr : Program) (value scalar : Node) : Prop where
  condition : Condition node value scalar expr.comparison
  shape : Shape resolveVar value expr
  filter : expr.isFilter = true
  operand : expr.comparisonScalar = some scalar

theorem compileFilter_shape {resolveVar : Var → Option Nat} {node : Node} {relid : Nat}
    (supported : supportsFilter node relid = true) {expr : Program}
    (ran : compileFilter node resolveVar = .ok expr) : ∃ value scalar, FilterShape resolveVar node expr value scalar := by
  obtain ⟨⟨valueArg,comparison⟩,analyzed⟩ := Option.isSome_iff_exists.mp supported
  obtain ⟨opfuncid,opresulttype,left,right,stripped,condition⟩ := analyzeFilter_condition analyzed
  simp only [compileFilter,analyzeFilter_any analyzed,stripped] at ran
  obtain ⟨shape,filter,same,operand⟩ := compileValue_shape resolveVar condition.single rfl rfl ran
  exact ⟨_,_,same ▸ condition,shape,filter,operand⟩

theorem compileFilter_total {resolveVar : Var → Option Nat} {node : Node} {relid : Nat}
    (supported : supportsFilter node relid = true) (resolves : ∀ var, (resolveVar var).isSome = true) :
    ∃ expr, compileFilter node resolveVar = .ok expr := by
  obtain ⟨⟨valueArg,comparison⟩,analyzed⟩ := Option.isSome_iff_exists.mp supported
  obtain ⟨opfuncid,opresulttype,left,right,stripped,condition⟩ := analyzeFilter_condition analyzed
  simp only [compileFilter,analyzeFilter_any analyzed,stripped]
  exact compileValue_total resolveVar condition.single resolves _

/-- A supported condition is compiled if its one Var has a column, and reads that column. -/
theorem compileFilter_column {resolveVar : Var → Option Nat} {node : Node} {relid : Nat}
    (supported : supportsFilter node relid = true) (resolves : ∀ var ∈ treeVars node, (resolveVar var).isSome = true) :
    ∃ expr var column, compileFilter node resolveVar = .ok expr ∧ treeVars node = [var] ∧
      resolveVar var = some column ∧ expr.column = some column := by
  obtain ⟨⟨valueArg,comparison⟩,analyzed⟩ := Option.isSome_iff_exists.mp supported
  obtain ⟨opfuncid,opresulttype,left,right,stripped,condition⟩ := analyzeFilter_condition analyzed
  obtain ⟨var,steps,member,chain,_⟩ := compileValue_chain resolveVar _ condition.single
  have single : treeVars node = [var] := by
    have counted := analyzeValue_vars condition.single
    have free := List.length_eq_zero_iff.mp (analyzeValue_vars condition.free)
    obtain ⟨only,same⟩ := List.length_eq_one_iff.mp counted
    rw [same,List.mem_singleton] at member
    rw [← treeVars_strip,stripped,treeVars]
    split at same <;> rename_i side
    · rw [if_pos side] at free
      rw [same,free,member,List.append_nil]
    · rw [if_neg side] at free
      rw [same,free,member,List.nil_append]
  obtain ⟨column,resolved⟩ := Option.isSome_iff_exists.mp (resolves var (by rw [single]; exact List.mem_singleton_self var))
  simp only [compileFilter,analyzeFilter_any analyzed,stripped,chain,chainOf,resolved]
  exact ⟨_,var,column,rfl,single,resolved,rfl⟩

/-- A condition leaves no stray bit. -/
theorem applyFilter_clean {params : Params} {expr : Program} {enableSimd simdAvailable : Bool} {batch : Input}
    {machine after : Machine} {selection : Selection}
    (ran : applyFilter params expr enableSimd simdAvailable (bind machine batch) = .ok after)
    (bound : after.bound = some {batch with selection := selection}) (clean : batch.selection.Clean) : selection.Clean := by
  unfold applyFilter bind at ran
  dsimp only at ran
  split at ran
  · cases ran
  split at ran
  · cases ran
    have same : _ = selection := congrArg Input.selection (Option.some.inj bound)
    rw [← same]
    exact clean
  · obtain ⟨⟨view,middle⟩,_,rest⟩ := bind_ok.mp ran
    obtain ⟨operand,_,done⟩ := bind_ok.mp rest
    cases done
    have same : _ = selection := congrArg Input.selection (Option.some.inj bound)
    rw [← same]
    cases operand with
    | none =>
      refine clean.sub rfl fun word index set => ?_
      simp only [filterSelection,Selection.wipe] at set
      split at set
      · simp at set
      · exact set
    | some scalar => exact clean.sub (filterInt4_nrows ..) fun word index set => filterInt4_less _ _ _ _ _ _ set

section Filter
variable {resolveVar : Var → Option Nat} {node value scalar : Node} {expr : Program}
  (shape : FilterShape resolveVar node expr value scalar) (params : Params) (enableSimd simdAvailable : Bool)
  (batch : Input) (machine : Machine)
include shape

theorem applyFilter_ok {after : Machine}
    (ran : applyFilter params expr enableSimd simdAvailable (bind machine batch) = .ok after) :
    ∃ selection, after.bound = some {batch with selection := selection} ∧ selection.nrows = batch.selection.nrows ∧
      ∀ row, (selection.Selected row ↔ batch.selection.Selected row ∧
          evaluateFilter params (seenVars resolveVar batch row) node = .ok (some true)) ∧
        (batch.selection.Selected row →
          ∃ result, evaluateFilter params (seenVars resolveVar batch row) node = .ok result) := by
  simp only [applyFilter,shape.filter,bind,Bool.not_true,Bool.false_eq_true,if_false] at ran
  split at ran
  · rename_i empty
    cases ran
    have none_ (row : Nat) : ¬ batch.selection.Selected row := fun selected => by
      rw [hasRows_of_selected selected] at empty
      contradiction
    exact ⟨batch.selection,rfl,rfl,fun row => ⟨⟨fun selected => absurd selected (none_ row),And.left⟩,
      fun selected => absurd selected (none_ row)⟩⟩
  · obtain ⟨⟨view,middle⟩,got,rest⟩ := bind_ok.mp ran
    obtain ⟨operand,compared,done⟩ := bind_ok.mp rest
    simp only [comparisonScalar,shape.operand] at compared
    obtain ⟨_,_,read⟩ := getInt4_ok shape.shape params batch machine got
    cases done
    -- A row of the selection passes if its value compares as the condition says.
    have verdict {row : Nat} (selected : batch.selection.Selected row) :
        evaluateFilter params (seenVars resolveVar batch row) node =
          .ok (compareCells expr.comparison ((view.vector middle.buffers).seen row) operand) := by
      refine (shape.condition.meaning params _ _).mpr ?_
      exact bind_ok.mpr ⟨_,read row selected,bind_ok.mpr ⟨operand,compared,rfl⟩⟩
    cases operand with
    | none =>
      refine ⟨batch.selection.wipe,rfl,rfl,fun row => ⟨⟨fun selected => ?_,fun both => ?_⟩,
        fun selected => ⟨_,verdict selected⟩⟩⟩
      · have inside : row / 64 < batch.selection.nwords := by
          have := selected.1
          simp only [Selection.wipe,Selection.nwords] at this ⊢
          omega
        have set := selected.2
        simp [Selection.wipe,inside] at set
      · obtain ⟨selected,passing⟩ := both
        rw [verdict selected] at passing
        cases cell : (view.vector middle.buffers).seen row <;> simp [cell,compareCells] at passing
    | some operand =>
      refine ⟨_,rfl,?_,fun row => ⟨?_,fun selected => ⟨_,verdict selected⟩⟩⟩
      · simp only [filterSelection,filterInt4_nrows]
      · simp only [filterSelection,filterInt4_selected]
        refine and_congr_right fun selected => ?_
        rw [verdict selected,passes]
        cases (view.vector middle.buffers).seen row <;> simp [compareCells]

theorem applyFilter_total {one : Nat} (selected : batch.selection.Selected one)
    (fine : ∀ row, batch.selection.Selected row →
      ∃ result, evaluateFilter params (seenVars resolveVar batch row) node = .ok result) :
    ∃ after, applyFilter params expr enableSimd simdAvailable (bind machine batch) = .ok after := by
  have parts (row : Nat) (member : batch.selection.Selected row) :
      (∃ cell, evaluate params (seenVars resolveVar batch row) value = .ok cell) ∧
        ∃ operand, evalScalar params scalar = .ok operand := by
    obtain ⟨result,evaluated⟩ := fine row member
    obtain ⟨cell,first,rest⟩ := bind_ok.mp ((shape.condition.meaning params _ _).mp evaluated)
    obtain ⟨operand,second,_⟩ := bind_ok.mp rest
    exact ⟨⟨cell,first⟩,⟨operand,second⟩⟩
  obtain ⟨⟨view,middle⟩,got⟩ := getInt4_total shape.shape params batch machine selected fun row member => (parts row member).1
  obtain ⟨operand,compared⟩ := (parts one selected).2
  simp only [applyFilter,shape.filter,bind,Bool.not_true,Bool.false_eq_true,if_false,hasRows_of_selected selected]
  refine ⟨_,bind_ok.mpr ⟨(view,middle),got,bind_ok.mpr ⟨operand,?_,rfl⟩⟩⟩
  simp only [comparisonScalar,shape.operand]
  exact compared

end Filter

/-! Every expression over a batch is right if and only if the batch is addressed. -/

/-- The Vars of a row, as the batch delivers them. -/
def rowVars (resolveVar : Var → Option Nat) (batch : Input) (row : Nat) (var : Var) : Option Int4 :=
  (resolveVar var).bind fun column => (batch.column column).cell row

/-- A compiled value expression gives every selected row its value and NULL flag,
and fails exactly when a selected row does. -/
structure ValueRight (params : Params) (resolveVar : Var → Option Nat) (node : Node) (expr : Program) (batch : Input)
    (machine : Machine) : Prop where
  cells : ∀ view after, getInt4 params expr (bind machine batch) = .ok (view,after) →
    ∀ row, batch.selection.Selected row →
      evaluate params (rowVars resolveVar batch row) node = .ok ((view.vector after.buffers).cell row)
  fails : (∃ row, batch.selection.Selected row) →
    ((∃ message, getInt4 params expr (bind machine batch) = .error message) ↔
      ∃ row, batch.selection.Selected row ∧ ∃ message, evaluate params (rowVars resolveVar batch row) node = .error message)

/-- A compiled condition leaves the selected rows on which it is true. -/
structure FilterRight (params : Params) (resolveVar : Var → Option Nat) (node : Node) (expr : Program) (batch : Input)
    (machine : Machine) (enableSimd simdAvailable : Bool) : Prop where
  rows : ∀ after, applyFilter params expr enableSimd simdAvailable (bind machine batch) = .ok after →
    ∃ selection, after.bound = some {batch with selection := selection} ∧ selection.nrows = batch.selection.nrows ∧
      ∀ row, selection.Selected row ↔ batch.selection.Selected row ∧
        evaluateFilter params (rowVars resolveVar batch row) node = .ok (some true)
  fails : (∃ row, batch.selection.Selected row) →
    ((∃ message, applyFilter params expr enableSimd simdAvailable (bind machine batch) = .error message) ↔
      ∃ row, batch.selection.Selected row ∧
        ∃ message, evaluateFilter params (rowVars resolveVar batch row) node = .error message)

/-- The same batch under another selection. -/
def Input.select (batch : Input) (words : Nat → BitVec 64) : Input :=
  {batch with selection := {batch.selection with words := words}}

/-- All supported expressions are compiled, and are right on every selection of the
batch, whatever their buffers hold from earlier batches. -/
def ExpressionsRight (batch : Input) : Prop :=
  ∀ (words : Nat → BitVec 64) (params : Params) (resolveVar : Var → Option Nat) (node : Node) (relid : Nat),
    (supportsInt4 node relid = true →
      ((∀ var, (resolveVar var).isSome = true) → ∃ expr, compileInt4 node resolveVar = .ok expr) ∧
        ∀ expr, compileInt4 node resolveVar = .ok expr →
          ∀ machine, ValueRight params resolveVar node expr (batch.select words) machine) ∧
    (supportsFilter node relid = true →
      ((∀ var, (resolveVar var).isSome = true) → ∃ expr, compileFilter node resolveVar = .ok expr) ∧
        ∀ expr, compileFilter node resolveVar = .ok expr →
          ∀ machine enableSimd simdAvailable,
            FilterRight params resolveVar node expr (batch.select words) machine enableSimd simdAvailable)

theorem compileInt4_shape {resolveVar : Var → Option Nat} {node : Node} {expr : Program}
    (ran : compileInt4 node resolveVar = .ok expr) : Shape resolveVar node expr := by
  unfold compileInt4 at ran
  split at ran
  · rename_i supported
    obtain ⟨vars,analyzed⟩ := Option.isSome_iff_exists.mp supported
    exact (compileValue_shape resolveVar analyzed rfl rfl ran).1
  · cases ran

theorem compileInt4_total {resolveVar : Var → Option Nat} {node : Node} {relid : Nat}
    (supported : supportsInt4 node relid = true) (resolves : ∀ var, (resolveVar var).isSome = true) :
    ∃ expr, compileInt4 node resolveVar = .ok expr := by
  obtain ⟨vars,analyzed⟩ := Option.isSome_iff_exists.mp supported
  have any := analyzeValue_any relid node analyzed
  rw [compileInt4,if_pos (by rw [supportsInt4,any]; rfl)]
  exact compileValue_total resolveVar any resolves _

section Addressed
variable {batch : Input} (addressed : ∀ column, (batch.column column).Addressed batch.selection.nrows)
include addressed

theorem seenVars_eq (resolveVar : Var → Option Nat) {row : Nat} (selected : batch.selection.Selected row) :
    seenVars resolveVar batch row = rowVars resolveVar batch row := by
  funext var
  unfold seenVars rowVars
  cases resolveVar var with
  | none => rfl
  | some column => exact (addressed column).seen selected.1

theorem value_right {params : Params} {resolveVar : Var → Option Nat} {node : Node} {expr : Program}
    (shape : Shape resolveVar node expr) (machine : Machine) :
    ValueRight params resolveVar node expr batch machine := by
  have cells (view : View) (after : Machine) (ran : getInt4 params expr (bind machine batch) = .ok (view,after))
      (row : Nat) (selected : batch.selection.Selected row) :
      evaluate params (rowVars resolveVar batch row) node = .ok ((view.vector after.buffers).cell row) := by
    obtain ⟨_,kind,read⟩ := getInt4_ok shape params batch machine ran
    rw [← seenVars_eq addressed resolveVar selected,read row selected]
    have own : (view.vector after.buffers).Addressed batch.selection.nrows := by
      rcases kind with ⟨column,rfl⟩ | ⟨index,rfl⟩
      · exact addressed column
      · exact addressed_small (by have := batch.selection.small; omega)
    rw [own.seen selected.1]
  refine ⟨cells,fun ⟨one,selected⟩ => fails_iff ⟨?_,fun fine => ?_⟩⟩
  · rintro ⟨⟨view,after⟩,ran⟩ row member
    exact ⟨_,cells view after ran row member⟩
  · refine getInt4_total shape params batch machine selected fun row member => ?_
    rw [seenVars_eq addressed resolveVar member]
    exact fine row member

theorem filter_right {params : Params} {resolveVar : Var → Option Nat} {node value scalar : Node} {expr : Program}
    (shape : FilterShape resolveVar node expr value scalar) (machine : Machine) (enableSimd simdAvailable : Bool) :
    FilterRight params resolveVar node expr batch machine enableSimd simdAvailable := by
  refine ⟨fun after ran => ?_,fun ⟨one,selected⟩ => fails_iff ⟨?_,fun fine => ?_⟩⟩
  · obtain ⟨selection,bound,nrows,left⟩ := applyFilter_ok shape params enableSimd simdAvailable batch machine ran
    refine ⟨selection,bound,nrows,fun row => (left row).1.trans (and_congr_right fun selected => ?_)⟩
    rw [seenVars_eq addressed resolveVar selected]
  · rintro ⟨after,ran⟩ row member
    obtain ⟨_,_,_,left⟩ := applyFilter_ok shape params enableSimd simdAvailable batch machine ran
    rw [← seenVars_eq addressed resolveVar member]
    exact (left row).2 member
  · refine applyFilter_total shape params enableSimd simdAvailable batch machine selected fun row member => ?_
    rw [seenVars_eq addressed resolveVar member]
    exact fine row member

end Addressed

/-- `x + 0`, which is never out of range. -/
def addZero : Node :=
  .binary .int4pl .int4 (.var ⟨1,1,.int4,0,true⟩) (.const .int4 (some 0#32))

theorem addZero_fine (params : Params) (vars : Var → Option Int4) :
    evaluate params vars addZero = .ok (vars ⟨1,1,.int4,0,true⟩) := by
  cases cell : vars ⟨1,1,.int4,0,true⟩ with
  | none => simp [addZero,evaluate,arithmeticOp,strict,cell,Bind.bind,Except.bind]
  | some value =>
    have same : ArithmeticOp.add.meaning value 0#32 = .ok value := by
      rw [← int4Arithmetic_eq]
      have low := BitVec.le_two_mul_toInt (x := value)
      have high := BitVec.two_mul_toInt_lt (x := value)
      have fits : value.saddOverflow 0#32 = false := by
        simp only [BitVec.saddOverflow,BitVec.toInt_zero,Int.add_zero,Bool.or_eq_false_iff,decide_eq_false_iff_not]
        omega
      simp [int4Arithmetic,fits]
    simp [addZero,evaluate,arithmeticOp,strict,cell,Bind.bind,Except.bind,same,Except.map]

/-- The program of `x + 0` on a column. -/
def addZeroProgram (column : Nat) : Program :=
  {Program.empty false with column := some column, steps := [⟨.add,some (.const .int4 (some 0#32)),false⟩]}

theorem addZero_compiles (column : Nat) :
    compileInt4 addZero (fun _ => some column) = .ok (addZeroProgram column) := rfl

/-- The kernels see what the batch delivers, if all expressions are right: the sum
`x + 0` shows what they saw. -/
theorem seen_of_right {batch : Input} (right : ExpressionsRight batch) (column row : Nat)
    (inside : row < batch.selection.nrows) : (batch.column column).seen row = (batch.column column).cell row := by
  let words (word : Nat) : BitVec 64 := if word = row / 64 then bit 64 (row % 64) else 0#64
  let params : Params := fun _ _ => .ok none
  let machine : Machine := ⟨none,⟨fun _ _ => 0#32,fun _ _ => false⟩,none⟩
  have selected : (batch.select words).selection.Selected row :=
    ⟨inside,by simp [Input.select,words,Nat.mod_lt]⟩
  have shape := compileInt4_shape (addZero_compiles column)
  obtain ⟨⟨view,after⟩,ran⟩ := getInt4_total shape params (batch.select words) machine selected fun other _ =>
    ⟨_,addZero_fine params _⟩
  have delivered := (((right words params (fun _ => some column) addZero 0).1 rfl).2 _ (addZero_compiles column)
    machine).cells view after ran row selected
  have computed := (getInt4_ok shape params (batch.select words) machine ran).2.2 row selected
  rw [addZero_fine] at delivered computed
  -- The one step of the program ends in a buffer.
  have buffer : ∃ index, view = .buffer index := by
    obtain ⟨pipe,_,rest⟩ := bind_ok.mp ran
    obtain ⟨last,body,done⟩ := bind_ok.mp rest
    obtain ⟨middle,step,finished⟩ := bind_ok.mp body
    cases finished
    cases done
    exact ⟨_,(runStep_swaps params step).2⟩
  obtain ⟨index,rfl⟩ := buffer
  have own : ((View.buffer index).vector after.buffers).Addressed batch.selection.nrows :=
    addressed_small (by have := batch.selection.small; omega)
  rw [own.seen inside] at computed
  exact Except.ok.inj (computed.trans delivered.symm)

/-- For every batch: all supported expressions are right on it, for every
selection, if and only if every row of every column with a validity bitmap finds
its own bit at the `int` position `offset + row`. -/
theorem expressions_right_iff (batch : Input) :
    ExpressionsRight batch ↔ ∀ column, (batch.column column).Addressed batch.selection.nrows := by
  constructor
  · intro right column
    have same (row : Nat) (inside : row < batch.selection.nrows) := seen_of_right right column _ inside
    revert same
    cases batch.column column with
    | datum => exact fun _ => trivial
    | packed values validity offset =>
      cases validity with
      | none => exact fun _ => trivial
      | some validity =>
        intro same row inside
        have cell := same row inside
        simp only [Int4Vector.seen,Int4Vector.cell,Int4Vector.rowIsNull] at cell
        cases read : validity (cInt (row + offset)) <;> cases own : validity (row + offset) <;> simp_all
  · intro addressed words params resolveVar node relid
    have fits : ∀ column, ((batch.select words).column column).Addressed (batch.select words).selection.nrows := addressed
    refine ⟨fun supported => ⟨compileInt4_total supported,fun expr ran machine => ?_⟩,
      fun supported => ⟨compileFilter_total supported,fun expr ran machine enableSimd simdAvailable => ?_⟩⟩
    · exact value_right fits (compileInt4_shape ran) machine
    · obtain ⟨value,scalar,shape⟩ := compileFilter_shape supported ran
      exact filter_right fits shape machine enableSimd simdAvailable

/-- One row, seven, stored 2^32 rows into its array; the row at the start is NULL. -/
def farBatch : Input where
  selection := oneRow
  column := fun _ => .packed (fun _ => 7#32) (some fun index => decide (index = 2 ^ 32)) (2 ^ 32)

/-- `x + 0` gives NULL for that row. -/
theorem far_row_lost :
    evaluate (fun _ _ => .ok none) (rowVars (fun _ => some 0) farBatch 0) addZero = .ok (some 7#32) ∧
      (getInt4 (fun _ _ => .ok none) (addZeroProgram 0)
          (bind ⟨none,⟨fun _ _ => 0#32,fun _ _ => false⟩,none⟩ farBatch)).map
        (fun result => (result.1.vector result.2.buffers).cell 0) = .ok none ∧
      ¬ ExpressionsRight farBatch := by
  refine ⟨rfl,rfl,fun right => ?_⟩
  have same := seen_of_right right 0 0 (by decide)
  revert same
  decide

end PgBatch.Expr
