import PgBatch.Expr.Chain

/-! The executor runs a compiled chain on every selected row.
A step reads one buffer and writes the other one, so that no step overwrites what
it still has to read; rows that are not selected are never computed. -/
namespace PgBatch.Expr
open Results

/-- The cell of a row that the next step will read. -/
def Pipe.seen (pipe : Pipe) : Column :=
  (pipe.input.vector pipe.buffers).seen

/-- The next step does not write what it reads. -/
def Pipe.Apart (pipe : Pipe) : Prop :=
  pipe.input ≠ .buffer pipe.buffer

section Steps
variable (params : Params) {batch : Input}

/-- A step ends with the two buffers swapped. -/
theorem runStep_swaps {pipe after : Pipe} {step : Step} (ran : runStep params batch pipe step = .ok after) :
    after.Apart ∧ after.input = .buffer pipe.buffer := by
  obtain ⟨scalar,_,rest⟩ := bind_ok.mp ran
  obtain ⟨buffers,_,done⟩ := bind_ok.mp rest
  cases done
  exact ⟨by simp [Pipe.Apart],rfl⟩

theorem runStep_ok {pipe after : Pipe} (apart : pipe.Apart) {step : Step}
    (ran : runStep params batch pipe step = .ok after) {row : Nat} (selected : batch.selection.Selected row) :
    stepCell params (pipe.seen row) step = .ok (after.seen row) := by
  obtain ⟨scalar,evaluated,rest⟩ := bind_ok.mp ran
  obtain ⟨buffers,written,done⟩ := bind_ok.mp rest
  cases done
  rw [hasRows_of_selected selected] at evaluated
  refine bind_ok.mpr ⟨scalar,evaluated,?_⟩
  cases scalar with
  | none =>
    cases written
    simp only [scalarCell,Pipe.seen]
    rw [seen_buffer _ _ (Nat.lt_trans selected.1 batch.selection.small),cell_clear _ _ selected.1]
  | some scalar => exact arithmeticScalar_ok apart step.op scalar step.scalarOnLeft written selected

theorem runStep_total {pipe : Pipe} (apart : pipe.Apart) {step : Step} {one : Nat}
    (selected : batch.selection.Selected one)
    (fine : ∀ row, batch.selection.Selected row → ∃ cell, stepCell params (pipe.seen row) step = .ok cell) :
    ∃ after, runStep params batch pipe step = .ok after := by
  obtain ⟨cell,own⟩ := fine one selected
  obtain ⟨scalar,evaluated,_⟩ := bind_ok.mp own
  have written : ∃ buffers, stepOutput batch pipe step scalar = .ok buffers := by
    cases scalar with
    | none => exact ⟨_,rfl⟩
    | some scalar =>
      refine arithmeticScalar_total apart step.op scalar step.scalarOnLeft fun row member => ?_
      obtain ⟨cell,own⟩ := fine row member
      obtain ⟨other,same,computed⟩ := bind_ok.mp own
      cases evaluated.symm.trans same
      exact ⟨cell,computed⟩
  obtain ⟨buffers,written⟩ := written
  refine ⟨_,bind_ok.mpr ⟨scalar,?_,bind_ok.mpr ⟨buffers,written,rfl⟩⟩⟩
  rw [hasRows_of_selected selected]
  exact evaluated

theorem runSteps_input {steps : List Step} {pipe last : Pipe} (apart : pipe.Apart)
    (ran : steps.foldlM (runStep params batch) pipe = .ok last) :
    last.input = pipe.input ∨ ∃ index, last.input = .buffer index := by
  induction steps generalizing pipe with
  | nil =>
    cases ran
    exact .inl rfl
  | cons step rest ih =>
    rw [List.foldlM_cons] at ran
    obtain ⟨middle,first,others⟩ := bind_ok.mp ran
    obtain ⟨still,output⟩ := runStep_swaps params first
    rcases ih still others with same | buffer
    · exact .inr ⟨pipe.buffer,same.trans output⟩
    · exact .inr buffer

theorem runSteps_ok {steps : List Step} {pipe last : Pipe} (apart : pipe.Apart)
    (ran : steps.foldlM (runStep params batch) pipe = .ok last) {row : Nat} (selected : batch.selection.Selected row) :
    steps.foldlM (stepCell params) (pipe.seen row) = .ok (last.seen row) := by
  induction steps generalizing pipe with
  | nil =>
    cases ran
    rfl
  | cons step rest ih =>
    rw [List.foldlM_cons] at ran ⊢
    obtain ⟨middle,first,others⟩ := bind_ok.mp ran
    exact bind_ok.mpr ⟨_,runStep_ok params apart first selected,ih (runStep_swaps params first).1 others⟩

theorem runSteps_total {steps : List Step} {pipe : Pipe} (apart : pipe.Apart) {one : Nat}
    (selected : batch.selection.Selected one)
    (fine : ∀ row, batch.selection.Selected row → ∃ cell, steps.foldlM (stepCell params) (pipe.seen row) = .ok cell) :
    ∃ last, steps.foldlM (runStep params batch) pipe = .ok last := by
  induction steps generalizing pipe with
  | nil => exact ⟨pipe,rfl⟩
  | cons step rest ih =>
    simp only [List.foldlM_cons] at fine ⊢
    obtain ⟨middle,first⟩ := runStep_total params apart selected fun row member => by
      obtain ⟨cell,whole⟩ := fine row member
      obtain ⟨head,computed,_⟩ := bind_ok.mp whole
      exact ⟨head,computed⟩
    obtain ⟨last,others⟩ := ih (runStep_swaps params first).1 fun row member => by
      obtain ⟨cell,whole⟩ := fine row member
      obtain ⟨head,computed,tail⟩ := bind_ok.mp whole
      cases (runStep_ok params apart first member).symm.trans computed
      exact ⟨cell,tail⟩
    exact ⟨last,bind_ok.mpr ⟨middle,first,others⟩⟩

end Steps

/-! The scalar vector of a variable-free expression. -/

theorem cell_fill (value : Int4) (visits : List Nat) (buffers : Buffers) (row : Nat) :
    (visits.foldl (fun buffers row => buffers.store false row value) buffers).cell false row =
      if row ∈ visits then some value else buffers.cell false row := by
  induction visits generalizing buffers with
  | nil => simp
  | cons first rest ih =>
    rw [List.foldl_cons,ih,cell_store]
    by_cases same : row = first
    · subst same
      simp
    · simp [same]

theorem buildScalarVector_ok (params : Params) {node : Node} {batch : Input} {buffers after : Buffers}
    (ran : buildScalarVector params node batch buffers = .ok after) {row : Nat}
    (selected : batch.selection.Selected row) :
    evalScalar params node = .ok (((View.buffer false).vector after).seen row) := by
  unfold buildScalarVector at ran
  simp only [hasRows_of_selected selected,if_true] at ran
  have empty := cell_clear buffers false selected.1
  cases value : evalScalar params node with
  | error message =>
    rw [value] at ran
    cases ran
  | ok result =>
    rw [value] at ran
    rw [seen_buffer _ _ (Nat.lt_trans selected.1 batch.selection.small)]
    cases result with
    | none =>
      cases ran
      rw [empty]
    | some result =>
      cases ran
      rw [cell_fill,if_pos (mem_visits.mpr selected)]

theorem buildScalarVector_total (params : Params) {node : Node} {batch : Input} {buffers : Buffers} {value : Option Int4}
    (fine : evalScalar params node = .ok value) :
    ∃ after, buildScalarVector params node batch buffers = .ok after := by
  unfold buildScalarVector
  dsimp only
  split
  · rw [fine]
    cases value <;> exact ⟨_,rfl⟩
  · exact ⟨_,rfl⟩

/-! A compiled expression as a whole. -/

/-- The Vars of a row, as the kernels see the columns that they resolve to. -/
def seenVars (resolveVar : Var → Option Nat) (batch : Input) (row : Nat) (var : Var) : Option Int4 :=
  (resolveVar var).bind fun column => (batch.column column).seen row

/-- What `compileValue` left in an expression: a scalar, or a chain above a column. -/
inductive Shape (resolveVar : Var → Option Nat) (node : Node) (expr : Program) : Prop where
  | scalar (value : Node) (set : expr.scalarValue = some value) (steps : expr.steps = [])
      (agree : ∀ params vars, evalScalar params value = evaluate params vars node)
  | chain (var : Var) (column : Nat) (resolved : resolveVar var = some column) (unset : expr.scalarValue = none)
      (set : expr.column = some column)
      (agree : ∀ params vars, Agree (expr.steps.foldlM (stepCell params) (vars var)) (evaluate params vars node))

theorem compileValue_shape (resolveVar : Var → Option Nat) {node : Node} {vars : Nat}
    (supported : analyzeValue 0 node = some vars) {expr compiled : Program} (fresh : expr.scalarValue = none)
    (empty : expr.steps = []) (ran : compileValue resolveVar expr node = .ok compiled) :
    Shape resolveVar node compiled ∧ compiled.isFilter = expr.isFilter ∧ compiled.comparison = expr.comparison ∧
      compiled.comparisonScalar = expr.comparisonScalar := by
  have few := analyzeValue_le 0 node supported
  by_cases single : vars = 1
  · rw [single] at supported
    obtain ⟨var,steps,_,chain,agree⟩ := compileValue_chain resolveVar node supported
    rw [chain,chainOf] at ran
    cases resolved : resolveVar var with
    | none => simp [resolved] at ran
    | some column =>
      simp only [resolved,Except.ok.injEq] at ran
      subst ran
      refine ⟨.chain var column resolved fresh rfl ?_,rfl,rfl,rfl⟩
      simpa only [empty,List.nil_append] using agree
  · have zero : vars = 0 := by omega
    rw [zero] at supported
    rw [compileValue_scalar resolveVar expr node supported] at ran
    cases ran
    refine ⟨.scalar (stripRelabel node) rfl empty fun params vars => ?_,rfl,rfl,rfl⟩
    rw [evalScalar,evaluate_strip,evaluate_scalar params _ vars node supported]

theorem compileValue_total (resolveVar : Var → Option Nat) {node : Node} {vars : Nat}
    (supported : analyzeValue 0 node = some vars) (resolves : ∀ var, (resolveVar var).isSome = true) (expr : Program) :
    ∃ compiled, compileValue resolveVar expr node = .ok compiled := by
  have few := analyzeValue_le 0 node supported
  by_cases single : vars = 1
  · rw [single] at supported
    obtain ⟨var,steps,_,chain,_⟩ := compileValue_chain resolveVar node supported
    obtain ⟨column,resolved⟩ := Option.isSome_iff_exists.mp (resolves var)
    exact ⟨_,by rw [chain,chainOf,resolved]⟩
  · have zero : vars = 0 := by omega
    rw [zero] at supported
    exact ⟨_,compileValue_scalar resolveVar expr node supported⟩

section Run
variable {resolveVar : Var → Option Nat} {node : Node} {expr : Program} (shape : Shape resolveVar node expr)
  (params : Params) (batch : Input) (machine : Machine)
include shape

theorem getInt4_ok {view : View} {after : Machine}
    (ran : getInt4 params expr (bind machine batch) = .ok (view,after)) :
    after.bound = some batch ∧ ((∃ column, view = .column (batch.column column)) ∨ ∃ index, view = .buffer index) ∧
      ∀ row, batch.selection.Selected row →
        evaluate params (seenVars resolveVar batch row) node = .ok ((view.vector after.buffers).seen row) := by
  obtain ⟨pipe,head,rest⟩ := bind_ok.mp ran
  obtain ⟨last,body,done⟩ := bind_ok.mp rest
  cases done
  refine ⟨rfl,?_⟩
  cases shape with
  | scalar value set steps agree =>
    rw [steps] at body
    cases body
    simp only [firstInput,set] at head
    obtain ⟨buffers,built,done⟩ := bind_ok.mp head
    cases done
    refine ⟨.inr ⟨false,rfl⟩,fun row selected => ?_⟩
    rw [← agree]
    exact buildScalarVector_ok params built selected
  | chain var column resolved unset set agree =>
    simp only [firstInput,unset,set,Except.ok.injEq] at head
    subst head
    have apart : Pipe.Apart ⟨.column (batch.column column),machine.buffers,false⟩ := by simp [Pipe.Apart]
    refine ⟨(runSteps_input params apart body).imp (fun same => ⟨column,same⟩) id,fun row selected => ?_⟩
    have same : seenVars resolveVar batch row var = (batch.column column).seen row := by
      simp [seenVars,resolved]
    exact (agree params _ _).mp (by rw [same]; exact runSteps_ok params apart body selected)

theorem getInt4_total {one : Nat} (selected : batch.selection.Selected one)
    (fine : ∀ row, batch.selection.Selected row →
      ∃ value, evaluate params (seenVars resolveVar batch row) node = .ok value) :
    ∃ result, getInt4 params expr (bind machine batch) = .ok result := by
  have whole : ∃ pipe last, firstInput params expr batch machine.buffers = .ok pipe ∧
      expr.steps.foldlM (runStep params batch) pipe = .ok last := by
    cases shape with
    | scalar value set steps agree =>
      obtain ⟨result,evaluated⟩ := fine one selected
      rw [← agree] at evaluated
      obtain ⟨buffers,built⟩ := buildScalarVector_total params evaluated
      simp only [firstInput,set,steps]
      exact ⟨_,_,bind_ok.mpr ⟨buffers,built,rfl⟩,rfl⟩
    | chain var column resolved unset set agree =>
      have apart : Pipe.Apart ⟨.column (batch.column column),machine.buffers,false⟩ := by simp [Pipe.Apart]
      obtain ⟨last,body⟩ := runSteps_total params apart selected fun row member => by
        obtain ⟨value,evaluated⟩ := fine row member
        refine ⟨value,?_⟩
        have same : seenVars resolveVar batch row var = (batch.column column).seen row := by
          simp [seenVars,resolved]
        have chain := (agree params _ value).mpr evaluated
        rw [same] at chain
        exact chain
      exact ⟨_,last,by simp only [firstInput,unset,set],body⟩
  obtain ⟨pipe,last,head,body⟩ := whole
  exact ⟨_,bind_ok.mpr ⟨pipe,head,bind_ok.mpr ⟨last,body,rfl⟩⟩⟩

end Run

end PgBatch.Expr
