import PgBatch.Kernels.Int4

/-! `pg_batch_int4_arithmetic_scalar`: one operand is a vector, the other one a
scalar, and the result goes to one of the two buffers of an expression. The input
may itself be a view of a buffer, so it is read through the buffers as they are. -/
namespace PgBatch
open Words

def divisionByZero : String := "division by zero"

def outOfRange : String := "integer out of range"

/-- `int4_arithmetic`. -/
def int4Arithmetic (left right : Int4) : ArithmeticOp → Except String Int4
  | .add => if left.saddOverflow right then .error outOfRange else .ok (left + right)
  | .subtract => if left.ssubOverflow right then .error outOfRange else .ok (left - right)
  | .multiply => if left.smulOverflow right then .error outOfRange else .ok (left * right)
  | .divide =>
    if right = 0#32 then .error divisionByZero
    else if right = -1#32 ∧ left = BitVec.intMin 32 then .error outOfRange
    else .ok (left.sdiv right)
  | .modulo =>
    if right = 0#32 then .error divisionByZero
    else .ok (if right = -1#32 then 0#32 else left.srem right)
  | .negate => if left = BitVec.intMin 32 then .error outOfRange else .ok (-left)

/-- `expr->values` and `expr->validity`. -/
structure Buffers where
  values : Bool → Nat → Int4
  validity : Bool → Nat → Bool

/-- A vector that an expression works on: a column of the batch, or a buffer. -/
inductive View where
  | column (vector : Int4Vector)
  | buffer (index : Bool)

def View.vector (buffers : Buffers) : View → Int4Vector
  | .column vector => vector
  | .buffer index => .packed (buffers.values index) (some fun row => buffers.validity index row.toNat) 0

/-- `MemSet (validity, 0, (nrows + 7) / 8)`. -/
def Buffers.clear (buffers : Buffers) (output : Bool) (nrows : Nat) : Buffers where
  values := buffers.values
  validity := Function.update buffers.validity output
    (fun row => if row < (nrows + 7) / 8 * 8 then false else buffers.validity output row)

def Buffers.store (buffers : Buffers) (output : Bool) (row : Nat) (value : Int4) : Buffers where
  values := Function.update buffers.values output (Function.update (buffers.values output) row value)
  validity := Function.update buffers.validity output (Function.update (buffers.validity output) row true)

def arithmeticRow (input : View) (op : ArithmeticOp) (scalar : Int4) (scalarOnLeft output : Bool)
    (buffers : Buffers) (row : Nat) : Except String Buffers :=
  let vector := input.vector buffers
  if vector.rowIsNull row then .ok buffers
  else
    let value := vector.rowValue row
    let left := if scalarOnLeft then scalar else value
    let right := if scalarOnLeft then value else scalar
    (int4Arithmetic left right op).map (buffers.store output row)

def arithmeticScalar (input : View) (selection : Selection) (op : ArithmeticOp) (scalar : Int4)
    (scalarOnLeft output : Bool) (buffers : Buffers) : Except String Buffers :=
  selection.visits.foldlM (arithmeticRow input op scalar scalarOnLeft output) (buffers.clear output selection.nrows)

/-! What an operation means: the integer result, if it is an int4. -/

def checked (result : Int) : Except String Int4 :=
  if 2 ^ 31 ≤ result ∨ result < -2 ^ 31 then .error outOfRange else .ok (BitVec.ofInt 32 result)

def ArithmeticOp.meaning (left right : Int4) : ArithmeticOp → Except String Int4
  | .add => checked (left.toInt + right.toInt)
  | .subtract => checked (left.toInt - right.toInt)
  | .multiply => checked (left.toInt * right.toInt)
  | .divide => if right.toInt = 0 then .error divisionByZero else checked (left.toInt.tdiv right.toInt)
  | .modulo =>
    if right.toInt = 0 then .error divisionByZero
    else if right.toInt = -1 then .ok 0#32
    else checked (left.toInt.tmod right.toInt)
  | .negate => checked (-left.toInt)

private theorem toInt_range (value : Int4) : -2 ^ 31 ≤ value.toInt ∧ value.toInt < 2 ^ 31 := by
  have low := BitVec.le_two_mul_toInt (x := value)
  have high := BitVec.two_mul_toInt_lt (x := value)
  omega

private theorem toInt_eq_zero {value : Int4} : value.toInt = 0 ↔ value = 0#32 := by
  rw [← BitVec.toInt_inj]
  rfl

private theorem toInt_eq_minusOne {value : Int4} : value.toInt = -1 ↔ value = -1#32 := by
  rw [← BitVec.toInt_inj]
  rfl

private theorem toInt_eq_min {value : Int4} : value.toInt = -2 ^ 31 ↔ value = BitVec.intMin 32 := by
  rw [← BitVec.toInt_inj]
  rfl

theorem int4Arithmetic_eq (left right : Int4) (op : ArithmeticOp) :
    int4Arithmetic left right op = op.meaning left right := by
  have own := toInt_range left
  have other := toInt_range right
  cases op with
  | add =>
    simp only [int4Arithmetic,ArithmeticOp.meaning,checked,BitVec.saddOverflow,BitVec.ofInt_add,BitVec.ofInt_toInt,
      Bool.or_eq_true,decide_eq_true_eq,ge_iff_le]
  | subtract =>
    have result : BitVec.ofInt 32 (left.toInt - right.toInt) = left - right := by
      apply BitVec.eq_of_toInt_eq
      rw [BitVec.toInt_ofInt,BitVec.toInt_sub]
    simp only [int4Arithmetic,ArithmeticOp.meaning,checked,BitVec.ssubOverflow,result,Bool.or_eq_true,
      decide_eq_true_eq,ge_iff_le]
  | multiply =>
    have result : BitVec.ofInt 32 (left.toInt * right.toInt) = left * right := by
      apply BitVec.eq_of_toInt_eq
      rw [BitVec.toInt_ofInt,BitVec.toInt_mul]
    simp only [int4Arithmetic,ArithmeticOp.meaning,checked,BitVec.smulOverflow,result,Bool.or_eq_true,
      decide_eq_true_eq,ge_iff_le]
  | divide =>
    have result : BitVec.ofInt 32 (left.toInt.tdiv right.toInt) = left.sdiv right := by
      apply BitVec.eq_of_toInt_eq
      rw [BitVec.toInt_ofInt,BitVec.toInt_sdiv]
    simp only [int4Arithmetic,ArithmeticOp.meaning,checked,toInt_eq_zero,result]
    split
    · rfl
    · rename_i nonzero
      by_cases overflow : right = -1#32 ∧ left = BitVec.intMin 32
      · obtain ⟨rfl,rfl⟩ := overflow
        decide
      · have fits : (left.sdiv right).toInt = left.toInt.tdiv right.toInt := by
          apply BitVec.toInt_sdiv_of_ne_or_ne
          by_cases minimal : left = BitVec.intMin 32
          · exact .inr fun same => overflow ⟨same,minimal⟩
          · exact .inl minimal
        have range := toInt_range (left.sdiv right)
        rw [if_neg overflow,if_neg (by omega)]
  | modulo =>
    simp only [int4Arithmetic,ArithmeticOp.meaning,checked,toInt_eq_zero,toInt_eq_minusOne]
    split
    · rfl
    · split
      · rfl
      · have range := toInt_range (left.srem right)
        rw [BitVec.toInt_srem] at range
        rw [if_neg (by omega),← BitVec.toInt_srem,BitVec.ofInt_toInt]
  | negate =>
    have result : BitVec.ofInt 32 (-left.toInt) = -left := by
      apply BitVec.eq_of_toInt_eq
      rw [BitVec.toInt_ofInt,BitVec.toInt_neg]
    simp only [int4Arithmetic,ArithmeticOp.meaning,checked,result,← toInt_eq_min]
    by_cases minimal : left.toInt = -2 ^ 31
    · rw [if_pos minimal,if_pos (by omega)]
    · rw [if_neg minimal,if_neg (by omega)]

/-- One row of an operation, NULL if its operand is. -/
def cellArithmetic (op : ArithmeticOp) (scalar : Int4) (scalarOnLeft : Bool) : Option Int4 → Except String (Option Int4)
  | none => .ok none
  | some value =>
    (int4Arithmetic (if scalarOnLeft then scalar else value) (if scalarOnLeft then value else scalar) op).map some

def Buffers.cell (buffers : Buffers) (index : Bool) : Column :=
  fun row => if buffers.validity index row then some (buffers.values index row) else none

theorem seen_buffer (buffers : Buffers) (index : Bool) {row : Nat} (small : row < 2 ^ 31) :
    ((View.buffer index).vector buffers).seen row = buffers.cell index row := by
  have position : cInt ((row : Int) + ((0 : Nat) : Int)) = row := by
    rw [Int.natCast_zero,Int.add_zero]
    exact cInt_small (by omega) (by omega)
  simp only [Int4Vector.seen,View.vector,Int4Vector.rowIsNull,Int4Vector.rowValue,Buffers.cell,position,
    Int.toNat_natCast,Nat.zero_add]
  cases buffers.validity index row <;> rfl

theorem vector_store {view : View} {output : Bool} (apart : view ≠ .buffer output) (buffers : Buffers) (row : Nat)
    (value : Int4) : view.vector (buffers.store output row value) = view.vector buffers := by
  cases view with
  | column vector => rfl
  | buffer index =>
    have other : index ≠ output := fun same => apart (by rw [same])
    simp [View.vector,Buffers.store,other]

theorem vector_clear {view : View} {output : Bool} (apart : view ≠ .buffer output) (buffers : Buffers) (nrows : Nat) :
    view.vector (buffers.clear output nrows) = view.vector buffers := by
  cases view with
  | column vector => rfl
  | buffer index =>
    have other : index ≠ output := fun same => apart (by rw [same])
    simp [View.vector,Buffers.clear,other]

theorem cell_clear (buffers : Buffers) (output : Bool) {nrows row : Nat} (inside : row < nrows) :
    (buffers.clear output nrows).cell output row = none := by
  simp only [Buffers.cell,Buffers.clear,Function.update_self,ite_eq_right_iff]
  rw [if_pos (by omega)]
  simp

theorem cell_store (buffers : Buffers) (output : Bool) (row : Nat) (value : Int4) (other : Nat) :
    (buffers.store output row value).cell output other =
      if other = row then some value else buffers.cell output other := by
  by_cases same : other = row
  · subst same
    simp [Buffers.cell,Buffers.store]
  · simp [Buffers.cell,Buffers.store,same]

section Rows
variable {input : View} {output : Bool} (apart : input ≠ .buffer output) (op : ArithmeticOp) (scalar : Int4)
  (scalarOnLeft : Bool)
include apart

/-- The row loop computes each row from the input, and only writes its own buffer. -/
theorem arithmeticRows_ok (visits : List Nat) {buffers after : Buffers}
    (ran : visits.foldlM (arithmeticRow input op scalar scalarOnLeft output) buffers = .ok after) :
    (∀ view : View, view ≠ .buffer output → view.vector after = view.vector buffers) ∧
      (∀ row ∈ visits, ∃ cell, cellArithmetic op scalar scalarOnLeft ((input.vector buffers).seen row) = .ok cell ∧
        after.cell output row = cell.or (buffers.cell output row)) ∧
      ∀ row, row ∉ visits → after.cell output row = buffers.cell output row := by
  induction visits generalizing buffers with
  | nil =>
    cases ran
    exact ⟨fun _ _ => rfl,by simp,fun _ _ => rfl⟩
  | cons first rest ih =>
    rw [List.foldlM_cons] at ran
    unfold arithmeticRow at ran
    dsimp only at ran
    split at ran
    · rename_i null
      obtain ⟨views,written,others⟩ := ih ran
      refine ⟨views,fun row member => ?_,fun row away => others row fun member => away (List.mem_cons_of_mem _ member)⟩
      by_cases later : row ∈ rest
      · exact written row later
      · have here : row = first := (List.mem_cons.mp member).resolve_right later
        subst here
        exact ⟨none,by simp [Int4Vector.seen,null,cellArithmetic],by rw [others row later]; rfl⟩
    · rename_i valid
      cases computed : int4Arithmetic (if scalarOnLeft then scalar else (input.vector buffers).rowValue first)
          (if scalarOnLeft then (input.vector buffers).rowValue first else scalar) op with
      | error message =>
        rw [computed] at ran
        cases ran
      | ok result =>
        rw [computed] at ran
        obtain ⟨views,written,others⟩ := ih ran
        rw [vector_store apart] at written
        have own : cellArithmetic op scalar scalarOnLeft ((input.vector buffers).seen first) = .ok (some result) := by
          simp [Int4Vector.seen,valid,cellArithmetic,computed,Except.map]
        refine ⟨fun view other => (views view other).trans (vector_store other _ _ _),fun row member => ?_,
          fun row away => ?_⟩
        · by_cases later : row ∈ rest
          · obtain ⟨cell,same,read⟩ := written row later
            refine ⟨cell,same,?_⟩
            rw [read,cell_store]
            split
            · rename_i here
              subst here
              rw [own] at same
              cases same
              rfl
            · rfl
          · have here : row = first := (List.mem_cons.mp member).resolve_right later
            subst here
            exact ⟨some result,own,by rw [others row later,cell_store,if_pos rfl]; rfl⟩
        · rw [List.mem_cons,not_or] at away
          rw [others row away.2,cell_store,if_neg away.1]

/-- It fails only if a row that it visits does. -/
theorem arithmeticRows_total (visits : List Nat) (buffers : Buffers)
    (fine : ∀ row ∈ visits, ∃ cell,
      cellArithmetic op scalar scalarOnLeft ((input.vector buffers).seen row) = .ok cell) :
    ∃ after, visits.foldlM (arithmeticRow input op scalar scalarOnLeft output) buffers = .ok after := by
  induction visits generalizing buffers with
  | nil => exact ⟨buffers,rfl⟩
  | cons first rest ih =>
    obtain ⟨cell,own⟩ := fine first (List.mem_cons_self ..)
    have later := fun row member => fine row (List.mem_cons_of_mem first member)
    rw [List.foldlM_cons]
    unfold arithmeticRow
    dsimp only
    split
    · exact ih buffers later
    · rename_i valid
      simp only [Int4Vector.seen,valid,cellArithmetic] at own
      cases computed : int4Arithmetic (if scalarOnLeft then scalar else (input.vector buffers).rowValue first)
          (if scalarOnLeft then (input.vector buffers).rowValue first else scalar) op with
      | error message =>
        simp only [Bool.false_eq_true,if_false,computed] at own
        cases own
      | ok result =>
        refine ih (buffers.store output first result) ?_
        rw [vector_store apart]
        exact later

/-- The kernel as a whole, whatever its output buffer held before. -/
theorem arithmeticScalar_ok {selection : Selection} {buffers after : Buffers}
    (ran : arithmeticScalar input selection op scalar scalarOnLeft output buffers = .ok after) {row : Nat}
    (selected : selection.Selected row) :
    cellArithmetic op scalar scalarOnLeft ((input.vector buffers).seen row) =
      .ok (((View.buffer output).vector after).seen row) := by
  obtain ⟨_,written,_⟩ := arithmeticRows_ok apart op scalar scalarOnLeft selection.visits ran
  obtain ⟨cell,same,read⟩ := written row (mem_visits.mpr selected)
  rw [vector_clear apart] at same
  rw [cell_clear buffers output selected.1] at read
  rw [seen_buffer after output (Nat.lt_trans selected.1 selection.small),read,same]
  cases cell <;> rfl

theorem arithmeticScalar_total {selection : Selection} {buffers : Buffers}
    (fine : ∀ row, selection.Selected row → ∃ cell,
      cellArithmetic op scalar scalarOnLeft ((input.vector buffers).seen row) = .ok cell) :
    ∃ after, arithmeticScalar input selection op scalar scalarOnLeft output buffers = .ok after := by
  refine arithmeticRows_total apart op scalar scalarOnLeft selection.visits _ fun row member => ?_
  rw [vector_clear apart]
  exact fine row (mem_visits.mp member)

end Rows

end PgBatch
