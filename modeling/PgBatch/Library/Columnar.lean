import Mathlib.Data.List.Basic
import Mathlib.Logic.Function.Basic

/-! Column-major row storage with one validity bit per cell.
Storing a row only ever sets validity bits, so that a stored row reads back as
it was written only when the bits of its slot were clear before. Every row
carries a ghost tag that no operation looks at. -/
namespace Columnar

structure Cell (α : Type) where
  value : α
  valid : Bool
deriving DecidableEq, Repr, Inhabited

structure Row (τ Hash α : Type) where
  tag : τ
  hash : Hash
  cells : List (Cell α)
deriving DecidableEq, Repr, Inhabited

/-- Rows `0 .. nrows - 1` are stored; what the arrays hold beyond is left over. -/
structure Store (τ Hash α : Type) where
  nrows : Nat
  tags : Nat → τ
  hashes : Nat → Hash
  values : Nat → Nat → α
  valid : Nat → Nat → Bool

variable {τ Hash α : Type}

/-- Freshly zeroed storage. -/
def Store.zero [Inhabited τ] [Inhabited Hash] [Inhabited α] : Store τ Hash α :=
  ⟨0,fun _ => default,fun _ => default,fun _ _ => default,fun _ _ => false⟩

instance [Inhabited τ] [Inhabited Hash] [Inhabited α] : Inhabited (Store τ Hash α) :=
  ⟨.zero⟩

def Row.cell [Inhabited α] (row : Row τ Hash α) (column : Nat) : Cell α :=
  row.cells.getD column default

def Store.cell (store : Store τ Hash α) (column row : Nat) : Cell α :=
  ⟨store.values column row,store.valid column row⟩

def Store.row (ncolumns : Nat) (store : Store τ Hash α) (row : Nat) : Row τ Hash α :=
  ⟨store.tags row,store.hashes row,(List.range ncolumns).map (fun column => store.cell column row)⟩

def Store.rows (ncolumns : Nat) (store : Store τ Hash α) : List (Row τ Hash α) :=
  (List.range store.nrows).map (store.row ncolumns)

/-- Store one row behind the others: values are written, validity bits are ORed in. -/
def Store.append (ncolumns : Nat) (store : Store τ Hash α) (tag : τ) (hash : Hash) (cell : Nat → Cell α) :
    Store τ Hash α where
  nrows := store.nrows + 1
  tags := Function.update store.tags store.nrows tag
  hashes := Function.update store.hashes store.nrows hash
  values := fun column row =>
    if row = store.nrows ∧ column < ncolumns then (cell column).value else store.values column row
  valid := fun column row =>
    store.valid column row || (decide (row = store.nrows ∧ column < ncolumns) && (cell column).valid)

/-- Copy a row onto another slot; the validity bits of that slot are set and cleared. -/
def Store.move (ncolumns : Nat) (store : Store τ Hash α) (row slot : Nat) : Store τ Hash α :=
  {store with
    tags := Function.update store.tags slot (store.tags row)
    hashes := Function.update store.hashes slot (store.hashes row)
    values := fun column index =>
      if index = slot ∧ column < ncolumns then store.values column row else store.values column index
    valid := fun column index =>
      if index = slot ∧ column < ncolumns then store.valid column row else store.valid column index}

/-- The loop that moves the kept rows together; `write` is the slot of the next one. -/
def Store.compactRows (ncolumns : Nat) (keep : Hash → Bool) :
    Store τ Hash α → Nat → List Nat → Store τ Hash α × Nat
  | store, write, [] => (store,write)
  | store, write, row :: rest =>
    if keep (store.hashes row) then
      Store.compactRows ncolumns keep (if write = row then store else store.move ncolumns row write) (write + 1) rest
    else Store.compactRows ncolumns keep store write rest

/-- Keep only some of the rows; what stood behind them is left as it was. -/
def Store.compact (ncolumns : Nat) (keep : Hash → Bool) (store : Store τ Hash α) : Store τ Hash α :=
  let moved := Store.compactRows ncolumns keep store 0 (List.range store.nrows)
  {moved.1 with nrows := moved.2}

/-- Forget all rows and clear every validity bit. -/
def Store.wipe (store : Store τ Hash α) : Store τ Hash α :=
  {store with nrows := 0, valid := fun _ _ => false}

/-- The validity bits beyond the stored rows are clear. -/
def Store.Clear (ncolumns : Nat) (store : Store τ Hash α) : Prop :=
  ∀ column row, column < ncolumns → store.nrows ≤ row → store.valid column row = false

@[simp] theorem length_rows (ncolumns : Nat) (store : Store τ Hash α) :
    (store.rows ncolumns).length = store.nrows := by
  simp [Store.rows]

@[simp] theorem append_nrows (ncolumns : Nat) (store : Store τ Hash α) (tag : τ) (hash : Hash)
    (cell : Nat → Cell α) : (store.append ncolumns tag hash cell).nrows = store.nrows + 1 := rfl

@[simp] theorem rows_wipe (ncolumns : Nat) (store : Store τ Hash α) : store.wipe.rows ncolumns = [] := rfl

theorem clear_wipe (ncolumns : Nat) (store : Store τ Hash α) : store.wipe.Clear ncolumns :=
  fun _ _ _ _ => rfl

section Zero
variable [Inhabited τ] [Inhabited Hash] [Inhabited α]

@[simp] theorem rows_zero (ncolumns : Nat) : (Store.zero : Store τ Hash α).rows ncolumns = [] := rfl

theorem clear_zero (ncolumns : Nat) : (Store.zero : Store τ Hash α).Clear ncolumns :=
  fun _ _ _ _ => rfl

omit [Inhabited τ] [Inhabited Hash] in
theorem cells_eq {ncolumns : Nat} {row : Row τ Hash α} (width : row.cells.length = ncolumns) :
    (List.range ncolumns).map row.cell = row.cells := by
  apply List.ext_getElem
  · simp [width]
  · intro column _ inside
    simp [Row.cell,inside]

end Zero

theorem cell_append_old {ncolumns : Nat} {store : Store τ Hash α} {tag : τ} {hash : Hash} {cell : Nat → Cell α}
    {column row : Nat} (old : row ≠ store.nrows) :
    (store.append ncolumns tag hash cell).cell column row = store.cell column row := by
  simp [Store.cell,Store.append,old]

theorem cell_append_new {ncolumns : Nat} {store : Store τ Hash α} {tag : τ} {hash : Hash} {cell : Nat → Cell α}
    {column : Nat} (inside : column < ncolumns) :
    (store.append ncolumns tag hash cell).cell column store.nrows =
      ⟨(cell column).value,store.valid column store.nrows || (cell column).valid⟩ := by
  simp [Store.cell,Store.append,inside]

theorem row_append_old {ncolumns : Nat} {store : Store τ Hash α} {tag : τ} {hash : Hash} {cell : Nat → Cell α}
    {row : Nat} (old : row ≠ store.nrows) :
    (store.append ncolumns tag hash cell).row ncolumns row = store.row ncolumns row := by
  have cells : (fun column => (store.append ncolumns tag hash cell).cell column row) =
      fun column => store.cell column row := funext fun column => cell_append_old old
  simp only [Store.row,cells]
  simp [Store.append,old]

theorem clear_append {ncolumns : Nat} {store : Store τ Hash α} (clear : store.Clear ncolumns) (tag : τ)
    (hash : Hash) (cell : Nat → Cell α) : (store.append ncolumns tag hash cell).Clear ncolumns := by
  intro column row inside beyond
  simp only [append_nrows] at beyond
  have other : row ≠ store.nrows := by omega
  simp [Store.append,clear column row inside (by omega),other]

/-- Into a clear slot a row is stored as it is given. -/
theorem rows_append {ncolumns : Nat} {store : Store τ Hash α} (clear : store.Clear ncolumns) (tag : τ)
    (hash : Hash) (cell : Nat → Cell α) :
    (store.append ncolumns tag hash cell).rows ncolumns =
      store.rows ncolumns ++ [⟨tag,hash,(List.range ncolumns).map cell⟩] := by
  unfold Store.rows
  rw [append_nrows,List.range_succ,List.map_append]
  congr 1
  · apply List.map_congr_left
    intro row member
    exact row_append_old (Nat.ne_of_lt (List.mem_range.mp member))
  · simp only [List.map_cons,List.map_nil,Store.row,List.cons.injEq,and_true]
    have slot (column : Nat) (inside : column < ncolumns) :
        (store.append ncolumns tag hash cell).cell column store.nrows = cell column := by
      rw [cell_append_new inside,clear column store.nrows inside (Nat.le_refl _),Bool.false_or]
    congr 1
    · simp [Store.append]
    · simp [Store.append]
    · apply List.map_congr_left
      intro column inside
      exact slot column (List.mem_range.mp inside)

/-! Compaction. -/

theorem row_move_self (ncolumns : Nat) (store : Store τ Hash α) (row slot : Nat) :
    (store.move ncolumns row slot).row ncolumns slot = store.row ncolumns row := by
  simp only [Store.row,Store.cell,Store.move,Function.update_self,true_and,Row.mk.injEq]
  apply List.map_congr_left
  intro column inside
  rw [if_pos (List.mem_range.mp inside),if_pos (List.mem_range.mp inside)]

theorem row_move_other (ncolumns : Nat) (store : Store τ Hash α) (row : Nat) {slot index : Nat} (apart : index ≠ slot) :
    (store.move ncolumns row slot).row ncolumns index = store.row ncolumns index := by
  simp [Store.row,Store.cell,Store.move,apart]

/-- The rows in front of the loop are kept together, those behind `write` stay. -/
theorem compactRows_spec (ncolumns : Nat) (keep : Hash → Bool) (store : Store τ Hash α) {write first : Nat}
    (behind : write ≤ first) (count : Nat) :
    ∃ moved last, Store.compactRows ncolumns keep store write (List.range' first count) = (moved,last) ∧
      (List.range last).map (moved.row ncolumns) = (List.range write).map (store.row ncolumns) ++
        ((List.range' first count).map (store.row ncolumns)).filter (fun row => keep row.hash) ∧
      ∀ index, last ≤ index → moved.row ncolumns index = store.row ncolumns index := by
  induction count generalizing store write first with
  | zero => exact ⟨store,write,rfl,by simp,fun _ _ => rfl⟩
  | succ count ih =>
    rw [List.range'_succ]
    unfold Store.compactRows
    cases kept : keep (store.hashes first) with
    | false =>
      obtain ⟨moved,last,ran,rows,stays⟩ := ih store (Nat.le_succ_of_le behind)
      refine ⟨moved,last,ran,?_,stays⟩
      rw [rows,List.map_cons,List.filter_cons_of_neg (by simp [Store.row,kept])]
    | true =>
      let next := if write = first then store else store.move ncolumns first write
      have same : next.row ncolumns write = store.row ncolumns first := by
        by_cases here : write = first
        · rw [show next = store from if_pos here,here]
        · rw [show next = store.move ncolumns first write from if_neg here,row_move_self]
      have other {index : Nat} (apart : index ≠ write) : next.row ncolumns index = store.row ncolumns index := by
        by_cases here : write = first
        · rw [show next = store from if_pos here]
        · rw [show next = store.move ncolumns first write from if_neg here,row_move_other _ _ _ apart]
      obtain ⟨moved,last,ran,rows,stays⟩ := ih next (Nat.succ_le_succ behind)
      have above : write < last := by
        have length := congrArg List.length rows
        simp only [List.length_map,List.length_append,List.length_range] at length
        omega
      refine ⟨moved,last,ran,?_,fun index later => (stays index later).trans (other (by omega))⟩
      have later : (List.range' (first + 1) count).map (next.row ncolumns) =
          (List.range' (first + 1) count).map (store.row ncolumns) := by
        apply List.map_congr_left
        intro index inside
        exact other (by have := (List.mem_range'_1.mp inside).1; omega)
      have before : (List.range write).map (next.row ncolumns) = (List.range write).map (store.row ncolumns) := by
        apply List.map_congr_left
        intro index inside
        exact other (Nat.ne_of_lt (List.mem_range.mp inside))
      rw [rows,later,List.range_succ,List.map_append,before,List.map_cons,List.map_nil,same,List.map_cons,
        List.filter_cons_of_pos (by simpa [Store.row] using kept),List.append_assoc,List.singleton_append]

theorem compact_spec (ncolumns : Nat) (keep : Hash → Bool) (store : Store τ Hash α) :
    (store.compact ncolumns keep).rows ncolumns = (store.rows ncolumns).filter (fun row => keep row.hash) ∧
      ∀ index, (store.compact ncolumns keep).nrows ≤ index →
        (store.compact ncolumns keep).row ncolumns index = store.row ncolumns index := by
  obtain ⟨moved,last,ran,rows,stays⟩ := compactRows_spec ncolumns keep store (Nat.le_refl 0) store.nrows
  rw [← List.range_eq_range'] at ran rows
  simp only [Store.compact,ran]
  exact ⟨rows,stays⟩

/-- No slot behind the rows is written. -/
theorem compact_beyond (ncolumns : Nat) (keep : Hash → Bool) (store : Store τ Hash α) (column : Nat) {slot : Nat}
    (above : store.nrows ≤ slot) : (store.compact ncolumns keep).valid column slot = store.valid column slot := by
  have loop (visits : List Nat) (moved : Store τ Hash α) (write : Nat) (room : write + visits.length ≤ slot) :
      (Store.compactRows ncolumns keep moved write visits).1.valid column slot = moved.valid column slot := by
    induction visits generalizing moved write with
    | nil => rfl
    | cons row rest ih =>
      rw [List.length_cons] at room
      unfold Store.compactRows
      split
      · rw [ih _ _ (by omega)]
        split
        · rfl
        · exact if_neg (by omega)
      · exact ih _ _ (by omega)
  exact loop (List.range store.nrows) store 0 (by simpa using above)

end Columnar
