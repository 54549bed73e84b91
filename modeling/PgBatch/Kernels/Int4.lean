import PgBatch.Kernels.Vector

/-! The int4 kernels of `kernels/int4.c` and `kernels/int4_simd.c`: comparison
filters and arithmetic with one scalar operand. -/
namespace PgBatch
open Words

/-- The `F_INT4…` function oids that the code knows. -/
inductive FuncId where
  | int4pl | int4mi | int4mul | int4div | int4mod | int4um
  | int4eq | int4ne | int4lt | int4le | int4gt | int4ge
  | other (oid : Nat)
deriving DecidableEq, Repr

/-- `PgBatchInt4Op`. -/
inductive Int4Op where
  | eq | ne | lt | le | gt | ge
deriving DecidableEq, Repr

/-- `PgBatchInt4ArithmeticOp`. -/
inductive ArithmeticOp where
  | add | subtract | multiply | divide | modulo | negate
deriving DecidableEq, Repr

def Int4Op.commute : Int4Op → Int4Op
  | .lt => .gt
  | .le => .ge
  | .gt => .lt
  | .ge => .le
  | op => op

def compareOp (funcid : FuncId) (varArgno : Nat) : Option Int4Op :=
  let op : Option Int4Op := match funcid with
    | .int4eq => some .eq
    | .int4ne => some .ne
    | .int4lt => some .lt
    | .int4le => some .le
    | .int4gt => some .gt
    | .int4ge => some .ge
    | _ => none
  if varArgno = 1 then op.map Int4Op.commute else op

/-- `pg_batch_int4_compare`, also the `expression` of every `RUN_SCALAR`. -/
def int4Compare (left right : Int4) : Int4Op → Bool
  | .eq => left == right
  | .ne => left != right
  | .lt => left.slt right
  | .le => left.sle right
  | .gt => right.slt left
  | .ge => right.sle left

def scalarCompare (column : Int4Vector) (firstRow : Nat) (selected : BitVec 64) (op : Int4Op) (scalar : Int4) :
    BitVec 64 :=
  (rows selected).foldl (fun result bitno =>
    if !column.rowIsNull (firstRow + bitno) && int4Compare (column.rowValue (firstRow + bitno)) scalar op then
      result ||| bit 64 bitno
    else result) 0#64

/-- The two shortcuts of `not_null_mask`. -/
def noNulls (column : Int4Vector) (firstRow nrows : Nat) (selected : BitVec 64) : Bool :=
  match column with
  | .packed _ none _ => true
  | .packed _ (some _) _ => false
  | .datum _ isnull =>
    selected == wordMask nrows && (List.range nrows).all fun row => !isnull (firstRow + row)

def notNullMask (column : Int4Vector) (firstRow nrows : Nat) (selected : BitVec 64) : BitVec 64 :=
  if noNulls column firstRow nrows selected then selected
  else (rows selected).foldl
    (fun result bitno => if !column.rowIsNull (firstRow + bitno) then result ||| bit 64 bitno else result) 0#64

/-- One lane of the vector comparisons, which have `==` and signed `>` only. -/
def simdLane (left right : Int4) : Int4Op → Bool
  | .eq => left == right
  | .ne => !(left == right)
  | .lt => left.slt right
  | .le => !(right.slt left)
  | .gt => right.slt left
  | .ge => !(left.slt right)

def comparisonMask (lane : Nat → Bool) : BitVec 64 :=
  (List.range 4).foldl (fun mask index => if lane index then mask ||| bit 64 index else mask) 0#64

/-- `pg_batch_int4_simd_compare`: groups of four rows, then the rows left over. -/
def simdCompare (column : Int4Vector) (firstRow nrows : Nat) (op : Int4Op) (scalar : Int4) : BitVec 64 :=
  let groups := (List.range (nrows / 4)).foldl (fun result group =>
    result ||| comparisonMask
      (fun lane => simdLane (column.rowValue (firstRow + (4 * group + lane))) scalar op) <<< (4 * group)) 0#64
  (List.range' (4 * (nrows / 4)) (nrows % 4)).foldl (fun result row =>
    if int4Compare (column.rowValue (firstRow + row)) scalar op then result ||| bit 64 row else result) groups

/-- One turn of the word loop of `pg_batch_filter_int4`. -/
def filterWord (column : Int4Vector) (selection : Selection) (op : Int4Op) (scalar : Int4) (useSimd : Bool)
    (word : Nat) : BitVec 64 :=
  let selected := selection.word word
  let wordNrows := min 64 (selection.nrows - 64 * word)
  if selected = 0#64 then selection.words word
  else if useSimd && selected == wordMask (selection.nrows - 64 * word) && decide (4 ≤ wordNrows) then
    let passing := simdCompare column (64 * word) wordNrows op scalar
    selected &&& (passing &&& notNullMask column (64 * word) wordNrows selected)
  else scalarCompare column (64 * word) selected op scalar

def filterInt4 (column : Int4Vector) (selection : Selection) (op : Int4Op) (scalar : Int4)
    (enableSimd simdAvailable : Bool) : Selection :=
  (List.range selection.nwords).foldl (fun selection word =>
    selection.store word (filterWord column selection op scalar (enableSimd && simdAvailable) word)) selection

/-! A filter leaves the selected rows that pass. -/

theorem foldl_bits (test : Nat → Bool) (visits : List Nat) (start : BitVec 64) (index : Nat) :
    (visits.foldl (fun result row => if test row then result ||| bit 64 row else result) start).getLsbD index =
      (start.getLsbD index || decide (index < 64 ∧ index ∈ visits ∧ test index = true)) := by
  induction visits generalizing start with
  | nil => simp
  | cons first rest ih =>
    rw [List.foldl_cons,ih]
    by_cases passes : test first = true
    · rw [if_pos passes,BitVec.getLsbD_or,getLsbD_bit]
      by_cases same : index = first
      · subst same
        simp only [passes,and_true,List.mem_cons,true_or]
        cases start.getLsbD index <;> simp
        exact fun small _ => small
      · simp [same]
    · rw [if_neg passes]
      by_cases same : index = first
      · subst same
        simp [passes]
      · simp [same]

theorem getLsbD_scalarCompare (column : Int4Vector) (firstRow : Nat) (selected : BitVec 64) (op : Int4Op)
    (scalar : Int4) (index : Nat) :
    (scalarCompare column firstRow selected op scalar).getLsbD index =
      (selected.getLsbD index && (!column.rowIsNull (firstRow + index) &&
        int4Compare (column.rowValue (firstRow + index)) scalar op)) := by
  rw [scalarCompare,foldl_bits fun bitno =>
    !column.rowIsNull (firstRow + bitno) && int4Compare (column.rowValue (firstRow + bitno)) scalar op]
  rw [BitVec.getLsbD_zero,Bool.false_or,Bool.eq_iff_iff,decide_eq_true_eq,Bool.and_eq_true,mem_rows]
  simp only [Bool.and_eq_true]
  exact ⟨fun both => both.2,fun both => ⟨BitVec.lt_of_getLsbD both.1,both⟩⟩

theorem getLsbD_notNullMask (column : Int4Vector) (firstRow : Nat) {nrows : Nat} {selected : BitVec 64} {index : Nat}
    (member : selected.getLsbD index = true) :
    (notNullMask column firstRow nrows selected).getLsbD index = !column.rowIsNull (firstRow + index) := by
  unfold notNullMask
  split
  · rename_i shortcut
    rw [member]
    cases column with
    | packed values validity offset =>
      cases validity with
      | none => rfl
      | some validity => simp [noNulls] at shortcut
    | datum values isnull =>
      simp only [noNulls,Bool.and_eq_true,List.all_eq_true,List.mem_range,beq_iff_eq] at shortcut
      have inside : index < nrows := by
        have := shortcut.1 ▸ member
        rw [getLsbD_wordMask] at this
        simp only [decide_eq_true_eq] at this
        exact this.2
      exact (shortcut.2 index inside).symm
  · rw [foldl_bits fun bitno => !column.rowIsNull (firstRow + bitno)]
    simp [member,BitVec.lt_of_getLsbD member]

theorem simdLane_eq (left right : Int4) (op : Int4Op) : simdLane left right op = int4Compare left right op := by
  cases op with
  | le | ge => simp [simdLane,int4Compare,BitVec.sle_eq_not_slt]
  | _ => rfl

theorem getLsbD_comparisonMask (lane : Nat → Bool) (index : Nat) :
    (comparisonMask lane).getLsbD index = (decide (index < 4) && lane index) := by
  rw [comparisonMask,foldl_bits]
  rw [BitVec.getLsbD_zero,Bool.false_or,Bool.eq_iff_iff]
  simp only [decide_eq_true_eq,List.mem_range,Bool.and_eq_true]
  constructor
  · exact fun both => both.2
  · exact fun both => ⟨by omega,both⟩

theorem getLsbD_simdCompare (column : Int4Vector) (firstRow : Nat) {nrows : Nat} (small : nrows ≤ 64) (op : Int4Op)
    (scalar : Int4) (index : Nat) :
    (simdCompare column firstRow nrows op scalar).getLsbD index =
      (decide (index < nrows) && int4Compare (column.rowValue (firstRow + index)) scalar op) := by
  have groups (count : Nat) (few : 4 * count ≤ 64) :
      ((List.range count).foldl (fun result group =>
        result ||| comparisonMask
          (fun lane => simdLane (column.rowValue (firstRow + (4 * group + lane))) scalar op) <<< (4 * group))
          0#64).getLsbD index =
        (decide (index < 4 * count) && int4Compare (column.rowValue (firstRow + index)) scalar op) := by
    induction count with
    | zero => simp
    | succ count ih =>
      rw [List.range_succ,List.foldl_append,List.foldl_cons,List.foldl_nil,BitVec.getLsbD_or,ih (by omega),
        BitVec.getLsbD_shiftLeft,getLsbD_comparisonMask,simdLane_eq]
      by_cases before : index < 4 * count
      · simp [before,show index < 4 * (count + 1) by omega]
      · rw [show 4 * count + (index - 4 * count) = index by omega]
        by_cases here : index < 4 * (count + 1)
        · simp [before,here,show index < 64 by omega,show index - 4 * count < 4 by omega]
        · simp [before,here,show ¬ index - 4 * count < 4 by omega]
  rw [simdCompare,foldl_bits fun row => int4Compare (column.rowValue (firstRow + row)) scalar op,
    groups (nrows / 4) (by omega),Bool.eq_iff_iff]
  simp only [Bool.or_eq_true,Bool.and_eq_true,decide_eq_true_eq,List.mem_range'_1]
  constructor
  · rintro (⟨_,passes⟩ | ⟨_,_,passes⟩)
    · exact ⟨by omega,passes⟩
    · exact ⟨by omega,passes⟩
  · rintro ⟨inside,passes⟩
    by_cases grouped : index < 4 * (nrows / 4)
    · exact .inl ⟨grouped,passes⟩
    · exact .inr ⟨by omega,by omega,passes⟩

/-- Does a row of the column pass the comparison? -/
def passes (column : Int4Vector) (op : Int4Op) (scalar : Int4) (row : Nat) : Bool :=
  match column.seen row with
  | none => false
  | some value => int4Compare value scalar op

theorem passes_eq (column : Int4Vector) (op : Int4Op) (scalar : Int4) (row : Nat) :
    passes column op scalar row =
      (!column.rowIsNull row && int4Compare (column.rowValue row) scalar op) := by
  unfold passes Int4Vector.seen
  cases column.rowIsNull row <;> rfl

/-- The scalar and the vector path agree. -/
theorem getLsbD_filterWord (column : Int4Vector) (selection : Selection) (op : Int4Op) (scalar : Int4)
    (useSimd : Bool) {word index : Nat} (inside : index < 64) (row : 64 * word + index < selection.nrows) :
    (filterWord column selection op scalar useSimd word).getLsbD index =
      ((selection.words word).getLsbD index && passes column op scalar (64 * word + index)) := by
  have bits : (selection.word word).getLsbD index = (selection.words word).getLsbD index := by
    rw [getLsbD_word]
    simp [inside,row]
  rw [passes_eq]
  unfold filterWord
  dsimp only
  split
  · rename_i empty
    rw [← bits,empty]
    simp
  · split
    · rw [BitVec.getLsbD_and,BitVec.getLsbD_and,getLsbD_simdCompare _ _ (Nat.min_le_left _ _),bits]
      cases set : (selection.words word).getLsbD index with
      | false => rfl
      | true =>
        rw [getLsbD_notNullMask column (64 * word) (bits.trans set)]
        simp [inside,show index < selection.nrows - 64 * word by omega,Bool.and_comm]
    · rw [getLsbD_scalarCompare,bits]

/-- The words of the selection are filtered one by one. -/
theorem filterInt4_eq (column : Int4Vector) (selection : Selection) (op : Int4Op) (scalar : Int4)
    (enableSimd simdAvailable : Bool) :
    filterInt4 column selection op scalar enableSimd simdAvailable =
      {selection with words := fun word =>
        if word < selection.nwords then filterWord column selection op scalar (enableSimd && simdAvailable) word
        else selection.words word} := by
  have loop (count : Nat) :
      (List.range count).foldl (fun selection word =>
        selection.store word (filterWord column selection op scalar (enableSimd && simdAvailable) word)) selection =
        {selection with words := fun word =>
          if word < count then filterWord column selection op scalar (enableSimd && simdAvailable) word
          else selection.words word} := by
    induction count with
    | zero => simp
    | succ count ih =>
      rw [List.range_succ,List.foldl_append,ih,List.foldl_cons,List.foldl_nil]
      simp only [Selection.store,Selection.mk.injEq,true_and]
      funext word
      by_cases same : word = count
      · subst same
        simp [filterWord,Selection.word]
      · rw [Function.update_of_ne same]
        simp only [show (word < count + 1) = (word < count) by
          rw [eq_iff_iff]
          omega]
  exact loop selection.nwords

theorem filterInt4_nrows (column : Int4Vector) (selection : Selection) (op : Int4Op) (scalar : Int4)
    (enableSimd simdAvailable : Bool) :
    (filterInt4 column selection op scalar enableSimd simdAvailable).nrows = selection.nrows := by
  rw [filterInt4_eq]

theorem filterInt4_selected (column : Int4Vector) (selection : Selection) (op : Int4Op) (scalar : Int4)
    (enableSimd simdAvailable : Bool) (row : Nat) :
    (filterInt4 column selection op scalar enableSimd simdAvailable).Selected row ↔
      selection.Selected row ∧ passes column op scalar row = true := by
  rw [filterInt4_eq]
  simp only [Selection.Selected]
  constructor
  · rintro ⟨inside,set⟩
    rw [if_pos (by simp only [Selection.nwords]; omega),
      getLsbD_filterWord _ _ _ _ _ (Nat.mod_lt _ (by omega)) (by omega)] at set
    rw [show 64 * (row / 64) + row % 64 = row by omega,Bool.and_eq_true] at set
    exact ⟨⟨inside,set.1⟩,set.2⟩
  · rintro ⟨⟨inside,set⟩,passing⟩
    refine ⟨inside,?_⟩
    rw [if_pos (by simp only [Selection.nwords]; omega),
      getLsbD_filterWord _ _ _ _ _ (Nat.mod_lt _ (by omega)) (by omega)]
    rw [show 64 * (row / 64) + row % 64 = row by omega,set,passing]
    rfl

/-- A filter sets no bit. -/
theorem filterInt4_less (column : Int4Vector) (selection : Selection) (op : Int4Op) (scalar : Int4)
    (enableSimd simdAvailable : Bool) {word index : Nat}
    (set : ((filterInt4 column selection op scalar enableSimd simdAvailable).words word).getLsbD index = true) :
    (selection.words word).getLsbD index = true := by
  have selected (kept : (selection.word word).getLsbD index = true) : (selection.words word).getLsbD index = true := by
    rw [getLsbD_word,Bool.and_eq_true] at kept
    exact kept.1
  rw [filterInt4_eq] at set
  dsimp only at set
  split at set
  · unfold filterWord at set
    dsimp only at set
    split at set
    · exact set
    · split at set
      · rw [BitVec.getLsbD_and,Bool.and_eq_true] at set
        exact selected set.1
      · rw [getLsbD_scalarCompare,Bool.and_eq_true] at set
        exact selected set.1
  · exact set

/-- The path that a word takes makes no difference. -/
theorem filterWord_path (column : Int4Vector) (selection : Selection) (op : Int4Op) (scalar : Int4) (useSimd : Bool)
    (word : Nat) : filterWord column selection op scalar useSimd word = filterWord column selection op scalar false word := by
  apply BitVec.eq_of_getLsbD_eq
  intro index inside
  by_cases row : 64 * word + index < selection.nrows
  · rw [getLsbD_filterWord _ _ _ _ _ inside row,getLsbD_filterWord _ _ _ _ _ inside row]
  · have outside : (selection.word word).getLsbD index = false := by
      rw [getLsbD_word]
      simp [row]
    unfold filterWord
    dsimp only
    split
    · rfl
    · split
      · simp [getLsbD_scalarCompare,outside]
      · simp

/-- A filter leaves just the selected rows that are not NULL and satisfy the comparison, on either path. -/
structure FilterRight (column : Int4Vector) (selection : Selection) (op : Int4Op) (scalar : Int4) : Prop where
  kept : ∀ enableSimd simdAvailable row, (filterInt4 column selection op scalar enableSimd simdAvailable).Selected row ↔
    selection.Selected row ∧ ∃ value, column.cell row = some value ∧ int4Compare value scalar op = true
  clean : ∀ enableSimd simdAvailable, (filterInt4 column selection op scalar enableSimd simdAvailable).Clean
  paths : ∀ enableSimd simdAvailable, filterInt4 column selection op scalar enableSimd simdAvailable =
    filterInt4 column selection op scalar false false

/-- It does so if and only if every selected row with a passing value finds its own validity bit. -/
theorem filter_right_iff (column : Int4Vector) (selection : Selection) (clean : selection.Clean) (op : Int4Op)
    (scalar : Int4) : FilterRight column selection op scalar ↔ ∀ row, selection.Selected row →
      int4Compare (column.rowValue row) scalar op = true → column.AddressedAt row := by
  have null (row : Nat) (passing : int4Compare (column.rowValue row) scalar op = true) :
      (∃ value, column.cell row = some value ∧ int4Compare value scalar op = true) ↔
        (column.cell row).isNone = false := by
    cases found : column.cell row with
    | none => simp
    | some value =>
      rw [Int4Vector.cell_value found] at passing
      simp [passing]
  constructor
  · intro right row selected passing
    have kept := right.kept false false row
    rw [filterInt4_selected,passes_eq,passing,Bool.and_true,null row passing] at kept
    rw [Int4Vector.addressedAt_iff]
    have same := and_congr_right_iff.mp kept selected
    cases read : column.rowIsNull row <;> cases own : (column.cell row).isNone <;> simp only [read,own] at same <;>
      first | rfl | exact absurd same (by decide)
  · intro addressed
    refine ⟨fun enableSimd simdAvailable row => ?_,fun enableSimd simdAvailable => ?_,
      fun enableSimd simdAvailable => ?_⟩
    · rw [filterInt4_selected,passes_eq]
      refine and_congr_right fun selected => ?_
      by_cases passing : int4Compare (column.rowValue row) scalar op = true
      · rw [passing,Bool.and_true,Int4Vector.addressedAt_iff.mp (addressed row selected passing),null row passing,
          Bool.not_eq_true']
      · rw [Bool.eq_false_iff.mpr passing,Bool.and_false]
        refine iff_of_false (by decide) ?_
        rintro ⟨value,found,passes⟩
        rw [Int4Vector.cell_value found] at passing
        exact passing passes
    · exact clean.sub (filterInt4_nrows ..) fun _ _ => filterInt4_less _ _ _ _ _ _
    · rw [filterInt4_eq,filterInt4_eq]
      congr 1
      funext word
      rw [filterWord_path,filterWord_path column selection op scalar (false && false)]

/-- One row, seven, stored 2^32 rows into its array; the row at the start is NULL. -/
def farColumn : Int4Vector :=
  .packed (fun _ => 7#32) (some fun index => decide (index = 2 ^ 32)) (2 ^ 32)

def oneRow : Selection :=
  ⟨1,by decide,fun _ => 1#64⟩

theorem oneRow_clean : oneRow.Clean := by
  intro word inside
  rw [show word = 0 by simpa [Selection.nwords,oneRow] using inside]
  decide

/-- The filter for seven loses that row. -/
theorem far_row_filtered : oneRow.Clean ∧ oneRow.Selected 0 ∧ farColumn.cell 0 = some 7#32 ∧
    ¬ (filterInt4 farColumn oneRow .eq 7#32 true true).Selected 0 ∧ ¬ FilterRight farColumn oneRow .eq 7#32 := by
  refine ⟨oneRow_clean,by decide,by decide,?_,fun right => ?_⟩
  · rw [filterInt4_selected]
    decide
  · have kept := right.kept true true 0
    rw [filterInt4_selected] at kept
    exact absurd (kept.mpr ⟨by decide,7#32,by decide,by decide⟩) (by decide)

/-- Near the start of its array the same filter is right. -/
theorem near_row_filtered : FilterRight (.packed (fun _ => 7#32) (some fun _ => true) 5) oneRow .eq 7#32 :=
  (filter_right_iff _ oneRow oneRow_clean .eq 7#32).mpr fun _ _ _ => rfl

end PgBatch
