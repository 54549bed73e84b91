import PgBatch.Kernels.Selection
import PgBatch.Kernels.Int4

/-! The reduction kernel of `kernels/int4.c`: count, sum, least and greatest value of
the selected rows of a column. -/
namespace PgBatch

namespace Aggregate

def reduceCount : BitVec 32 := 1
def reduceSum : BitVec 32 := 2
def reduceMin : BitVec 32 := 4
def reduceMax : BitVec 32 := 8

/-- `PgBatchInt4Reduction`. -/
structure Int4Reduction where
  count : Int
  sum : Int
  min : Int4
  max : Int4
  hasValue : Bool
deriving DecidableEq, Repr

def zeroReduction : Int4Reduction :=
  ⟨0,0,0,0,false⟩

def InInt64 (value : Int) : Prop :=
  -2 ^ 63 ≤ value ∧ value < 2 ^ 63

instance (value : Int) : Decidable (InInt64 value) :=
  inferInstanceAs (Decidable (_ ∧ _))

end Aggregate

namespace Reduce
open Words Aggregate

/-- An addition of two `int64` that nothing checks: it has no result when it overflows. -/
def addInt64 (target addend : Int) : Option Int :=
  if InInt64 (target + addend) then some (target + addend) else none

def wants (flags flag : BitVec 32) : Bool :=
  flags &&& flag != 0#32

def addWanted (flags flag : BitVec 32) (target addend : Int) : Option Int :=
  if wants flags flag then addInt64 target addend else some target

def reduceValue (flags : BitVec 32) (result : Int4Reduction) (value : Int4) : Option Int4Reduction :=
  (addWanted flags reduceSum result.sum value.toInt).map fun sum =>
    if !result.hasValue then
      {result with
        sum := sum
        min := if wants flags reduceMin then value else result.min
        max := if wants flags reduceMax then value else result.max
        hasValue := true}
    else
      {result with
        sum := sum
        min := if wants flags reduceMin && decide (value.toInt < result.min.toInt) then value else result.min
        max := if wants flags reduceMax && decide (result.max.toInt < value.toInt) then value else result.max}

/-- `reduce_sum`, which has a loop over all rows of the word and one over its bits. -/
def reduceSumWord (column : Int4Vector) (firstRow nrows : Nat) (present : BitVec 64) : Option Int :=
  if present = wordMask nrows then
    (List.range nrows).foldlM (fun sum row => addInt64 sum (column.rowValue (firstRow + row)).toInt) 0
  else (rows present).foldlM (fun sum bitno => addInt64 sum (column.rowValue (firstRow + bitno)).toInt) 0

/-- One turn of the word loop of `pg_batch_reduce_int4`. -/
def reduceWord (column : Int4Vector) (selection : Selection) (flags : BitVec 32) (result : Int4Reduction)
    (word : Nat) : Option Int4Reduction :=
  let wordNrows := min 64 (selection.nrows - 64 * word)
  let selected := selection.word word
  let valueFlags := flags &&& (reduceSum ||| reduceMin ||| reduceMax)
  if selected = 0#64 then some result
  else
    let present := selected &&& notNullMask column (64 * word) wordNrows selected
    if present = 0#64 then some result
    else do
      let count ← addWanted flags reduceCount result.count (popcount present)
      let result := {result with count := count}
      if valueFlags = 0#32 then some {result with hasValue := true}
      else if valueFlags = reduceSum then do
        let partialSum ← reduceSumWord column (64 * word) wordNrows present
        let sum ← addInt64 result.sum partialSum
        some {result with sum := sum, hasValue := true}
      else if present = wordMask (selection.nrows - 64 * word) then
        (List.range' (64 * word) wordNrows).foldlM
          (fun result row => reduceValue valueFlags result (column.rowValue row)) result
      else
        (rows present).foldlM
          (fun result bitno => reduceValue valueFlags result (column.rowValue (64 * word + bitno))) result

/-- `pg_batch_reduce_int4`. -/
def reduceInt4 (column : Int4Vector) (selection : Selection) (flags : BitVec 32) : Option Int4Reduction :=
  (List.range selection.nwords).foldlM (reduceWord column selection flags) zeroReduction

/-! What a reduction says of a list of values. -/

def total (values : List Int4) : Int :=
  (values.map BitVec.toInt).foldr (· + ·) 0

/-- The fields that were asked for, but for the count. -/
structure Totals (flags : BitVec 32) (values : List Int4) (result : Int4Reduction) : Prop where
  hasValue : result.hasValue = true ↔ values ≠ []
  sum : wants flags reduceSum = true → result.sum = total values
  min : wants flags reduceMin = true → values ≠ [] →
    result.min ∈ values ∧ ∀ value ∈ values, result.min.toInt ≤ value.toInt
  max : wants flags reduceMax = true → values ≠ [] →
    result.max ∈ values ∧ ∀ value ∈ values, value.toInt ≤ result.max.toInt

structure Reduces (flags : BitVec 32) (values : List Int4) (result : Int4Reduction) : Prop extends
    Totals flags values result where
  count : wants flags reduceCount = true → result.count = values.length

theorem total_cons (first : Int4) (rest : List Int4) : total (first :: rest) = first.toInt + total rest :=
  rfl

theorem total_append (left right : List Int4) : total (left ++ right) = total left + total right := by
  induction left with
  | nil => exact (Int.zero_add _).symm
  | cons first rest ih =>
    rw [List.cons_append,total_cons,total_cons,ih,Int.add_assoc]

theorem total_bounds (values : List Int4) :
    -(2 ^ 31 * values.length : Int) ≤ total values ∧ total values ≤ 2 ^ 31 * values.length := by
  induction values with
  | nil => decide
  | cons first rest ih =>
    have low := BitVec.le_toInt first
    have high := BitVec.toInt_lt (x := first)
    simp only [total_cons,List.length_cons] at ih ⊢
    push_cast at *
    omega

/-- Fewer than 2^32 values have their sum in an `int64`. -/
theorem total_inInt64 {values : List Int4} (few : values.length < 2 ^ 32) : InInt64 (total values) := by
  have bounds := total_bounds values
  unfold InInt64
  omega

theorem reduces_zero (flags : BitVec 32) : Reduces flags [] zeroReduction where
  hasValue := by simp [zeroReduction]
  sum := fun _ => rfl
  min := fun _ nonempty => absurd rfl nonempty
  max := fun _ nonempty => absurd rfl nonempty
  count := fun _ => rfl

/-- A reduction has one value in every field that was asked for. -/
theorem Reduces.unique {flags : BitVec 32} {values : List Int4} {one two : Int4Reduction} (first : Reduces flags values one)
    (second : Reduces flags values two) :
    (wants flags reduceCount = true → one.count = two.count) ∧ (wants flags reduceSum = true → one.sum = two.sum) ∧
      one.hasValue = two.hasValue ∧
      (one.hasValue = true → (wants flags reduceMin = true → one.min = two.min) ∧
        (wants flags reduceMax = true → one.max = two.max)) := by
  refine ⟨fun wanted => (first.count wanted).trans (second.count wanted).symm,
    fun wanted => (first.sum wanted).trans (second.sum wanted).symm,?_,fun some_ => ⟨fun wanted => ?_,fun wanted => ?_⟩⟩
  · rw [Bool.eq_iff_iff,first.hasValue,second.hasValue]
  · have nonempty := first.hasValue.mp some_
    obtain ⟨mine,least⟩ := first.min wanted nonempty
    obtain ⟨other,least'⟩ := second.min wanted nonempty
    exact BitVec.eq_of_toInt_eq (Int.le_antisymm (least _ other) (least' _ mine))
  · have nonempty := first.hasValue.mp some_
    obtain ⟨mine,most⟩ := first.max wanted nonempty
    obtain ⟨other,most'⟩ := second.max wanted nonempty
    exact BitVec.eq_of_toInt_eq (Int.le_antisymm (most' _ mine) (most _ other))

/-! Each path of the kernel reduces the values of the rows that it reads as not NULL. -/

section Paths
variable {flags : BitVec 32} {values : List Int4} {result : Int4Reduction}

theorem total_snoc (values : List Int4) (value : Int4) : total (values ++ [value]) = total values + value.toInt := by
  rw [total_append,total_cons]
  exact congrArg _ (Int.add_zero _)

/-- The lesser of the least values of two lists. -/
theorem least_append {left right : List Int4} {one two : Int4}
    (first : one ∈ left ∧ ∀ value ∈ left, one.toInt ≤ value.toInt)
    (second : two ∈ right ∧ ∀ value ∈ right, two.toInt ≤ value.toInt) :
    (if two.toInt < one.toInt then two else one) ∈ left ++ right ∧
      ∀ value ∈ left ++ right, (if two.toInt < one.toInt then two else one).toInt ≤ value.toInt := by
  obtain ⟨mine,least⟩ := first
  obtain ⟨theirs,least'⟩ := second
  split
  · refine ⟨List.mem_append_right _ theirs,fun value member => ?_⟩
    rcases List.mem_append.mp member with inside | inside
    · have := least value inside
      omega
    · exact least' value inside
  · refine ⟨List.mem_append_left _ mine,fun value member => ?_⟩
    rcases List.mem_append.mp member with inside | inside
    · exact least value inside
    · have := least' value inside
      omega

theorem greatest_append {left right : List Int4} {one two : Int4}
    (first : one ∈ left ∧ ∀ value ∈ left, value.toInt ≤ one.toInt)
    (second : two ∈ right ∧ ∀ value ∈ right, value.toInt ≤ two.toInt) :
    (if one.toInt < two.toInt then two else one) ∈ left ++ right ∧
      ∀ value ∈ left ++ right, value.toInt ≤ (if one.toInt < two.toInt then two else one).toInt := by
  obtain ⟨mine,most⟩ := first
  obtain ⟨theirs,most'⟩ := second
  split
  · refine ⟨List.mem_append_right _ theirs,fun value member => ?_⟩
    rcases List.mem_append.mp member with inside | inside
    · have := most value inside
      omega
    · exact most' value inside
  · refine ⟨List.mem_append_left _ mine,fun value member => ?_⟩
    rcases List.mem_append.mp member with inside | inside
    · exact most value inside
    · have := most' value inside
      omega

theorem reduceValue_ok {value : Int4} (totals : Totals flags values result) (few : (values ++ [value]).length < 2 ^ 32) :
    ∃ next, reduceValue flags result value = some next ∧ Totals flags (values ++ [value]) next ∧
      next.count = result.count := by
  obtain ⟨sum,added,right⟩ : ∃ sum, addWanted flags reduceSum result.sum value.toInt = some sum ∧ (wants flags reduceSum = true → sum = total (values ++ [value])) := by
    unfold addWanted
    cases wanted : wants flags reduceSum with
    | false => exact ⟨result.sum,rfl,nofun⟩
    | true =>
      refine ⟨total (values ++ [value]),?_,fun _ => rfl⟩
      rw [if_pos rfl,addInt64,totals.sum wanted,← total_snoc,if_pos (total_inInt64 few)]
  unfold reduceValue
  rw [added,Option.map_some]
  by_cases empty : values = []
  · subst empty
    have fresh : result.hasValue = false := by
      rw [Bool.eq_false_iff,ne_eq,totals.hasValue]
      exact fun nonempty => nonempty rfl
    rw [fresh]
    refine ⟨_,rfl,⟨by simp,right,fun wanted _ => ?_,fun wanted _ => ?_⟩,rfl⟩
    · simp [wanted]
    · simp [wanted]
  · have present := totals.hasValue.mpr empty
    rw [present,if_neg (show ¬ (!true) = true by decide)]
    refine ⟨_,rfl,⟨by simp,right,fun wanted _ => ?_,fun wanted _ => ?_⟩,rfl⟩
    · simp only [wanted,Bool.true_and,decide_eq_true_eq]
      exact least_append (totals.min wanted empty) ⟨List.mem_singleton_self value,by simp⟩
    · simp only [wanted,Bool.true_and,decide_eq_true_eq]
      exact greatest_append (totals.max wanted empty) ⟨List.mem_singleton_self value,by simp⟩

theorem reduceValues_ok {visits : List Nat} {value : Nat → Int4} (totals : Totals flags values result)
    (few : (values ++ visits.map value).length < 2 ^ 32) :
    ∃ next, visits.foldlM (fun result row => reduceValue flags result (value row)) result = some next ∧
      Totals flags (values ++ visits.map value) next ∧ next.count = result.count := by
  induction visits generalizing values result with
  | nil => exact ⟨result,rfl,by simpa using totals,rfl⟩
  | cons row rest ih =>
    have split : values ++ (row :: rest).map value = (values ++ [value row]) ++ rest.map value := by simp
    rw [split] at few
    obtain ⟨middle,first,totals',count⟩ := reduceValue_ok totals (Nat.lt_of_le_of_lt (by simp) few)
    obtain ⟨next,others,totals'',count'⟩ := ih totals' few
    refine ⟨next,?_,split ▸ totals'',count'.trans count⟩
    rw [List.foldlM_cons,first,Option.bind_eq_bind,Option.bind_some]
    exact others

/-- A running sum over fewer than 2^32 values never overflows. -/
theorem runningSum_ok {visits : List Nat} {value : Nat → Int4} (few : (visits.map value).length < 2 ^ 32) :
    visits.foldlM (fun sum row => addInt64 sum (value row).toInt) 0 = some (total (visits.map value)) := by
  induction visits using List.reverseRecOn with
  | nil => rfl
  | append_singleton before row ih =>
    have fits : InInt64 (total (before.map value) + (value row).toInt) := by
      rw [← total_snoc]
      rw [List.map_append] at few
      exact total_inInt64 few
    rw [List.foldlM_append,ih (Nat.lt_of_le_of_lt (by simp) few),List.map_append,List.map_cons,List.map_nil,total_snoc]
    simp [addInt64,fits]

theorem wants_values (flags flag : BitVec 32) (valued : (reduceSum ||| reduceMin ||| reduceMax) &&& flag = flag) :
    wants (flags &&& (reduceSum ||| reduceMin ||| reduceMax)) flag = wants flags flag := by
  rw [wants,wants,BitVec.and_assoc,valued]

theorem totals_values : Totals (flags &&& (reduceSum ||| reduceMin ||| reduceMax)) values result ↔
    Totals flags values result := by
  have sum := wants_values flags reduceSum (by decide)
  have min := wants_values flags reduceMin (by decide)
  have max := wants_values flags reduceMax (by decide)
  constructor
  · rintro ⟨hasValue,sum_,min_,max_⟩
    exact ⟨hasValue,sum ▸ sum_,min ▸ min_,max ▸ max_⟩
  · rintro ⟨hasValue,sum_,min_,max_⟩
    exact ⟨hasValue,sum.symm ▸ sum_,min.symm ▸ min_,max.symm ▸ max_⟩

/-- What the kernel takes a list of rows for. -/
def seenValues (column : Int4Vector) (visits : List Nat) : List Int4 :=
  visits.filterMap column.seen

/-- The rows of a word that are left behind `not_null_mask`. -/
theorem seenValues_word (column : Int4Vector) (firstRow nrows : Nat) (selected : BitVec 64) :
    seenValues column ((rows selected).map (firstRow + ·)) =
      (rows (selected &&& notNullMask column firstRow nrows selected)).map fun bitno => column.rowValue (firstRow + bitno) := by
  rw [rows_and,seenValues,List.filterMap_map]
  have present : ∀ bitno ∈ rows selected, selected.getLsbD bitno = true := fun _ => mem_rows.mp
  generalize rows selected = visits at present ⊢
  induction visits with
  | nil => rfl
  | cons bitno rest ih =>
    have tail := ih fun other member => present other (List.mem_cons_of_mem _ member)
    have mask : (notNullMask column firstRow nrows selected).getLsbD bitno = !column.rowIsNull (firstRow + bitno) :=
      getLsbD_notNullMask column firstRow (present bitno (List.mem_cons_self ..))
    cases null : column.rowIsNull (firstRow + bitno) with
    | true =>
      rw [null] at mask
      rw [List.filterMap_cons_none (by simp [Int4Vector.seen,null]),List.filter_cons_of_neg (by simp [mask]),tail]
    | false =>
      rw [null] at mask
      have seen : (column.seen ∘ (firstRow + ·)) bitno = some (column.rowValue (firstRow + bitno)) := by
        simp [Int4Vector.seen,null]
      rw [List.filterMap_cons_some seen,List.filter_cons_of_pos (by simp [mask]),tail,List.map_cons]

/-- A word of the selection: its rows that are not NULL are counted and reduced, whichever path they take. -/
theorem reduceWord_ok (column : Int4Vector) (selection : Selection) {word : Nat} (reduces : Reduces flags values result)
    (few : (values ++ seenValues column ((rows (selection.word word)).map (64 * word + ·))).length < 2 ^ 32) :
    ∃ next, reduceWord column selection flags result word = some next ∧
      Reduces flags (values ++ seenValues column ((rows (selection.word word)).map (64 * word + ·))) next := by
  let wordNrows := min 64 (selection.nrows - 64 * word)
  have seen := seenValues_word column (64 * word) wordNrows (selection.word word)
  rw [seen] at few ⊢
  unfold reduceWord
  dsimp only
  split
  · rename_i empty
    refine ⟨result,rfl,?_⟩
    rw [empty,BitVec.zero_and,rows_zero,List.map_nil,List.append_nil]
    exact reduces
  · split
    · rename_i none_
      refine ⟨result,rfl,?_⟩
      rw [none_,rows_zero,List.map_nil,List.append_nil]
      exact reduces
    · rename_i some_
      generalize selection.word word &&& notNullMask column (64 * word) wordNrows (selection.word word) = present at *
      obtain ⟨count,counted,right⟩ : ∃ count, addWanted flags reduceCount result.count (popcount present) = some count ∧
          (wants flags reduceCount = true → count = (values ++
            (rows present).map fun bitno => column.rowValue (64 * word + bitno)).length) := by
        unfold addWanted
        cases wanted : wants flags reduceCount with
        | false => exact ⟨result.count,rfl,by simp⟩
        | true =>
          have sum : result.count + popcount present = ((values ++
              (rows present).map fun bitno => column.rowValue (64 * word + bitno)).length : Int) := by
            rw [reduces.count wanted,popcount,List.length_append,List.length_map]
            push_cast
            rfl
          refine ⟨_,?_,fun _ => sum⟩
          rw [if_pos rfl,addInt64,if_pos]
          rw [sum]
          unfold InInt64
          omega
      have nonempty : rows present ≠ [] := fun empty => some_ (rows_eq_nil.mp empty)
      have totals : Totals flags values {result with count := count} :=
        ⟨reduces.hasValue,reduces.sum,reduces.min,reduces.max⟩
      rw [counted,Option.bind_eq_bind,Option.bind_some]
      split
      · rename_i unvalued
        have unwanted (flag : BitVec 32) (valued : (reduceSum ||| reduceMin ||| reduceMax) &&& flag = flag) :
            wants flags flag = false := by
          rw [← wants_values flags flag valued,unvalued]
          simp [wants]
        refine ⟨_,rfl,⟨⟨by simp [nonempty],?_,?_,?_⟩,right⟩⟩
        · rw [unwanted reduceSum (by decide)]
          simp
        · rw [unwanted reduceMin (by decide)]
          simp
        · rw [unwanted reduceMax (by decide)]
          simp
      · split
        · rename_i summed
          have only (flag : BitVec 32) (valued : (reduceSum ||| reduceMin ||| reduceMax) &&& flag = flag) :
              wants flags flag = wants reduceSum flag := by
            rw [← wants_values flags flag valued,summed]
          have partialSum : reduceSumWord column (64 * word) wordNrows present =
              some (total ((rows present).map fun bitno => column.rowValue (64 * word + bitno))) := by
            unfold reduceSumWord
            have short : ((rows present).map fun bitno => column.rowValue (64 * word + bitno)).length < 2 ^ 32 :=
              Nat.lt_of_le_of_lt (by simp) few
            split
            · rename_i dense
              rw [dense,rows_wordMask,Nat.min_eq_right (Nat.min_le_left ..)] at short ⊢
              exact runningSum_ok short
            · exact runningSum_ok short
          rw [partialSum,Option.bind_some,addInt64,totals.sum (only reduceSum (by decide) ▸ rfl),← total_append,
            if_pos (total_inInt64 few),Option.bind_some]
          refine ⟨_,rfl,⟨⟨by simp [nonempty],fun _ => rfl,?_,?_⟩,right⟩⟩
          · intro wanted
            rw [only reduceMin (by decide)] at wanted
            cases wanted
          · intro wanted
            rw [only reduceMax (by decide)] at wanted
            cases wanted
        · have valued := totals_values.mpr totals
          obtain ⟨next,ran,after,kept⟩ := reduceValues_ok valued few
          have counts : wants flags reduceCount = true → next.count = (values ++
              (rows present).map fun bitno => column.rowValue (64 * word + bitno)).length :=
            fun wanted => kept.trans (right wanted)
          split
          · rename_i dense
            refine ⟨next,?_,⟨totals_values.mp after,counts⟩⟩
            rw [← ran,dense,rows_wordMask,List.range'_eq_map_range,List.foldlM_map]
          · exact ⟨next,ran,⟨totals_values.mp after,counts⟩⟩

theorem visits_length (selection : Selection) : selection.visits.length ≤ selection.nrows := by
  rw [Selection.visits_eq]
  exact Nat.le_trans (List.length_filter_le ..) (by simp)

/-- The kernel never overflows, and reduces the values that it reads as not NULL. -/
theorem reduceInt4_ok (column : Int4Vector) (selection : Selection) (flags : BitVec 32) :
    ∃ result, reduceInt4 column selection flags = some result ∧
      Reduces flags (seenValues column selection.visits) result := by
  have short : (seenValues column selection.visits).length < 2 ^ 32 := by
    have := List.length_filterMap_le column.seen selection.visits
    have := visits_length selection
    have := selection.small
    unfold seenValues
    omega
  have loop (count : Nat) (few : (seenValues column ((List.range count).flatMap fun word =>
      (rows (selection.word word)).map (64 * word + ·))).length < 2 ^ 32) :
      ∃ result, (List.range count).foldlM (reduceWord column selection flags) zeroReduction = some result ∧
        Reduces flags (seenValues column ((List.range count).flatMap fun word =>
          (rows (selection.word word)).map (64 * word + ·))) result := by
    induction count with
    | zero => exact ⟨zeroReduction,rfl,reduces_zero flags⟩
    | succ count ih =>
      have split : seenValues column ((List.range (count + 1)).flatMap fun word =>
          (rows (selection.word word)).map (64 * word + ·)) =
          seenValues column ((List.range count).flatMap fun word => (rows (selection.word word)).map (64 * word + ·)) ++
            seenValues column ((rows (selection.word count)).map (64 * count + ·)) := by
        rw [List.range_succ,List.flatMap_append,seenValues,List.filterMap_append,List.flatMap_singleton]
        rfl
      rw [split] at few ⊢
      obtain ⟨middle,ran,reduces⟩ := ih (Nat.lt_of_le_of_lt (by simp) few)
      obtain ⟨next,step,reduces'⟩ := reduceWord_ok column selection reduces few
      refine ⟨next,?_,reduces'⟩
      rw [List.range_succ,List.foldlM_append,ran,Option.bind_eq_bind,Option.bind_some,List.foldlM_cons,step]
      rfl
  exact loop selection.nwords short

end Paths

end Reduce

end PgBatch
