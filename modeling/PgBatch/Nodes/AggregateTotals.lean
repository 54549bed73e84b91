import PgBatch.Nodes.Aggregate
import Mathlib.Algebra.BigOperators.Group.List.Basic
import Mathlib.Data.Int.Order.Basic

/-! What an entry of a group table holds: the totals of the group's rows, as SQL
defines them, for every aggregate that the plan asks for. -/
namespace PgBatch.Aggregate
open Grouping

/-! The totals without the overflow checks. -/

def reduceValue (flags : BitVec 32) (value : Int4Reduction) : Option Int4 → Int4Reduction
  | none => value
  | some input =>
    if flags = 0#32 then value
    else extend flags {value with
      count := value.count + if flags &&& reduceCount ≠ 0#32 then 1 else 0
      sum := value.sum + if flags &&& reduceSum ≠ 0#32 then input.toInt else 0} input

def reduceColumn (flags : BitVec 32) (cells : List (Option Int4)) : Int4Reduction :=
  cells.foldl (reduceValue flags) zeroReduction

/-- What the entry of a group should hold after the given rows. -/
def summary (own : BatchAgg) (rows : List Column) : GroupValues where
  countStar := if own.hasCountStar then rows.length else 0
  values := own.inputs.map fun input => reduceColumn input.flags (rows.map fun row => row input.column)

/-- The accumulators of a group are in range after the given rows. -/
structure InRange (own : BatchAgg) (rows : List Column) : Prop where
  countStar : InInt64 (summary own rows).countStar
  values : ∀ value ∈ (summary own rows).values, InInt64 value.count ∧ InInt64 value.sum

/-- The inputs that a source row gives. -/
def sourceCells (own : BatchAgg) (row : Column) : List (Option Int4) :=
  own.inputs.map fun input => row input.column

@[simp] theorem extend_count (flags : BitVec 32) (value : Int4Reduction) (input : Int4) :
    (extend flags value input).count = value.count := by
  unfold extend
  split <;> rfl

@[simp] theorem extend_sum (flags : BitVec 32) (value : Int4Reduction) (input : Int4) :
    (extend flags value input).sum = value.sum := by
  unfold extend
  split <;> rfl

@[simp] theorem extend_hasValue (flags : BitVec 32) (value : Int4Reduction) (input : Int4) :
    (extend flags value input).hasValue = true := by
  unfold extend
  split
  · assumption
  · rfl

theorem advanceValue_ok {flags : BitVec 32} {value : Int4Reduction} {cell : Option Int4}
    (count : InInt64 (reduceValue flags value cell).count) (sum : InInt64 (reduceValue flags value cell).sum) :
    advanceValue flags value cell = .ok (reduceValue flags value cell) := by
  cases cell with
  | none => rfl
  | some input =>
    unfold reduceValue advanceValue at *
    dsimp only at *
    by_cases unused : flags = 0#32
    · rw [if_pos unused,if_pos unused]
    · rw [if_neg unused] at count sum ⊢
      rw [if_neg unused]
      simp only [extend_count,extend_sum] at count sum
      by_cases counted : flags &&& reduceCount ≠ 0#32
      · rw [if_pos counted] at count
        by_cases summed : flags &&& reduceSum ≠ 0#32
        · rw [if_pos summed] at sum
          simp only [if_pos counted,if_pos summed,addInt64Checked,if_pos count,if_pos sum]
          rfl
        · simp only [if_pos counted,if_neg summed,addInt64Checked,if_pos count,Int.add_zero]
          rfl
      · by_cases summed : flags &&& reduceSum ≠ 0#32
        · rw [if_pos summed] at sum
          simp only [if_neg counted,if_pos summed,addInt64Checked,if_pos sum,Int.add_zero]
          rfl
        · simp only [if_neg counted,if_neg summed,Int.add_zero]
          rfl

private theorem advanceValues_ok {inputs : List AggInput} {before : List Column} {row : Column}
    (fits : ∀ input ∈ inputs,
      let value := reduceColumn input.flags ((before ++ [row]).map fun row => row input.column)
      InInt64 value.count ∧ InInt64 value.sum) :
    advanceValues inputs (inputs.map fun input => reduceColumn input.flags (before.map fun row => row input.column))
        (inputs.map fun input => row input.column) =
      .ok (inputs.map fun input => reduceColumn input.flags ((before ++ [row]).map fun row => row input.column)) := by
  have grown (input : AggInput) :
      reduceColumn input.flags ((before ++ [row]).map fun row => row input.column) =
        reduceValue input.flags (reduceColumn input.flags (before.map fun row => row input.column))
          (row input.column) := by
    simp [reduceColumn]
  induction inputs with
  | nil => rfl
  | cons input rest ih =>
    have first := fits input (List.mem_cons_self ..)
    dsimp only at first
    rw [grown input] at first
    simp only [List.map_cons,advanceValues]
    rw [advanceValue_ok first.1 first.2,ih fun input member => fits input (List.mem_cons_of_mem _ member),grown input]
    rfl

/-- One more row of a group whose accumulators stay in range. -/
theorem advanceGroupEntry_ok {own : BatchAgg} {before : List Column} {row : Column}
    (fits : InRange own (before ++ [row])) :
    advanceGroupEntry own (sourceCells own row) (summary own before) = .ok (summary own (before ++ [row])) := by
  have values : advanceValues own.inputs (summary own before).values (sourceCells own row) =
      .ok (summary own (before ++ [row])).values := by
    apply advanceValues_ok
    intro input member
    exact fits.values _ (List.mem_map.mpr ⟨input,member,rfl⟩)
  have counted := fits.countStar
  unfold advanceGroupEntry
  rw [values]
  by_cases star : own.hasCountStar
  · simp only [summary,star,if_true,List.length_append,List.length_singleton,Nat.cast_add,Nat.cast_one] at counted
    simp only [star,if_true,summary,addInt64Checked,if_pos counted,List.length_append,List.length_singleton,
      Nat.cast_add,Nat.cast_one]
    rfl
  · simp only [star,summary]
    rfl

theorem zeroValues_eq (own : BatchAgg) : zeroValues own = summary own [] := by
  simp [zeroValues,summary,reduceColumn]

/-! The totals of one column. -/

/-- The values of a column that are not NULL. -/
def nonNull (cells : List (Option Int4)) : List Int :=
  cells.filterMap fun cell => cell.map BitVec.toInt

@[simp] theorem nonNull_nil : nonNull [] = [] := rfl

@[simp] theorem nonNull_append (left right : List (Option Int4)) :
    nonNull (left ++ right) = nonNull left ++ nonNull right :=
  List.filterMap_append ..

/-- What the fields of a reduction say about the values it has been given. -/
structure Reduces (flags : BitVec 32) (found : List Int) (value : Int4Reduction) : Prop where
  count : value.count = if flags &&& reduceCount ≠ 0#32 then (found.length : Int) else 0
  sum : value.sum = if flags &&& reduceSum ≠ 0#32 then found.sum else 0
  hasValue : value.hasValue = true ↔ flags ≠ 0#32 ∧ found ≠ []
  min : flags &&& reduceMin ≠ 0#32 → value.hasValue = true →
    value.min.toInt ∈ found ∧ ∀ other ∈ found, value.min.toInt ≤ other
  max : flags &&& reduceMax ≠ 0#32 → value.hasValue = true →
    value.max.toInt ∈ found ∧ ∀ other ∈ found, other ≤ value.max.toInt

/-- Keeping the better of two values, for any order `before` on the numbers. -/
private theorem extreme_step (before : Int → Int → Prop) (trans : ∀ a b c, before a b → before b c → before a c)
    (refl : ∀ a, before a a) {found : List Int} {best : Int}
    (extreme : best ∈ found ∧ ∀ other ∈ found, before best other) (input : Int) {better : Prop} [Decidable better]
    (left : better → before input best) (right : ¬ better → before best input) :
    let next := if better then input else best
    next ∈ found ++ [input] ∧ ∀ other ∈ found ++ [input], before next other := by
  obtain ⟨member,ahead⟩ := extreme
  simp only [List.mem_append,List.mem_singleton]
  split
  · rename_i this
    refine ⟨.inr rfl,?_⟩
    rintro other (old | rfl)
    · exact trans _ _ _ (left this) (ahead other old)
    · exact refl _
  · rename_i this
    refine ⟨.inl member,?_⟩
    rintro other (old | rfl)
    · exact ahead other old
    · exact right this

theorem Reduces.step {flags : BitVec 32} {found : List Int} {value : Int4Reduction}
    (reduces : Reduces flags found value) (input : Int4) :
    Reduces flags (found ++ [input.toInt]) (reduceValue flags value (some input)) := by
  obtain ⟨count,sum,hasValue,least,greatest⟩ := reduces
  unfold reduceValue
  dsimp only
  by_cases unused : flags = 0#32
  · subst unused
    simp only [if_true]
    exact ⟨by simpa using count,by simpa using sum,by simpa using hasValue,fun set => absurd (by simp) set,
      fun set => absurd (by simp) set⟩
  · rw [if_neg unused]
    have fresh (first : ¬ value.hasValue = true) : found = [] := by
      by_contra some
      exact first (hasValue.mpr ⟨unused,some⟩)
    refine ⟨?_,?_,by simp [unused],?_,?_⟩
    · rw [extend_count,count]
      by_cases set : flags &&& reduceCount = 0#32 <;> simp [set]
    · rw [extend_sum,sum]
      by_cases set : flags &&& reduceSum = 0#32 <;> simp [set]
    · intro set _
      unfold extend
      by_cases first : value.hasValue = true
      · have step := extreme_step (· ≤ ·) (fun _ _ _ => Int.le_trans) Int.le_refl (least set first)
          input.toInt Int.le_of_lt Int.not_lt.mp
        simp only [first,if_true,set,ne_eq,not_false_eq_true,true_and]
        split <;> simp_all
      · simp [first,fresh first]
    · intro set _
      unfold extend
      by_cases first : value.hasValue = true
      · have step := extreme_step (· ≥ ·) (fun _ _ _ one two => Int.le_trans two one) Int.le_refl
          (greatest set first) input.toInt Int.le_of_lt
          Int.not_lt.mp
        simp only [first,if_true,set,ne_eq,not_false_eq_true,true_and]
        split <;> simp_all
      · simp [first,fresh first]

theorem reduceColumn_reduces (flags : BitVec 32) (cells : List (Option Int4)) :
    Reduces flags (nonNull cells) (reduceColumn flags cells) := by
  induction cells using List.reverseRecOn with
  | nil =>
    refine ⟨by simp [reduceColumn,zeroReduction],by simp [reduceColumn,zeroReduction],
      by simp [reduceColumn,zeroReduction],?_,?_⟩
    all_goals
      intro _ some
      cases some
  | append_singleton before cell ih =>
    have last : reduceColumn flags (before ++ [cell]) = reduceValue flags (reduceColumn flags before) cell := by
      simp [reduceColumn]
    rw [last,nonNull_append]
    cases cell with
    | none => simpa [nonNull,reduceValue] using ih
    | some input => exact ih.step input

/-! The inputs that `agg_begin` sets up serve every aggregate of the plan. -/

/-- An input only ever gains flags. -/
structure Grows (before after : AggInput) : Prop where
  column : after.column = before.column
  flags : ∀ flag, before.flags &&& flag = flag → after.flags &&& flag = flag

def Widens (before after : List AggInput) : Prop :=
  ∀ (index : Nat) (input : AggInput), before[index]? = some input →
    ∃ wider, after[index]? = some wider ∧ Grows input wider

theorem Widens.trans {first second third : List AggInput} (left : Widens first second) (right : Widens second third) :
    Widens first third := by
  intro index input found
  obtain ⟨middle,found,⟨column,flags⟩⟩ := left index input found
  obtain ⟨wider,found,⟨column',flags'⟩⟩ := right index middle found
  exact ⟨wider,found,⟨column'.trans column,fun flag set => flags' flag (flags flag set)⟩⟩

theorem inputOf_spec {inputs after : List AggInput} {column index : Nat}
    (made : inputOf inputs column = (index,after)) :
    Widens inputs after ∧ (∃ input, after[index]? = some input ∧ input.column = column) ∧
      ∀ input ∈ after, input ∈ inputs ∨ input.flags = 0#32 := by
  have kept (input : AggInput) : Grows input input := ⟨rfl,fun _ set => set⟩
  unfold inputOf at made
  split at made
  · rename_i found
    cases made
    obtain ⟨inside,same,_⟩ := List.findIdx?_eq_some_iff_getElem.mp found
    exact ⟨fun index input found => ⟨input,found,kept input⟩,
      ⟨_,List.getElem?_eq_getElem inside,by simpa using same⟩,fun input member => .inl member⟩
  · cases made
    refine ⟨?_,⟨⟨column,0⟩,by simp,rfl⟩,?_⟩
    · intro index input found
      have inside := (List.getElem?_eq_some_iff.mp found).1
      exact ⟨input,by rwa [List.getElem?_append_left inside],kept input⟩
    · intro input member
      rcases List.mem_append.mp member with old | new
      · exact .inl old
      · rw [List.mem_singleton.mp new]
        exact .inr rfl

theorem getElem?_addFlag (inputs : List AggInput) (index place : Nat) (flag : BitVec 32) :
    (addFlag inputs index flag)[place]? =
      inputs[place]?.map fun input => if index = place then {input with flags := input.flags ||| flag} else input := by
  rw [addFlag,List.getElem?_modify]
  rfl

theorem addFlag_spec {inputs : List AggInput} {index : Nat} {input : AggInput} (found : inputs[index]? = some input)
    (flag : BitVec 32) :
    Widens inputs (addFlag inputs index flag) ∧
      (addFlag inputs index flag)[index]? = some {input with flags := input.flags ||| flag} ∧
      ∀ other ∈ addFlag inputs index flag, other ∈ inputs ∨ other = {input with flags := input.flags ||| flag} := by
  have gained (flags other : BitVec 32) (set : flags &&& other = other) : (flags ||| flag) &&& other = other := by
    rw [BitVec.and_or_distrib_right,set]
    apply BitVec.eq_of_getLsbD_eq
    intro position _
    rw [BitVec.getLsbD_or,BitVec.getLsbD_and]
    cases other.getLsbD position <;> simp
  refine ⟨?_,?_,?_⟩
  · intro place before here
    rw [getElem?_addFlag,here]
    by_cases same : index = place
    · exact ⟨{before with flags := before.flags ||| flag},by rw [Option.map_some,if_pos same],rfl,
        gained before.flags⟩
    · exact ⟨before,by rw [Option.map_some,if_neg same],rfl,fun _ set => set⟩
  · rw [getElem?_addFlag,found,Option.map_some,if_pos rfl]
  · intro other member
    obtain ⟨place,here⟩ := List.mem_iff_getElem?.mp member
    rw [getElem?_addFlag] at here
    obtain ⟨before,held,changed⟩ := Option.map_eq_some_iff.mp here
    by_cases same : index = place
    · subst same
      rw [found] at held
      cases held
      rw [if_pos rfl] at changed
      exact .inr changed.symm
    · rw [if_neg same] at changed
      exact .inl (changed ▸ List.mem_of_getElem? held)

/-- The input that an aggregate of the plan has been given. -/
def Resolves (inputs : List AggInput) (agg : AggKind × Int) (spec : AggSpec) : Prop :=
  spec.kind = agg.1 ∧ (agg.1 ≠ .countStar → ∃ index input, spec.input = some index ∧
    inputs[index]? = some input ∧ input.column = agg.2.toNat ∧
    input.flags &&& aggregateFlag agg.1 = aggregateFlag agg.1)

theorem Resolves.widen {before after : List AggInput} {agg : AggKind × Int} {spec : AggSpec}
    (resolves : Resolves before agg spec) (wider : Widens before after) : Resolves after agg spec := by
  refine ⟨resolves.1,fun reads => ?_⟩
  obtain ⟨index,input,named,found,column,flags⟩ := resolves.2 reads
  obtain ⟨other,found,grows⟩ := wider index input found
  exact ⟨index,other,named,found,grows.column.trans column,grows.flags _ flags⟩

/-- What `agg_begin` has set up after a part of the plan. -/
structure Begun (plan : List (AggKind × Int)) (own : BatchAgg) : Prop where
  aggs : List.Forall₂ (Resolves own.inputs) plan own.aggs
  countStar : own.hasCountStar = true → ∃ column, (AggKind.countStar,column) ∈ plan
  starred : ∀ column, (AggKind.countStar,column) ∈ plan → own.hasCountStar = true
  flagged : ∀ input ∈ own.inputs, ∀ kind, kind = .countColumn ∨ kind = .sumInt4 →
    input.flags &&& aggregateFlag kind ≠ 0#32 → ∃ agg ∈ plan, agg.1 = kind ∧ agg.2.toNat = input.column
  group : own.grouped = true → ∃ input, own.inputs[own.groupInput]? = some input
  keyed : ∀ column, (AggKind.groupKey,column) ∈ plan → own.grouped = true ∧
    ∃ input, own.inputs[own.groupInput]? = some input ∧ input.column = column.toNat

/-- A flag of one kind is set by the aggregates of that kind alone. -/
private theorem flag_kind {kind other : AggKind} (reads : kind = .countColumn ∨ kind = .sumInt4)
    (set : aggregateFlag other &&& aggregateFlag kind ≠ 0#32) : other = kind := by
  rcases reads with rfl | rfl <;> cases other <;> first | rfl | exact absurd rfl set

/-- Entering one aggregate, up to the two kinds that differ. -/
private theorem Begun.enter {plan : List (AggKind × Int)} {own after : BatchAgg} (begun : Begun plan own)
    {agg : AggKind × Int} {spec : AggSpec} (reads : agg.1 ≠ .countStar) (widens : Widens own.inputs after.inputs)
    (aggs : after.aggs = own.aggs ++ [spec]) (resolves : Resolves after.inputs agg spec)
    (star : after.hasCountStar = own.hasCountStar)
    (flagged : ∀ input ∈ after.inputs, input ∈ own.inputs ∨ input.flags = 0#32 ∨
      ∃ old, (old ∈ own.inputs ∨ old.flags = 0#32) ∧ old.column = agg.2.toNat ∧
        input = {old with flags := old.flags ||| aggregateFlag agg.1})
    (group : after.grouped = true → ∃ input, after.inputs[after.groupInput]? = some input)
    (keyed : ∀ column, (AggKind.groupKey,column) ∈ plan ++ [agg] → after.grouped = true ∧
      ∃ input, after.inputs[after.groupInput]? = some input ∧ input.column = column.toNat) :
    Begun (plan ++ [agg]) after := by
  refine ⟨?_,?_,?_,?_,group,keyed⟩
  · rw [aggs]
    exact List.rel_append (begun.aggs.imp fun _ _ resolves => resolves.widen widens) (.cons resolves .nil)
  · intro set
    obtain ⟨column,member⟩ := begun.countStar (star ▸ set)
    exact ⟨column,List.mem_append_left _ member⟩
  · intro column member
    rcases List.mem_append.mp member with old | new
    · exact star ▸ begun.starred column old
    · exact absurd (congrArg Prod.fst (List.mem_singleton.mp new)).symm reads
  · intro input member kind summed set
    have early (old : AggInput) (held : old ∈ own.inputs ∨ old.flags = 0#32)
        (set : old.flags &&& aggregateFlag kind ≠ 0#32) (same : old.column = input.column) :
        ∃ other ∈ plan ++ [agg], other.1 = kind ∧ other.2.toNat = input.column := by
      rcases held with held | none
      · obtain ⟨other,planned,this,column⟩ := begun.flagged old held kind summed set
        exact ⟨other,List.mem_append_left _ planned,this,column.trans same⟩
      · simp [none] at set
    rcases flagged input member with old | none | ⟨old,held,column,rfl⟩
    · exact early input (.inl old) set rfl
    · exact early input (.inr none) set rfl
    · rw [BitVec.and_or_distrib_right] at set
      by_cases before : old.flags &&& aggregateFlag kind = 0#32
      · rw [before,BitVec.zero_or] at set
        exact ⟨agg,by simp,flag_kind summed set,column.symm⟩
      · exact early old held before rfl

theorem addAgg_begun {plan : List (AggKind × Int)} {own after : BatchAgg} {agg : AggKind × Int}
    (begun : Begun plan own) (ran : addAgg own agg = .ok after) :
    Begun (plan ++ [agg]) after ∧ after.groupLimit = own.groupLimit := by
  unfold addAgg at ran
  split at ran
  · rename_i star
    cases ran
    refine ⟨⟨?_,?_,fun _ _ => rfl,?_,begun.group,?_⟩,rfl⟩
    · exact List.rel_append begun.aggs (.cons ⟨star.symm,fun reads => absurd star reads⟩ .nil)
    · intro _
      exact ⟨agg.2,List.mem_append_right _ (by rw [← star]; exact List.mem_singleton.mpr rfl)⟩
    · intro input member kind summed set
      obtain ⟨other,planned,found⟩ := begun.flagged input member kind summed set
      exact ⟨other,List.mem_append_left _ planned,found⟩
    · intro column member
      rcases List.mem_append.mp member with old | new
      · exact begun.keyed column old
      · have kind := congrArg Prod.fst (List.mem_singleton.mp new)
        rw [star] at kind
        cases kind
  · rename_i reads
    split at ran
    · cases ran
    · cases made : inputOf own.inputs agg.2.toNat with
      | mk index inputs =>
        obtain ⟨widens,⟨input,found,column⟩,fresh⟩ := inputOf_spec made
        simp only [made] at ran
        split at ran
        · rename_i group
          split at ran
          · cases ran
          · rename_i one
            cases ran
            have same : own.grouped = true → own.groupInput = index := by
              intro grouped
              by_contra other
              exact one ⟨grouped,other⟩
            refine ⟨begun.enter reads widens rfl ⟨rfl,fun _ => ⟨index,input,rfl,found,column,?_⟩⟩ rfl ?_
              (fun _ => ⟨input,found⟩) ?_,rfl⟩
            · rw [group]
              exact BitVec.and_zero
            · intro input member
              rcases fresh input member with old | none
              · exact .inl old
              · exact .inr (.inl none)
            · intro key member
              refine ⟨rfl,input,found,?_⟩
              rcases List.mem_append.mp member with old | new
              · obtain ⟨grouped,before,held,named⟩ := begun.keyed key old
                obtain ⟨wider,held,grows⟩ := widens _ _ held
                rw [same grouped,found] at held
                cases held
                exact grows.column.trans named
              · rw [column,← List.mem_singleton.mp new]
        · rename_i group
          cases ran
          obtain ⟨widens',flagged,others⟩ := addFlag_spec found (aggregateFlag agg.1)
          have wider := widens.trans widens'
          refine ⟨begun.enter reads wider rfl ⟨rfl,fun _ => ⟨index,_,rfl,flagged,column,?_⟩⟩ rfl ?_ ?_ ?_,rfl⟩
          · rw [BitVec.and_or_distrib_right,BitVec.and_self]
            apply BitVec.eq_of_getLsbD_eq
            intro position _
            rw [BitVec.getLsbD_or,BitVec.getLsbD_and]
            cases (aggregateFlag agg.1).getLsbD position <;> simp
          · intro other member
            rcases others other member with old | rfl
            · rcases fresh other old with old | none
              · exact .inl old
              · exact .inr (.inl none)
            · exact .inr (.inr ⟨input,fresh input (List.mem_of_getElem? found),column,rfl⟩)
          · intro grouped
            obtain ⟨before,held⟩ := begun.group grouped
            obtain ⟨wide,held,_⟩ := wider _ _ held
            exact ⟨wide,held⟩
          · intro key member
            rcases List.mem_append.mp member with old | new
            · obtain ⟨grouped,before,held,named⟩ := begun.keyed key old
              obtain ⟨wide,held,grows⟩ := wider _ _ held
              exact ⟨grouped,wide,held,grows.column.trans named⟩
            · exact absurd (congrArg Prod.fst (List.mem_singleton.mp new)).symm group

theorem aggBegin_begun {plan : List (AggKind × Int)} {groupLimit spillBufferLimit : Nat} {own : BatchAgg}
    (ran : aggBegin plan groupLimit spillBufferLimit = .ok own) : Begun plan own ∧ own.groupLimit = groupLimit := by
  induction plan using List.reverseRecOn generalizing own with
  | nil =>
    cases ran
    exact ⟨⟨.nil,by simp,by simp,by simp,by simp,by simp⟩,rfl⟩
  | append_singleton before agg ih =>
    rw [aggBegin,List.foldlM_append] at ran
    obtain ⟨middle,early,last⟩ := Results.bind_ok.mp ran
    rw [List.foldlM_cons] at last
    obtain ⟨final,step,done⟩ := Results.bind_ok.mp last
    cases done
    obtain ⟨begun,limit⟩ := ih early
    obtain ⟨begun',limit'⟩ := addAgg_begun begun step
    exact ⟨begun',limit'.trans limit⟩

/-! The aggregates of SQL. -/

/-- The values of a column in some rows, NULLs left out. -/
def columnValues (column : Nat) (rows : List Column) : List Int :=
  nonNull (rows.map fun row => row column)

/-- An aggregate of the plan over the rows of a group with the given key. -/
def sqlAggregate (key : Option Int4) (rows : List Column) : AggKind × Int → Option Int
  | (.groupKey,_) => key.map BitVec.toInt
  | (.countStar,_) => some rows.length
  | (.countColumn,column) => some (columnValues column.toNat rows).length
  | (.sumInt4,column) =>
    if columnValues column.toNat rows = [] then none else some (columnValues column.toNat rows).sum
  | (.minInt4,column) => (columnValues column.toNat rows).min?
  | (.maxInt4,column) => (columnValues column.toNat rows).max?

/-- `GROUP BY keyColumn`: a row for every key that occurs, NULL being a key like another. -/
def sqlGroups (plan : List (AggKind × Int)) (keyColumn : Nat) (rows : List Column) : List Result :=
  (groups (fun row => row keyColumn) rows).map fun entry => plan.map (sqlAggregate entry.1 entry.2)

/-- The `int64` accumulators that the plan needs hold the totals of these rows. -/
def Fits (plan : List (AggKind × Int)) (rows : List Column) : Prop :=
  ∀ agg ∈ plan, match agg with
    | (.countStar,_) => InInt64 rows.length
    | (.countColumn,column) => InInt64 (columnValues column.toNat rows).length
    | (.sumInt4,column) => InInt64 (columnValues column.toNat rows).sum
    | _ => True

/-- No accumulator of any group overflows while the rows are taken in their order. -/
def NoOverflow (plan : List (AggKind × Int)) (keyColumn : Nat) (rows : List Column) : Prop :=
  ∀ key, ∀ start, start <+: group (fun row => row keyColumn) rows key → Fits plan start

private theorem inInt64_zero : InInt64 0 := by
  unfold InInt64
  decide

theorem inRange_of_fits {plan : List (AggKind × Int)} {own : BatchAgg} (begun : Begun plan own) {rows : List Column}
    (fits : Fits plan rows) : InRange own rows := by
  constructor
  · unfold summary
    dsimp only
    split
    · rename_i star
      obtain ⟨column,member⟩ := begun.countStar star
      exact fits _ member
    · exact inInt64_zero
  · intro value member
    obtain ⟨input,listed,rfl⟩ := List.mem_map.mp member
    have reduces := reduceColumn_reduces input.flags (rows.map fun row => row input.column)
    constructor
    · rw [reduces.count]
      split
      · rename_i set
        obtain ⟨⟨kind,column⟩,planned,rfl,same⟩ := begun.flagged input listed .countColumn (.inl rfl) set
        have := fits _ planned
        simp only [columnValues,same] at this
        exact this
      · exact inInt64_zero
    · rw [reduces.sum]
      split
      · rename_i set
        obtain ⟨⟨kind,column⟩,planned,rfl,same⟩ := begun.flagged input listed .sumInt4 (.inr rfl) set
        have := fits _ planned
        simp only [columnValues,same] at this
        exact this
      · exact inInt64_zero

/-- One result column, from the reduction of the column it reads. -/
private theorem result_eq {kind : AggKind} {flags : BitVec 32} {found : List Int} {value : Int4Reduction}
    (reduces : Reduces flags found value) (set : flags &&& aggregateFlag kind = aggregateFlag kind) :
    (kind = .countColumn → value.count = found.length) ∧
    (kind = .sumInt4 → (if value.hasValue then some value.sum else none) =
      if found = [] then none else some found.sum) ∧
    (kind = .minInt4 → (if value.hasValue then some value.min.toInt else none) = found.min?) ∧
    (kind = .maxInt4 → (if value.hasValue then some value.max.toInt else none) = found.max?) := by
  have used (flag : BitVec 32) (same : aggregateFlag kind = flag) (nonzero : flag ≠ 0#32) :
      flags &&& flag ≠ 0#32 ∧ flags ≠ 0#32 := by
    rw [same] at set
    rw [set]
    refine ⟨nonzero,?_⟩
    rintro rfl
    simp only [BitVec.zero_and] at set
    exact nonzero set.symm
  have present (some : found ≠ []) (nonzero : flags ≠ 0#32) : value.hasValue = true :=
    reduces.hasValue.mpr ⟨nonzero,some⟩
  have absent (none : found = []) : value.hasValue = false := by
    by_contra has
    exact (reduces.hasValue.mp (by simpa using has)).2 none
  refine ⟨?_,?_,?_,?_⟩
  · rintro rfl
    rw [reduces.count,if_pos (used reduceCount rfl (by decide)).1]
  · rintro rfl
    obtain ⟨flag,nonzero⟩ := used reduceSum rfl (by decide)
    by_cases none : found = []
    · simp [none,absent none]
    · rw [present none nonzero,reduces.sum,if_pos flag,if_neg none]
      rfl
  · rintro rfl
    obtain ⟨flag,nonzero⟩ := used reduceMin rfl (by decide)
    by_cases none : found = []
    · simp [none,absent none]
    · have has := present none nonzero
      rw [if_pos has]
      exact (List.min?_eq_some_iff.mpr (reduces.min flag has)).symm
  · rintro rfl
    obtain ⟨flag,nonzero⟩ := used reduceMax rfl (by decide)
    by_cases none : found = []
    · simp [none,absent none]
    · have has := present none nonzero
      rw [if_pos has]
      exact (List.max?_eq_some_iff.mpr (reduces.max flag has)).symm

/-- The entry of a group yields the row that SQL asks for. -/
theorem storeGroupResult_eq {plan : List (AggKind × Int)} {own : BatchAgg} (begun : Begun plan own)
    (key : Option Int4) (rows : List Column) :
    storeGroupResult own ((groupHash key).2,summary own rows) = plan.map (sqlAggregate key rows) := by
  have aggs := begun.aggs
  have star (member : ∃ column, (AggKind.countStar,column) ∈ plan) : own.hasCountStar = true := by
    obtain ⟨column,member⟩ := member
    exact begun.starred column member
  unfold storeGroupResult
  generalize own.aggs = specs at aggs
  clear begun
  induction aggs with
  | nil => rfl
  | @cons agg spec restPlan restSpecs resolves rest ih =>
    rw [List.map_cons,List.map_cons,ih fun ⟨column,member⟩ => star ⟨column,List.mem_cons_of_mem _ member⟩]
    obtain ⟨kind,column⟩ := agg
    obtain ⟨same,reads⟩ := resolves
    congr 1
    rw [same]
    by_cases counts : kind = .countStar
    · subst counts
      simp only [sqlAggregate,summary,star ⟨column,List.mem_cons_self ..⟩,if_true]
    · obtain ⟨index,input,named,found,reading,set⟩ := reads counts
      have value : (summary own rows).values.getD index zeroReduction =
          reduceColumn input.flags (rows.map fun row => row input.column) := by
        simp [summary,List.getD,found]
      obtain ⟨count,sum,least,greatest⟩ :=
        result_eq (reduceColumn_reduces input.flags (rows.map fun row => row input.column)) set
      simp only [named,value]
      simp only [reading] at count sum least greatest ⊢
      cases kind with
      | groupKey => cases key <;> rfl
      | countStar => exact absurd rfl counts
      | countColumn => exact congrArg some (count rfl)
      | sumInt4 => exact sum rfl
      | minInt4 => exact least rfl
      | maxInt4 => exact greatest rfl

end PgBatch.Aggregate
