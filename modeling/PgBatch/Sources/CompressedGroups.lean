import PgBatch.Sources.CompressedCodec
import PgBatch.Nodes.Scan

/-! The storage groups of a compressed relation: minimum, maximum and a small set of the
values of each column, kept while batches are appended. A group is skipped only if they
show that none of its rows can satisfy the conditions. -/
namespace PgBatch.Compressed
open PgBatch.Expr Words

structure GroupColumn where
  hasNonnull : Bool
  distinctOverflow : Bool
  minimum : Int4
  maximum : Int4
  distinct : List Int4
deriving DecidableEq, Repr

structure StorageGroup where
  firstBatch : Nat
  nbatches : Nat
  columns : Nat → GroupColumn

structure CompressedRelation where
  ncolumns : Nat
  groupBatches : Nat
  batches : List CompressedBatch
  groups : List StorageGroup

/-- The rows that `append_compressed_batch` is given, at least one and at most 64. -/
structure InputBatch where
  nrows : Nat
  positive : 0 < nrows
  small : nrows ≤ 64
  values : Nat → Nat → Int4
  nonnullRows : Nat → BitVec 64

def InputBatch.cell (input : InputBatch) (column row : Nat) : Option Int4 :=
  original input.values input.nonnullRows column row

def minInt4 (left right : Int4) : Int4 :=
  if left.slt right then left else right

def maxInt4 (left right : Int4) : Int4 :=
  if right.slt left then left else right

def noteBounds (meta_ : GroupColumn) (value : Int4) : GroupColumn :=
  if !meta_.hasNonnull then {meta_ with hasNonnull := true, minimum := value, maximum := value}
  else {meta_ with minimum := minInt4 meta_.minimum value, maximum := maxInt4 meta_.maximum value}

def noteDistinct (meta_ : GroupColumn) (value : Int4) : GroupColumn :=
  if meta_.distinctOverflow then meta_
  else if value ∈ meta_.distinct then meta_
  else if meta_.distinct.length < 16 then {meta_ with distinct := meta_.distinct ++ [value]}
  else {meta_ with distinctOverflow := true}

/-- One turn of the inner loop of `update_group`. -/
def updateRow (values : Nat → Int4) (nonnull : BitVec 64) (meta_ : GroupColumn) (row : Nat) : GroupColumn :=
  if nonnull.getLsbD row then noteDistinct (noteBounds meta_ (values row)) (values row) else meta_

def updateGroup (ncolumns : Nat) (group : StorageGroup) (input : InputBatch) : StorageGroup where
  firstBatch := group.firstBatch
  nbatches := group.nbatches + 1
  columns := fun column =>
    if column < ncolumns then
      (List.range input.nrows).foldl (updateRow (input.values column) (input.nonnullRows column)) (group.columns column)
    else group.columns column

/-- `append_group`, from `palloc0`. -/
def emptyGroup (firstBatch : Nat) : StorageGroup where
  firstBatch := firstBatch
  nbatches := 0
  columns := fun _ => ⟨false,false,0#32,0#32,[]⟩

/-- The full groups, and the group that the next batch goes to. -/
def currentGroup (relation : CompressedRelation) : List StorageGroup × StorageGroup :=
  match relation.groups.getLast? with
  | none => (relation.groups,emptyGroup relation.batches.length)
  | some group =>
    if group.nbatches = relation.groupBatches then (relation.groups,emptyGroup relation.batches.length)
    else (relation.groups.dropLast,group)

def appendCompressedBatch (relation : CompressedRelation) (input : InputBatch) : CompressedRelation :=
  let current := currentGroup relation
  {relation with
    batches := relation.batches ++
      [buildCompressedBatch input.values input.nonnullRows input.nrows relation.ncolumns]
    groups := current.1 ++ [updateGroup relation.ncolumns current.2 input]}

/-- The appends of `pg_batch_compress`. -/
def compress (ncolumns groupBatches : Nat) (inputs : List InputBatch) : CompressedRelation :=
  inputs.foldl appendCompressedBatch ⟨ncolumns,groupBatches,[],[]⟩

/-! What the statistics say of the values that they were kept for. -/

/-- The values of a column that are not NULL, in their order. -/
def InputBatch.nonnullValues (input : InputBatch) (column : Nat) : List Int4 :=
  (List.range input.nrows).filterMap fun row => input.cell column row

structure Describes (meta_ : GroupColumn) (seen : List Int4) : Prop where
  some_ : meta_.hasNonnull = true ↔ seen ≠ []
  least : ∀ value ∈ seen, meta_.minimum.toInt ≤ value.toInt
  greatest : ∀ value ∈ seen, value.toInt ≤ meta_.maximum.toInt
  exact_ : meta_.distinctOverflow = false → ∀ value ∈ seen, value ∈ meta_.distinct
  few : meta_.distinct.length ≤ 16

theorem minInt4_toInt (left right : Int4) : (minInt4 left right).toInt = min left.toInt right.toInt := by
  unfold minInt4
  rw [BitVec.slt_eq_decide]
  by_cases less : left.toInt < right.toInt
  · rw [decide_eq_true less,if_pos rfl,min_eq_left (Int.le_of_lt less)]
  · rw [decide_eq_false less,if_neg Bool.false_ne_true,min_eq_right (Int.not_lt.mp less)]

theorem maxInt4_toInt (left right : Int4) : (maxInt4 left right).toInt = max left.toInt right.toInt := by
  unfold maxInt4
  rw [BitVec.slt_eq_decide]
  by_cases less : right.toInt < left.toInt
  · rw [decide_eq_true less,if_pos rfl,max_eq_left (Int.le_of_lt less)]
  · rw [decide_eq_false less,if_neg Bool.false_ne_true,max_eq_right (Int.not_lt.mp less)]

theorem empty_describes (firstBatch column : Nat) : Describes ((emptyGroup firstBatch).columns column) [] :=
  ⟨by simp [emptyGroup],by simp,by simp,by simp,Nat.zero_le 16⟩

/-- One more value: the first one sets both bounds, and the set may overflow. -/
theorem note_describes {meta_ : GroupColumn} {seen : List Int4} (describes : Describes meta_ seen) (value : Int4) :
    Describes (noteDistinct (noteBounds meta_ value) value) (seen ++ [value]) := by
  have bounds : (noteBounds meta_ value).hasNonnull = true ∧
      (noteBounds meta_ value).distinctOverflow = meta_.distinctOverflow ∧
      (noteBounds meta_ value).distinct = meta_.distinct ∧
      ∀ other ∈ seen ++ [value], (noteBounds meta_ value).minimum.toInt ≤ other.toInt ∧
        other.toInt ≤ (noteBounds meta_ value).maximum.toInt := by
    unfold noteBounds
    cases first : meta_.hasNonnull with
    | false =>
      have none_ : seen = [] := by
        by_contra some_
        have set := describes.some_.mpr some_
        rw [first] at set
        cases set
      subst none_
      simp
    | true =>
      refine ⟨rfl,rfl,rfl,fun other member => ?_⟩
      simp only [Bool.not_true,Bool.false_eq_true,if_false,minInt4_toInt,maxInt4_toInt,min_le_iff,le_max_iff]
      rcases List.mem_append.mp member with old | new
      · exact ⟨.inl (describes.least other old),.inl (describes.greatest other old)⟩
      · rw [List.mem_singleton.mp new]
        exact ⟨.inr (Int.le_refl _),.inr (Int.le_refl _)⟩
  obtain ⟨nonnull,overflow,distinct,within⟩ := bounds
  -- The rest of the row touches the set only.
  have kept : (noteDistinct (noteBounds meta_ value) value).hasNonnull = true ∧
      (noteDistinct (noteBounds meta_ value) value).minimum = (noteBounds meta_ value).minimum ∧
      (noteDistinct (noteBounds meta_ value) value).maximum = (noteBounds meta_ value).maximum := by
    unfold noteDistinct
    split
    · exact ⟨nonnull,rfl,rfl⟩
    split
    · exact ⟨nonnull,rfl,rfl⟩
    split <;> exact ⟨nonnull,rfl,rfl⟩
  refine ⟨by simp [kept.1],fun other member => by rw [kept.2.1]; exact (within other member).1,
    fun other member => by rw [kept.2.2]; exact (within other member).2,fun exact_ other member => ?_,?_⟩
  · unfold noteDistinct at exact_ ⊢
    rw [overflow,distinct] at exact_ ⊢
    have old (clear : meta_.distinctOverflow = false) (among : other ∈ seen) := describes.exact_ clear other among
    rw [List.mem_append,List.mem_singleton] at member
    split
    · rename_i full
      rw [if_pos full,overflow,full] at exact_
      cases exact_
    rename_i clear
    have clear := Bool.eq_false_iff.mpr clear
    split
    · rename_i known
      rw [distinct]
      exact member.elim (old clear) fun same => same ▸ known
    split
    · rw [List.mem_append,List.mem_singleton]
      exact member.imp (old clear) id
    · rename_i unknown full
      rw [clear,if_neg Bool.false_ne_true,if_neg unknown,if_neg full] at exact_
      cases exact_
  · unfold noteDistinct
    have few := describes.few
    rw [distinct]
    split
    · rw [distinct]
      exact few
    split
    · rw [distinct]
      exact few
    split
    · rename_i room
      rw [List.length_append,List.length_singleton]
      exact room
    · dsimp only
      exact distinct ▸ few

/-- The values of a column in the batches of a group. -/
def seen (part : List InputBatch) (column : Nat) : List Int4 :=
  part.flatMap fun input => input.nonnullValues column

theorem updateGroup_describes {ncolumns : Nat} {group : StorageGroup} {part : List InputBatch} {column : Nat}
    (describes : Describes (group.columns column) (seen part column)) (inside : column < ncolumns) (input : InputBatch) :
    Describes ((updateGroup ncolumns group input).columns column) (seen (part ++ [input]) column) := by
  have loop (rows : List Nat) (meta_ : GroupColumn) (before : List Int4) (describes : Describes meta_ before) :
      Describes (rows.foldl (updateRow (input.values column) (input.nonnullRows column)) meta_)
        (before ++ rows.filterMap fun row => input.cell column row) := by
    induction rows generalizing meta_ before with
    | nil => simpa using describes
    | cons row rows ih =>
      rw [List.foldl_cons,List.filterMap_cons]
      cases nonnull : (input.nonnullRows column).getLsbD row with
      | false =>
        have null : input.cell column row = none := if_neg (by simp [nonnull])
        have kept : updateRow (input.values column) (input.nonnullRows column) meta_ row = meta_ := if_neg (by simp [nonnull])
        rw [null,kept]
        exact ih meta_ before describes
      | true =>
        have value : input.cell column row = some (input.values column row) := if_pos nonnull
        have noted : updateRow (input.values column) (input.nonnullRows column) meta_ row =
            noteDistinct (noteBounds meta_ (input.values column row)) (input.values column row) := if_pos nonnull
        have next := ih _ _ (note_describes describes (input.values column row))
        rw [List.append_assoc,List.singleton_append] at next
        rw [value,noted]
        exact next
  have grown : seen (part ++ [input]) column = seen part column ++ input.nonnullValues column := by simp [seen]
  rw [grown]
  unfold updateGroup
  dsimp only
  rw [if_pos inside]
  exact loop _ _ _ describes

/-! Which batches a group stands for. -/

/-- A group keeps its place, its size and the statistics of its batches. -/
structure Holds (ncolumns first : Nat) (group : StorageGroup) (part : List InputBatch) : Prop where
  first : group.firstBatch = first
  count : group.nbatches = part.length
  describes : ∀ column, column < ncolumns → Describes (group.columns column) (seen part column)

/-- The groups divide the batches from a place on into neighbouring parts. -/
inductive Divided (ncolumns : Nat) : Nat → List StorageGroup → List (List InputBatch) → Prop
  | nil (first) : Divided ncolumns first [] []
  | cons (first group groups part parts) (holds : Holds ncolumns first group part)
      (rest : Divided ncolumns (first + part.length) groups parts) : Divided ncolumns first (group :: groups) (part :: parts)

theorem emptyGroup_holds (ncolumns first : Nat) : Holds ncolumns first (emptyGroup first) [] :=
  ⟨rfl,rfl,fun column _ => empty_describes first column⟩

theorem Holds.update {ncolumns first : Nat} {group : StorageGroup} {part : List InputBatch}
    (holds : Holds ncolumns first group part) (input : InputBatch) :
    Holds ncolumns first (updateGroup ncolumns group input) (part ++ [input]) where
  first := holds.first
  count := by rw [List.length_append,List.length_singleton,← holds.count]; rfl
  describes := fun column inside => updateGroup_describes (holds.describes column inside) inside input

theorem Divided.append {ncolumns first : Nat} {groups : List StorageGroup} {parts : List (List InputBatch)}
    (divided : Divided ncolumns first groups parts) {group : StorageGroup} {part : List InputBatch}
    (holds : Holds ncolumns (first + parts.flatten.length) group part) :
    Divided ncolumns first (groups ++ [group]) (parts ++ [part]) := by
  induction divided with
  | nil first => exact .cons _ _ _ _ _ holds (.nil _)
  | cons first other groups others parts head _ ih =>
    refine .cons _ _ _ _ _ head (ih ?_)
    rw [List.flatten_cons,List.length_append,← Nat.add_assoc] at holds
    exact holds

/-- The last group apart from the others. -/
theorem Divided.last {ncolumns first : Nat} {groups : List StorageGroup} {group : StorageGroup}
    {parts : List (List InputBatch)} (divided : Divided ncolumns first (groups ++ [group]) parts) :
    ∃ others part, parts = others ++ [part] ∧ Divided ncolumns first groups others ∧
      Holds ncolumns (first + others.flatten.length) group part := by
  induction groups generalizing first parts with
  | nil =>
    cases divided with
    | cons _ _ _ part parts holds rest =>
      cases rest
      exact ⟨[],part,rfl,.nil _,holds⟩
  | cons head groups ih =>
    cases divided with
    | cons _ _ _ first_ rest holds divided =>
      obtain ⟨others,part,rfl,before,last⟩ := ih divided
      refine ⟨first_ :: others,part,rfl,.cons _ _ _ _ _ holds before,?_⟩
      rw [List.flatten_cons,List.length_append,← Nat.add_assoc]
      exact last

/-- A relation whose batches and groups stand for given rows. -/
structure Stores (relation : CompressedRelation) (inputs : List InputBatch) : Prop where
  batches : relation.batches = inputs.map fun input =>
    buildCompressedBatch input.values input.nonnullRows input.nrows relation.ncolumns
  groups : ∃ parts, parts.flatten = inputs ∧ Divided relation.ncolumns 0 relation.groups parts

/-- The group that the next batch goes to follows the full ones. -/
theorem currentGroup_holds {relation : CompressedRelation} {inputs : List InputBatch} (stores : Stores relation inputs) :
    ∃ parts part, parts.flatten ++ part = inputs ∧ Divided relation.ncolumns 0 (currentGroup relation).1 parts ∧
      Holds relation.ncolumns parts.flatten.length (currentGroup relation).2 part := by
  obtain ⟨parts,whole,divided⟩ := stores.groups
  have count : relation.batches.length = parts.flatten.length := by rw [stores.batches,List.length_map,whole]
  have fresh : ∃ parts' part, parts'.flatten ++ part = inputs ∧ Divided relation.ncolumns 0 relation.groups parts' ∧
      Holds relation.ncolumns parts'.flatten.length (emptyGroup relation.batches.length) part :=
    ⟨parts,[],by rw [List.append_nil,whole],divided,count ▸ emptyGroup_holds relation.ncolumns _⟩
  unfold currentGroup
  split
  · exact fresh
  · rename_i group last
    split
    · exact fresh
    · have apart : relation.groups = relation.groups.dropLast ++ [group] := (List.dropLast_append_getLast? group last).symm
      rw [apart] at divided
      obtain ⟨others,part,rfl,before,holds⟩ := divided.last
      rw [Nat.zero_add] at holds
      rw [List.flatten_append,List.flatten_singleton] at whole
      exact ⟨others,part,whole,before,holds⟩

theorem append_stores {relation : CompressedRelation} {inputs : List InputBatch} (stores : Stores relation inputs)
    (input : InputBatch) : Stores (appendCompressedBatch relation input) (inputs ++ [input]) := by
  obtain ⟨parts,part,whole,divided,holds⟩ := currentGroup_holds stores
  refine ⟨?_,parts ++ [part ++ [input]],?_,?_⟩
  · rw [List.map_append]
    exact congrArg (· ++ _) stores.batches
  · rw [List.flatten_append,List.flatten_singleton,← List.append_assoc,whole]
  · refine divided.append ?_
    rw [Nat.zero_add]
    exact holds.update input

theorem compress_ncolumns (ncolumns groupBatches : Nat) (inputs : List InputBatch) :
    (compress ncolumns groupBatches inputs).ncolumns = ncolumns := by
  have loop (relation : CompressedRelation) : (inputs.foldl appendCompressedBatch relation).ncolumns = relation.ncolumns := by
    induction inputs generalizing relation with
    | nil => rfl
    | cons input inputs ih => exact ih (appendCompressedBatch relation input)
  exact loop _

theorem compress_stores (ncolumns groupBatches : Nat) (inputs : List InputBatch) :
    Stores (compress ncolumns groupBatches inputs) inputs := by
  have loop (relation : CompressedRelation) (before : List InputBatch) (stores : Stores relation before) :
      Stores (inputs.foldl appendCompressedBatch relation) (before ++ inputs) := by
    induction inputs generalizing relation before with
    | nil => simpa using stores
    | cons input inputs ih =>
      rw [List.append_cons]
      exact ih _ _ (append_stores stores input)
  exact loop _ [] ⟨rfl,[],rfl,.nil 0⟩

end PgBatch.Compressed
