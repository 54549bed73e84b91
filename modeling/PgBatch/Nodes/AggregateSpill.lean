import PgBatch.Nodes.AggregateTotals
import Mathlib.Data.List.Forall2

/-! From spilled partitions to groups: a partition is loaded whole or split by
the next hash bits, and in the end every group of it is emitted once. -/
namespace PgBatch.Aggregate
open Words Columnar Spill Grouping

/-! A spilled row is the source row that its tag names. -/

def keyColumn (own : BatchAgg) : Nat :=
  (own.inputs.getD own.groupInput ⟨0,0⟩).column

def rowKey (own : BatchAgg) (row : Column) : GroupKey :=
  (groupHash (row (keyColumn own))).2

def sourceHash (own : BatchAgg) (row : Column) : BitVec 32 :=
  (groupHash (row (keyColumn own))).1

def spillRow (own : BatchAgg) (row : Column) : Row Column :=
  ⟨row,sourceHash own row,(sourceCells own row).map inputValue⟩

/-- The source rows of a block. -/
def blockTags (block : Store Column) : List Column :=
  (List.range block.nrows).map block.tags

/-- The accumulators stay in range over every part of every group. -/
def Summable (own : BatchAgg) (rows : List Column) : Prop :=
  ∀ key, ∀ start, start <+: group (rowKey own) rows key → InRange own start

theorem Summable.of_prefix {own : BatchAgg} {start rows : List Column} (summable : Summable own rows)
    (first : start <+: rows) : Summable own start :=
  fun key _ part => summable key _ (part.trans (group_initial first key))

theorem rowHash_source {own : BatchAgg} (grouped : own.groupInput < own.inputs.length) (row : Column) :
    rowHash own (sourceCells own row) = (sourceHash own row,rowKey own row) := by
  simp [rowHash,sourceCells,sourceHash,rowKey,keyColumn,grouped]

/-- The key decides the hash. -/
theorem sourceHash_of_key {own : BatchAgg} {left right : Column} (same : rowKey own left = rowKey own right) :
    sourceHash own left = sourceHash own right := by
  unfold rowKey sourceHash at *
  cases one : left (keyColumn own) <;> cases two : right (keyColumn own) <;>
    simp_all [groupHash]

/-- A stored row gives back the cells and the hash of its source row. -/
theorem block_row {own : BatchAgg} {block : Store Column} {index : Nat} {row : Column}
    (stored : block.row own.inputs.length index = spillRow own row) :
    block.tags index = row ∧ block.hashes index = sourceHash own row ∧
      cellsAt (spillBlockVectors own block) index = sourceCells own row := by
  unfold Store.row spillRow at stored
  simp only [Columnar.Row.mk.injEq] at stored
  obtain ⟨tag,hash,cells⟩ := stored
  refine ⟨tag,hash,?_⟩
  let read : Cell → Option Int4 := fun cell => if cell.valid then some cell.value else none
  have opened : ((sourceCells own row).map inputValue).map read = sourceCells own row := by
    rw [List.map_map]
    have same : read ∘ inputValue = id := by
      funext cell
      cases cell <;> rfl
    rw [same,List.map_id]
  rw [← opened,← cells]
  simp [cellsAt,spillBlockVectors,Store.cell,read]

/-- The blocks of a partition hold its source rows in their order. -/
theorem holds_tags {own : BatchAgg} {set : SpillSet Column} {all : Nat → List Column}
    (holds : Holds set fun partition => (all partition).map (spillRow own))
    (ncolumns : set.ncolumns = own.inputs.length) (partition : Nat) :
    (set.files partition).flatMap blockTags = all partition ∧
      ∀ block ∈ set.files partition, ∀ index, index < block.nrows →
        block.row own.inputs.length index = spillRow own (block.tags index) := by
  have contents := holds.contents partition
  rw [ncolumns] at contents
  constructor
  · have tags := congrArg (List.map fun row : Row Column => row.tag) contents
    rw [List.map_flatMap,List.map_map] at tags
    have same : (fun row : Row Column => row.tag) ∘ spillRow own = id := rfl
    rw [same,List.map_id] at tags
    rw [← tags]
    apply List.flatMap_congr
    intro block _
    simp [blockTags,Store.rows,Store.row]
  · intro block member index inside
    have stored : block.row own.inputs.length index ∈ (all partition).map (spillRow own) := by
      rw [← contents]
      exact List.mem_flatMap.mpr ⟨block,member,List.mem_map.mpr ⟨index,List.mem_range.mpr inside,rfl⟩⟩
    obtain ⟨row,_,same⟩ := List.mem_map.mp stored
    have tag := congrArg Columnar.Row.tag same
    rw [← same,show block.tags index = row from tag.symm]

/-! Loading a partition. -/

variable {own : BatchAgg}

/-- A table that is full, and a key that it does not have. -/
theorem overfull {groups : Groups} {start all : List Column} {row : Column}
    (tabulates : Tabulates (rowKey own) (summary own) groups start) (absent : rowKey own row ∉ start.map (rowKey own))
    (first : start ++ [row] <+: all) (full : own.groupLimit ≤ groups.length) :
    own.groupLimit < (all.map (rowKey own)).dedup.length := by
  have fresh : rowKey own row ∉ groups.map Prod.fst := fun member => absent (tabulates.mem_keys.mp member)
  have nodup : (rowKey own row :: groups.map Prod.fst).Nodup := List.nodup_cons.mpr ⟨fresh,tabulates.nodup⟩
  have inside : rowKey own row :: groups.map Prod.fst ⊆ (all.map (rowKey own)).dedup := by
    intro key member
    rw [List.mem_dedup]
    apply (first.sublist.map (rowKey own)).subset
    rw [List.map_append,List.mem_append]
    rcases List.mem_cons.mp member with rfl | old
    · exact .inr (List.mem_singleton.mpr rfl)
    · exact .inl (tabulates.mem_keys.mp old)
  have length := (nodup.subperm inside).length_le
  rw [List.length_cons,List.length_map] at length
  omega

/-- One row of a group table, whether the table has its key or must enter it. -/
theorem advance_row {groups : Groups} {start : List Column}
    {row : Column} (tabulates : Tabulates (rowKey own) (summary own) groups start)
    (summable : Summable own (start ++ [row])) :
    (find groups (rowKey own row)).isSome = decide (rowKey own row ∈ start.map (rowKey own)) ∧
    ∃ after, advance (advanceGroupEntry own (sourceCells own row)) (rowKey own row)
        (if rowKey own row ∈ start.map (rowKey own) then groups
          else groups ++ [(rowKey own row,zeroValues own)]) = .ok after ∧
      Tabulates (rowKey own) (summary own) after (start ++ [row]) := by
  have found := tabulates.find (rowKey own row)
  have inRange := summable (rowKey own row) _ (List.prefix_refl _)
  rw [group_append,group_single,if_pos rfl] at inRange
  have ran := advanceGroupEntry_ok inRange
  by_cases present : rowKey own row ∈ start.map (rowKey own)
  · rw [if_pos present] at found ⊢
    obtain ⟨after,ran,_,next⟩ := tabulates.advance present ran
    exact ⟨by simp [found,present],after,ran,next⟩
  · rw [if_neg present] at found ⊢
    rw [group_eq_nil.mpr present] at ran
    obtain ⟨after,ran,_,next⟩ := tabulates.enter present ran
    rw [zeroValues_eq]
    exact ⟨by simp [found,present],after,ran,next⟩

theorem loadRows_spec (grouped : own.groupInput < own.inputs.length) {vectors : List Column} {tags : Nat → Column}
    {groups : Groups} {start all : List Column} {visits : List Nat}
    (cells : ∀ row ∈ visits, cellsAt vectors row = sourceCells own (tags row))
    (tabulates : Tabulates (rowKey own) (summary own) groups start) (summable : Summable own all)
    (first : start ++ visits.map tags <+: all) :
    ∃ after more, loadRows own vectors groups visits = .ok (after,more) ∧
      if more then Tabulates (rowKey own) (summary own) after (start ++ visits.map tags)
      else own.groupLimit < (all.map (rowKey own)).dedup.length := by
  induction visits generalizing groups start with
  | nil => exact ⟨groups,true,rfl,by simpa using tabulates⟩
  | cons row rest ih =>
    have here := cells row (List.mem_cons_self ..)
    have split : start ++ (row :: rest).map tags = start ++ [tags row] ++ rest.map tags := by simp
    rw [split] at first ⊢
    have sofar : start ++ [tags row] <+: all := (List.prefix_append _ _).trans first
    obtain ⟨known,after,ran,next⟩ := advance_row tabulates (summable.of_prefix sofar)
    obtain ⟨last,more,ran',kept⟩ := ih (fun row member => cells row (List.mem_cons_of_mem _ member)) next first
    unfold loadRows
    dsimp only
    rw [here,rowHash_source grouped]
    dsimp only
    by_cases present : rowKey own (tags row) ∈ start.map (rowKey own)
    · rw [if_pos (by simpa [known] using present)]
      rw [if_pos present] at ran
      rw [ran]
      exact ⟨last,more,ran',kept⟩
    · rw [if_neg (by simpa [known] using present)]
      rw [if_neg present] at ran
      by_cases full : own.groupLimit ≤ groups.length
      · rw [if_pos full]
        exact ⟨groups,false,rfl,overfull tabulates present sofar full⟩
      · rw [if_neg full,ran]
        exact ⟨last,more,ran',kept⟩

/-- Loading a partition succeeds, or the partition has more groups than fit. -/
theorem loadSpillGroups_spec (grouped : own.groupInput < own.inputs.length) {set : SpillSet Column}
    {all : Nat → List Column} (holds : Holds set fun partition => (all partition).map (spillRow own))
    (ncolumns : set.ncolumns = own.inputs.length) (frozen : set.frozen = true) {partition : Nat}
    (inside : partition < set.npartitions) (summable : Summable own (all partition)) :
    ∃ after groups more, loadSpillGroups own set partition = .ok (after,groups,more) ∧ Reads set after ∧
      if more then Tabulates (rowKey own) (summary own) groups (all partition)
      else own.groupLimit < ((all partition).map (rowKey own)).dedup.length := by
  obtain ⟨opened,reader,open_,reads,ahead⟩ := readerOpen_frozen holds frozen inside
  obtain ⟨tags,stored⟩ := holds_tags holds ncolumns partition
  obtain ⟨after,groups,more,ran,reads',kept⟩ := readLoop_rule
    (fun groups block => loadRows own (spillBlockVectors own block) groups (rows (blockSelection block)))
    (fun blocks groups => Tabulates (rowKey own) (summary own) groups (blocks.flatMap blockTags))
    (fun _ => own.groupLimit < ((all partition).map (rowKey own)).dedup.length) (set.files partition) []
    (holds.reads reads) (by rw [ahead]; rfl) tabulates_nil (by
      intro before block rest groups split tabulates
      have member : block ∈ set.files partition := by simp [split]
      have small := (holds.blocks partition block member).2
      have first : before.flatMap blockTags ++ blockTags block <+: all partition := by
        rw [← tags,split]
        exact ⟨rest.flatMap blockTags,by simp⟩
      obtain ⟨after,more,ran,kept⟩ := loadRows_spec grouped
        (fun row member' => (block_row (stored block member row (List.mem_range.mp member'))).2.2)
        tabulates summable first
      refine ⟨after,more,by rw [rows_blockSelection small]; exact ran,?_⟩
      simpa [blockTags] using kept)
  refine ⟨after,groups,more,?_,reads.trans reads',tags ▸ kept⟩
  unfold loadSpillGroups
  rw [open_]
  exact ran

/-! Writing rows to their partitions, from a batch or from a block. -/

/-- Writers of the aggregate's spilled rows that can still be written to. -/
structure Writable (own : BatchAgg) (npartitions : Nat) (writers : Writers Column) : Prop where
  valid : writers.Valid
  ncolumns : writers.ncolumns = own.inputs.length
  npartitions : writers.npartitions = npartitions
  unfinished : writers.finished = false

theorem writePartitions_spec {npartitions nrows : Nat} {partitionRows : Nat → BitVec 64} (row : Nat → Row Column)
    {writers : Writers Column} (writable : Writable own npartitions writers) (small : nrows ≤ 64)
    {visits : List Nat} {part : Nat → Nat} (inside : ∀ index ∈ visits, index < nrows)
    (bounded : ∀ index ∈ visits, part index < npartitions)
    (split : ∀ partition, partition < npartitions →
      rows (partitionRows partition) = visits.filter fun index => decide (part index = partition))
    (width : ∀ index, (row index).cells.length = own.inputs.length) :
    ∃ after, writePartitions npartitions nrows partitionRows row writers = .ok after ∧
      Writable own npartitions after ∧ ∀ partition, after.contents partition = writers.contents partition ++
        (visits.filter fun index => decide (part index = partition)).map row := by
  obtain ⟨after,ran,same,held,contents⟩ := foldlM_adds
    (fun writers partition =>
      if partitionRows partition = 0#64 then .ok writers
      else spillWrite writers partition nrows (partitionRows partition) row)
    (fun partition => (visits.filter fun index => decide (part index = partition)).map row)
    writable.valid npartitions (by
      intro middle held same partition below
      by_cases none : partitionRows partition = 0#64
      · refine ⟨middle,by rw [if_pos none],.refl middle,held,?_⟩
        rw [← split partition below,none]
        simp
      · obtain ⟨after,ran,adds⟩ := write_adds held row
          (by rw [same.npartitions,writable.npartitions]; exact below)
          (same.finished.trans writable.unfinished) small
          (fun index => (width index).trans (writable.ncolumns.symm.trans same.ncolumns.symm))
        refine ⟨after,by rw [if_neg none]; exact ran,?_⟩
        have masked : rows (partitionRows partition &&& wordMask nrows) = rows (partitionRows partition) := by
          rw [rows_and,List.filter_eq_self]
          intro index member
          rw [split partition below] at member
          rw [getLsbD_wordMask,decide_eq_true_eq]
          have := inside index (List.mem_filter.mp member).1
          omega
        rwa [masked,split partition below] at adds)
  refine ⟨after,ran,⟨held,same.ncolumns.trans writable.ncolumns,same.npartitions.trans writable.npartitions,
    same.finished.trans writable.unfinished⟩,?_⟩
  intro partition
  rw [contents]
  split
  · rfl
  · rename_i beyond
    have none : (visits.filter fun index => decide (part index = partition)) = [] := by
      rw [List.filter_eq_nil_iff]
      intro index member
      have := bounded index member
      simp only [decide_eq_true_eq]
      omega
    rw [none]
    rfl

/-- The rows of a list that belong to one partition. -/
def inPartition (own : BatchAgg) (hashShift npartitions partition : Nat) (source : List Column) : List Column :=
  source.filter fun row => decide (partitionAt hashShift npartitions (sourceHash own row) = partition)

theorem inPartition_append (hashShift npartitions partition : Nat) (left right : List Column) :
    inPartition own hashShift npartitions partition (left ++ right) =
      inPartition own hashShift npartitions partition left ++ inPartition own hashShift npartitions partition right :=
  List.filter_append ..

theorem partitionAt_eq (hashShift bits : Nat) (hash : BitVec 32) :
    partitionAt hashShift (2 ^ bits) hash = hash.toNat / 2 ^ hashShift % 2 ^ bits := by
  rw [partitionAt,Nat.and_two_pow_sub_one_eq_mod,BitVec.toNat_ushiftRight,Nat.shiftRight_eq_div_pow]

theorem partitionAt_lt (hashShift bits : Nat) (hash : BitVec 32) :
    partitionAt hashShift (2 ^ bits) hash < 2 ^ bits := by
  rw [partitionAt_eq]
  exact Nat.mod_lt _ (Nat.two_pow_pos bits)

theorem repartitionBlock_spec {hashShift bits : Nat} {writers : Writers Column} {block : Store Column}
    (writable : Writable own (2 ^ bits) writers) (small : block.nrows ≤ blockRows)
    (stored : ∀ index, index < block.nrows → block.row own.inputs.length index = spillRow own (block.tags index)) :
    ∃ after, repartitionBlock own hashShift (2 ^ bits) writers block = .ok (after,true) ∧
      Writable own (2 ^ bits) after ∧ ∀ partition, after.contents partition = writers.contents partition ++
        (inPartition own hashShift (2 ^ bits) partition (blockTags block)).map (spillRow own) := by
  have bound : block.nrows ≤ 64 := small
  obtain ⟨after,ran,written,contents⟩ := writePartitions_spec
    (vectorRow (spillBlockVectors own block) block.hashes block.tags) writable bound
    (fun index member => List.mem_range.mp member) (fun index _ => partitionAt_lt hashShift bits _)
    (fun partition _ => by rw [rows_gather,rows_blockSelection small])
    (fun index => by simp [vectorRow,cellsAt,spillBlockVectors])
  refine ⟨after,?_,written,?_⟩
  · unfold repartitionBlock
    dsimp only
    rw [ran]
    rfl
  · intro partition
    rw [contents partition,inPartition,blockTags,List.filter_map,List.map_map]
    congr 1
    have same (index : Nat) (inside : index < block.nrows) := block_row (stored index inside)
    have filtered : (List.range block.nrows).filter
          (fun index => decide (partitionAt hashShift (2 ^ bits) (block.hashes index) = partition)) =
        (List.range block.nrows).filter
          ((fun row => decide (partitionAt hashShift (2 ^ bits) (sourceHash own row) = partition)) ∘ block.tags) := by
      apply List.filter_congr
      intro index member
      rw [Function.comp,(same index (List.mem_range.mp member)).2.1]
    rw [filtered]
    apply List.map_congr_left
    intro index member
    obtain ⟨_,hash,cells⟩ := same index (List.mem_range.mp (List.mem_filter.mp member).1)
    simp [vectorRow,hash,cells,spillRow]

/-! The hash bits that a work item has used up. -/

/-- The rows agree in the bits below the shift. -/
def Aligned (own : BatchAgg) (hashShift : Nat) (source : List Column) : Prop :=
  ∃ low, ∀ row ∈ source, (sourceHash own row).toNat % 2 ^ hashShift = low

theorem aligned_child {hashShift partition : Nat} (bits : Nat) {source : List Column} (aligned : Aligned own hashShift source) :
    Aligned own (hashShift + bits) (inPartition own hashShift (2 ^ bits) partition source) := by
  obtain ⟨low,agree⟩ := aligned
  refine ⟨low + 2 ^ hashShift * partition,?_⟩
  intro row member
  obtain ⟨present,here⟩ := List.mem_filter.mp member
  rw [decide_eq_true_eq,partitionAt_eq] at here
  rw [Nat.pow_add,Nat.mod_mul,agree row present,here]

/-- Rows whose whole hashes agree have at most two keys: one value, and NULL. -/
theorem aligned_keys {source : List Column} (aligned : Aligned own 32 source) :
    (source.map (rowKey own)).dedup.length ≤ 2 := by
  obtain ⟨low,agree⟩ := aligned
  have same (left right : Column) (one : left ∈ source) (two : right ∈ source) :
      sourceHash own left = sourceHash own right := by
    apply BitVec.eq_of_toNat_eq
    have first := agree left one
    rw [← agree right two,Nat.mod_eq_of_lt (sourceHash own left).isLt,
      Nat.mod_eq_of_lt (sourceHash own right).isLt] at first
    exact first
  have value (left right : Column) (one : left ∈ source) (two : right ∈ source)
      (some : (rowKey own left).isnull = false) (other : (rowKey own right).isnull = false) :
      rowKey own left = rowKey own right := by
    have hash := same left right one two
    unfold sourceHash rowKey at *
    cases first : left (keyColumn own) with
    | none => simp [first,groupHash] at some
    | some one =>
      cases second : right (keyColumn own) with
      | none => simp [second,groupHash] at other
      | some two =>
        simp only [first,second,groupHash] at hash ⊢
        rw [murmurhash32_inj hash]
  have null (left right : Column) (one : (rowKey own left).isnull = true) (two : (rowKey own right).isnull = true) :
      rowKey own left = rowKey own right := by
    unfold rowKey at *
    cases first : left (keyColumn own) <;> cases second : right (keyColumn own) <;>
      simp_all [groupHash]
  have few : ((source.map (rowKey own)).dedup.map GroupKey.isnull).Nodup := by
    refine List.Nodup.map_on ?_ (List.nodup_dedup _)
    intro first member second member' agree
    obtain ⟨left,one,rfl⟩ := List.mem_map.mp (List.mem_dedup.mp member)
    obtain ⟨right,two,rfl⟩ := List.mem_map.mp (List.mem_dedup.mp member')
    cases here : (rowKey own left).isnull with
    | true => exact null left right here (agree ▸ here)
    | false => exact value left right one two here (agree ▸ here)
  have bound := few.length_le_card
  rwa [List.length_map,Fintype.card_bool] at bound

/-! The work list: every item stands for the rows of one partition. -/

structure WorkReady (own : BatchAgg) (state : AggState) (work : SpillWork) (source : List Column) : Prop where
  set : work.set < state.nsets
  partition : work.partition < (state.sets work.set).npartitions
  ncolumns : (state.sets work.set).ncolumns = own.inputs.length
  frozen : (state.sets work.set).frozen = true
  holds : ∃ all : Nat → List Column, all work.partition = source ∧
    Holds (state.sets work.set) fun partition => (all partition).map (spillRow own)
  shift : work.hashShift ≤ 32
  aligned : Aligned own work.hashShift source
  summable : Summable own source

def QueueReady (own : BatchAgg) (state : AggState) (works : List SpillWork) (queue : List (List Column)) : Prop :=
  List.Forall₂ (WorkReady own state) works queue

/-- The spill sets of `before` are still there, read further at most. -/
def KeepsSets (before after : AggState) : Prop :=
  before.nsets ≤ after.nsets ∧ ∀ index, index < before.nsets → Reads (before.sets index) (after.sets index)

theorem keepsSets_of_eq {before after : AggState} (sets : after.sets = before.sets) (nsets : after.nsets = before.nsets) :
    KeepsSets before after :=
  ⟨Nat.le_of_eq nsets.symm,fun index _ => sets ▸ Reads.refl (before.sets index)⟩

theorem WorkReady.keep {before after : AggState} {work : SpillWork} {source : List Column}
    (ready : WorkReady own before work source) (keeps : KeepsSets before after) : WorkReady own after work source := by
  obtain ⟨all,here,holds⟩ := ready.holds
  have reads := keeps.2 work.set ready.set
  have holds' := holds.reads reads
  obtain ⟨_,_,same⟩ := reads
  refine ⟨Nat.lt_of_lt_of_le ready.set keeps.1,?_,?_,?_,⟨all,here,holds'⟩,ready.shift,ready.aligned,ready.summable⟩
  · rw [same]
    exact ready.partition
  · rw [same]
    exact ready.ncolumns
  · rw [same]
    exact ready.frozen

theorem QueueReady.keep {before after : AggState} {works : List SpillWork} {queue : List (List Column)}
    (ready : QueueReady own before works queue) (keeps : KeepsSets before after) : QueueReady own after works queue :=
  ready.imp fun _ _ ready => ready.keep keeps

theorem appendSpillWork_ok {set : SpillSet Column} {rows : Nat → List (Row Column)} (holds : Holds set rows)
    {npartitions : Nat} (all : npartitions ≤ set.npartitions) (index hashShift : Nat) (works : List SpillWork) :
    appendSpillWork set index npartitions hashShift works =
      .ok (works ++ ((List.range npartitions).filter fun partition => !(rows partition).isEmpty).map
        fun partition => ⟨index,partition,hashShift⟩) := by
  unfold appendSpillWork
  induction npartitions with
  | zero =>
    simp
    rfl
  | succ count ih =>
    rw [List.range_succ,List.foldlM_append,ih (by omega),List.filter_append]
    dsimp only [bind,Except.bind]
    rw [List.foldlM_cons,spillPartitionEmpty_ok holds (by omega)]
    cases empty : (rows count).isEmpty with
    | true => simp [empty]
    | false => simp [empty]

theorem summable_part {hashShift npartitions partition : Nat} {source : List Column} (summable : Summable own source) :
    Summable own (inPartition own hashShift npartitions partition source) := by
  intro key start first
  rcases group_filter
    (fun row => decide (partitionAt hashShift npartitions (sourceHash own row) = partition))
    (fun left _ right _ same => by rw [sourceHash_of_key same]) key with whole | none
  · exact summable key start (whole ▸ first)
  · rw [inPartition,none,List.prefix_nil] at first
    exact summable key start (first ▸ List.nil_prefix)

/-- What the entries of the groups of some rows should be. -/
def entriesOf (own : BatchAgg) (source : List Column) : Groups :=
  (groups (rowKey own) source).map fun entry => (entry.1,summary own entry.2)

@[simp] theorem entriesOf_nil : entriesOf own [] = [] := rfl

theorem Tabulates.entries_perm {table : Groups} {source : List Column}
    (tabulates : Tabulates (rowKey own) (summary own) table source) : table.Perm (entriesOf own source) :=
  tabulates.perm

theorem entriesOf_partition {source : List Column} (hashShift bits : Nat) :
    (entriesOf own source).Perm
      ((List.range (2 ^ bits)).flatMap fun partition =>
        entriesOf own (inPartition own hashShift (2 ^ bits) partition source)) := by
  have split := groups_partition (rowKey own) source
    (fun row => partitionAt hashShift (2 ^ bits) (sourceHash own row)) (2 ^ bits)
    (fun row _ => partitionAt_lt hashShift bits _)
    (fun left _ right _ same => by rw [sourceHash_of_key same])
  have mapped := split.map fun entry => (entry.1,summary own entry.2)
  rw [List.map_flatMap] at mapped
  exact mapped

/-- The partitions of a finished set, as work items. -/
theorem queue_of_set (state : AggState) {index : Nat} (npartitions : Nat) {hashShift : Nat} {all : Nat → List Column}
    (set : index < state.nsets)
    (holds : Holds (state.sets index) fun partition => (all partition).map (spillRow own))
    (count : (state.sets index).npartitions = npartitions) (ncolumns : (state.sets index).ncolumns = own.inputs.length)
    (frozen : (state.sets index).frozen = true) (shift : hashShift ≤ 32)
    (aligned : ∀ partition, Aligned own hashShift (all partition)) (summable : ∀ partition, Summable own (all partition)) :
    ∃ items queue, (∀ works, appendSpillWork (state.sets index) index npartitions hashShift works = .ok (works ++ items)) ∧
      QueueReady own state items queue ∧
      queue.flatMap (entriesOf own) = (List.range npartitions).flatMap fun partition => entriesOf own (all partition) := by
  refine ⟨_,((List.range npartitions).filter fun partition => !((all partition).map (spillRow own)).isEmpty).map all,
    appendSpillWork_ok holds (Nat.le_of_eq count.symm) index hashShift,?_,?_⟩
  · unfold QueueReady
    rw [List.forall₂_map_left_iff,List.forall₂_map_right_iff,List.forall₂_same]
    intro partition member
    have below := List.mem_range.mp (List.mem_filter.mp member).1
    exact ⟨set,count ▸ below,ncolumns,frozen,⟨all,rfl,holds⟩,shift,aligned partition,summable partition⟩
  · rw [List.flatMap_map]
    clear count
    induction npartitions with
    | zero => rfl
    | succ count ih =>
      rw [List.range_succ,List.filter_append,List.flatMap_append,List.flatMap_append,ih]
      congr 1
      cases cells : all count with
      | nil => simp [cells]
      | cons first rest => simp [cells]

theorem newSpill_ok {state : AggState} {npartitions : Nat} (grouped : own.groupInput < own.inputs.length)
    (parts : 0 < npartitions) :
    newSpill own state npartitions = .ok {state with
      sets := Function.update state.sets state.nsets
        {create own.inputs.length npartitions own.spillBufferLimit with frozen := false, position := fun _ => 0}
      nsets := state.nsets + 1} := by
  have created := spillCreate_ok (τ := Column) (spillDesc own) own.inputs.length npartitions own.spillBufferLimit
    (by omega) (by simp [spillDesc]) parts (by simp [spillDesc])
  unfold newSpill
  rw [created]
  rfl

theorem create_writable (npartitions : Nat) :
    Writable own npartitions (create own.inputs.length npartitions own.spillBufferLimit) :=
  ⟨create_valid _ _ _,rfl,rfl,rfl⟩

/-- Splitting an item that is not at the last bit: its groups pass to the new items. -/
theorem repartitionSpill_spec (grouped : own.groupInput < own.inputs.length) {state : AggState} {work : SpillWork}
    {source : List Column} {queue : List (List Column)} (ready : WorkReady own state work source)
    (rest : QueueReady own state state.spillWork queue) (more : work.hashShift < 32) :
    ∃ after added, repartitionSpill own state work = .ok after ∧ after.inputDone = state.inputDone ∧
      QueueReady own after after.spillWork (queue ++ added) ∧
      (entriesOf own source).Perm (added.flatMap (entriesOf own)) := by
  obtain ⟨all,here,holds⟩ := ready.holds
  let bits := min 5 (32 - work.hashShift)
  let fresh : SpillSet Column :=
    {create own.inputs.length (2 ^ bits) own.spillBufferLimit with frozen := false, position := fun _ => 0}
  have other : work.set ≠ state.nsets := Nat.ne_of_lt ready.set
  obtain ⟨opened,reader,open_,reads,ahead⟩ := readerOpen_frozen holds ready.frozen ready.partition
  obtain ⟨tags,stored⟩ := holds_tags holds ready.ncolumns work.partition
  -- The read loop gathers, partition by partition, the rows of the blocks read so far.
  obtain ⟨read,writers,more',ran,reads',kept⟩ := readLoop_rule
    (repartitionBlock own work.hashShift (2 ^ bits))
    (fun blocks writers => Writable own (2 ^ bits) writers ∧ ∀ partition, writers.contents partition =
        (inPartition own work.hashShift (2 ^ bits) partition (blocks.flatMap blockTags)).map (spillRow own))
    (fun _ => False) ((state.sets work.set).files work.partition) [] (holds.reads reads) (by rw [ahead]; rfl) ⟨create_writable _,fun _ => rfl⟩ (by
      intro before block rest writers split ⟨writable,contents⟩
      have member : block ∈ (state.sets work.set).files work.partition := by simp [split]
      obtain ⟨after,ran,written,gained⟩ := repartitionBlock_spec writable
        (holds.blocks work.partition block member).2 (stored block member)
      refine ⟨after,true,ran,written,?_⟩
      intro partition
      rw [gained partition,contents partition,List.flatMap_append,inPartition_append,List.map_append]
      simp)
  cases more' with
  | false => exact absurd kept (by simp)
  | true =>
    obtain ⟨writable,contents⟩ := kept
    rw [tags,here] at contents
    obtain ⟨finished,ended,held,frozen,ncolumns,count,_⟩ := spillFinish_holds {fresh with toWriters := writers}
      writable.valid writable.unfinished true
    have holds' : Holds finished fun partition =>
        (inPartition own work.hashShift (2 ^ bits) partition source).map (spillRow own) := by
      rw [show writers.contents = _ from funext contents] at held
      exact held
    let after : AggState := {state with
      sets := Function.update (Function.update (Function.update state.sets state.nsets fresh) work.set read)
        state.nsets finished
      nsets := state.nsets + 1}
    have last : after.sets state.nsets = finished := Function.update_self ..
    have keeps : KeepsSets state after := by
      refine ⟨Nat.le_succ _,?_⟩
      intro index below
      have apart : index ≠ state.nsets := Nat.ne_of_lt below
      by_cases same : index = work.set
      · subst same
        simpa [after,apart] using reads.trans reads'
      · simpa [after,apart,same] using Reads.refl _
    obtain ⟨items,added,works,listed,emitted⟩ := queue_of_set after (2 ^ bits) (Nat.lt_succ_self _)
      (last ▸ holds') (by rw [last,count]; exact writable.npartitions)
      (by rw [last,ncolumns]; exact writable.ncolumns) (last ▸ frozen) (by omega)
      (fun _ => aligned_child bits ready.aligned) (fun _ => summable_part ready.summable)
    rw [last] at works
    have joined : QueueReady own after (state.spillWork ++ items) (queue ++ added) :=
      List.rel_append (rest.keep keeps) listed
    refine ⟨{after with spillWork := state.spillWork ++ items},added,?_,rfl,joined.keep (keepsSets_of_eq rfl rfl),
      emitted ▸ entriesOf_partition work.hashShift bits⟩
    unfold repartitionSpill
    rw [if_neg (by omega)]
    dsimp only
    rw [newSpill_ok grouped (Nat.two_pow_pos _)]
    change (readerOpen (Function.update state.sets state.nsets fresh work.set) work.partition >>= _) = _
    rw [Function.update_of_ne other,open_]
    change (readLoop (repartitionBlock own work.hashShift (2 ^ bits)) opened reader
      (Function.update state.sets state.nsets fresh state.nsets).toWriters >>= _) = _
    rw [Function.update_self,ran]
    change (spillFinish {Function.update state.sets state.nsets fresh state.nsets with toWriters := writers} true
      >>= _) = _
    rw [Function.update_self,ended]
    change (appendSpillWork finished state.nsets (2 ^ bits) (work.hashShift + bits) state.spillWork >>= _) = _
    rw [works]
    rfl

/-! Emitting: what is left to emit is the rest of the current table and the groups of the work list. -/

/-- The rest of the run, from a state whose input has been read. -/
structure Emitting (own : BatchAgg) (state : AggState) (left : Groups) : Prop where
  inputDone : state.inputDone = true
  queue : ∃ queue, QueueReady own state state.spillWork queue ∧
    left.Perm (state.groupSeq ++ queue.flatMap (entriesOf own))

theorem prepareNext_spec (grouped : own.groupInput < own.inputs.length) (limit : 2 ≤ own.groupLimit)
    (scan : HashScan) {state : AggState} {left : Groups} (emitting : Emitting own state left)
    (done : state.groupSeq = []) :
    ∃ after more, prepareNextSpillPartition own scan state = .ok (after,more) ∧ Emitting own after left ∧
      (more = false → left = []) := by
  obtain ⟨inputDone,queue,ready,perm⟩ := emitting
  rw [done,List.nil_append] at perm
  clear done
  generalize heavy : weight state.spillWork = bound
  induction bound using Nat.strong_induction_on generalizing state queue with
  | _ bound ih =>
    cases listed : state.spillWork with
    | nil =>
      rw [listed] at ready
      cases ready
      have none : left = [] := perm.eq_nil
      exact ⟨_,false,prepareNext_nil listed,⟨inputDone,[],by rw [QueueReady,listed]; exact .nil,by simp [none]⟩,
        fun _ => none⟩
    | cons work rest =>
      rw [listed] at ready
      obtain ⟨source,others,first,ready',rfl⟩ := List.forall₂_cons_left_iff.mp ready
      obtain ⟨all,here,holds⟩ := first.holds
      have summable : Summable own (all work.partition) := here ▸ first.summable
      obtain ⟨read,groups,loaded,ran,reads,kept⟩ := loadSpillGroups_spec grouped holds first.ncolumns first.frozen
        first.partition summable
      rw [here] at kept
      let opened : AggState := {state with spillWork := rest, sets := Function.update state.sets work.set read}
      have keeps : KeepsSets state opened := by
        refine ⟨Nat.le_refl _,fun index _ => ?_⟩
        by_cases same : index = work.set
        · subst same
          simpa [opened] using reads
        · simpa [opened,same] using Reads.refl _
      have waiting : QueueReady own opened rest others := QueueReady.keep ready' keeps
      rw [prepareNext_cons listed ran]
      cases loaded with
      | true =>
        refine ⟨_,true,rfl,⟨inputDone,others,waiting.keep (keepsSets_of_eq rfl rfl),?_⟩,fun never => absurd never (by decide)⟩
        have table : (scan.order groups).Perm (entriesOf own source) :=
          (scan.perm groups).trans (Tabulates.perm kept)
        exact perm.trans (List.Perm.append_right _ table.symm)
      | false =>
        -- More than two keys cannot share a whole hash, so there are bits left to split by.
        have more : work.hashShift < 32 := by
          by_contra last
          have few := aligned_keys (by
            have all : work.hashShift = 32 := Nat.le_antisymm first.shift (by omega)
            exact all ▸ first.aligned)
          simp only [Bool.false_eq_true,if_false] at kept
          omega
        obtain ⟨after,added,split,same,joined,emitted⟩ :=
          repartitionSpill_spec grouped (first.keep keeps) waiting more
        have less := repartitionSpill_lighter split
        obtain ⟨final,again,ran',emitting,empty⟩ := ih (weight after.spillWork)
          (by rw [← heavy,listed]; exact less) (same.trans inputDone) (others ++ added) joined (by
            refine perm.trans ?_
            rw [List.flatMap_cons,List.flatMap_append]
            exact (List.Perm.append_right _ emitted).trans List.perm_append_comm)
          rfl
        exact ⟨final,again,by dsimp only; rw [if_neg (by decide)]; rw [split]; exact ran',emitting,empty⟩

/-- What `nextGroup` does when the current table is used up. -/
theorem nextGroup_nil {scan : HashScan} {state after : AggState} {more : Bool} (done : state.groupSeq = [])
    (ran : prepareNextSpillPartition own scan state = .ok (after,more)) :
    nextGroup own scan state = if more then nextGroup own scan after else .ok (after,none) := by
  rw [nextGroup]
  split
  · rename_i some
    rw [done] at some
    cases some
  · split
    · rename_i failed
      rw [ran] at failed
      cases failed
    · rename_i ended
      rw [ran] at ended
      cases ended
      rfl
    · rename_i prepared
      rw [ran] at prepared
      cases prepared
      rfl

theorem nextGroup_cons {scan : HashScan} {state : AggState} {entry : GroupKey × GroupValues} {rest : Groups}
    (table : state.groupSeq = entry :: rest) :
    nextGroup own scan state = .ok ({state with groupSeq := rest},some (storeGroupResult own entry)) := by
  rw [nextGroup]
  split
  · rename_i some
    rw [table] at some
    cases some
    rfl
  · rename_i none
    rw [table] at none
    cases none

/-- One call delivers one of the rows that are left, or ends when none is. -/
theorem nextGroup_spec (grouped : own.groupInput < own.inputs.length) (limit : 2 ≤ own.groupLimit) (scan : HashScan)
    {state : AggState} {left : Groups} (emitting : Emitting own state left) :
    ∃ after result, nextGroup own scan state = .ok (after,result) ∧
      ((result = none ∧ left = []) ∨ ∃ entry rest, result = some (storeGroupResult own entry) ∧
        left.Perm (entry :: rest) ∧ Emitting own after rest) := by
  generalize heavy : weight state.spillWork = bound
  induction bound using Nat.strong_induction_on generalizing state with
  | _ bound ih =>
    cases table : state.groupSeq with
    | cons entry rest =>
      obtain ⟨inputDone,queue,ready,perm⟩ := emitting
      rw [table] at perm
      exact ⟨_,_,nextGroup_cons table,.inr ⟨entry,rest ++ queue.flatMap (entriesOf own),rfl,perm,
        inputDone,queue,ready.keep (keepsSets_of_eq rfl rfl),.refl _⟩⟩
    | nil =>
      obtain ⟨after,more,ran,emitting',empty⟩ := prepareNext_spec grouped limit scan emitting table
      rw [nextGroup_nil table ran]
      cases more with
      | false => exact ⟨after,none,rfl,.inl ⟨rfl,empty rfl⟩⟩
      | true => exact ih _ (heavy ▸ prepareNext_lighter ran) emitting' rfl

/-- Called again and again, the node delivers all that is left, once each. -/
theorem emits_left (grouped : own.groupInput < own.inputs.length) (limit : 2 ≤ own.groupLimit) (scan : HashScan)
    {state : AggState} {left : Groups} (emitting : Emitting own state left) :
    ∃ results, Emits own scan state results ∧ results.Perm (left.map (storeGroupResult own)) := by
  generalize count : left.length = size
  induction size generalizing state left with
  | zero =>
    obtain ⟨after,result,ran,⟨rfl,_⟩ | ⟨entry,rest,_,perm,_⟩⟩ := nextGroup_spec grouped limit scan emitting
    · have none : left = [] := List.length_eq_zero_iff.mp count
      refine ⟨[],@Emits.done _ _ _ after ?_,by rw [none]; exact .refl _⟩
      rw [aggExecGrouped,if_pos emitting.inputDone]
      exact ran
    · rw [perm.length_eq] at count
      cases count
  | succ size ih =>
    obtain ⟨after,result,ran,⟨rfl,none⟩ | ⟨entry,rest,rfl,perm,emitting'⟩⟩ := nextGroup_spec grouped limit scan emitting
    · rw [none] at count
      cases count
    · have fewer : rest.length = size := by
        have length := perm.length_eq
        rw [count,List.length_cons] at length
        omega
      obtain ⟨results,emits,all⟩ := ih emitting' fewer
      refine ⟨_,.row ?_ emits,(all.cons _).trans (perm.map (storeGroupResult own)).symm⟩
      rw [aggExecGrouped,if_pos emitting.inputDone]
      exact ran

end PgBatch.Aggregate
