import PgBatch.Library.Joining
import PgBatch.Nodes.HashJoinBuild

/-! Where the build rows of the serial hash join are: each in the build store or
in the spill partition its hash selects, and in the store exactly when that
partition is resident. -/
namespace PgBatch.HashJoin
open Words Columnar Spill Joining
open Parallel (partitionOf nextPartitionCount)

variable {ι : Type}

/-! Blocks. -/

private theorem inBlocks_from {σ : Type} {size : Nat} {flush : σ → List Nat → Except String σ} (Inv : List Nat → σ → Prop)
    {all : List Nat}
    (each : ∀ done block rest state, all = done ++ block ++ rest → block ≠ [] → block.length ≤ size → Inv done state →
      ∃ next, flush state block = .ok next ∧ Inv (done ++ block) next)
    {done block items : List Nat} {state : σ} (split : all = done ++ block ++ items) (room : block.length < size)
    (start : Inv done state) : ∃ last, inBlocks size flush state block items = .ok last ∧ Inv all last := by
  induction items generalizing done block state with
  | nil =>
    unfold inBlocks
    by_cases empty : block = []
    · subst empty
      refine ⟨state,if_pos rfl,?_⟩
      simp only [List.append_nil] at split
      exact split ▸ start
    · obtain ⟨last,flushed,inv⟩ := each done block [] state split empty (Nat.le_of_lt room) start
      rw [List.append_nil] at split
      exact ⟨last,by rw [if_neg empty,flushed],split ▸ inv⟩
  | cons item rest ih =>
    unfold inBlocks
    have split' : all = done ++ (block ++ [item]) ++ rest := by simp [split]
    by_cases full : block.length + 1 = size
    · obtain ⟨next,flushed,inv⟩ := each done (block ++ [item]) rest state split' (by simp) (by simp [full]) start
      have split'' : all = done ++ (block ++ [item]) ++ [] ++ rest := by rw [split',List.append_nil]
      obtain ⟨last,ran,inv'⟩ := ih split'' (by simp; omega) inv
      refine ⟨last,?_,inv'⟩
      rw [if_pos full,flushed]
      exact ran
    · rw [if_neg full]
      exact ih split' (by simp; omega) start

theorem inBlocks_rule {σ : Type} {size : Nat} {flush : σ → List Nat → Except String σ} (Inv : List Nat → σ → Prop)
    {items : List Nat} {state : σ} (positive : 0 < size) (start : Inv [] state)
    (each : ∀ done block rest state, items = done ++ block ++ rest → block ≠ [] → block.length ≤ size → Inv done state →
      ∃ next, flush state block = .ok next ∧ Inv (done ++ block) next) :
    ∃ last, inBlocks size flush state [] items = .ok last ∧ Inv items last :=
  inBlocks_from Inv each rfl positive start

/-- A word with the bits of an ascending list of positions. -/
theorem rows_bits {block : List Nat} (sorted : block.Pairwise (· < ·)) (inside : ∀ row ∈ block, row < 64) :
    rows (block.foldl (fun selection row => selection ||| bit 64 row) 0#64) = block := by
  induction block using List.reverseRecOn with
  | nil => exact rows_zero
  | append_singleton front last ih =>
    obtain ⟨before,_,apart⟩ := List.pairwise_append.mp sorted
    have same := ih before fun row member => inside row (List.mem_append_left _ member)
    rw [List.foldl_append,List.foldl_cons,List.foldl_nil,rows_or_last (inside last (by simp)) ?_,same]
    rw [same]
    exact fun row member => apart row member last (List.mem_singleton_self last)

/-! Writing. -/

/-- The rows written to a partition. -/
def BuildSpill.contents (spill : BuildSpill ι) : Nat → List (Row ι) :=
  spill.buildSpill.toWriters.contents

/-- The spill set can be written to, and has a file for each partition with rows. -/
structure Sound (config : Config) (spill : BuildSpill ι) : Prop where
  valid : spill.buildSpill.toWriters.Valid
  ncolumns : spill.buildSpill.ncolumns = config.ninnerColumns
  npartitions : spill.buildSpill.npartitions = spill.npartitions
  unfinished : spill.buildSpill.finished = false
  unfiled : ∀ partition, spill.contents partition = [] → spill.buildFiles partition = none
  filed : ∀ partition, spill.contents partition ≠ [] → spill.buildFiles partition = some ⟨partition,none⟩

/-- What writing may change. -/
def Writes (before after : BuildSpill ι) : Prop :=
  ∃ writers files partitionRows, after = {before with
    buildSpill := {before.buildSpill with toWriters := writers}
    buildFiles := files
    buildPartitionRows := partitionRows}

theorem Writes.refl (spill : BuildSpill ι) : Writes spill spill := ⟨_,_,_,rfl⟩

theorem Writes.trans {first second third : BuildSpill ι} (left : Writes first second) (right : Writes second third) :
    Writes first third := by
  obtain ⟨_,_,_,rfl⟩ := left
  obtain ⟨_,_,_,rfl⟩ := right
  exact ⟨_,_,_,rfl⟩

/-- Rows were added to one partition, and nothing was counted. -/
structure Added (config : Config) (before after : BuildSpill ι) (partition : Nat) (added : List (Row ι)) : Prop where
  writes : Writes before after
  sound : Sound config after
  contents : after.contents = Function.update before.contents partition (before.contents partition ++ added)
  partitionRows : after.buildPartitionRows = before.buildPartitionRows

variable [Inhabited ι] {config : Config}

omit [Inhabited ι] in
theorem Added.nil {spill : BuildSpill ι} (sound : Sound config spill) (partition : Nat) :
    Added config spill spill partition [] :=
  ⟨.refl spill,sound,by simp,rfl⟩

omit [Inhabited ι] in
theorem Added.append {first second third : BuildSpill ι} {partition : Nat} {left right : List (Row ι)}
    (one : Added config first second partition left) (two : Added config second third partition right) :
    Added config first third partition (left ++ right) where
  writes := one.writes.trans two.writes
  sound := two.sound
  contents := by rw [two.contents,one.contents]; simp
  partitionRows := two.partitionRows.trans one.partitionRows

omit [Inhabited ι] in
/-- A write to the set with the file that goes with it. -/
theorem added_of_adds {spill : BuildSpill ι} (sound : Sound config spill) {partition : Nat} {added : List (Row ι)}
    {writers : Writers ι} (nonempty : added ≠ []) (adds : Adds spill.buildSpill.toWriters writers partition added) :
    Added config spill {spill with
      buildSpill := {spill.buildSpill with toWriters := writers}
      buildFiles := spillFile spill.buildFiles partition} partition added where
  writes := ⟨_,_,_,rfl⟩
  sound := by
    -- The file that a partition with rows must have.
    have file : spillFile spill.buildFiles partition partition = some ⟨partition,none⟩ := by
      by_cases empty : spill.contents partition = []
      · simp only [spillFile,sound.unfiled partition empty,Function.update_self]
      · simp only [spillFile,sound.filed partition empty]
    have others {other : Nat} (apart : other ≠ partition) :
        spillFile spill.buildFiles partition other = spill.buildFiles other := by
      cases found : spill.buildFiles partition with
      | some file => simp only [spillFile,found]
      | none => simp only [spillFile,found,Function.update_of_ne apart]
    refine ⟨adds.valid,adds.same.ncolumns.trans sound.ncolumns,adds.same.npartitions.trans sound.npartitions,
      adds.same.finished.trans sound.unfinished,?_,?_⟩
    · intro other empty
      simp only [BuildSpill.contents,adds.contents] at empty
      by_cases here : other = partition
      · subst here
        rw [Function.update_self] at empty
        exact absurd (List.append_eq_nil_iff.mp empty).2 nonempty
      · rw [Function.update_of_ne here] at empty
        exact (others here).trans (sound.unfiled other empty)
    · intro other rows
      simp only [BuildSpill.contents,adds.contents] at rows
      by_cases here : other = partition
      · exact here ▸ file
      · rw [Function.update_of_ne here] at rows
        exact (others here).trans (sound.filed other rows)
  contents := adds.contents
  partitionRows := rfl

theorem writeBuildRows_adds {spill : BuildSpill ι} (sound : Sound config spill) {partition : Nat}
    (inside : partition < spill.npartitions) {row : Nat → Row ι}
    (width : ∀ index, (row index).cells.length = config.ninnerColumns) {block : List Nat} (nonempty : block ≠ [])
    (sorted : block.Pairwise (· < ·)) (small : ∀ row ∈ block, row < 64) :
    ∃ after, writeBuildRows row partition spill block = .ok after ∧ Added config spill after partition (block.map row) := by
  obtain ⟨writers,ran,adds⟩ : ∃ writers, spillWrite spill.buildSpill.toWriters partition pgBatchSize
      (block.foldl (fun selection row => selection ||| bit 64 row) 0#64) row = .ok writers ∧ _ :=
    write_adds sound.valid row (sound.npartitions ▸ inside) sound.unfinished (Nat.le_refl 64)
      (fun index => (width index).trans sound.ncolumns.symm)
  rw [rows_and,rows_bits sorted small,List.filter_eq_self.mpr] at adds
  · exact ⟨_,by rw [writeBuildRows,ran]; rfl,added_of_adds sound (by simpa using nonempty) adds⟩
  · intro row member
    rw [getLsbD_wordMask,decide_eq_true_eq]
    exact ⟨small row member,small row member⟩

omit [Inhabited ι] in
theorem rows_storeBlock (store : BuildStore ι) (ncolumns : Nat) (block : List Nat) :
    (storeBlock store.toStore block).rows ncolumns = block.map (store.row ncolumns) := by
  apply List.ext_getElem
  · simp [storeBlock]
  · intro index inside _
    simp only [length_rows,storeBlock] at inside
    simp [Store.rows,Store.row,Store.cell,storeBlock,inside]

theorem writeStoreBlock_adds {store : BuildStore ι} {spill : BuildSpill ι} (sound : Sound config spill) {partition : Nat}
    (inside : partition < spill.npartitions) {block : List Nat} (nonempty : block ≠ []) (small : block.length ≤ pgBatchSize) :
    ∃ after, writeStoreBlock store partition spill block = .ok after ∧
      Added config spill after partition (block.map (store.row config.ninnerColumns)) := by
  obtain ⟨writers,ran,adds⟩ : ∃ writers, spillWriteDense spill.buildSpill.toWriters partition
      (storeBlock store.toStore block) = .ok writers ∧ _ :=
    writeDense_adds sound.valid (sound.npartitions ▸ inside) sound.unfinished (List.length_pos_of_ne_nil nonempty) small
  rw [sound.ncolumns,rows_storeBlock] at adds
  exact ⟨_,by rw [writeStoreBlock,ran]; rfl,added_of_adds sound (by simpa using nonempty) adds⟩

/-! Routing the rows of a batch. -/

/-- What the linking loop has done with the rows it has passed. -/
structure Routes (hashes : Nat → BitVec 32) (start : BuildSpill ι) (visits : List Nat)
    (state : BuildSpill ι × Links × BitVec 64) : Prop where
  counted : ∃ partitionRows, state.1 = {start with buildPartitionRows := partitionRows}
  linked : ∀ partition, state.2.1.linked partition =
    if partition ∈ start.residentPartitions then [] else
      part (fun row => partitionOf start.npartitions (hashes row)) visits partition
  used : ∀ partition, partition ∈ state.2.1.used ↔ state.2.1.linked partition ≠ []
  distinct : state.2.1.used.Nodup
  partitionRows : ∀ partition, state.1.buildPartitionRows partition =
    start.buildPartitionRows partition + (state.2.1.linked partition).length
  residentRows : rows state.2.2 = visits.filter fun row =>
    decide (partitionOf start.npartitions (hashes row) ∈ start.residentPartitions)

omit [Inhabited ι] in
theorem routes (hashes : Nat → BitVec 32) (start : BuildSpill ι) {visits : List Nat}
    (sorted : visits.Pairwise (· < ·)) (inside : ∀ row ∈ visits, row < 64) :
    Routes hashes start visits (visits.foldl (routeBuildRow hashes) (start,Links.empty,0#64)) := by
  induction visits using List.reverseRecOn with
  | nil => exact ⟨⟨_,rfl⟩,by simp [Links.empty],by simp [Links.empty],List.nodup_nil,by simp [Links.empty],by simp⟩
  | append_singleton before row ih =>
    obtain ⟨sorted',_,apart⟩ := List.pairwise_append.mp sorted
    have routed := ih sorted' fun row member => inside row (List.mem_append_left _ member)
    rw [List.foldl_append,List.foldl_cons,List.foldl_nil]
    generalize before.foldl (routeBuildRow hashes) (start,Links.empty,0#64) = state at routed
    obtain ⟨spill,links,residentRows⟩ := state
    obtain ⟨⟨partitionRows,rfl⟩,linked,used,distinct,counts,resident⟩ := routed
    dsimp only at linked used distinct counts resident
    unfold routeBuildRow
    dsimp only
    generalize here : partitionOf start.npartitions (hashes row) = partition
    by_cases stays : partition ∈ start.residentPartitions
    · rw [if_pos stays]
      refine ⟨⟨_,rfl⟩,?_,used,distinct,counts,?_⟩
      · intro other
        dsimp only
        rw [linked other]
        split
        · rfl
        · rename_i gone
          have apart' : partition ≠ other := fun same => gone (same ▸ stays)
          rw [part_append]
          simp [part,here,apart']
      · dsimp only
        rw [rows_or_last (inside row (by simp)),resident,List.filter_append]
        · simp [here,stays]
        · rw [resident]
          exact fun other member => apart other (List.mem_filter.mp member).1 row (List.mem_singleton_self row)
    · rw [if_neg stays]
      refine ⟨⟨_,rfl⟩,?_,?_,?_,?_,?_⟩
      · intro other
        dsimp only [Links.add]
        by_cases same : other = partition
        · subst same
          rw [Function.update_self,linked,if_neg stays,if_neg stays,part_append]
          simp [part,here]
        · rw [Function.update_of_ne same,linked,part_append]
          split
          · rfl
          · simp [part,here,Ne.symm same]
      · intro other
        dsimp only [Links.add]
        by_cases same : other = partition
        · subst same
          rw [Function.update_self]
          split
          · simp
          · rename_i some
            simp [(used other).mpr some]
        · rw [Function.update_of_ne same]
          split
          · rw [List.mem_append,List.mem_singleton,or_iff_left same]
            exact used other
          · exact used other
      · dsimp only [Links.add]
        split
        · rename_i first
          have fresh : partition ∉ links.used := fun member => (used partition).mp member first
          refine List.nodup_append.mpr ⟨distinct,List.nodup_singleton _,?_⟩
          rintro other member _ single rfl
          exact fresh (List.mem_singleton.mp single ▸ member)
        · exact distinct
      · intro other
        dsimp only [Links.add]
        by_cases same : other = partition
        · subst same
          rw [Function.update_self,Function.update_self,counts,List.length_append,List.length_singleton,Nat.add_assoc]
        · rw [Function.update_of_ne same,Function.update_of_ne same,counts]
      · dsimp only
        rw [resident,List.filter_append]
        simp [here,stays]

/-- The rows of a batch that go to a partition. -/
def routed (spill : BuildSpill ι) (hashes : Nat → BitVec 32) (visits : List Nat) (partition : Nat) : List Nat :=
  if partition ∈ spill.residentPartitions then [] else
    part (fun row => partitionOf spill.npartitions (hashes row)) visits partition

omit [Inhabited ι] in
theorem routed_sublist (spill : BuildSpill ι) (hashes : Nat → BitVec 32) (visits : List Nat) (partition : Nat) :
    (routed spill hashes visits partition).Sublist visits := by
  unfold routed
  split
  · exact List.nil_sublist _
  · exact List.filter_sublist

omit [Inhabited ι] in
theorem length_inputRow (ncolumns : Nat) (columns : Batch ι) (hashes : Nat → BitVec 32) (row : Nat) :
    (inputRow ncolumns columns hashes row).cells.length = ncolumns := by
  simp [inputRow]

/-- The writes for one partition. -/
theorem writePartition_adds {spill : BuildSpill ι} (sound : Sound config spill) {partition : Nat}
    (inside : partition < spill.npartitions) {row : Nat → Row ι}
    (width : ∀ index, (row index).cells.length = config.ninnerColumns) {items : List Nat}
    (sorted : items.Pairwise (· < ·)) (small : ∀ row ∈ items, row < 64) :
    ∃ after, inBlocks pgBatchSize (writeBuildRows row partition) spill [] items = .ok after ∧
      Added config spill after partition (items.map row) := by
  refine inBlocks_rule (fun done after => Added config spill after partition (done.map row)) (by decide)
    (.nil sound partition) ?_
  rintro done block rest state rfl nonempty _ added
  have middle := (List.pairwise_append.mp (List.pairwise_append.mp sorted).1).2.1
  obtain ⟨_,_,_,rfl⟩ := added.writes
  obtain ⟨after,ran,more⟩ := writeBuildRows_adds added.sound inside width nonempty middle
    fun row member => small row (by simp [member])
  exact ⟨after,ran,by rw [List.map_append]; exact added.append more⟩

/-- What a batch does to the spill; `visits` are its rows without NULL keys. -/
structure Spills (config : Config) (hashes : Nat → BitVec 32) (row : Nat → Row ι) (visits : List Nat)
    (before after : BuildSpill ι) : Prop where
  sound : Sound config after
  frame : Writes {before with
    bloomWords := before.bloomWords.map fun words =>
      visits.foldl (fun words row => bloomAdd before.bloomNbits words (hashes row)) words} after
  contents : ∀ partition, after.contents partition =
    before.contents partition ++ (routed before hashes visits partition).map row
  partitionRows : ∀ partition, after.buildPartitionRows partition =
    before.buildPartitionRows partition + (routed before hashes visits partition).length

theorem spillBuildBatch_spills {spill : BuildSpill ι} (sound : Sound config spill) (positive : 0 < spill.npartitions)
    (columns : Batch ι) (hashes : Nat → BitVec 32) (hashRows : BitVec 64) :
    ∃ after residentRows, spillBuildBatch config spill columns hashes hashRows = .ok (after,residentRows) ∧
      Spills config hashes (inputRow config.ninnerColumns columns hashes) (rows hashRows) spill after ∧
      rows residentRows = (rows hashRows).filter fun row =>
        decide (partitionOf spill.npartitions (hashes row) ∈ spill.residentPartitions) := by
  unfold spillBuildBatch
  dsimp only
  generalize bloomed : (spill.bloomWords.map fun words =>
    (rows hashRows).foldl (fun words row => bloomAdd spill.bloomNbits words (hashes row)) words) = bloomWords
  have routes_ := routes hashes {spill with bloomWords := bloomWords} (rows_sorted hashRows) fun _ => rows_lt
  generalize (rows hashRows).foldl (routeBuildRow hashes) _ = state at routes_
  obtain ⟨linking,links,residentRows⟩ := state
  obtain ⟨⟨partitionRows,rfl⟩,linked,used,distinct,counts,resident⟩ := routes_
  dsimp only at linked used distinct counts resident ⊢
  have routed_ (partition : Nat) : links.linked partition = routed spill hashes (rows hashRows) partition :=
    linked partition
  have inside (partition : Nat) (member : partition ∈ links.used) : partition < spill.npartitions := by
    have nonempty := (used partition).mp member
    rw [linked] at nonempty
    split at nonempty
    · exact absurd rfl nonempty
    · obtain ⟨row,found⟩ := List.exists_mem_of_ne_nil _ nonempty
      rw [← (mem_part.mp found).2]
      exact Nat.lt_of_le_of_lt Nat.and_le_right (Nat.sub_lt positive Nat.one_pos)
  let start : BuildSpill ι := {spill with
    bloomWords := bloomWords, buildPartitionRows := partitionRows}
  let Inv (done : List Nat) (after : BuildSpill ι) : Prop := Writes start after ∧ Sound config after ∧
    after.buildPartitionRows = partitionRows ∧
    ∀ partition, after.contents partition = spill.contents partition ++
      if partition ∈ done then (links.linked partition).map (inputRow config.ninnerColumns columns hashes) else []
  have first : Inv [] start :=
    ⟨.refl start,⟨sound.valid,sound.ncolumns,sound.npartitions,sound.unfinished,sound.unfiled,sound.filed⟩,rfl,
      fun partition => (List.append_nil _).symm⟩
  obtain ⟨after,ran,writes,sound',same,contents⟩ : ∃ after, links.used.foldlM
      (fun spill partition =>
        inBlocks pgBatchSize (writeBuildRows (inputRow config.ninnerColumns columns hashes) partition) spill []
          (links.linked partition)) start = .ok after ∧ Inv links.used after := Results.foldlM_rule Inv first (by
    rintro done partition rest state split ⟨writes,sound',same,contents⟩
    have member : partition ∈ links.used := by simp [split]
    have fresh : partition ∉ done := by
      rw [split] at distinct
      exact fun again => (List.nodup_append.mp distinct).2.2 _ again _ (List.mem_cons_self ..) rfl
    obtain ⟨_,_,_,rfl⟩ := writes
    have sublist := routed_sublist spill hashes (rows hashRows) partition
    obtain ⟨after,ran,added⟩ := writePartition_adds sound' (inside partition member)
      (length_inputRow config.ninnerColumns columns hashes) (routed_ partition ▸ (rows_sorted hashRows).sublist sublist)
      (fun row found => rows_lt (sublist.subset (routed_ partition ▸ found)))
    refine ⟨after,ran,.trans ⟨_,_,_,rfl⟩ added.writes,added.sound,added.partitionRows.trans same,?_⟩
    intro other
    rw [added.contents]
    by_cases here : other = partition
    · subst here
      rw [Function.update_self,contents,if_neg fresh,if_pos (by simp),List.append_nil]
    · rw [Function.update_of_ne here,contents]
      simp only [List.mem_append,List.mem_singleton,here,or_false])
  refine ⟨after,residentRows,by rw [ran]; rfl,⟨sound',?_,?_,?_⟩,resident⟩
  · obtain ⟨_,_,_,rfl⟩ := writes
    rw [bloomed]
    exact ⟨_,_,_,rfl⟩
  · intro partition
    rw [contents,← routed_]
    split
    · rfl
    · rename_i unused
      have none : links.linked partition = [] := by
        by_contra some
        exact unused ((used partition).mpr some)
      rw [none]
      rfl
  · intro partition
    rw [same,counts,← routed_]

/-! Writing out the store. -/

/-- The partition that the hash of a row selects. -/
def rowPartition (npartitions : Nat) (row : Row ι) : Nat :=
  partitionOf npartitions row.hash

/-- The rows of the store that go to a partition which is not resident. -/
def evicted (config : Config) (store : BuildStore ι) (spill : BuildSpill ι) (partition : Nat) : List (Row ι) :=
  if partition ∈ spill.residentPartitions then []
  else part (rowPartition spill.npartitions) (store.rows config.ninnerColumns) partition

theorem spillStorePartition_adds (store : BuildStore ι) {spill : BuildSpill ι} (sound : Sound config spill)
    {partition : Nat} (inside : partition < spill.npartitions) :
    ∃ after, spillStorePartition store spill partition = .ok after ∧ Writes spill after ∧ Sound config after ∧
      after.contents = Function.update spill.contents partition
        (spill.contents partition ++ evicted config store spill partition) ∧
      after.buildPartitionRows = Function.update spill.buildPartitionRows partition
        (spill.buildPartitionRows partition + (evicted config store spill partition).length) := by
  unfold spillStorePartition
  by_cases stays : partition ∈ spill.residentPartitions
  · exact ⟨spill,if_pos stays,.refl spill,sound,by simp [evicted,stays],by simp [evicted,stays]⟩
  · rw [if_neg stays]
    dsimp only
    generalize listed : (List.range store.nrows).filter _ = members
    have rows_ : members.map (store.row config.ninnerColumns) = evicted config store spill partition := by
      rw [evicted,if_neg stays,part,Store.rows,List.filter_map,← listed]
      rfl
    have length := congrArg List.length rows_
    rw [List.length_map] at length
    rw [length]
    let counting : BuildSpill ι := {spill with
      buildPartitionRows := Function.update spill.buildPartitionRows partition
        (spill.buildPartitionRows partition + (evicted config store spill partition).length)}
    have sound' : Sound config counting :=
      ⟨sound.valid,sound.ncolumns,sound.npartitions,sound.unfinished,sound.unfiled,sound.filed⟩
    obtain ⟨after,ran,added⟩ : ∃ after, inBlocks pgBatchSize (writeStoreBlock store partition) counting [] members =
        .ok after ∧ Added config counting after partition (members.map (store.row config.ninnerColumns)) := by
      refine inBlocks_rule
        (fun done after => Added config counting after partition (done.map (store.row config.ninnerColumns)))
        (by decide) (.nil sound' partition) ?_
      rintro done block rest state - nonempty small added
      obtain ⟨_,_,_,rfl⟩ := added.writes
      obtain ⟨after,ran,more⟩ := writeStoreBlock_adds added.sound inside nonempty small
      exact ⟨after,ran,by rw [List.map_append]; exact added.append more⟩
    rw [rows_] at added
    exact ⟨after,ran,.trans ⟨_,_,_,rfl⟩ added.writes,added.sound,added.contents,added.partitionRows⟩

/-- What `hash_join_spill_build_store` does. -/
structure StoreSpills (config : Config) (store : BuildStore ι) (before : BuildSpill ι) (store' : BuildStore ι)
    (after : BuildSpill ι) : Prop where
  sound : Sound config after
  frame : ∃ partitionRows buildRows written, Writes before written ∧
    after = {written with residentPartitionRows := partitionRows, residentBuildRows := buildRows}
  compacted : store' = {store with
    toStore := store.toStore.compact config.ninnerColumns fun hash =>
      decide (partitionOf before.npartitions hash ∈ before.residentPartitions)}
  contents : ∀ partition, after.contents partition =
    before.contents partition ++ if partition < before.npartitions then evicted config store before partition else []
  partitionRows : ∀ partition, after.buildPartitionRows partition = before.buildPartitionRows partition +
    (if partition < before.npartitions then evicted config store before partition else []).length
  residentRows : ∀ partition, after.residentPartitionRows partition =
    (part (rowPartition before.npartitions) (store'.rows config.ninnerColumns) partition).length
  residentBuild : after.residentBuildRows = store'.nrows

omit [Inhabited ι] in
/-- The loop that counts the resident rows. -/
theorem count_resident (visits : List Nat) (npartitions : Nat) (hashes : Nat → BitVec 32) (resident : BitVec 32 → Bool)
    (counts : Nat → Nat) (partition : Nat) :
    visits.foldl (fun counts row =>
        if resident (hashes row) then
          Function.update counts (partitionOf npartitions (hashes row)) (counts (partitionOf npartitions (hashes row)) + 1)
        else counts) counts partition =
      counts partition + (visits.filter fun row =>
        resident (hashes row) && (partitionOf npartitions (hashes row) == partition)).length := by
  induction visits generalizing counts with
  | nil => rfl
  | cons row rest ih =>
    rw [List.foldl_cons,ih]
    cases stays : resident (hashes row) with
    | false => simp [stays]
    | true =>
      by_cases here : partitionOf npartitions (hashes row) = partition
      · subst here
        simp [stays]
        omega
      · simp [stays,here,Ne.symm here]

theorem spillBuildStore_spills (store : BuildStore ι) {spill : BuildSpill ι} (sound : Sound config spill) :
    ∃ store' after, spillBuildStore config store spill = .ok (store',after) ∧
      StoreSpills config store spill store' after := by
  let Inv (done : List Nat) (after : BuildSpill ι) : Prop := Writes spill after ∧ Sound config after ∧
    (∀ partition, after.contents partition =
      spill.contents partition ++ if partition ∈ done then evicted config store spill partition else []) ∧
    ∀ partition, after.buildPartitionRows partition = spill.buildPartitionRows partition +
      (if partition ∈ done then evicted config store spill partition else []).length
  have first : Inv [] spill := ⟨.refl spill,sound,fun _ => (List.append_nil _).symm,fun _ => rfl⟩
  obtain ⟨after,ran,writes,sound',contents,counts⟩ : ∃ after,
      (List.range spill.npartitions).foldlM (spillStorePartition store) spill = .ok after ∧
        Inv (List.range spill.npartitions) after := Results.foldlM_rule Inv first (by
    rintro done partition rest state split ⟨writes,sound',contents,counts⟩
    have inside : partition < spill.npartitions := by
      rw [← List.mem_range,split]
      simp
    have fresh : partition ∉ done := by
      have distinct := split ▸ List.nodup_range
      exact fun again => (List.nodup_append.mp distinct).2.2 _ again _ (List.mem_cons_self ..) rfl
    obtain ⟨_,_,_,rfl⟩ := writes
    obtain ⟨after,ran,writes,sound'',contents',counts'⟩ := spillStorePartition_adds store sound' inside
    refine ⟨after,ran,.trans ⟨_,_,_,rfl⟩ writes,sound'',?_,?_⟩
    · intro other
      rw [contents']
      by_cases here : other = partition
      · subst here
        rw [Function.update_self,contents,if_neg fresh,if_pos (by simp),List.append_nil]
        rfl
      · rw [Function.update_of_ne here,contents]
        simp only [List.mem_append,List.mem_singleton,here,or_false]
    · intro other
      rw [counts']
      by_cases here : other = partition
      · subst here
        rw [Function.update_self,counts,if_neg fresh,if_pos (by simp),List.length_nil,Nat.add_zero]
        rfl
      · rw [Function.update_of_ne here,counts]
        simp only [List.mem_append,List.mem_singleton,here,or_false])
  refine ⟨_,_,by rw [spillBuildStore,ran]; rfl,?_⟩
  refine ⟨⟨sound'.valid,sound'.ncolumns,sound'.npartitions,sound'.unfinished,sound'.unfiled,sound'.filed⟩,
    ⟨_,_,_,writes,rfl⟩,?_,?_,?_,?_,?_⟩
  · obtain ⟨_,_,_,rfl⟩ := writes
    rfl
  · intro partition
    have held := contents partition
    simp only [List.mem_range] at held
    exact held
  · intro partition
    have held := counts partition
    simp only [List.mem_range] at held
    exact held
  · obtain ⟨_,_,_,rfl⟩ := writes
    intro partition
    dsimp only
    rw [count_resident _ _ _ fun hash => decide (partitionOf spill.npartitions hash ∈ spill.residentPartitions),
      Nat.zero_add,(compact_spec ..).1,part,List.filter_filter,Store.rows,List.filter_map,
      List.length_map]
    congr 1
    apply List.filter_congr
    intro row _
    rw [Bool.and_comm]
    rfl
  · rfl

/-! The ledger of the build rows. -/

omit [Inhabited ι] in
theorem rowPartition_lt {npartitions : Nat} (positive : 0 < npartitions) (row : Row ι) :
    rowPartition npartitions row < npartitions :=
  Nat.lt_of_le_of_lt Nat.and_le_right (Nat.sub_lt positive Nat.one_pos)

variable {β : Type} {view : Row ι → β} {accepted : List (Row ι)} {store store' : BuildStore ι} {spill after : BuildSpill ι}

/-- The accepted rows, as `view` sees them, are those of the store and of the
partitions, and no partition with rows is resident. -/
structure Ledger (view : Row ι → β) (config : Config) (accepted : List (Row ι)) (store : BuildStore ι)
    (spill : BuildSpill ι) : Prop where
  sound : Sound config spill
  positive : 0 < spill.npartitions
  inside : ∀ partition ∈ spill.residentPartitions, partition < spill.npartitions
  distinct : spill.residentPartitions.Nodup
  union : ((store.rows config.ninnerColumns ++ (List.range spill.npartitions).flatMap spill.contents).map view).Perm
    (accepted.map view)
  placed : ∀ partition, ∀ row ∈ spill.contents partition, partition < spill.npartitions ∧
    partition ∉ spill.residentPartitions ∧ rowPartition spill.npartitions row = partition
  partitionRows : ∀ partition, spill.buildPartitionRows partition = (spill.contents partition).length

/-- Besides, the store has just the rows of the resident partitions, and counts them. -/
structure Residency (view : Row ι → β) (config : Config) (accepted : List (Row ι)) (store : BuildStore ι)
    (spill : BuildSpill ι) : Prop extends Ledger view config accepted store spill where
  stored : ∀ row ∈ store.rows config.ninnerColumns, rowPartition spill.npartitions row ∈ spill.residentPartitions
  residentRows : ∀ partition, spill.residentPartitionRows partition =
    (part (rowPartition spill.npartitions) (store.rows config.ninnerColumns) partition).length
  residentBuild : spill.residentBuildRows = store.nrows

omit [Inhabited ι] in
theorem evicted_perm (store : BuildStore ι) (positive : 0 < spill.npartitions) :
    ((store.rows config.ninnerColumns).filter
        (fun row => decide (rowPartition spill.npartitions row ∈ spill.residentPartitions)) ++
      (List.range spill.npartitions).flatMap (evicted config store spill)).Perm (store.rows config.ninnerColumns) := by
  have split := split_parts_perm spill.residentPartitions
    fun row (_ : row ∈ store.rows config.ninnerColumns) => rowPartition_lt positive row
  exact split

omit [Inhabited ι] in
/-- Writing out the store moves the rows of the other partitions to their files. -/
theorem Ledger.spills (ledger : Ledger view config accepted store spill)
    (spills : StoreSpills config store spill store' after) : Residency view config accepted store' after := by
  have rows_ : store'.rows config.ninnerColumns = (store.rows config.ninnerColumns).filter
      fun row => decide (rowPartition spill.npartitions row ∈ spill.residentPartitions) := by
    rw [spills.compacted]
    exact (compact_spec ..).1
  have sound := spills.sound
  have contents := spills.contents
  have counts := spills.partitionRows
  have resident := spills.residentRows
  have total := spills.residentBuild
  obtain ⟨partitionRows,buildRows,_,⟨_,_,_,rfl⟩,rfl⟩ := spills.frame
  have within (partition : Nat) (row : Row ι)
      (member : row ∈ if partition < spill.npartitions then evicted config store spill partition else []) :
      partition < spill.npartitions ∧ partition ∉ spill.residentPartitions ∧
        rowPartition spill.npartitions row = partition := by
    split at member
    · rename_i inside
      unfold evicted at member
      split at member
      · cases member
      · rename_i gone
        exact ⟨inside,gone,(mem_part.mp member).2⟩
    · cases member
  refine ⟨⟨sound,ledger.positive,ledger.inside,ledger.distinct,?_,?_,?_⟩,?_,resident,total⟩
  · refine List.Perm.trans (List.Perm.map view ?_) ledger.union
    have split : (List.range spill.npartitions).flatMap (fun partition => spill.contents partition ++
          if partition < spill.npartitions then evicted config store spill partition else []) =
        (List.range spill.npartitions).flatMap fun partition =>
          spill.contents partition ++ evicted config store spill partition := by
      apply List.flatMap_congr
      intro partition below
      rw [if_pos (List.mem_range.mp below)]
    rw [funext contents]
    dsimp only
    rw [split,rows_]
    refine (List.Perm.append_left _ (List.flatMap_append_perm _ _ _).symm).trans ?_
    refine (List.Perm.append_left _ List.perm_append_comm).trans ?_
    rw [← List.append_assoc]
    exact (evicted_perm store ledger.positive).append_right _
  · intro partition row member
    rw [contents] at member
    rcases List.mem_append.mp member with old | new
    · exact ledger.placed partition row old
    · exact within partition row new
  · intro partition
    rw [counts,contents,List.length_append,ledger.partitionRows]
  · intro row member
    rw [rows_] at member
    exact of_decide_eq_true (List.mem_filter.mp member).2

omit [Inhabited ι] in
theorem Ledger.erase (ledger : Ledger view config accepted store spill) (largest : Nat) :
    Ledger view config accepted store {spill with residentPartitions := spill.residentPartitions.erase largest} where
  sound := ⟨ledger.sound.valid,ledger.sound.ncolumns,ledger.sound.npartitions,ledger.sound.unfinished,
    ledger.sound.unfiled,ledger.sound.filed⟩
  positive := ledger.positive
  inside := fun partition member => ledger.inside partition (List.mem_of_mem_erase member)
  distinct := ledger.distinct.erase largest
  union := ledger.union
  placed := by
    intro partition row member
    obtain ⟨below,gone,here⟩ := ledger.placed partition row member
    exact ⟨below,fun stays => gone (List.mem_of_mem_erase stays),here⟩
  partitionRows := ledger.partitionRows

/-! Evicting partitions until the store fits. -/

omit [Inhabited ι] in
theorem largestResident_none (none : largestResident spill = none) :
    ∀ partition ∈ spill.residentPartitions, spill.residentPartitionRows partition = 0 := by
  have search (partitions : List Nat) (best : Option Nat × Nat) (start : best.1 = .none → best.2 = 0)
      (missed : (partitions.foldl
        (fun largest partition =>
          if largest.2 < spill.residentPartitionRows partition then
            (some partition,spill.residentPartitionRows partition)
          else largest) best).1 = .none) :
      best.1 = .none ∧ ∀ partition ∈ partitions, spill.residentPartitionRows partition = 0 := by
    induction partitions generalizing best with
    | nil => exact ⟨missed,by simp⟩
    | cons first rest ih =>
      rw [List.foldl_cons] at missed
      split at missed
      · exact absurd (ih _ (fun none => absurd none (by simp)) missed).1 (by simp)
      · rename_i small
        obtain ⟨none,others⟩ := ih _ start missed
        have zero : spill.residentPartitionRows first = 0 := by
          have := start none
          omega
        exact ⟨none,fun partition member => (List.mem_cons.mp member).elim (fun same => same ▸ zero) (others partition)⟩
  exact (search _ (.none,0) (fun _ => rfl) none).2

/-- What no eviction changes. -/
structure Keeps (store : BuildStore ι) (before : BuildSpill ι) (store' : BuildStore ι) (after : BuildSpill ι) : Prop where
  store : ∃ rows, store' = {store with toStore := rows} ∧ rows.nrows ≤ store.nrows ∧
    ∀ column slot, store.nrows ≤ slot → rows.valid column slot = store.valid column slot
  npartitions : after.npartitions = before.npartitions
  partitionShift : after.partitionShift = before.partitionShift
  residentMemoryLimit : after.residentMemoryLimit = before.residentMemoryLimit
  bloomWords : after.bloomWords = before.bloomWords
  bloomNbits : after.bloomNbits = before.bloomNbits
  buildChunkRows : after.buildChunkRows = before.buildChunkRows

omit [Inhabited ι] in
theorem Keeps.refl (store : BuildStore ι) (spill : BuildSpill ι) : Keeps store spill store spill :=
  ⟨⟨_,rfl,Nat.le_refl _,fun _ _ _ => rfl⟩,rfl,rfl,rfl,rfl,rfl,rfl⟩

omit [Inhabited ι] in
theorem Keeps.trans {first second third : BuildStore ι} {before middle after : BuildSpill ι}
    (one : Keeps first before second middle) (two : Keeps second middle third after) : Keeps first before third after := by
  obtain ⟨_,rfl,fewer,beyond⟩ := one.store
  obtain ⟨_,rfl,fewer',beyond'⟩ := two.store
  exact ⟨⟨_,rfl,Nat.le_trans fewer' fewer,fun column slot above =>
    (beyond' column slot (Nat.le_trans fewer above)).trans (beyond column slot above)⟩,two.npartitions.trans one.npartitions,
    two.partitionShift.trans one.partitionShift,two.residentMemoryLimit.trans one.residentMemoryLimit,
    two.bloomWords.trans one.bloomWords,two.bloomNbits.trans one.bloomNbits,
    two.buildChunkRows.trans one.buildChunkRows⟩

omit [Inhabited ι] in
theorem StoreSpills.keeps (spills : StoreSpills config store spill store' after) : Keeps store spill store' after := by
  have fewer : (store.toStore.compact config.ninnerColumns fun hash =>
      decide (partitionOf spill.npartitions hash ∈ spill.residentPartitions)).nrows ≤ store.nrows := by
    rw [← length_rows config.ninnerColumns,(compact_spec ..).1,← length_rows config.ninnerColumns store.toStore]
    exact List.length_filter_le ..
  obtain ⟨_,_,_,⟨_,_,_,rfl⟩,rfl⟩ := spills.frame
  exact ⟨⟨_,spills.compacted,fewer,fun column _ above => compact_beyond _ _ _ column above⟩,rfl,rfl,rfl,rfl,rfl,rfl⟩

omit [Inhabited ι] in
/-- The store has no row when no resident partition has. -/
theorem Residency.empty (residency : Residency view config accepted store spill)
    (none : ∀ partition ∈ spill.residentPartitions, spill.residentPartitionRows partition = 0) : store.nrows = 0 := by
  rw [← length_rows config.ninnerColumns store.toStore,List.length_eq_zero_iff,List.eq_nil_iff_forall_not_mem]
  intro row member
  have zero := none _ (residency.stored row member)
  rw [residency.residentRows,List.length_eq_zero_iff] at zero
  exact List.not_mem_nil (zero ▸ mem_part.mpr ⟨member,rfl⟩)

/-- The store fits in its share of the memory, or has been emptied. -/
def Fits (config : Config) (store : BuildStore ι) (spill : BuildSpill ι) : Prop :=
  estimatedBuildMemory store.nrows config.ninnerColumns ≤ spill.residentMemoryLimit ∨ store.nrows = 0

theorem limitResidentBuild_fits (residency : Residency view config accepted store spill) :
    ∃ store' after, limitResidentBuild config store spill = .ok (store',after) ∧
      Residency view config accepted store' after ∧ Fits config store' after ∧ Keeps store spill store' after := by
  induction size : spill.residentPartitions.length using Nat.strong_induction_on generalizing store spill with
  | _ size_ ih =>
    subst size
    unfold limitResidentBuild
    by_cases enough : spill.residentPartitions = [] ∨
        estimatedBuildMemory store.nrows config.ninnerColumns ≤ spill.residentMemoryLimit
    · refine ⟨store,spill,if_pos enough,residency,?_,.refl store spill⟩
      rcases enough with none | small
      · exact .inr (residency.empty (by simp [none]))
      · exact .inl small
    · rw [if_neg enough]
      split
      · rename_i none
        exact ⟨store,spill,rfl,residency,.inr (residency.empty (largestResident_none none)),.refl store spill⟩
      · rename_i largest found
        obtain ⟨member,_⟩ := largestResident_mem found
        have ledger := residency.toLedger.erase largest
        obtain ⟨store',after,ran,spills⟩ := spillBuildStore_spills store ledger.sound
        have shorter : after.residentPartitions.length < spill.residentPartitions.length := by
          rw [spillBuildStore_resident ran,List.length_erase_of_mem member]
          exact Nat.sub_lt (List.length_pos_of_mem member) Nat.one_pos
        obtain ⟨store'',after',ran',residency',fits,keeps⟩ := ih _ shorter (ledger.spills spills) rfl
        refine ⟨store'',after',?_,residency',fits,.trans ⟨spills.keeps.store,spills.keeps.npartitions,
          spills.keeps.partitionShift,spills.keeps.residentMemoryLimit,spills.keeps.bloomWords,spills.keeps.bloomNbits,
          spills.keeps.buildChunkRows⟩ keeps⟩
        split <;> rename_i result <;> rw [ran] at result <;> cases result
        exact ran'

/-! Storing rows. -/

/-- What a row reads back as from a slot: validity bits that are set there stay. -/
def storedAt (config : Config) (store : BuildStore ι) (slot : Nat) (row : Row ι) : Row ι :=
  ⟨row.tag,row.hash,(List.range config.ninnerColumns).map fun column =>
    ⟨(row.cell column).value,store.valid column slot || (row.cell column).valid⟩⟩

/-- The store has room for its rows, and no bits beyond that room. -/
structure Roomy (store : BuildStore ι) : Prop where
  room : store.nrows ≤ store.capacity
  words : 64 ∣ store.capacity
  beyond : ∀ column slot, store.capacity ≤ slot → store.valid column slot = false

omit [Inhabited ι] in
theorem Keeps.roomy (keeps : Keeps store spill store' after) (roomy : Roomy store) : Roomy store' := by
  obtain ⟨_,rfl,fewer,beyond⟩ := keeps.store
  exact ⟨Nat.le_trans fewer roomy.room,roomy.words,fun column slot above =>
    (beyond column slot (Nat.le_trans roomy.room above)).trans (roomy.beyond column slot above)⟩

/-- What storing rows leaves alone. -/
structure Appends (before after : BuildStore ι) : Prop where
  roomy : Roomy after
  below : ∀ column slot, after.nrows ≤ slot → after.valid column slot = before.valid column slot
  hashShift : after.hashShift = before.hashShift
  hasDuplicates : after.hasDuplicates = before.hasDuplicates

omit [Inhabited ι] in
theorem growBuildStore_ok (roomy : Roomy store) (ran : growBuildStore store = .ok store') :
    Roomy store' ∧ store'.nrows < store'.capacity ∧ ∃ capacity, store' = {store with capacity := capacity} := by
  unfold growBuildStore resizeBuildStore at ran
  generalize larger : (if store.capacity = 0 then 1024 else store.capacity * 2 % 2 ^ 32) = capacity at ran
  have words : 64 ∣ capacity := by
    have := roomy.words
    split at larger <;> omega
  split at ran
  · cases ran
  · rename_i grows
    split at ran
    · cases ran
    · have same : (fun column row => decide (row / 64 < (store.capacity + 63) / 64) && store.valid column row) =
          store.valid := by
        funext column row
        by_cases below : row < store.capacity
        · have : row / 64 < (store.capacity + 63) / 64 := by omega
          simp [this]
        · simp [roomy.beyond column row (by omega)]
      rw [same] at ran
      cases ran
      have room := roomy.room
      exact ⟨⟨by simp only; omega,words,fun column slot above => roomy.beyond column slot (by simp only at above; omega)⟩,
        by simp only; omega,_,rfl⟩

omit [Inhabited ι] in
theorem appendBuildRow_ok (roomy : Roomy store) {row : Row ι} (ran : appendBuildRow config store row = .ok store') :
    Appends store store' ∧ store'.nrows = store.nrows + 1 ∧
      store'.rows config.ninnerColumns = store.rows config.ninnerColumns ++ [storedAt config store store.nrows row] := by
  obtain ⟨grown,grew,rest⟩ := Results.bind_ok.mp ran
  obtain ⟨roomy',room,capacity,rfl⟩ : Roomy grown ∧ grown.nrows < grown.capacity ∧
      ∃ capacity, grown = {store with capacity := capacity} := by
    unfold makeRoom at grew
    split at grew
    · exact growBuildStore_ok roomy grew
    · cases grew
      have := roomy.room
      exact ⟨roomy,by omega,_,rfl⟩
  cases rest
  refine ⟨⟨⟨Nat.succ_le_of_lt room,roomy'.words,?_⟩,?_,rfl,rfl⟩,rfl,?_⟩
  · intro column slot above
    have apart : slot ≠ store.nrows := by
      simp only at above room
      omega
    have clear : store.valid column slot = false := roomy'.beyond column slot above
    simp [Store.append,apart,clear]
  · intro column slot above
    have apart : slot ≠ store.nrows := Nat.ne_of_gt above
    simp [Store.append,apart]
  · change Store.rows _ (store.toStore.append ..) = _
    unfold Store.rows
    rw [append_nrows,List.range_succ,List.map_append,List.map_singleton]
    congr 1
    · apply List.map_congr_left
      intro index member
      exact row_append_old (Nat.ne_of_lt (List.mem_range.mp member))
    · have hash : (store.toStore.append config.ninnerColumns row.tag row.hash row.cell).hashes store.nrows = row.hash :=
        Function.update_self ..
      have tag : (store.toStore.append config.ninnerColumns row.tag row.hash row.cell).tags store.nrows = row.tag :=
        Function.update_self ..
      rw [Store.row,storedAt,hash,tag]
      congr 2
      apply List.map_congr_left
      intro column inside
      exact cell_append_new (List.mem_range.mp inside)

/-- The rows that storing a list of rows adds. -/
def storedFrom (config : Config) (store : BuildStore ι) (slot : Nat) : List (Row ι) → List (Row ι)
  | [] => []
  | row :: rest => storedAt config store slot row :: storedFrom config store (slot + 1) rest

omit [Inhabited ι] in
theorem storedFrom_congr {slot : Nat} (same : ∀ column index, slot ≤ index → store'.valid column index = store.valid column index)
    (added : List (Row ι)) : storedFrom config store' slot added = storedFrom config store slot added := by
  induction added generalizing slot with
  | nil => rfl
  | cons row rest ih =>
    have here : storedAt config store' slot row = storedAt config store slot row := by
      simp only [storedAt,same _ slot (Nat.le_refl _)]
    rw [storedFrom,storedFrom,here,ih fun column index above => same column index (by omega)]

omit [Inhabited ι] in
theorem storedFrom_hashes (slot : Nat) (added : List (Row ι)) :
    (storedFrom config store slot added).map Row.hash = added.map Row.hash := by
  induction added generalizing slot with
  | nil => rfl
  | cons row rest ih => simp [storedFrom,storedAt,ih]

omit [Inhabited ι] in
theorem appendRows_ok (roomy : Roomy store) {added : List (Row ι)}
    (ran : added.foldlM (appendBuildRow config) store = .ok store') :
    Appends store store' ∧ store'.nrows = store.nrows + added.length ∧
      store'.rows config.ninnerColumns =
        store.rows config.ninnerColumns ++ storedFrom config store store.nrows added := by
  induction added generalizing store with
  | nil =>
    cases ran
    exact ⟨⟨roomy,fun _ _ _ => rfl,rfl,rfl⟩,rfl,(List.append_nil _).symm⟩
  | cons row rest ih =>
    rw [List.foldlM_cons] at ran
    obtain ⟨middle,first,others⟩ := Results.bind_ok.mp ran
    obtain ⟨appends,one,rows_⟩ := appendBuildRow_ok roomy first
    obtain ⟨appends',more,rows'⟩ := ih appends.roomy others
    refine ⟨⟨appends'.roomy,?_,appends'.hashShift.trans appends.hashShift,
      appends'.hasDuplicates.trans appends.hasDuplicates⟩,by rw [more,one,List.length_cons]; omega,?_⟩
    · intro column slot above
      rw [appends'.below column slot above,appends.below column slot (by omega)]
    · rw [rows',rows_,List.append_assoc,List.singleton_append,storedFrom,one,
        storedFrom_congr fun column index above => appends.below column index (by omega)]

omit [Inhabited ι] in
/-- The loop over the resident rows of a batch stores them and counts them. -/
theorem appendResident_ok {columns : Batch ι} {hashes : Nat → BitVec 32} {visits : List Nat}
    (ran : visits.foldlM (appendResidentRow config columns hashes) (store,spill) = .ok (store',after)) :
    (visits.map (inputRow config.ninnerColumns columns hashes)).foldlM (appendBuildRow config) store = .ok store' ∧
      ∃ counts, after = {spill with
          residentPartitionRows := counts, residentBuildRows := spill.residentBuildRows + visits.length} ∧
        ∀ partition, counts partition = spill.residentPartitionRows partition +
          (part (fun row => partitionOf spill.npartitions (hashes row)) visits partition).length := by
  induction visits generalizing store spill with
  | nil =>
    cases ran
    exact ⟨rfl,_,rfl,fun _ => rfl⟩
  | cons row rest ih =>
    rw [List.foldlM_cons] at ran
    obtain ⟨⟨middle,counted⟩,first,others⟩ := Results.bind_ok.mp ran
    obtain ⟨grown,appended,same⟩ := Results.bind_ok.mp first
    cases same
    obtain ⟨stored,counts,rfl,counts'⟩ := ih others
    refine ⟨?_,counts,?_,?_⟩
    · rw [List.map_cons,List.foldlM_cons,appended]
      exact stored
    · simp only [List.length_cons]
      congr 1
      omega
    · intro partition
      rw [counts']
      by_cases here : partitionOf spill.npartitions (hashes row) = partition
      · subst here
        simp [part]
        omega
      · simp [part,here,Ne.symm here]

/-- The rows of a batch that are stored. -/
def storedRows (config : Config) (spill : BuildSpill ι) (columns : Batch ι) (hashes : Nat → BitVec 32)
    (visits : List Nat) : List (Row ι) :=
  (visits.filter fun row => decide (partitionOf spill.npartitions (hashes row) ∈ spill.residentPartitions)).map
    (inputRow config.ninnerColumns columns hashes)

omit [Inhabited ι] in
/-- Between writing the rows of a batch and evicting partitions. -/
theorem Residency.appended {columns : Batch ι} {hashes : Nat → BitVec 32} {visits : List Nat} {written : BuildSpill ι}
    (residency : Residency view config accepted store spill) (roomy : Roomy store)
    (spills : Spills config hashes (inputRow config.ninnerColumns columns hashes) visits spill written)
    (ran : (visits.filter fun row => decide (partitionOf spill.npartitions (hashes row) ∈ spill.residentPartitions)).foldlM
      (appendResidentRow config columns hashes) (store,written) = .ok (store',after))
    (faithful : (storedFrom config store store.nrows (storedRows config spill columns hashes visits)).map view =
      (storedRows config spill columns hashes visits).map view) :
    Residency view config (accepted ++ visits.map (inputRow config.ninnerColumns columns hashes)) store' after ∧
      Appends store store' := by
  have npartitions : written.npartitions = spill.npartitions := by
    obtain ⟨_,_,_,rfl⟩ := spills.frame
    rfl
  have resident : written.residentPartitions = spill.residentPartitions := by
    obtain ⟨_,_,_,rfl⟩ := spills.frame
    rfl
  have counts_ : written.residentPartitionRows = spill.residentPartitionRows ∧
      written.residentBuildRows = spill.residentBuildRows := by
    obtain ⟨_,_,_,rfl⟩ := spills.frame
    exact ⟨rfl,rfl⟩
  obtain ⟨stored,counts,rfl,counted⟩ := appendResident_ok ran
  rw [npartitions,counts_.1] at counted
  obtain ⟨appends,more,rows_⟩ := appendRows_ok roomy stored
  change _ = _ ++ storedFrom config store store.nrows (storedRows config spill columns hashes visits) at rows_
  have hashed : (storedFrom config store store.nrows (storedRows config spill columns hashes visits)).map
        (rowPartition spill.npartitions) =
      (visits.filter fun row => decide (partitionOf spill.npartitions (hashes row) ∈ spill.residentPartitions)).map
        fun row => partitionOf spill.npartitions (hashes row) := by
    have known := congrArg (List.map (partitionOf spill.npartitions))
      (@storedFrom_hashes _ config store store.nrows (storedRows config spill columns hashes visits))
    rw [List.map_map,List.map_map] at known
    refine Eq.trans known ?_
    rw [storedRows,List.map_map]
    rfl
  have sound : Sound config {written with
      residentPartitionRows := counts
      residentBuildRows := written.residentBuildRows + (visits.filter fun row =>
        decide (partitionOf spill.npartitions (hashes row) ∈ spill.residentPartitions)).length} :=
    ⟨spills.sound.valid,spills.sound.ncolumns,spills.sound.npartitions,spills.sound.unfinished,spills.sound.unfiled,
      spills.sound.filed⟩
  refine ⟨⟨⟨sound,npartitions ▸ residency.positive,?_,?_,?_,?_,?_⟩,?_,?_,?_⟩,appends⟩ <;> dsimp only
  · rw [resident,npartitions]
    exact residency.inside
  · rw [resident]
    exact residency.distinct
  · have split := split_parts_perm spill.residentPartitions
      fun row (_ : row ∈ visits) => Nat.lt_of_le_of_lt
        (Nat.and_le_right : partitionOf spill.npartitions (hashes row) ≤ _) (Nat.sub_lt residency.positive Nat.one_pos)
    have added := (split.map (inputRow config.ninnerColumns columns hashes)).map view
    have both : ((List.range spill.npartitions).flatMap written.contents).Perm
        ((List.range spill.npartitions).flatMap spill.contents ++ (List.range spill.npartitions).flatMap
          fun partition => (routed spill hashes visits partition).map (inputRow config.ninnerColumns columns hashes)) := by
      rw [funext spills.contents]
      exact (List.flatMap_append_perm ..).symm
    rw [List.map_append,List.map_append,List.map_flatMap] at added
    change (List.map view (_ ++ (List.range written.npartitions).flatMap written.contents)).Perm _
    rw [rows_,npartitions,List.append_assoc,List.map_append,List.map_append,List.map_append,faithful]
    have old := residency.union
    rw [List.map_append] at old
    have moved := both.map view
    rw [List.map_append] at moved
    -- The stored and the spilled rows change places, so that old and new rows stand together.
    refine (List.Perm.append_left _ ((List.Perm.append_left _ moved).trans (List.perm_append_comm_assoc ..))).trans ?_
    rw [← List.append_assoc]
    exact old.append added
  · intro partition row member
    rw [npartitions,resident]
    change row ∈ written.contents partition at member
    rw [spills.contents] at member
    rcases List.mem_append.mp member with old | new
    · exact residency.placed partition row old
    · obtain ⟨index,found,rfl⟩ := List.mem_map.mp new
      unfold routed at found
      split at found
      · cases found
      · rename_i gone
        have here := (mem_part.mp found).2
        exact ⟨here ▸ rowPartition_lt residency.positive (inputRow config.ninnerColumns columns hashes index),gone,here⟩
  · intro partition
    change written.buildPartitionRows partition = (written.contents partition).length
    rw [spills.partitionRows,spills.contents,List.length_append,List.length_map,residency.partitionRows]
  · intro row member
    rw [npartitions,resident]
    rw [rows_] at member
    rcases List.mem_append.mp member with old | new
    · exact residency.stored row old
    · have known : rowPartition spill.npartitions row ∈ (visits.filter fun row =>
          decide (partitionOf spill.npartitions (hashes row) ∈ spill.residentPartitions)).map
            fun row => partitionOf spill.npartitions (hashes row) := hashed ▸ List.mem_map_of_mem new
      obtain ⟨index,found,same⟩ := List.mem_map.mp known
      rw [← same]
      exact of_decide_eq_true (List.mem_filter.mp found).2
  · intro partition
    have length := congrArg (fun partitions => (partitions.filter (· == partition)).length) hashed
    simp only [List.filter_map,List.length_map,Function.comp_def] at length
    rw [npartitions,counted,rows_,part_append,List.length_append,← residency.residentRows]
    congr 1
    exact length.symm
  · have length : (storedRows config spill columns hashes visits).length = _ := List.length_map ..
    rw [more,counts_.2,residency.residentBuild]
    exact congrArg _ length.symm

/-- The errors of a store that cannot grow. -/
def GrowError (message : String) : Prop :=
  message = "pg_batch hash join build side is too large" ∨ message = "invalid memory alloc request size"

omit [Inhabited ι] in
theorem appendBuildRow_error {row : Row ι} {message : String} (failed : appendBuildRow config store row = .error message) :
    GrowError message := by
  unfold appendBuildRow at failed
  cases grew : makeRoom store with
  | ok grown =>
    rw [grew] at failed
    cases failed
  | error other =>
    rw [grew] at failed
    cases failed
    unfold makeRoom at grew
    split at grew
    · unfold growBuildStore resizeBuildStore at grew
      generalize (if store.capacity = 0 then 1024 else store.capacity * 2 % 2 ^ 32) = capacity at grew
      split at grew
      · cases grew
        exact .inl rfl
      · split at grew
        · cases grew
          exact .inr rfl
        · cases grew
    · cases grew

omit [Inhabited ι] in
theorem appendResidentRow_error {columns : Batch ι} {hashes : Nat → BitVec 32} {state : BuildStore ι × BuildSpill ι}
    {row : Nat} {message : String} (failed : appendResidentRow config columns hashes state row = .error message) :
    GrowError message := by
  unfold appendResidentRow at failed
  cases appended : appendBuildRow config state.1 (inputRow config.ninnerColumns columns hashes row) with
  | ok grown =>
    dsimp only at failed
    rw [appended] at failed
    cases failed
  | error other =>
    dsimp only at failed
    rw [appended] at failed
    cases failed
    exact appendBuildRow_error appended

/-- The rows of a batch, as the join takes them. -/
def batchRows (config : Config) (batch : Batch ι) : List (Row ι) :=
  (loadColumns config.innerBatchColumns batch).accepted config.innerKeys config.ninnerColumns

omit [Inhabited ι] in
theorem batchRows_eq (config : Config) (batch : Batch ι) :
    batchRows config batch = (rows (hashed config batch).2).map
      (inputRow config.ninnerColumns (loadColumns config.innerBatchColumns batch) (hashed config batch).1) := by
  rw [batchRows,Batch.accepted,hashed,← hashBatch_rows config.keyed]
  apply List.map_congr_left
  intro row member
  rw [inputRow,hashBatch_hash config.keyed _ member config.ninnerColumns]
  rfl

/-- A spilled batch is stored and written, and partitions are evicted. -/
theorem appendOrSpill_result (residency : Residency view config accepted store spill) (roomy : Roomy store)
    (batch : Batch ι)
    (faithful : (storedFrom config store store.nrows (storedRows config spill
        (loadColumns config.innerBatchColumns batch) (hashed config batch).1 (rows (hashed config batch).2))).map view =
      (storedRows config spill (loadColumns config.innerBatchColumns batch) (hashed config batch).1
        (rows (hashed config batch).2)).map view) :
    (∃ message, GrowError message ∧ appendOrSpillBuildBatch config store spill (loadColumns config.innerBatchColumns batch)
      (hashed config batch).1 (hashed config batch).2 = .error message) ∨
    ∃ store' after, appendOrSpillBuildBatch config store spill (loadColumns config.innerBatchColumns batch)
        (hashed config batch).1 (hashed config batch).2 = .ok (store',after,(batchRows config batch).length) ∧
      Residency view config (accepted ++ batchRows config batch) store' after ∧ Fits config store' after ∧ Roomy store' ∧
      after.npartitions = spill.npartitions ∧ after.partitionShift = spill.partitionShift ∧
      after.buildChunkRows = spill.buildChunkRows ∧ after.bloomNbits = spill.bloomNbits ∧
      after.bloomWords = spill.bloomWords.map fun words => (rows (hashed config batch).2).foldl
        (fun words row => bloomAdd spill.bloomNbits words ((hashed config batch).1 row)) words := by
  obtain ⟨written,residentRows,ran,spills,rows_⟩ := spillBuildBatch_spills residency.sound residency.positive
    (loadColumns config.innerBatchColumns batch) (hashed config batch).1 (hashed config batch).2
  unfold appendOrSpillBuildBatch
  rw [ran]
  cases appended : (rows residentRows).foldlM
      (appendResidentRow config (loadColumns config.innerBatchColumns batch) (hashed config batch).1) (store,written) with
  | error message =>
    refine .inl ⟨message,Results.foldlM_fails GrowError (fun _ _ _ => appendResidentRow_error) appended,?_⟩
    simp only [bind,Except.bind,appended]
  | ok result =>
    obtain ⟨grown,counted⟩ := result
    rw [rows_] at appended
    obtain ⟨residency',appends⟩ := residency.appended roomy spills appended faithful
    obtain ⟨store',after,limited,residency'',fits,keeps⟩ := limitResidentBuild_fits residency'
    refine .inr ⟨store',after,?_,?_,fits,keeps.roomy appends.roomy,?_⟩
    · rw [batchRows_eq,List.length_map]
      simp only [bind,Except.bind,rows_,appended,limited,popcount]
    · rw [batchRows_eq]
      exact residency''
    · obtain ⟨_,_,rfl,_⟩ := appendResident_ok appended
      rw [keeps.npartitions,keeps.partitionShift,keeps.buildChunkRows,keeps.bloomNbits,keeps.bloomWords]
      obtain ⟨_,_,_,rfl⟩ := spills.frame
      exact ⟨rfl,rfl,rfl,rfl,rfl⟩

end PgBatch.HashJoin
