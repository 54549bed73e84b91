import PgBatch.Nodes.HashJoinServing

/-! What an outer batch of a serial join that spilled adds to the block of the resident
rows and to the probe partitions, and that the rows it leaves out have no partner. -/
namespace PgBatch.HashJoin
open Words Columnar Spill Joining
open Parallel (partitionOf)
variable {ι : Type} {config : Config} {spill : BuildSpill ι}

/-! The rows of a batch, as they are stored. -/

section Stored
variable {keys : List Nat} {ncolumns : Nat}

theorem keysAt_values {batch : Batch ι} {row : Nat} {values : List Int4}
    (found : keysAt (keys.map batch.column) row = some values) :
    (keys.map fun key => (inputValue (batch.column key row)).value) = values ∧
      ∀ key ∈ keys, (inputValue (batch.column key row)).valid = true := by
  induction keys generalizing values with
  | nil =>
    cases found
    exact ⟨rfl,fun _ none => absurd none List.not_mem_nil⟩
  | cons key rest ih =>
    simp only [keysAt,List.map_cons,List.mapM_cons,Option.bind_eq_bind,Option.bind_eq_some_iff] at found
    obtain ⟨value,here,others,all,joined⟩ := found
    cases joined
    obtain ⟨same,valid⟩ := ih all
    refine ⟨by rw [List.map_cons,same,here]; rfl,fun other member => ?_⟩
    rcases List.mem_cons.mp member with rfl | later
    · rw [here]
      rfl
    · exact valid other later

/-- A row that a join keeps has its keys, and their hash. -/
theorem accepted_row (inside : ∀ key ∈ keys, key < ncolumns) {batch : Batch ι} {row : Nat} {values : List Int4}
    (found : keysAt (keys.map batch.column) row = some values) :
    entry keys (batch.row keys ncolumns row) = (values,batch.tag row) ∧
      (batch.row keys ncolumns row).hash = keyHash values ∧
      ∀ key ∈ keys, ((batch.row keys ncolumns row).cell key).valid = true := by
  obtain ⟨same,valid⟩ := keysAt_values found
  have cell (key : Nat) (member : key ∈ keys) : (batch.row keys ncolumns row).cell key = inputValue (batch.column key row) := by
    simp [Row.cell,Batch.row,List.getD_eq_getElem?_getD,inside key member]
  refine ⟨?_,by simp [Batch.row,found],fun key member => by rw [cell key member]; exact valid key member⟩
  rw [entry,← same]
  congr 1
  exact List.map_congr_left fun key member => by rw [cell key member]

theorem accepted_entries (inside : ∀ key ∈ keys, key < ncolumns) (batch : Batch ι) :
    (batch.accepted keys ncolumns).map (entry keys) =
      probeEntries batch.selected (keysAt (keys.map batch.column)) batch.tag := by
  rw [Batch.accepted,probeEntries]
  induction batch.selected with
  | nil => rfl
  | cons row rest ih =>
    cases found : keysAt (keys.map batch.column) row with
    | none => rw [List.filter_cons_of_neg (by simp [found]),ih,List.filterMap_cons,found]; rfl
    | some values =>
      rw [List.filter_cons_of_pos (by simp [found]),List.map_cons,List.map_cons,ih,(accepted_row inside found).1,
        List.filterMap_cons,found]
      rfl

/-- The rows of the inner batches are their entries. -/
theorem acceptedRows_entries (config : Config) (inner : List (Batch ι)) :
    (acceptedRows config inner).map (entry config.innerKeys) =
      inner.flatMap (batchEntries config.innerKeys config.innerBatchColumns) := by
  rw [acceptedRows,List.map_flatMap]
  exact List.flatMap_congr fun batch _ => accepted_entries config.innerInside _

/-- The rows of an outer batch that have keys. -/
def outerRows (config : Config) (batch : Batch ι) : List (Row ι) :=
  (rows (outerHashed config batch).2).map
    (inputRow config.nouterColumns (loadColumns config.outerBatchColumns batch) (outerHashed config batch).1)

theorem outerRows_accepted (config : Config) (batch : Batch ι) :
    outerRows config batch = (loadColumns config.outerBatchColumns batch).accepted config.outerKeys config.nouterColumns := by
  rw [outerRows,Batch.accepted,outerHashed,← hashBatch_rows config.outer_keyed]
  apply List.map_congr_left
  intro row member
  rw [inputRow,hashBatch_hash config.outer_keyed _ member config.nouterColumns]
  rfl

theorem outerRows_entries (config : Config) (batch : Batch ι) :
    (outerRows config batch).map (entry config.outerKeys) = batchEntries config.outerKeys config.outerBatchColumns batch := by
  rw [outerRows_accepted]
  exact accepted_entries config.outerInside _

theorem outerRows_probes {batch : Batch ι} {row : Row ι} (member : row ∈ outerRows config batch) : ProbeRow config row := by
  rw [outerRows_accepted] at member
  obtain ⟨index,kept,rfl⟩ := List.mem_map.mp member
  obtain ⟨values,found⟩ := Option.isSome_iff_exists.mp (List.mem_filter.mp kept).2
  obtain ⟨same,hash,valid⟩ := accepted_row config.outerInside found
  exact ⟨valid,by rw [hash,same]⟩

/-- A test of the hash is one of the keys. -/
theorem filter_entries {rows : List (Row ι)} (hashed : ∀ row ∈ rows, row.hash = keyHash (entry keys row).1)
    (test : BitVec 32 → Bool) : (rows.filter fun row => test row.hash).map (entry keys) =
      (rows.map (entry keys)).filter fun row => test (keyHash row.1) := by
  rw [List.filter_map]
  congr 1
  apply List.filter_congr
  intro row member
  rw [Function.comp_apply,hashed row member]

end Stored

/-! Where they go. -/

/-- The rows of an outer batch that pass the filters. -/
def survivingRows (config : Config) (spill : BuildSpill ι) (buildRows : Nat) (batch : Batch ι) : List (Row ι) :=
  (outerRows config batch).filter fun row => survives spill buildRows row.hash

/-- Probe rows are written to a partition that is not resident and has build rows. -/
def writtenPartition (spill : BuildSpill ι) (partition : Nat) : Bool :=
  !decide (partition ∈ spill.residentPartitions) && (spill.buildFiles partition).isSome

/-- The rows of an outer batch that go to a partition. -/
def writtenRows (config : Config) (spill : BuildSpill ι) (buildRows : Nat) (batch : Batch ι) (partition : Nat) : List (Row ι) :=
  if writtenPartition spill partition then
    part (rowPartition spill.npartitions) (survivingRows config spill buildRows batch) partition
  else []

section Routing
variable {hashes : Nat → BitVec 32} {row : Nat → Row ι}

theorem routeProbeRows_linked {visits : List Nat} {block after : ProbeBlock ι} {links : Links}
    (ran : visits.foldlM (routeProbeRow spill hashes row) (block,Links.empty) = .ok (after,links)) :
    Linking (fun index => partitionOf spill.npartitions (hashes index)) (writtenPartition spill) visits links := by
  induction visits using List.reverseRecOn generalizing after links with
  | nil =>
    cases ran
    exact linking_empty ..
  | append_singleton done index ih =>
    rw [List.foldlM_append] at ran
    obtain ⟨⟨middle,linked⟩,before,last⟩ := Results.bind_ok.mp ran
    have linking := ih before
    rw [List.foldlM_cons] at last
    obtain ⟨state,step,same⟩ := Results.bind_ok.mp last
    cases same
    unfold routeProbeRow at step
    dsimp only at step
    split at step
    · rename_i resident
      obtain ⟨_,_,same⟩ := Results.bind_ok.mp step
      cases same
      exact linking.skip (by simp [writtenPartition,resident])
    · rename_i spilled
      split at step
      · rename_i filed
        cases step
        exact linking.add (by simp [writtenPartition,spilled,filed])
      · rename_i missing
        cases step
        exact linking.skip (by simp [writtenPartition,missing])

variable [Inhabited ι] {npartitions : Nat} {probe : ProbeSpill ι}

/-- The probe partitions, with a file for each that has rows. -/
def ProbeFiled (config : Config) (npartitions : Nat) (probe : ProbeSpill ι) : Prop :=
  Filed config.nouterColumns npartitions probe.probeFiles probe.probeSpill.toWriters

theorem writeProbeRows_adds (filed : ProbeFiled config npartitions probe) {partition : Nat} (inside : partition < npartitions)
    (width : ∀ index, (row index).cells.length = config.nouterColumns) {block : List Nat} (nonempty : block ≠ [])
    (sorted : block.Pairwise (· < ·)) (small : ∀ row ∈ block, row < 64) :
    ∃ after, writeProbeRows row partition probe block = .ok after ∧ ProbeFiled config npartitions after ∧
      after.probeSpill.toWriters.contents = Function.update probe.probeSpill.toWriters.contents partition
        (probe.probeSpill.toWriters.contents partition ++ block.map row) := by
  obtain ⟨writers,ran,adds⟩ : ∃ writers, spillWrite probe.probeSpill.toWriters partition pgBatchSize
      (block.foldl (fun selection row => selection ||| bit 64 row) 0#64) row = .ok writers ∧ _ :=
    write_adds filed.valid row (filed.npartitions ▸ inside) filed.unfinished (Nat.le_refl 64)
      (fun index => (width index).trans filed.ncolumns.symm)
  rw [rows_and,rows_bits sorted small,List.filter_eq_self.mpr] at adds
  · refine ⟨_,by rw [writeProbeRows,ran]; rfl,?_,adds.contents⟩
    exact Filed.adds filed (by simpa using nonempty) adds
  · intro row member
    rw [getLsbD_wordMask,decide_eq_true_eq]
    exact ⟨small row member,small row member⟩

/-- The writes for one partition. -/
theorem writeProbePartition_adds (filed : ProbeFiled config npartitions probe) {partition : Nat} (inside : partition < npartitions)
    (width : ∀ index, (row index).cells.length = config.nouterColumns) {items : List Nat}
    (sorted : items.Pairwise (· < ·)) (small : ∀ row ∈ items, row < 64) :
    ∃ after, inBlocks pgBatchSize (writeProbeRows row partition) probe [] items = .ok after ∧
      ProbeFiled config npartitions after ∧ after.probeSpill.toWriters.contents =
        Function.update probe.probeSpill.toWriters.contents partition
          (probe.probeSpill.toWriters.contents partition ++ items.map row) := by
  refine inBlocks_rule (fun done after => ProbeFiled config npartitions after ∧ after.probeSpill.toWriters.contents =
    Function.update probe.probeSpill.toWriters.contents partition
      (probe.probeSpill.toWriters.contents partition ++ done.map row)) (by decide) ⟨filed,by simp⟩ ?_
  rintro done block rest state rfl nonempty _ ⟨filed',contents⟩
  have middle := (List.pairwise_append.mp (List.pairwise_append.mp sorted).1).2.1
  obtain ⟨after,ran,filed'',more⟩ := writeProbeRows_adds filed' inside width nonempty middle
    fun row member => small row (by simp [member])
  refine ⟨after,ran,filed'',?_⟩
  rw [more,contents,Function.update_self,Function.update_idem,List.map_append,List.append_assoc]

omit [Inhabited ι] in
theorem ProbeFiled.sound (filed : ProbeFiled config npartitions probe) : ProbeSound config npartitions probe :=
  ⟨filed.valid,filed.ncolumns,filed.npartitions,filed.unfinished⟩

omit [Inhabited ι] in
/-- The rows that are linked to a partition. -/
theorem linked_rows {visits : List Nat} {links : Links}
    (linking : Linking (fun index => partitionOf spill.npartitions (hashes index)) (writtenPartition spill) visits links)
    (hashed : ∀ index, (row index).hash = hashes index) (partition : Nat) : (links.linked partition).map row =
      if writtenPartition spill partition then part (rowPartition spill.npartitions) (visits.map row) partition else [] := by
  rw [linking.linked]
  split
  · rw [part,part,List.filter_map]
    congr 2
    funext index
    rw [Function.comp_apply,rowPartition,hashed]
  · rfl

/-- A batch is divided among the block and the partitions. -/
theorem spillProbeBatch_divides (positive : 0 < spill.npartitions) (filed : ProbeFiled config spill.npartitions probe)
    {block : ProbeBlock ι} {contents : List (Row ι)} (buffers : Buffers config.nouterColumns block contents)
    (few : contents.length < pgBatchSize) (buildRows : Nat) (batch : Batch ι) :
    ∃ after written, spillProbeBatch config spill buildRows block probe (loadColumns config.outerBatchColumns batch)
        (outerHashed config batch).1 (outerHashed config batch).2 = .ok (after,written) ∧
      Buffers config.nouterColumns after (contents ++ residentRows config spill buildRows (outerHashed config) batch) ∧
      ProbeFiled config spill.npartitions written ∧ ∀ partition, written.probeSpill.toWriters.contents partition =
        probe.probeSpill.toWriters.contents partition ++ writtenRows config spill buildRows batch partition := by
  unfold spillProbeBatch residentRows writtenRows survivingRows outerRows
  generalize outerHashed config batch = hashed
  obtain ⟨hashes,hashRows⟩ := hashed
  dsimp only
  have width (index : Nat) := length_inputRow config.nouterColumns (loadColumns config.outerBatchColumns batch) hashes index
  generalize chosen : ((rows hashRows).filter fun index => survives spill buildRows (hashes index)) = visits
  have sublist : visits.Sublist (rows hashRows) := chosen ▸ List.filter_sublist
  have room : contents.length + visits.length ≤ pgBatchSize * 2 := by
    have fewer : visits.length ≤ pgBatchSize := sublist.length_le.trans (popcount_le hashRows)
    omega
  obtain ⟨after,links,routed,kept,used⟩ := routeProbeRows_ok positive hashes buffers width room
  have linking := routeProbeRows_linked routed
  obtain ⟨written,wrote,filed',contents'⟩ := linking.write
    (fun probe partition => inBlocks pgBatchSize
      (writeProbeRows (inputRow config.nouterColumns (loadColumns config.outerBatchColumns batch) hashes) partition)
      probe [] (links.linked partition))
    (ProbeFiled config spill.npartitions) (fun probe => probe.probeSpill.toWriters.contents)
    (fun state partition member good => by
      have below := (linking.sublist partition).trans sublist
      exact writeProbePartition_adds good (used partition member) width ((rows_sorted hashRows).sublist below)
        fun row found => rows_lt (below.subset found)) filed
  refine ⟨after,written,?_,kept,filed',fun partition => ?_⟩
  · rw [routed]
    simp only [bind,Except.bind,wrote]
  · have passed : (visits.map (inputRow config.nouterColumns (loadColumns config.outerBatchColumns batch) hashes)) =
        ((rows hashRows).map (inputRow config.nouterColumns (loadColumns config.outerBatchColumns batch) hashes)).filter
          fun row => survives spill buildRows row.hash := by
      rw [List.filter_map,← chosen]
      rfl
    rw [contents',linked_rows linking fun _ => rfl,passed]

end Routing

/-! What is left out has no partner. -/

/-- The build side as the outer rows find it: what the table has, and the rows of the partitions. -/
structure BuildSide (config : Config) (spill : BuildSpill ι) (inner table : List (Entry ι)) (parts : Nat → List (Row ι)) :
    Prop where
  positive : 0 < spill.npartitions
  whole : (table ++ (List.range spill.npartitions).flatMap fun partition =>
    (parts partition).map (entry config.innerKeys)).Perm inner
  stored : ∀ row ∈ table, partitionOf spill.npartitions (keyHash row.1) ∈ spill.residentPartitions
  builds : ∀ partition, ∀ row ∈ parts partition, BuildRow config row
  placed : ∀ partition, ∀ row ∈ parts partition, partition ∉ spill.residentPartitions ∧
    rowPartition spill.npartitions row = partition
  files : ∀ partition, spill.buildFiles partition = if parts partition = [] then none else some ⟨partition,none⟩
  bloom : ∀ words, spill.bloomWords = some words → ∀ row ∈ inner,
    bloomMayContain spill.bloomNbits words (keyHash row.1) = true

section Pairs
variable {inner table : List (Entry ι)} {parts : Nat → List (Row ι)}

theorem BuildSide.part_partition (side : BuildSide config spill inner table parts) {partition : Nat} {row : Entry ι}
    (member : row ∈ (parts partition).map (entry config.innerKeys)) :
    partitionOf spill.npartitions (keyHash row.1) = partition := by
  obtain ⟨original,among,rfl⟩ := List.mem_map.mp member
  rw [← (side.builds partition original among).hash]
  exact (side.placed partition original among).2

/-- No build row is filtered out. -/
theorem BuildSide.passes (side : BuildSide config spill inner table parts) (buildRows : Nat) {row : Entry ι}
    (member : row ∈ inner) : survives spill buildRows (keyHash row.1) = true := by
  have there : (decide (partitionOf spill.npartitions (keyHash row.1) ∈ spill.residentPartitions) ||
      (spill.buildFiles (partitionOf spill.npartitions (keyHash row.1))).isSome) = true := by
    rcases List.mem_append.mp (side.whole.symm.subset member) with stored | spilled
    · rw [decide_eq_true (side.stored row stored),Bool.true_or]
    · obtain ⟨partition,_,among⟩ := List.mem_flatMap.mp spilled
      have some_ : parts partition ≠ [] := fun none => by rw [none] at among; cases among
      rw [side.part_partition among,side.files,if_neg some_,Option.isSome_some,Bool.or_true]
  unfold survives
  dsimp only
  rw [there]
  cases words : spill.bloomWords with
  | none => simp [bloomUsable,words]
  | some words' => simp [side.bloom words' words row member]

/-- The rows of a batch that are buffered, or written, pass the filters. -/
theorem residentRows_eq (config : Config) (spill : BuildSpill ι) (buildRows : Nat) (batch : Batch ι) :
    residentRows config spill buildRows (outerHashed config) batch = (survivingRows config spill buildRows batch).filter
      fun row => decide (rowPartition spill.npartitions row ∈ spill.residentPartitions) := by
  rw [survivingRows,outerRows,residentRows,List.filter_map,List.filter_map]
  rfl

theorem survivingRows_probes {buildRows : Nat} {batch : Batch ι} {row : Row ι}
    (member : row ∈ survivingRows config spill buildRows batch) : ProbeRow config row :=
  outerRows_probes (List.mem_filter.mp member).1

theorem writtenRows_probes {buildRows partition : Nat} {batch : Batch ι} {row : Row ι}
    (member : row ∈ writtenRows config spill buildRows batch partition) : ProbeRow config row := by
  unfold writtenRows at member
  split at member
  · exact survivingRows_probes (mem_part.mp member).1
  · cases member

/-- The pairs of a batch are those of its resident rows with the table and those of its other rows with the partitions. -/
theorem BuildSide.pairs (side : BuildSide config spill inner table parts) (buildRows : Nat) (batch : Batch ι) :
    (matchPairs ((residentRows config spill buildRows (outerHashed config) batch).map (entry config.outerKeys)) table ++
      stockPairs config parts (writtenRows config spill buildRows batch) 0 spill.npartitions).Perm
      (matchPairs (batchEntries config.outerKeys config.outerBatchColumns batch) inner) := by
  let surviving := (survivingRows config spill buildRows batch).map (entry config.outerKeys)
  have hashed : ∀ row ∈ survivingRows config spill buildRows batch, row.hash = keyHash (entry config.outerKeys row).1 :=
    fun row member => (survivingRows_probes member).hash
  have filtered : matchPairs surviving inner = matchPairs (batchEntries config.outerKeys config.outerBatchColumns batch) inner := by
    have kept : surviving = (batchEntries config.outerKeys config.outerBatchColumns batch).filter
        fun row => survives spill buildRows (keyHash row.1) := by
      rw [← outerRows_entries]
      exact filter_entries (fun row member => (outerRows_probes member).hash) (survives spill buildRows)
    rw [kept]
    refine matchPairs_filter_left _ ?_
    intro row _ dropped other member same
    rw [← same,side.passes buildRows member] at dropped
    cases dropped
  have resident : matchPairs ((residentRows config spill buildRows (outerHashed config) batch).map (entry config.outerKeys))
      table = matchPairs surviving table := by
    have kept : (residentRows config spill buildRows (outerHashed config) batch).map (entry config.outerKeys) =
        surviving.filter fun row => decide (partitionOf spill.npartitions (keyHash row.1) ∈ spill.residentPartitions) := by
      rw [residentRows_eq]
      exact filter_entries hashed fun hash => decide (partitionOf spill.npartitions hash ∈ spill.residentPartitions)
    rw [kept]
    refine matchPairs_filter_left _ ?_
    intro row _ spilled other member same
    rw [← same,decide_eq_true (side.stored other member)] at spilled
    cases spilled
  have spilled (partition : Nat) : partitionPairs config parts (writtenRows config spill buildRows batch) partition =
      matchPairs surviving ((parts partition).map (entry config.innerKeys)) := by
    unfold partitionPairs writtenRows
    split
    · have kept : (part (rowPartition spill.npartitions) (survivingRows config spill buildRows batch) partition).map
          (entry config.outerKeys) =
          surviving.filter fun row => partitionOf spill.npartitions (keyHash row.1) == partition :=
        filter_entries hashed fun hash => partitionOf spill.npartitions hash == partition
      rw [kept]
      refine matchPairs_filter_left _ ?_
      intro row _ elsewhere other member same
      rw [← same,side.part_partition member,beq_self_eq_true] at elsewhere
      cases elsewhere
    · rename_i left
      have none : parts partition = [] := by
        by_contra some_
        obtain ⟨row,member⟩ := List.exists_mem_of_ne_nil _ some_
        have placed := (side.placed partition row member).1
        rw [writtenPartition,side.files,if_neg some_] at left
        simp [placed] at left
      rw [none]
      simp
  rw [resident,stockPairs,Nat.sub_zero,← List.range_eq_range',funext spilled,← filtered]
  refine ((matchPairs_flatMap_right _ _).symm.append_left _).trans (matchPairs_append_right.symm.trans ?_)
  exact matchPairs_perm (.refl _) side.whole

end Pairs

end PgBatch.HashJoin
