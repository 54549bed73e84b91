import PgBatch.Nodes.ParallelReads
import PgBatch.Library.Joining

/-! Dividing a claimed partition once more: its parts have the same pairs as the partition,
taken together, and probe rows whose part has no build rows are not written. -/
namespace PgBatch.ParallelJoin
open Words Columnar Spill HashJoin Joining
open Parallel (nextPartitionCount)
variable {ι : Type}

/-! A row that is written through a vector loses the values of its NULLs. -/

def plainCell (cell : Cell) : Cell :=
  if cell.valid then cell else ⟨0#32,false⟩

def plain (row : Row ι) : Row ι :=
  ⟨row.tag,row.hash,row.cells.map plainCell⟩

section Plain
variable {config : Config} {row : Row ι}

theorem plain_cell (row : Row ι) (column : Nat) : (plain row).cell column = plainCell (row.cell column) := by
  rw [Row.cell,Row.cell,plain,List.getD_eq_getElem?_getD,List.getD_eq_getElem?_getD,List.getElem?_map]
  cases row.cells[column]? <;> rfl

theorem entry_plain {keys : List Nat} (valid : ∀ key ∈ keys, (row.cell key).valid = true) :
    entry keys (plain row) = entry keys row := by
  have values : (keys.map fun key => ((plain row).cell key).value) = keys.map fun key => (row.cell key).value := by
    apply List.map_congr_left
    intro key member
    rw [plain_cell,plainCell,if_pos (valid key member)]
  rw [entry,entry,values]
  rfl

theorem SharedBuildRow.plain (stored : SharedBuildRow config row) : BuildRow config (plain row) := by
  refine ⟨by rw [ParallelJoin.plain,List.length_map,stored.width],?_⟩
  rw [entry_plain stored.valid]
  exact stored.hash

theorem plain_probe (stored : ProbeRow config row) : ProbeRow config (plain row) := by
  refine ⟨fun key member => ?_,?_⟩
  · rw [plain_cell,plainCell,if_pos (stored.valid key member)]
    exact stored.valid key member
  · rw [entry_plain stored.valid]
    exact stored.hash

theorem blockRow_eq (ncolumns : Nat) (block : Store ι) (row : Nat) : blockRow ncolumns block row = plain (block.row ncolumns row) := by
  simp only [blockRow,plain,Store.row,List.map_map]
  congr 2
  funext column
  simp only [Function.comp,plainCell,Store.cell,inputValue]
  split <;> simp_all

end Plain

/-! Writing. -/

/-- A spill set that is written to. -/
structure Writing (ncolumns npartitions : Nat) (writers : Writers ι) : Prop where
  valid : writers.Valid
  ncolumns : writers.ncolumns = ncolumns
  npartitions : writers.npartitions = npartitions
  unfinished : writers.finished = false

section Write
variable [Inhabited ι] {ncolumns npartitions : Nat} (shift : Nat) {set : SpillSet ι} {block : Store ι} {selection : BitVec 64}

/-- The selected rows of a block go to their parts. -/
theorem writeRepartitionBlock_ok (writing : Writing ncolumns npartitions set.toWriters) (positive : 0 < npartitions)
    (small : block.nrows ≤ blockRows) : ∃ after, writeRepartitionBlock shift npartitions set block selection = .ok after ∧
      Writing ncolumns npartitions after.toWriters ∧ ∀ index, after.toWriters.contents index = set.toWriters.contents index ++
        part (rowPart shift npartitions)
          ((rows (selection &&& wordMask block.nrows)).map fun row => plain (block.row ncolumns row)) index := by
  have parted (index : Nat) : (rows (gather (fun row => repartitionOf shift npartitions (block.hashes row))
      (selection &&& wordMask block.nrows) index)).map (blockRow ncolumns block) = part (rowPart shift npartitions)
        ((rows (selection &&& wordMask block.nrows)).map fun row => plain (block.row ncolumns row)) index := by
    rw [rows_gather,part,List.filter_map,funext (blockRow_eq ncolumns block)]
    rfl
  obtain ⟨after,ran,same,held,contents⟩ := foldlM_adds (writeRepartition shift npartitions block selection)
    (part (rowPart shift npartitions)
      ((rows (selection &&& wordMask block.nrows)).map fun row => plain (block.row ncolumns row))) writing.valid npartitions (by
      intro middle held same index inside
      have columns : middle.ncolumns = ncolumns := same.ncolumns.trans writing.ncolumns
      unfold writeRepartition
      dsimp only
      rw [← parted]
      split
      · rename_i none
        exact ⟨middle,rfl,.refl middle,held,by rw [none]; simp⟩
      · obtain ⟨after,ran,adds⟩ := @write_adds _ _ spillService _ held index block.nrows
          (gather (fun row => repartitionOf shift npartitions (block.hashes row)) (selection &&& wordMask block.nrows) index)
          (blockRow middle.ncolumns block) (by rw [same.npartitions,writing.npartitions]; exact inside)
          (same.finished.trans writing.unfinished) small (fun row => by simp [blockRow])
        refine ⟨after,ran,?_⟩
        rw [← columns]
        have masked : rows (gather (fun row => repartitionOf shift npartitions (block.hashes row))
            (selection &&& wordMask block.nrows) index &&& wordMask block.nrows) =
            rows (gather (fun row => repartitionOf shift npartitions (block.hashes row))
              (selection &&& wordMask block.nrows) index) := by
          rw [rows_and,List.filter_eq_self]
          intro row member
          rw [rows_gather,List.mem_filter,mem_rows,BitVec.getLsbD_and,Bool.and_eq_true] at member
          exact member.1.2
        rwa [masked] at adds)
  refine ⟨{set with toWriters := after},by rw [writeRepartitionBlock,ran]; rfl,⟨held,same.ncolumns.trans writing.ncolumns,
    same.npartitions.trans writing.npartitions,same.finished.trans writing.unfinished⟩,fun index => ?_⟩
  rw [contents]
  split
  · rfl
  · rename_i beyond
    have none : part (rowPart shift npartitions)
        ((rows (selection &&& wordMask block.nrows)).map fun row => plain (block.row ncolumns row)) index = [] := by
      rw [List.eq_nil_iff_forall_not_mem]
      intro row member
      have here := (mem_part.mp member).2
      have below : rowPart shift npartitions row < npartitions := repartitionOf_lt positive _
      omega
    rw [none]

omit [Inhabited ι] in
theorem selected_all (small : block.nrows ≤ blockRows) (ncolumns : Nat) :
    (rows (blockSelection block &&& wordMask block.nrows)).map (fun row => plain (block.row ncolumns row)) =
      (block.rows ncolumns).map plain := by
  have bound : block.nrows ≤ 64 := small
  have every : rows (blockSelection block &&& wordMask block.nrows) = List.range block.nrows := by
    rw [blockSelection,getLsbD_writeMask bound]
    exact rows_mask _ bound
  rw [every,Store.rows,List.map_map]
  rfl

/-- The build side of a partition is divided. -/
theorem divideBuild_ok (writing : Writing ncolumns npartitions set.toWriters)
    (empty : ∀ index, set.toWriters.contents index = []) (positive : 0 < npartitions) {blocks : List (Store ι)}
    (sizes : ∀ block ∈ blocks, 0 < block.nrows ∧ block.nrows ≤ blockRows) :
    ∃ after, blocks.foldlM (fun set block => writeRepartitionBlock shift npartitions set block (blockSelection block)) set = .ok after ∧
      Writing ncolumns npartitions after.toWriters ∧ ∀ index, after.toWriters.contents index =
        part (rowPart shift npartitions) ((blocks.flatMap (Store.rows ncolumns)).map plain) index := by
  refine Results.foldlM_rule (fun done (set : SpillSet ι) => Writing ncolumns npartitions set.toWriters ∧ ∀ index,
    set.toWriters.contents index = part (rowPart shift npartitions) ((done.flatMap (Store.rows ncolumns)).map plain) index)
    ⟨writing,fun index => by rw [empty]; rfl⟩ ?_
  rintro done block rest state split ⟨writing,contents⟩
  have small := (sizes block (by simp [split])).2
  obtain ⟨after,ran,writing',grown⟩ := @writeRepartitionBlock_ok _ _ _ _ shift _ _ (blockSelection block) writing positive small
  refine ⟨after,ran,writing',fun index => ?_⟩
  rw [grown,contents,selected_all small,List.flatMap_append,List.flatMap_singleton,List.map_append,part_append]

/-- A loop that drops the rows of a word that fail a test. -/
theorem dropRows_ok {step : BitVec 64 → Nat → Except String (BitVec 64)} {kept : Nat → Bool} {visits : List Nat} {word : BitVec 64}
    (each : ∀ row ∈ visits, ∀ word, step word row = .ok (if kept row then word else word &&& ~~~ bit 64 row))
    (visited : ∀ row ∈ rows word, row ∈ visits) :
    ∃ last, visits.foldlM step word = .ok last ∧ rows last = (rows word).filter kept := by
  obtain ⟨last,ran,left⟩ : ∃ last, visits.foldlM step word = .ok last ∧ ∀ row,
      last.getLsbD row = (word.getLsbD row && (decide (row ∉ visits) || kept row)) := by
    refine Results.foldlM_rule (fun done (left : BitVec 64) => ∀ row,
      left.getLsbD row = (word.getLsbD row && (decide (row ∉ done) || kept row))) (fun row => by simp) ?_
    intro done row rest left split before
    refine ⟨_,each row (by rw [split]; simp) left,fun other => ?_⟩
    by_cases same : other = row
    · subst same
      cases test : kept other with
      | true => simp [before,test]
      | false =>
        by_cases inside : other < 64
        · simp [inside]
        · simp [Nat.not_lt.mp inside]
    · cases test : kept row with
      | true => simp [before,same]
      | false =>
        rw [if_neg Bool.false_ne_true,BitVec.getLsbD_and,BitVec.getLsbD_not,getLsbD_bit,before]
        by_cases inside : other < 64
        · simp [inside,same]
        · simp [Nat.not_lt.mp inside]
  refine ⟨last,ran,sorted_ext (rows_sorted last) ((rows_sorted word).filter _) fun row => ?_⟩
  rw [mem_rows,left,List.mem_filter,mem_rows]
  cases selected : word.getLsbD row with
  | false => simp
  | true => simp [visited row (mem_rows.mpr selected)]

omit [Inhabited ι] in
/-- The rows that are kept are those whose part has build rows. -/
theorem dropUnmatched_ok {build : SpillSet ι} {parts : Nat → List (Row ι)} (holds : Holds build parts)
    (many : build.npartitions = npartitions) (positive : 0 < npartitions) (small : block.nrows ≤ blockRows) :
    ∃ word, (List.range block.nrows).foldlM (dropUnmatchedRow shift npartitions build block) (blockSelection block) = .ok word ∧
      rows word = (List.range block.nrows).filter fun row =>
        !(parts (repartitionOf shift npartitions (block.hashes row))).isEmpty := by
  have bound : block.nrows ≤ 64 := small
  have every : rows (blockSelection block) = List.range block.nrows := by
    rw [blockSelection,getLsbD_writeMask bound,rows_wordMask,Nat.min_eq_right bound]
  rw [← every]
  refine dropRows_ok (fun row _ word => ?_) fun row member => member
  have empty := spillPartitionEmpty_ok holds (many.symm ▸ repartitionOf_lt positive (block.hashes row) :
    repartitionOf shift npartitions (block.hashes row) < build.npartitions)
  rw [dropUnmatchedRow,empty]
  cases (parts (repartitionOf shift npartitions (block.hashes row))).isEmpty <;> rfl

/-- A block of probe rows is divided, but for rows without build rows to match. -/
theorem repartitionProbeBlock_ok (writing : Writing ncolumns npartitions set.toWriters) (positive : 0 < npartitions)
    (small : block.nrows ≤ blockRows) {build : SpillSet ι} {parts : Nat → List (Row ι)} (holds : Holds build parts)
    (many : build.npartitions = npartitions) : ∃ after, repartitionProbeBlock shift npartitions build set block = .ok after ∧
      Writing ncolumns npartitions after.toWriters ∧ ∀ index, after.toWriters.contents index = set.toWriters.contents index ++
        if parts index = [] then [] else part (rowPart shift npartitions) ((block.rows ncolumns).map plain) index := by
  obtain ⟨word,ran,kept⟩ := dropUnmatched_ok shift holds many positive small
  have masked : rows (word &&& wordMask block.nrows) = rows word := by
    rw [rows_and,List.filter_eq_self]
    intro row member
    rw [kept,List.mem_filter,List.mem_range] at member
    rw [getLsbD_wordMask,decide_eq_true_eq]
    exact ⟨Nat.lt_of_lt_of_le member.1 small,member.1⟩
  have added (index : Nat) : part (rowPart shift npartitions)
      ((rows (word &&& wordMask block.nrows)).map fun row => plain (block.row ncolumns row)) index =
      if parts index = [] then [] else part (rowPart shift npartitions) ((block.rows ncolumns).map plain) index := by
    rw [masked,kept,Store.rows,List.map_map,part,part,List.filter_map,List.filter_map,List.filter_filter]
    by_cases none : parts index = []
    · rw [if_pos none,List.map_eq_nil_iff,List.filter_eq_nil_iff]
      intro row _
      simp only [Function.comp,Bool.and_eq_true,beq_iff_eq,not_and]
      intro here
      change repartitionOf shift npartitions (block.hashes row) = index at here
      simp [here,none]
    · rw [if_neg none]
      congr 1
      apply List.filter_congr
      intro row _
      simp only [Function.comp]
      by_cases here : rowPart shift npartitions (plain (block.row ncolumns row)) = index
      · have same : repartitionOf shift npartitions (block.hashes row) = index := here
        simp [here,same,none]
      · simp [here]
  unfold repartitionProbeBlock
  rw [ran]
  simp only [bind,Except.bind]
  by_cases some_ : word = 0#64
  · rw [if_neg (not_not_intro some_)]
    refine ⟨set,rfl,writing,fun index => ?_⟩
    rw [← added index,some_]
    simp
  · rw [if_pos some_]
    obtain ⟨after,wrote,writing',grown⟩ := @writeRepartitionBlock_ok _ _ _ _ shift _ _ word writing positive small
    exact ⟨after,wrote,writing',fun index => by rw [grown,added index]⟩

/-- The probe side of a partition is divided. -/
theorem divideProbe_ok (writing : Writing ncolumns npartitions set.toWriters)
    (empty : ∀ index, set.toWriters.contents index = []) (positive : 0 < npartitions) {blocks : List (Store ι)}
    (sizes : ∀ block ∈ blocks, 0 < block.nrows ∧ block.nrows ≤ blockRows) {build : SpillSet ι} {parts : Nat → List (Row ι)}
    (holds : Holds build parts) (many : build.npartitions = npartitions) :
    ∃ after, blocks.foldlM (repartitionProbeBlock shift npartitions build) set = .ok after ∧
      Writing ncolumns npartitions after.toWriters ∧ ∀ index, after.toWriters.contents index = if parts index = [] then []
        else part (rowPart shift npartitions) ((blocks.flatMap (Store.rows ncolumns)).map plain) index := by
  refine Results.foldlM_rule (fun done (set : SpillSet ι) => Writing ncolumns npartitions set.toWriters ∧ ∀ index,
    set.toWriters.contents index = if parts index = [] then []
      else part (rowPart shift npartitions) ((done.flatMap (Store.rows ncolumns)).map plain) index)
    ⟨writing,fun index => by rw [empty]; simp⟩ ?_
  rintro done block rest state split ⟨writing,contents⟩
  have small := (sizes block (by simp [split])).2
  obtain ⟨after,ran,writing',grown⟩ := repartitionProbeBlock_ok shift writing positive small holds many
  refine ⟨after,ran,writing',fun index => ?_⟩
  rw [grown,contents,List.flatMap_append,List.flatMap_singleton,List.map_append,part_append]
  split <;> simp

end Write

section Divide
variable [Inhabited ι] {config : Config} {shared : SharedFiles ι} {inner outer : Nat → List (Row ι)} {partition : Nat}

omit [Inhabited ι] in
theorem spillCreate_writing (config : Config) {ncolumns npartitions : Nat} (columns : 0 < ncolumns) (positive : 0 < npartitions) :
    ∃ set : SpillSet ι, spillCreate (spillTupleDesc ncolumns) ncolumns npartitions (config.memoryLimit / 4) = .ok set ∧
      Writing ncolumns npartitions set.toWriters ∧ ∀ index, set.toWriters.contents index = [] := by
  have created := @spillCreate_ok ι (spillTupleDesc ncolumns) ncolumns npartitions (config.memoryLimit / 4) columns
    (by simp [spillTupleDesc]) positive (by
      intro attr member
      rw [List.eq_of_mem_replicate member]
      exact ⟨rfl,rfl⟩)
  exact ⟨_,created,⟨create_valid ..,rfl,rfl,rfl⟩,fun _ => rfl⟩

omit [Inhabited ι] in
/-- An opened reader has all blocks of its partition ahead. -/
theorem open_ahead {shape : SharedShape} {spill : SharedSpill Nat ι} (inside : partition < shape.partitions) :
    blockReaderOpen shape partition = .ok (⟨partition,0,none⟩ : BlockReader ι) ∧
      (⟨partition,0,none⟩ : BlockReader ι).ahead shape.participants spill = spill.blocks shape.participants partition :=
  ⟨if_neg (Nat.not_le.mpr inside),rewind_ahead ⟨partition,0,none⟩ _ _⟩

/-- A partition is divided without an error, and its parts are there to be joined. -/
theorem repartitionSharedPartition_ok (files : FilesHold config shared inner outer)
    (inside : partition < shared.buildShape.partitions) (buildRows : Nat) :
    ∃ parts build probe, repartitionSharedPartition config shared partition buildRows = .ok parts ∧
      Parts config build probe parts ∧ parts.next = 0 ∧
      (stockPairs config build probe 0 parts.nrepartitions).Perm (partitionPairs config inner outer partition) := by
  have positive : 0 < nextPartitionCount ((buildRows + buildChunkRows config - 1) / buildChunkRows config) :=
    nextPartitionCount_positive _
  unfold repartitionSharedPartition
  dsimp only
  generalize nextPartitionCount ((buildRows + buildChunkRows config - 1) / buildChunkRows config) = n at positive
  generalize sharedPartitionBits shared.buildShape.partitions = shift
  obtain ⟨build,created,writing,empty⟩ := spillCreate_writing (ι := ι) config config.columns positive
  obtain ⟨probe,created',writing',empty'⟩ := spillCreate_writing (ι := ι) config config.outer_columns positive
  obtain ⟨opened,ahead⟩ := @open_ahead _ _ shared.buildShape shared.build inside
  obtain ⟨opened',ahead'⟩ := @open_ahead _ _ shared.probeShape shared.probe (files.partitions.symm ▸ inside)
  have loop (set : SpillSet ι) := sharedReadLoop_eq shared.missing shared.buildShape shared.build
    (fun set block => writeRepartitionBlock shift n set block (blockSelection block)) files.inner set
    (ahead ▸ files.inner.sized)
  have loop' (build set : SpillSet ι) := sharedReadLoop_eq shared.missing shared.probeShape shared.probe
    (repartitionProbeBlock shift n build) files.outer set (ahead' ▸ files.outer.sized)
  obtain ⟨build',divided,done,contents⟩ := divideBuild_ok shift writing empty positive (@SharedHolds.sized _ _ _ _ files.inner partition)
  obtain ⟨buildSet,ended,holds,notFrozen,wide,many,start⟩ := spillFinish_holds build' done.valid done.unfinished false
  obtain ⟨probe',divided',done',contents'⟩ := divideProbe_ok shift writing' empty' positive
    (@SharedHolds.sized _ _ _ _ files.outer partition) holds (many.trans done.npartitions)
  obtain ⟨probeSet,ended',holds',frozen',wide',many',_⟩ := spillFinish_holds probe' done'.valid done'.unfinished true
  have innerRows : (shared.build.blocks shared.buildShape.participants partition).flatMap (Store.rows config.ninnerColumns) =
      inner partition := files.innerColumns ▸ files.inner.contents partition
  have outerRows : (shared.probe.blocks shared.probeShape.participants partition).flatMap (Store.rows config.nouterColumns) =
      outer partition := files.outerColumns ▸ files.outer.contents partition
  rw [innerRows] at contents
  rw [outerRows] at contents'
  have builds : ∀ row ∈ (inner partition).map plain, BuildRow config row := by
    intro row member
    obtain ⟨original,among,rfl⟩ := List.mem_map.mp member
    exact (files.builds partition original among).plain
  have probes : ∀ row ∈ (outer partition).map plain, ProbeRow config row := by
    intro row member
    obtain ⟨original,among,rfl⟩ := List.mem_map.mp member
    exact plain_probe (files.probes partition original among)
  refine ⟨⟨buildSet,probeSet,n,0⟩,build'.toWriters.contents,probe'.toWriters.contents,?_,
    ⟨holds,holds',wide.trans done.ncolumns,wide'.trans done'.ncolumns,many.trans done.npartitions,many'.trans done'.npartitions,
      notFrozen,frozen',fun part _ => congrFun start part,?_,?_⟩,rfl,?_⟩
  · simp only [bind,Except.bind,created,created',opened,opened',loop,loop',ahead,ahead',divided,divided',ended,ended']
  · intro index row member
    rw [contents] at member
    exact builds row (mem_part.mp member).1
  · intro index row member
    rw [contents'] at member
    split at member
    · cases member
    · exact probes row (mem_part.mp member).1
  · have pairs := @parts_pairs _ config _ _ partition (fun _ => (inner partition).map plain) (fun _ => (outer partition).map plain)
      _ _ positive builds probes contents contents'
    refine pairs.trans (.of_eq ?_)
    have one : ((inner partition).map plain).map (entry config.innerKeys) = (inner partition).map (entry config.innerKeys) := by
      rw [List.map_map]
      exact List.map_congr_left fun row member => entry_plain (files.builds partition row member).valid
    have two : ((outer partition).map plain).map (entry config.outerKeys) = (outer partition).map (entry config.outerKeys) := by
      rw [List.map_map]
      exact List.map_congr_left fun row member => entry_plain (files.probes partition row member).valid
    rw [partitionPairs,partitionPairs,one,two]

end Divide

end PgBatch.ParallelJoin
