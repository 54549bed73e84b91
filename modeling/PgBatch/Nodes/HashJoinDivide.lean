import PgBatch.Nodes.HashJoinChunks

/-! Dividing a spilled partition once more: its parts have the same pairs as the
partition, taken together, and parts without build rows keep no probe rows. -/
namespace PgBatch.HashJoin
open Words Columnar Spill Joining
open Parallel (partitionOf nextPartitionCount)
variable {ι : Type}

/-- A probe row as it is stored: with keys, and their hash. -/
structure ProbeRow (config : Config) (row : Row ι) : Prop where
  valid : ∀ key ∈ config.outerKeys, (row.cell key).valid = true
  hash : row.hash = keyHash (entry config.outerKeys row).1

/-- The files of both sides, for the partitions from `first` on. -/
structure Stock (config : Config) (npartitions : Nat) (build probe : Nat → List (Row ι)) (first : Nat)
    (files : Side → SpillFiles ι) : Prop where
  inner : Shelf config.ninnerColumns npartitions false build first (files .build)
  outer : Shelf config.nouterColumns npartitions true probe first (files .probe)
  builds : ∀ partition, ∀ row ∈ build partition, BuildRow config row
  probes : ∀ partition, ∀ row ∈ probe partition, ProbeRow config row

/-- The pairs of one partition. -/
def partitionPairs (config : Config) (build probe : Nat → List (Row ι)) (partition : Nat) : List (ι × ι) :=
  matchPairs ((probe partition).map (entry config.outerKeys)) ((build partition).map (entry config.innerKeys))

/-- The pairs of the partitions from `first` on. -/
def stockPairs (config : Config) (build probe : Nat → List (Row ι)) (first npartitions : Nat) : List (ι × ι) :=
  (List.range' first (npartitions - first)).flatMap (partitionPairs config build probe)

section Stocks
variable {config : Config} {npartitions first : Nat} {build probe : Nat → List (Row ι)} {files files' : Side → SpillFiles ι}

theorem Stock.later (stock : Stock config npartitions build probe first files) {next : Nat} (behind : first ≤ next) :
    Stock config npartitions build probe next files :=
  ⟨stock.inner.later behind,stock.outer.later behind,stock.builds,stock.probes⟩

theorem Stock.touched (stock : Stock config npartitions build probe first files) {partition : Nat} (before : partition < first)
    (touches : ∀ side, Touches partition (files side) (files' side)) : Stock config npartitions build probe first files' :=
  ⟨stock.inner.touched before (touches .build),stock.outer.touched before (touches .probe),stock.builds,stock.probes⟩

theorem stockPairs_step (inside : first < npartitions) : stockPairs config build probe first npartitions =
    partitionPairs config build probe first ++ stockPairs config build probe (first + 1) npartitions := by
  have more : npartitions - first = npartitions - (first + 1) + 1 := by omega
  rw [stockPairs,more,List.range'_succ,List.flatMap_cons]
  rfl

theorem stockPairs_end (behind : npartitions ≤ first) : stockPairs config build probe first npartitions = [] := by
  rw [stockPairs,Nat.sub_eq_zero_of_le behind]
  rfl

/-- A partition without a file on either side has no pairs. -/
theorem Stock.unfiled (stock : Stock config npartitions build probe first files) {partition : Nat} (from_ : first ≤ partition)
    (missing : ((files .build).has partition && (files .probe).has partition) = false) :
    partitionPairs config build probe partition = [] := by
  rw [stock.inner.has from_,stock.outer.has from_,Bool.and_eq_false_iff,Bool.not_eq_false',Bool.not_eq_false',
    List.isEmpty_iff,List.isEmpty_iff] at missing
  rcases missing with none | none
  · simp [partitionPairs,none]
  · simp [partitionPairs,none]

theorem Stock.filed (stock : Stock config npartitions build probe first files) {partition : Nat} (from_ : first ≤ partition)
    (both : ((files .build).has partition && (files .probe).has partition) = true) :
    build partition ≠ [] ∧ probe partition ≠ [] := by
  rw [stock.inner.has from_,stock.outer.has from_,Bool.and_eq_true] at both
  refine ⟨fun none => ?_,fun none => ?_⟩
  · simp [none] at both
  · simp [none] at both

end Stocks

/-! Reading a file to its end. -/

/-- Reading moves the tape of its own partition only. -/
theorem readLoop_position {σ : Type} {body : σ → Store ι → Except String (σ × Bool)} {set after : SpillSet ι} {reader : Reader}
    {state last : σ} {more : Bool} (ran : readLoop body set reader state = .ok (after,last,more)) {other : Nat}
    (apart : other ≠ reader.partition) : after.position other = set.position other := by
  fun_induction readLoop body set reader state with
  | case1 => cases ran
  | case2 set reader state set' reader' next =>
    cases ran
    exact (readerNext_position next).2.2.1 other apart
  | case3 => cases ran
  | case4 set reader state set' reader' block next state' left =>
    cases ran
    exact (readerNext_position next).2.2.1 other apart
  | case5 set reader state set' reader' block next state' more ih =>
    obtain ⟨own,_,position,_⟩ := readerNext_position next
    exact (ih ran (by rw [own]; exact apart)).trans (position other apart)

/-- Parts that are kept: those for whose build rows there is a file. -/
def keptParts (matching : Option (Nat → Option HashSpillFile)) (partition : Nat) : Bool :=
  !(matching.any fun files => (files partition).isNone)

/-- The part of a row. -/
def rowPart (hashShift npartitions : Nat) (row : Row ι) : Nat :=
  repartitionOf hashShift npartitions row.hash

section Parts
variable [Inhabited ι] {ncolumns npartitions : Nat} (hashShift : Nat) (matching : Option (Nat → Option HashSpillFile))

omit [Inhabited ι] in
theorem repartitionOf_lt {hashShift : Nat} (positive : 0 < npartitions) (hash : BitVec 32) : repartitionOf hashShift npartitions hash < npartitions :=
  Nat.lt_of_le_of_lt Nat.and_le_right (Nat.sub_lt positive Nat.one_pos)

omit [Inhabited ι] in
theorem linkSpillRows (npartitions : Nat) (block : Store ι) (visits : List Nat) :
    Linking (fun row => repartitionOf hashShift npartitions (block.hashes row)) (keptParts matching) visits
      (visits.foldl (linkSpillRow hashShift npartitions matching block) Links.empty) := by
  induction visits using List.reverseRecOn with
  | nil => exact linking_empty ..
  | append_singleton before row ih =>
    rw [List.foldl_append,List.foldl_cons,List.foldl_nil]
    unfold linkSpillRow
    dsimp only
    split
    · rename_i gone
      exact ih.skip (by rw [keptParts,gone]; rfl)
    · rename_i kept
      exact ih.add (by rw [keptParts,Bool.not_eq_true',Bool.eq_false_iff]; exact kept)

omit [Inhabited ι] in
theorem rows_block (block : Store ι) (visits : List Nat) :
    (storeBlock block visits).rows ncolumns = visits.map (block.row ncolumns) :=
  rows_storeBlock ⟨block,0,fun _ => 0,fun _ => 0,0,0,false⟩ ncolumns visits

/-- The rows of a block go to their parts, if these are kept. -/
theorem repartitionBlock_ok {files : SpillFiles ι} (filed : Filed ncolumns npartitions files.files files.set.toWriters)
    (positive : 0 < npartitions) {block : Store ι} (small : block.nrows ≤ blockRows) :
    ∃ after, repartitionBlock ncolumns ncolumns hashShift npartitions matching files block = .ok (after,true) ∧
      Filed ncolumns npartitions after.files after.set.toWriters ∧
      ∀ partition, after.set.toWriters.contents partition = files.set.toWriters.contents partition ++
        if keptParts matching partition then part (rowPart hashShift npartitions) (block.rows ncolumns) partition else [] := by
  have linking := linkSpillRows hashShift matching npartitions block (List.range block.nrows)
  unfold repartitionBlock
  rw [if_neg (not_not_intro rfl)]
  generalize (List.range block.nrows).foldl (linkSpillRow hashShift npartitions matching block) Links.empty = links at linking
  obtain ⟨after,ran,filed',contents⟩ := linking.write (writeSpillRows block links.linked)
    (fun files : SpillFiles ι => Filed ncolumns npartitions files.files files.set.toWriters)
    (fun files => files.set.toWriters.contents) (by
      intro state partition used filed
      have some_ := (linking.used partition).mp used
      have sublist := linking.sublist partition
      have inside : partition < npartitions := by
        obtain ⟨row,member⟩ := List.exists_mem_of_ne_nil _ some_
        rw [linking.linked] at member
        split at member
        · rw [← (mem_part.mp member).2]
          exact repartitionOf_lt positive _
        · cases member
      have few : (links.linked partition).length ≤ blockRows := by
        have length := sublist.length_le
        rw [List.length_range] at length
        exact Nat.le_trans length small
      obtain ⟨writers,wrote,adds⟩ : ∃ writers, spillWriteDense state.set.toWriters partition
          (storeBlock block (links.linked partition)) = .ok writers ∧ _ :=
        writeDense_adds filed.valid (filed.npartitions ▸ inside) filed.unfinished (List.length_pos_of_ne_nil some_) few
      rw [filed.ncolumns,rows_block] at adds
      refine ⟨_,by rw [writeSpillRows,wrote]; rfl,filed.adds (by simpa using some_) adds,adds.contents⟩) filed
  refine ⟨after,by simp only [bind,Except.bind,ran],filed',fun partition => ?_⟩
  rw [contents,linking.linked]
  split
  · rw [part,part,Store.rows,List.filter_map]
    rfl
  · rfl

/-- All rows of a partition go to their parts. -/
theorem repartitionFile_ok {first partition n : Nat} {frozen : Bool} {rows : Nat → List (Row ι)} {source files : SpillFiles ι}
    (shelf : Shelf ncolumns n frozen rows first source) (from_ : first ≤ partition) (inside : partition < n)
    (filed : Filed ncolumns npartitions files.files files.set.toWriters)
    (empty : ∀ partition, files.set.toWriters.contents partition = []) (positive : 0 < npartitions) :
    ∃ source' after, repartitionFile ncolumns source partition hashShift npartitions matching files = .ok (source',after) ∧
      Touches partition source source' ∧ Filed ncolumns npartitions after.files after.set.toWriters ∧
      ∀ index, after.set.toWriters.contents index =
        if keptParts matching index then part (rowPart hashShift npartitions) (rows partition) index else [] := by
  obtain ⟨readable,unread,ahead⟩ := shelf.readable from_ inside
  obtain ⟨set,reader,opened,own,reads,position,left⟩ := fileReader_ok readable
  have holds := shelf.holds.reads reads
  have wide : set.ncolumns = ncolumns := by
    obtain ⟨_,_,same⟩ := reads
    rw [same]
    exact shelf.ncolumns
  let Inv (done : List (Store ι)) (files : SpillFiles ι) : Prop :=
    Filed ncolumns npartitions files.files files.set.toWriters ∧ ∀ index, files.set.toWriters.contents index =
      if keptParts matching index then part (rowPart hashShift npartitions) (done.flatMap (Store.rows ncolumns)) index else []
  obtain ⟨set',after,more,ran,reads',kept⟩ := readLoop_rule
    (repartitionBlock ncolumns source.set.ncolumns hashShift npartitions matching) Inv (fun _ => False)
    (source.set.files partition) [] holds (by rw [left,ahead,List.nil_append])
    (show Inv [] files from ⟨filed,fun index => by rw [empty]; simp⟩) (by
      rintro before block rest state split ⟨filed,contents⟩
      obtain ⟨_,small⟩ := shelf.holds.blocks partition block (by simp [split])
      obtain ⟨next,ran,filed',grown⟩ := repartitionBlock_ok hashShift matching filed positive small
      rw [shelf.ncolumns]
      refine ⟨next,true,ran,filed',fun index => ?_⟩
      rw [grown,contents,List.flatMap_append,List.flatMap_singleton,part_append]
      split <;> simp)
  cases more with
  | false => exact absurd kept id
  | true =>
    refine ⟨source.keep partition set' none,after,?_,?_,kept.1,?_⟩
    · rw [repartitionFile,rewindSpillFile_unread unread]
      simp only [bind,Except.bind,opened,ran]
    · refine touches_keep (reads.trans reads') (fun other apart => ?_) none
      exact (readLoop_position ran (by rw [own]; exact apart)).trans (position other apart)
    · intro index
      rw [kept.2,← shelf.holds.contents partition,shelf.ncolumns]

end Parts

section Divide
variable [Inhabited ι] {config : Config} {npartitions : Nat}

omit [Inhabited ι] in
theorem createRepartitions_ok (config : Config) {ncolumns : Nat} (columns : 0 < ncolumns) (positive : 0 < npartitions) :
    ∃ files : SpillFiles ι, createRepartitions config ncolumns npartitions = .ok files ∧
      Filed ncolumns npartitions files.files files.set.toWriters ∧ ∀ partition, files.set.toWriters.contents partition = [] := by
  have created := @spillCreate_ok ι (spillTupleDesc ncolumns) ncolumns npartitions (config.memoryLimit / 4) columns
    (by simp [spillTupleDesc]) positive (by
      intro attr member
      rw [List.eq_of_mem_replicate member]
      exact ⟨rfl,rfl⟩)
  exact ⟨_,by rw [createRepartitions,created]; rfl,filed_create,fun _ => rfl⟩

omit [Inhabited ι] in
/-- The part of a row is told by the hash of its keys. -/
theorem part_entries {keys : List Nat} {hashShift : Nat} {rows : List (Row ι)}
    (hashed : ∀ row ∈ rows, row.hash = keyHash (entry keys row).1) (index : Nat) :
    (part (rowPart hashShift npartitions) rows index).map (entry keys) =
      part (fun row : Entry ι => repartitionOf hashShift npartitions (keyHash row.1)) (rows.map (entry keys)) index := by
  rw [part,part,List.filter_map]
  congr 1
  apply List.filter_congr
  intro row member
  rw [rowPart,hashed row member]
  rfl

omit [Inhabited ι] in
/-- The parts have the pairs of the partition. -/
theorem parts_pairs {hashShift partition : Nat} {build probe parts others : Nat → List (Row ι)} (positive : 0 < npartitions)
    (builds : ∀ row ∈ build partition, BuildRow config row) (probes : ∀ row ∈ probe partition, ProbeRow config row)
    (inner : ∀ index, parts index = part (rowPart hashShift npartitions) (build partition) index)
    (outer : ∀ index, others index =
      if parts index = [] then [] else part (rowPart hashShift npartitions) (probe partition) index) :
    (stockPairs config parts others 0 npartitions).Perm (partitionPairs config build probe partition) := by
  have each (index : Nat) : partitionPairs config parts others index = matchPairs
      (part (fun row : Entry ι => repartitionOf hashShift npartitions (keyHash row.1))
        ((probe partition).map (entry config.outerKeys)) index)
      (part (fun row : Entry ι => repartitionOf hashShift npartitions (keyHash row.1))
        ((build partition).map (entry config.innerKeys)) index) := by
    rw [← part_entries (fun row member => (builds row member).hash),← part_entries (fun row member => (probes row member).hash),
      ← inner,partitionPairs,outer]
    split
    · rename_i none
      simp [none]
    · rfl
  rw [stockPairs,Nat.sub_zero,← List.range_eq_range',funext each]
  exact matchPairs_parts fun row _ => repartitionOf_lt positive _

/-- A partition is divided without an error, and its parts are there to be joined. -/
theorem dividePartition_ok (spill : BuildSpill ι) {state : PartitionState ι} {n first partition : Nat}
    {build probe : Nat → List (Row ι)} (stock : Stock config n build probe first (state.files .partitions))
    (from_ : first ≤ partition) (inside : partition < n) (positive : 0 < npartitions) :
    ∃ parts others source files, dividePartition config spill state partition npartitions = .ok {state with
        files := Level.choose source files
        repartitioned := true
        nrepartitions := npartitions
        nextRepartition := 0
        repartitionHashShift := spill.partitionShift + partitionBits npartitions} ∧
      (∀ side, Touches partition (state.files .partitions side) (source side)) ∧
      Stock config npartitions parts others 0 files ∧
      (stockPairs config parts others 0 npartitions).Perm (partitionPairs config build probe partition) := by
  obtain ⟨inner,created,filed,empty⟩ := createRepartitions_ok (ι := ι) config config.columns positive
  obtain ⟨outer,created',filed',empty'⟩ := createRepartitions_ok (ι := ι) config config.outer_columns positive
  obtain ⟨oldBuild,inner',divided,touches,filed,contents⟩ := repartitionFile_ok spill.partitionShift none
    stock.inner from_ inside filed empty positive
  obtain ⟨oldProbe,outer',divided',touches',filed',contents'⟩ := repartitionFile_ok spill.partitionShift
    (some inner'.files) stock.outer from_ inside filed' empty' positive
  obtain ⟨buildSet,ended,shelf⟩ := filed.finish false
  obtain ⟨probeSet,ended',shelf'⟩ := filed'.finish true
  have parts (index : Nat) : inner'.set.toWriters.contents index =
      part (rowPart spill.partitionShift npartitions) (build partition) index :=
    (contents index).trans (if_pos rfl)
  have others (index : Nat) : outer'.set.toWriters.contents index = if inner'.set.toWriters.contents index = [] then []
      else part (rowPart spill.partitionShift npartitions) (probe partition) index := by
    rw [contents',keptParts,Option.any_some,filed.file index]
    split <;> simp
  refine ⟨inner'.set.toWriters.contents,outer'.set.toWriters.contents,
    Side.choose (oldBuild.drop partition) (oldProbe.drop partition),
    Side.choose {inner' with set := buildSet} {outer' with set := probeSet},?_,?_,⟨shelf,shelf',?_,?_⟩,
    parts_pairs positive (stock.builds partition) (stock.probes partition) parts others⟩
  · unfold dividePartition
    simp only [bind,Except.bind,created,created',divided,divided',ended,ended']
  · intro side
    cases side with
    | build => exact touches.trans (touches_drop ..)
    | probe => exact touches'.trans (touches_drop ..)
  · intro index row member
    rw [parts] at member
    exact stock.builds partition row (List.mem_filter.mp member).1
  · intro index row member
    rw [others] at member
    split at member
    · cases member
    · exact stock.probes partition row (List.mem_filter.mp member).1

end Divide

end PgBatch.HashJoin
