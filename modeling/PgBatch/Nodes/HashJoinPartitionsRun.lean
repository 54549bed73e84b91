import PgBatch.Nodes.HashJoinDivide
import Mathlib.Data.Prod.Lex
import Mathlib.Order.WellFounded

/-! Runs of `hash_join_fetch_spilled_probe_batch`: partition after partition, divided or
not, chunk after chunk and block after block, all pairs of the partitions come up once. -/
namespace PgBatch.HashJoin
open Words Columnar Spill
open Parallel (nextPartitionCount)
variable {ι : Type}

/-- The pairs of a block of probe rows with the table. -/
def blockPairs (config : Config) (block : Store ι) (table : BuildStore ι) : List (ι × ι) :=
  matchPairs ((block.rows config.nouterColumns).map (entry config.outerKeys)) (tableEntries config table.toStore)

/-- From here on the partitions deliver blocks with these pairs, in some order, unless memory runs out. -/
inductive Supplies [Inhabited ι] (config : Config) (spill : BuildSpill ι) : PartitionState ι → List (ι × ι) → Prop
  | refused {state : PartitionState ι} {total : List (ι × ι)} {message : String}
      (failed : partitionTurn config spill state = .error message) (may : GrowError message) : Supplies config spill state total
  | ended {state after : PartitionState ι} {total : List (ι × ι)} (ran : partitionTurn config spill state = .ok (after,.ended))
      (none : total = []) : Supplies config spill state total
  | again {state after : PartitionState ι} {total : List (ι × ι)} (ran : partitionTurn config spill state = .ok (after,.again))
      (later : Supplies config spill after total) : Supplies config spill state total
  | block {state after : PartitionState ι} {total rest : List (ι × ι)}
      (ran : partitionTurn config spill state = .ok (after,.block)) (tabled : Tabled config after.build)
      (small : after.probeBlock.nrows ≤ blockRows)
      (probes : ∀ row ∈ after.probeBlock.rows config.nouterColumns, ProbeRow config row)
      (later : Supplies config spill after rest)
      (split : (blockPairs config after.probeBlock after.build ++ rest).Perm total) : Supplies config spill state total

section Supplying
variable [Inhabited ι] {config : Config} {spill : BuildSpill ι} {state other : PartitionState ι} {total total' : List (ι × ι)}

theorem Supplies.perm (supplies : Supplies config spill state total) (perm : total.Perm total') :
    Supplies config spill state total' := by
  induction supplies generalizing total' with
  | refused failed may => exact .refused failed may
  | ended ran none => exact .ended ran (List.Perm.eq_nil (none ▸ perm.symm))
  | again ran _ ih => exact .again ran (ih perm)
  | block ran tabled small probes later split _ => exact .block ran tabled small probes later (split.trans perm)

/-- What is delivered depends on the next turn only. -/
theorem Supplies.congr (supplies : Supplies config spill state total)
    (same : partitionTurn config spill other = partitionTurn config spill state) : Supplies config spill other total := by
  cases supplies with
  | refused failed may => exact .refused (same.trans failed) may
  | ended ran none => exact .ended (same.trans ran) none
  | again ran later => exact .again (same.trans ran) later
  | block ran tabled small probes later split => exact .block (same.trans ran) tabled small probes later split

end Supplying

/-! What work on a partition leaves as it is. -/

/-- The first partition of a level that has not been started. -/
def PartitionState.first (state : PartitionState ι) : Level → Nat :=
  Level.choose state.nextPartition state.nextRepartition

structure Works (level : Level) (partition : Nat) (before after : PartitionState ι) : Prop where
  touches : ∀ side, Touches partition (before.files level side) (after.files level side)
  others : ∀ other, other ≠ level → after.files other = before.files other
  nextPartition : after.nextPartition = before.nextPartition
  repartitioned : after.repartitioned = before.repartitioned
  nrepartitions : after.nrepartitions = before.nrepartitions
  nextRepartition : after.nextRepartition = before.nextRepartition
  shift : after.repartitionHashShift = before.repartitionHashShift

section Frames
variable {level : Level} {partition : Nat} {first second third : PartitionState ι}

theorem Works.refl (level : Level) (partition : Nat) (state : PartitionState ι) : Works level partition state state :=
  ⟨fun _ => .refl ..,fun _ _ => rfl,rfl,rfl,rfl,rfl,rfl⟩

theorem Works.trans (one : Works level partition first second) (two : Works level partition second third) :
    Works level partition first third :=
  ⟨fun side => (one.touches side).trans (two.touches side),fun other apart => (two.others other apart).trans (one.others other apart),
    two.nextPartition.trans one.nextPartition,two.repartitioned.trans one.repartitioned,
    two.nrepartitions.trans one.nrepartitions,two.nextRepartition.trans one.nextRepartition,two.shift.trans one.shift⟩

theorem works_setFiles (state : PartitionState ι) (side : Side) {files : SpillFiles ι}
    (touches : Touches partition (state.files level side) files) : Works level partition state (state.setFiles level side files) := by
  refine ⟨fun other => ?_,fun other apart => state.setFiles_level side files apart,rfl,rfl,rfl,rfl,rfl⟩
  by_cases same : other = side
  · subst same
    rw [state.setFiles_files]
    exact touches
  · rw [state.setFiles_side level files same]
    exact .refl ..

theorem Loads.works (loads : Loads level partition first second) : Works level partition first second := by
  obtain ⟨files,build,block,row,eof,more,touches,rfl⟩ := loads
  have works := works_setFiles first .build touches
  exact ⟨works.touches,works.others,rfl,rfl,rfl,rfl,rfl⟩

end Frames

/-! The partitions that are left. -/

/-- The parts of a divided partition that are left, with their pairs. -/
inductive PartsLeft (config : Config) (state : PartitionState ι) : List (ι × ι) → Prop
  | whole (undivided : state.repartitioned = false) : PartsLeft config state []
  | divided {build probe : Nat → List (Row ι)} (divided : state.repartitioned = true)
      (stock : Stock config state.nrepartitions build probe state.nextRepartition (state.files .repartitions))
      (shift : state.repartitionHashShift < 32) :
      PartsLeft config state (stockPairs config build probe state.nextRepartition state.nrepartitions)

/-- The partitions and parts that have not been started, with their pairs. -/
structure Schedule (config : Config) (spill : BuildSpill ι) (build probe : Nat → List (Row ι)) (state : PartitionState ι)
    (total : List (ι × ι)) : Prop where
  stock : Stock config spill.npartitions build probe state.nextPartition (state.files .partitions)
  left : ∃ parts, PartsLeft config state parts ∧
    total = parts ++ stockPairs config build probe state.nextPartition spill.npartitions

section Scheduling
variable {config : Config} {spill : BuildSpill ι} {build probe : Nat → List (Row ι)} {state after : PartitionState ι}
  {total : List (ι × ι)} {level : Level} {partition : Nat}

/-- Work on a partition that has been started leaves those that are left. -/
theorem Schedule.works (schedule : Schedule config spill build probe state total) (works : Works level partition state after)
    (front : partition < state.first level) : Schedule config spill build probe after total := by
  obtain ⟨stock,parts,left,split⟩ := schedule
  cases level with
  | partitions =>
    have other : after.files .repartitions = state.files .repartitions := works.others _ (by simp)
    refine ⟨works.nextPartition ▸ stock.touched front works.touches,parts,?_,by rw [split,works.nextPartition]⟩
    cases left with
    | whole undivided => exact .whole (works.repartitioned.trans undivided)
    | divided divided inner shift =>
      rw [← works.nrepartitions,← works.nextRepartition] at inner ⊢
      exact .divided (works.repartitioned.trans divided) (other ▸ inner) (works.shift ▸ shift)
  | repartitions =>
    have other : after.files .partitions = state.files .partitions := works.others _ (by simp)
    refine ⟨?_,parts,?_,by rw [split,works.nextPartition]⟩
    · rw [works.nextPartition,other]
      exact stock
    · cases left with
      | whole undivided => exact .whole (works.repartitioned.trans undivided)
      | divided divided inner shift =>
        have inner' := inner.touched front works.touches
        rw [← works.nrepartitions,← works.nextRepartition] at inner' ⊢
        exact .divided (works.repartitioned.trans divided) inner' (works.shift ▸ shift)

/-- The files of a finished partition are closed. -/
theorem finishActivePartition_ok (schedule : Schedule config spill build probe state total)
    (front : ∀ level partition, state.active = some (level,partition) → partition < state.first level) :
    Schedule config spill build probe (finishActivePartition state) total ∧
      (finishActivePartition state).nextPartition = state.nextPartition ∧
      (finishActivePartition state).nrepartitions = state.nrepartitions ∧
      (finishActivePartition state).nextRepartition = state.nextRepartition := by
  unfold finishActivePartition
  cases found : state.active with
  | none => exact ⟨schedule,rfl,rfl,rfl⟩
  | some place =>
    obtain ⟨level,partition⟩ := place
    dsimp only
    refine ⟨?_,rfl,rfl,rfl⟩
    have closes (files : SpillFiles ι) : Touches partition files (files.keep partition files.set none) :=
      touches_keep (.refl _) (fun _ _ => rfl) none
    have one := works_setFiles state .build (closes (state.files level .build))
    have two : Works level partition (state.setFiles level .build ((state.files level .build).keep partition
        (state.files level .build).set none)) _ :=
      works_setFiles _ .probe (by rw [state.setFiles_side level _ (by simp)]; exact closes (state.files level .probe))
    have both := one.trans two
    exact schedule.works ⟨both.touches,both.others,rfl,rfl,rfl,rfl,rfl⟩ (front level partition found)

/-- The files of a finished part are let go. -/
theorem finishRepartition_ok (schedule : Schedule config spill build probe state total) :
    Schedule config spill build probe (finishRepartition state) total ∧
      (finishRepartition state).nextPartition = state.nextPartition ∧
      (finishRepartition state).repartitioned = state.repartitioned ∧
      (finishRepartition state).nrepartitions = state.nrepartitions ∧
      (finishRepartition state).nextRepartition = state.nextRepartition := by
  unfold finishRepartition
  split
  · exact ⟨schedule,rfl,rfl,rfl,rfl⟩
  · rename_i some_
    refine ⟨?_,rfl,rfl,rfl,rfl⟩
    dsimp only
    have one := works_setFiles state .build (touches_drop (state.files .repartitions .build) (state.nextRepartition - 1))
    have two : Works .repartitions (state.nextRepartition - 1) (state.setFiles .repartitions .build
        ((state.files .repartitions .build).drop (state.nextRepartition - 1))) _ := works_setFiles _ .probe (by
      rw [state.setFiles_side .repartitions _ (by simp)]
      exact touches_drop (state.files .repartitions .probe) _)
    exact schedule.works (one.trans two) (Nat.sub_lt (Nat.pos_of_ne_zero some_) Nat.one_pos)

end Scheduling

/-! The partition that is worked on. -/

/-- A table is there for some of the build rows of the active partition, and `rest` are to follow. -/
structure Working (config : Config) (build probe : Nat → List (Row ι)) (level : Level) (partition : Nat)
    (rest : List (Row ι)) (blocks : List (Store ι)) (state : PartitionState ι) : Prop where
  loading : Loading config build level partition rest state
  readable : Readable probe partition (state.files level .probe)
  width : (state.files level .probe).set.ncolumns = config.nouterColumns
  frozen : (state.files level .probe).set.frozen = true
  ahead : (state.files level .probe).ahead partition = blocks
  among : ∀ block ∈ blocks, block ∈ (state.files level .probe).set.files partition
  builds : ∀ row ∈ rest, BuildRow config row
  probes : ∀ row ∈ probe partition, ProbeRow config row
  tabled : Tabled config state.build
  more : state.buildPartitionMore = false → rest = []
  active : state.partitionActive = true
  shift : state.activeHashShift < 32

/-- The pairs of the blocks ahead with the table, and those of all probe rows with the build rows to follow. -/
def activePairs (config : Config) (probe : Nat → List (Row ι)) (partition : Nat) (rest : List (Row ι))
    (blocks : List (Store ι)) (table : BuildStore ι) : List (ι × ι) :=
  blocks.flatMap (fun block => blockPairs config block table) ++
    matchPairs ((probe partition).map (entry config.outerKeys)) (rest.map (entry config.innerKeys))

section Active
variable {config : Config} {build probe : Nat → List (Row ι)} {level : Level} {partition : Nat} {rest : List (Row ι)}
  {blocks : List (Store ι)} {state after : PartitionState ι}

theorem Loading.congr (loading : Loading config build level partition rest state) (active : after.active = state.active)
    (files : after.files level .build = state.files level .build) (block : after.buildBlock = state.buildBlock)
    (row : after.buildBlockRow = state.buildBlockRow) (eof : after.buildFileEof = state.buildFileEof) :
    Loading config build level partition rest after :=
  ⟨active.trans loading.active,files ▸ loading.readable,files ▸ loading.width,by rw [files,block,row]; exact loading.rest,
    by rw [files,eof]; exact loading.eof,files ▸ loading.blocks⟩

/-- The pairs of some blocks are those of their rows. -/
theorem flatMap_blockPairs (blocks : List (Store ι)) (table : BuildStore ι) :
    (blocks.flatMap fun block => blockPairs config block table) =
      matchPairs ((blocks.flatMap (Store.rows config.nouterColumns)).map (entry config.outerKeys))
        (tableEntries config table.toStore) := by
  induction blocks with
  | nil => rfl
  | cons block rest ih =>
    rw [List.flatMap_cons,List.flatMap_cons,List.map_append,matchPairs_append_left,ih]
    rfl

/-- The blocks of a partition have its rows. -/
theorem blocks_pairs (partition : Nat) {files : SpillFiles ι} (holds : Holds files.set probe) (width : files.set.ncolumns = config.nouterColumns)
    (table : BuildStore ι) : (files.set.files partition).flatMap (fun block => blockPairs config block table) =
      matchPairs ((probe partition).map (entry config.outerKeys)) (tableEntries config table.toStore) := by
  rw [flatMap_blockPairs,← width,holds.contents]

theorem Working.place (working : Working config build probe level partition rest blocks state) :
    state.place = (level,partition) := by
  rw [PartitionState.place,working.loading.active]
  rfl

/-- A block of the active partition. -/
theorem Working.blockTurn_some (spill : BuildSpill ι) {block : Store ι}
    (working : Working config build probe level partition rest (block :: blocks) state) :
    ∃ after, blockTurn config spill state = .ok (after,.block) ∧ Works level partition state after ∧
      after.probeBlock = block ∧ after.build = state.build ∧ Working config build probe level partition rest blocks after ∧
      block.nrows ≤ blockRows ∧ ∀ row ∈ block.rows config.nouterColumns, ProbeRow config row := by
  obtain ⟨files,read,on⟩ := readSpillBlock_some working.readable working.width working.ahead
  have there := working.among block (List.mem_cons_self ..)
  have same : files.set.ncolumns = (state.files level .probe).set.ncolumns ∧
      files.set.frozen = (state.files level .probe).set.frozen ∧ files.set.files = (state.files level .probe).set.files := by
    obtain ⟨_,_,same⟩ := on.touches.reads
    rw [same]
    exact ⟨rfl,rfl,rfl⟩
  let next : PartitionState ι := {state.setFiles level .probe files with probeBlock := block}
  have here : next.files level .probe = files := state.setFiles_files ..
  have other : next.files level .build = state.files level .build := state.setFiles_side level files (by simp)
  have works : Works level partition state next := by
    have works := works_setFiles state .probe on.touches
    exact ⟨works.touches,works.others,rfl,rfl,rfl,rfl,rfl⟩
  refine ⟨next,?_,works,rfl,rfl,?_,(working.readable.holds.blocks partition block there).2,?_⟩
  · unfold blockTurn activeTurn
    rw [working.place]
    simp only [bind,Except.bind,read]
    rfl
  · refine ⟨working.loading.congr rfl other rfl rfl rfl,here ▸ on.readable,?_,?_,here ▸ on.ahead,?_,working.builds,
      working.probes,working.tabled,working.more,working.active,working.shift⟩
    · rw [here,same.1]
      exact working.width
    · rw [here,same.2.1]
      exact working.frozen
    · intro other member
      rw [here,same.2.2]
      exact working.among other (List.mem_cons_of_mem _ member)
  · intro row member
    apply working.probes
    rw [← working.readable.holds.contents partition,working.width]
    exact List.mem_flatMap.mpr ⟨block,there,member⟩

/-- At the end of the probe rows the next chunk is loaded and they are read again, or the partition is done. -/
theorem Working.blockTurn_none {spill : BuildSpill ι} (positive : 0 < spill.buildChunkRows)
    (working : Working config build probe level partition rest [] state) :
    (∃ message, GrowError message ∧ blockTurn config spill state = .error message) ∨
    (rest = [] ∧ ∃ after, blockTurn config spill state = .ok (after,.again) ∧ Works level partition state after ∧
      after.partitionActive = false ∧ after.active = some (level,partition)) ∨
    (rest ≠ [] ∧ ∃ after blocks, blockTurn config spill state = .ok (after,.again) ∧ Works level partition state after ∧
      Working config build probe level partition (rest.drop spill.buildChunkRows) blocks after ∧
      (activePairs config probe partition (rest.drop spill.buildChunkRows) blocks after.build).Perm
        (matchPairs ((probe partition).map (entry config.outerKeys)) (rest.map (entry config.innerKeys)))) := by
  obtain ⟨files,read,on⟩ := readSpillBlock_none working.readable config.nouterColumns working.ahead
  let middle : PartitionState ι := state.setFiles level .probe files
  have here : middle.files level .probe = files := state.setFiles_files ..
  have other : middle.files level .build = state.files level .build := state.setFiles_side level files (by simp)
  have works : Works level partition state middle := works_setFiles state .probe on.touches
  have loading : Loading config build level partition rest middle := working.loading.congr rfl other rfl rfl rfl
  have turn (result : Except String (PartitionState ι)) (chunk : nextChunk config spill middle = result) :
      blockTurn config spill state = (do
        let after ← result
        .ok (after,.again)) := by
    unfold blockTurn activeTurn
    rw [working.place]
    simp only [bind,Except.bind,read]
    subst chunk
    cases nextChunk config spill middle <;> rfl
  cases more : state.buildPartitionMore with
  | false =>
    refine .inr (.inl ⟨working.more more,{middle with partitionActive := false},?_,?_,rfl,loading.active⟩)
    · exact turn (.ok {middle with partitionActive := false}) (if_neg (by simp [middle,PartitionState.setFiles,more]))
    · exact ⟨works.touches,works.others,rfl,rfl,rfl,rfl,rfl⟩
  | true =>
    have again : middle.buildPartitionMore = true := more
    rcases loadBuildChunk_result spill loading working.builds positive working.shift with
      ⟨message,may,failed⟩ | ⟨none,after,ran,loads⟩ | ⟨some_,after,ran,loads,loading',tabled,entries,last⟩
    · refine .inl ⟨message,may,turn (.error message) ?_⟩
      rw [nextChunk,if_pos again,failed]
      rfl
    · have active : after.active = some (level,partition) := by
        obtain ⟨_,_,_,_,_,_,_,rfl⟩ := loads
        exact loading.active
      refine .inr (.inl ⟨none,{after with partitionActive := false},turn (.ok {after with partitionActive := false}) ?_,?_,rfl,active⟩)
      · rw [nextChunk,if_pos again,ran]
        rfl
      · have worked := works.trans loads.works
        exact ⟨worked.touches,worked.others,worked.nextPartition,worked.repartitioned,worked.nrepartitions,worked.nextRepartition,
          worked.shift⟩
    · have kept : after.files level .probe = files ∧ after.partitionActive = state.partitionActive ∧
          after.activeHashShift = state.activeHashShift := by
        obtain ⟨_,_,_,_,_,_,_,rfl⟩ := loads
        refine ⟨?_,rfl,rfl⟩
        dsimp only
        rw [middle.setFiles_side level _ (by simp)]
        exact here
      have froze : files.set.frozen = true ∧ files.set.ncolumns = config.nouterColumns := by
        have frozen := working.frozen
        have width := working.width
        obtain ⟨_,_,same⟩ := on.touches.reads
        rw [same]
        exact ⟨frozen,width⟩
      obtain ⟨rewound,again',on'⟩ := rewindSpillFile_frozen on.readable froze.1
      have same : rewound.set.ncolumns = files.set.ncolumns ∧ rewound.set.frozen = files.set.frozen ∧
          rewound.set.files = files.set.files := by
        obtain ⟨_,_,same⟩ := on'.touches.reads
        rw [same]
        exact ⟨rfl,rfl,rfl⟩
      let next : PartitionState ι := after.setFiles level .probe rewound
      have here' : next.files level .probe = rewound := after.setFiles_files ..
      have works' : Works level partition after next := works_setFiles after .probe (by rw [kept.1]; exact on'.touches)
      refine .inr (.inr ⟨some_,next,files.set.files partition,turn (.ok next) ?_,works.trans (loads.works.trans works'),?_,?_⟩)
      · have place : after.place = (level,partition) := by
          rw [PartitionState.place,loading'.active]
          rfl
        rw [nextChunk,if_pos again,ran]
        simp only [bind,Except.bind,if_true,place,kept.1,again']
        rfl
      · refine ⟨loading'.congr rfl (after.setFiles_side level rewound (by simp)) rfl rfl rfl,here' ▸ on'.readable,?_,?_,
          here' ▸ on'.ahead,?_,fun row member => working.builds row (List.mem_of_mem_drop member),working.probes,tabled,last,
          kept.2.1.trans working.active,?_⟩
        · rw [here',same.1]
          exact froze.2
        · rw [here',same.2.1]
          exact froze.1
        · intro block member
          rw [here',same.2.2]
          exact member
        · exact kept.2.2 ▸ working.shift
      · have whole := blocks_pairs partition on.readable.holds froze.2 after.build
        rw [activePairs]
        change (List.flatMap (fun block => blockPairs config block after.build) _ ++ _).Perm _
        rw [whole,entries,← List.take_append_drop spill.buildChunkRows rest,List.map_append]
        simp only [List.take_append_drop]
        exact matchPairs_append_right.symm

/-- A partition with rows on both sides is started with its first chunk. -/
theorem startPartitionFiles_result {spill : BuildSpill ι} {n hashShift : Nat} (state : PartitionState ι) (level : Level) (positive : 0 < spill.buildChunkRows)
    (stock : Stock config n build probe partition (state.files level)) (inside : partition < n)
    (some_ : build partition ≠ []) (shift : hashShift < 32) :
    (∃ message, GrowError message ∧ startPartitionFiles config spill state level partition hashShift = .error message) ∨
    ∃ after rest blocks, startPartitionFiles config spill state level partition hashShift = .ok (after,true) ∧
      Works level partition state after ∧ Working config build probe level partition rest blocks after ∧
      (activePairs config probe partition rest blocks after.build).Perm (partitionPairs config build probe partition) := by
  obtain ⟨readable,unread,ahead⟩ := stock.inner.readable (Nat.le_refl partition) inside
  obtain ⟨readable',unread',ahead'⟩ := stock.outer.readable (Nat.le_refl partition) inside
  let start : PartitionState ι := {state with
    active := some (level,partition)
    activeHashShift := hashShift
    buildBlock := {state.buildBlock with nrows := 0}
    buildBlockRow := 0
    buildFileEof := false}
  have same : state.setFiles level .build (state.files level .build) = state := by simp [PartitionState.setFiles]
  have loading : Loading config build level partition (build partition) start := by
    refine ⟨rfl,readable,stock.inner.ncolumns,?_,fun ended => Bool.noConfusion ended,?_⟩
    · change _ ++ List.flatMap _ ((state.files level .build).ahead partition) = _
      rw [ahead,← stock.inner.ncolumns,stock.inner.holds.contents]
      rfl
    · intro block member
      change block ∈ (state.files level .build).ahead partition at member
      rw [ahead] at member
      exact (stock.inner.holds.blocks partition block member).1
  unfold startPartitionFiles
  rw [rewindSpillFile_unread unread]
  simp only [bind,Except.bind,same]
  rcases loadBuildChunk_result spill loading (stock.builds partition) positive shift with
    ⟨message,may,failed⟩ | ⟨none,_⟩ | ⟨_,after,ran,loads,loading',tabled,entries,last⟩
  · exact .inl ⟨message,may,by rw [failed]⟩
  · exact absurd none some_
  · have kept : after.files level .probe = state.files level .probe ∧ after.activeHashShift = hashShift := by
      obtain ⟨files,_,_,_,_,_,_,rfl⟩ := loads
      exact ⟨start.setFiles_side level files (by simp),rfl⟩
    let next : PartitionState ι := {after.setFiles level .probe (state.files level .probe) with partitionActive := true}
    have here : next.files level .probe = state.files level .probe := after.setFiles_files ..
    have works : Works level partition after next := by
      have works : Works level partition after (after.setFiles level .probe (state.files level .probe)) :=
        works_setFiles after .probe (by rw [kept.1]; exact .refl ..)
      exact ⟨works.touches,works.others,rfl,rfl,rfl,rfl,rfl⟩
    have begun : Works level partition state start := ⟨fun _ => .refl ..,fun _ _ => rfl,rfl,rfl,rfl,rfl,rfl⟩
    refine .inr ⟨next,(build partition).drop spill.buildChunkRows,(state.files level .probe).set.files partition,?_,
      begun.trans (loads.works.trans works),?_,?_⟩
    · rw [ran]
      simp only [if_true,kept.1,rewindSpillFile_unread unread']
      rfl
    · refine ⟨loading'.congr rfl (after.setFiles_side level (state.files level .probe) (by simp)) rfl rfl rfl,
        here ▸ readable',here ▸ stock.outer.ncolumns,here ▸ stock.outer.frozen,here ▸ ahead',fun block member => here ▸ member,
        fun row member => stock.builds partition row (List.mem_of_mem_drop member),stock.probes partition,tabled,last,rfl,?_⟩
      exact kept.2 ▸ shift
    · have whole := blocks_pairs partition readable'.holds stock.outer.ncolumns after.build
      rw [activePairs]
      change (List.flatMap (fun block => blockPairs config block after.build) _ ++ _).Perm _
      rw [whole,entries]
      refine matchPairs_append_right.symm.trans ?_
      rw [← List.map_append,List.take_append_drop]
      exact .refl _

end Active

/-! The search for the next partition. -/

/-- The partitions to come and, behind them, the parts of the one that is divided. -/
def toDo (spill : BuildSpill ι) (state : PartitionState ι) : ℕ ×ₗ ℕ :=
  toLex (spill.npartitions - state.nextPartition,state.nrepartitions - state.nextRepartition)

theorem toDo_le {spill : BuildSpill ι} {after before : PartitionState ι} (next : after.nextPartition = before.nextPartition)
    (parts : after.nrepartitions - after.nextRepartition ≤ before.nrepartitions - before.nextRepartition) :
    toDo spill after ≤ toDo spill before := by
  rw [toDo,toDo,Prod.Lex.toLex_le_toLex,next]
  exact .inr ⟨rfl,parts⟩

theorem toDo_parts {spill : BuildSpill ι} {after before : PartitionState ι} (next : after.nextPartition = before.nextPartition)
    (parts : after.nrepartitions - after.nextRepartition < before.nrepartitions - before.nextRepartition) :
    toDo spill after < toDo spill before := by
  rw [toDo,toDo,Prod.Lex.toLex_lt_toLex,next]
  exact .inr ⟨rfl,parts⟩

theorem toDo_partitions {spill : BuildSpill ι} {after before : PartitionState ι} (inside : before.nextPartition < spill.npartitions)
    (next : before.nextPartition < after.nextPartition) : toDo spill after < toDo spill before := by
  rw [toDo,toDo,Prod.Lex.toLex_lt_toLex]
  exact .inl (Nat.sub_lt_sub_left inside next)

/-- How the search ends: with a partition to work on, or without one, which says `NoMore`. -/
inductive Started (config : Config) (spill : BuildSpill ι) (build probe : Nat → List (Row ι)) (before : PartitionState ι)
    (total : List (ι × ι)) (NoMore : PartitionState ι → Prop) : Except String (PartitionState ι × Bool) → Prop
  | refused {message : String} (may : GrowError message) : Started config spill build probe before total NoMore (.error message)
  | nothing {after : PartitionState ι} (noMore : NoMore after) :
      Started config spill build probe before total NoMore (.ok (after,false))
  | working {after : PartitionState ι} {level : Level} {partition : Nat} {inner outer : Nat → List (Row ι)}
      {rest : List (Row ι)} {blocks : List (Store ι)} {later : List (ι × ι)}
      (working : Working config inner outer level partition rest blocks after)
      (schedule : Schedule config spill build probe after later) (front : partition < after.first level)
      (pairs : (activePairs config outer partition rest blocks after.build ++ later).Perm total)
      (less : toDo spill after < toDo spill before) : Started config spill build probe before total NoMore (.ok (after,true))

section Search
variable {config : Config} {spill : BuildSpill ι} {build probe : Nat → List (Row ι)} {state before : PartitionState ι}
  {total total' : List (ι × ι)} {NoMore NoMore' : PartitionState ι → Prop} {result : Except String (PartitionState ι × Bool)}

theorem Started.weaken (started : Started config spill build probe state total NoMore result)
    (less : toDo spill state ≤ toDo spill before) (perm : total.Perm total') (ends : ∀ after, NoMore after → NoMore' after) :
    Started config spill build probe before total' NoMore' result := by
  cases started with
  | refused may => exact .refused may
  | nothing noMore => exact .nothing (ends _ noMore)
  | working working schedule front pairs less' =>
    exact .working working schedule front (pairs.trans perm) (lt_of_lt_of_le less' less)

/-- No parts are left of a divided partition. -/
structure Undivided (config : Config) (spill : BuildSpill ι) (build probe : Nat → List (Row ι)) (before : PartitionState ι)
    (total : List (ι × ι)) (after : PartitionState ι) : Prop where
  schedule : Schedule config spill build probe after total
  undivided : after.repartitioned = false
  next : after.nextPartition = before.nextPartition

theorem startRepartitions_result (state : PartitionState ι) (positive : 0 < spill.buildChunkRows) {left : Nat} {inner outer : Nat → List (Row ι)}
    (count : left = state.nrepartitions - state.nextRepartition) (divided : state.repartitioned = true)
    (stock : Stock config state.nrepartitions inner outer state.nextRepartition (state.files .repartitions))
    (shift : state.repartitionHashShift < 32)
    (others : Stock config spill.npartitions build probe state.nextPartition (state.files .partitions))
    (split : total = stockPairs config inner outer state.nextRepartition state.nrepartitions ++
      stockPairs config build probe state.nextPartition spill.npartitions) :
    Started config spill build probe state total (Undivided config spill build probe state total)
      (startRepartitions config spill left state) := by
  induction left generalizing state with
  | zero =>
    have none : stockPairs config inner outer state.nextRepartition state.nrepartitions = [] :=
      stockPairs_end (by omega)
    rw [none] at split
    exact .nothing ⟨⟨others,[],.whole rfl,split⟩,rfl,rfl⟩
  | succ left ih =>
    have inside : state.nextRepartition < state.nrepartitions := by omega
    rw [stockPairs_step inside,List.append_assoc] at split
    let next : PartitionState ι := {state with nextRepartition := state.nextRepartition + 1}
    have later : Schedule config spill build probe next (stockPairs config inner outer next.nextRepartition next.nrepartitions ++
        stockPairs config build probe next.nextPartition spill.npartitions) :=
      ⟨others,_,.divided divided (stock.later (Nat.le_succ _)) shift,rfl⟩
    have less : next.nrepartitions - next.nextRepartition < state.nrepartitions - state.nextRepartition := by
      simp only [next]
      omega
    unfold startRepartitions
    dsimp only
    split
    · rename_i both
      obtain ⟨some_,_⟩ := stock.filed (Nat.le_refl _) both
      rcases startPartitionFiles_result next .repartitions positive stock inside some_ shift with
        ⟨message,may,failed⟩ | ⟨after,rest,blocks,ran,works,working,pairs⟩
      · rw [failed]
        exact .refused may
      · rw [ran]
        refine .working working (later.works works (Nat.lt_succ_self _)) ?_ ?_ ?_
        · change _ < after.nextRepartition
          rw [works.nextRepartition]
          exact Nat.lt_succ_self _
        · rw [split]
          exact pairs.append_right _
        · exact toDo_parts works.nextPartition (by rw [works.nrepartitions,works.nextRepartition]; exact less)
    · rename_i missing
      have none := stock.unfiled (Nat.le_refl _) (by simpa using missing)
      rw [none,List.nil_append] at split
      obtain ⟨schedule,nextPartition,repartitioned,nrepartitions,nextRepartition⟩ := finishRepartition_ok later
      have stocks : Stock config (finishRepartition next).nrepartitions inner outer (finishRepartition next).nextRepartition
          ((finishRepartition next).files .repartitions) := by
        have dropped : Stock config _ inner outer _ ((finishRepartition next).files .repartitions) :=
          (stock.later (Nat.le_succ state.nextRepartition)).touched (Nat.lt_succ_self _) (by
            intro side
            cases side with
            | build =>
              have same : (finishRepartition next).files .repartitions .build =
                  (state.files .repartitions .build).drop state.nextRepartition := by
                simp [finishRepartition,next,PartitionState.setFiles]
              rw [same]
              exact touches_drop ..
            | probe =>
              have same : (finishRepartition next).files .repartitions .probe =
                  (state.files .repartitions .probe).drop state.nextRepartition := by
                simp [finishRepartition,next,PartitionState.setFiles]
              rw [same]
              exact touches_drop ..)
        rw [nrepartitions,nextRepartition]
        exact dropped
      have shifted : (finishRepartition next).repartitionHashShift = state.repartitionHashShift := by
        simp [finishRepartition,next,PartitionState.setFiles]
      refine (ih (finishRepartition next) ?_ (repartitioned.trans divided) stocks (shifted ▸ shift) schedule.stock ?_).weaken ?_ (.refl _) ?_
      · rw [nrepartitions,nextRepartition]
        simp only [next]
        omega
      · rw [split,nrepartitions,nextRepartition,nextPartition]
      · refine toDo_le nextPartition ?_
        rw [nrepartitions,nextRepartition]
        exact Nat.le_of_lt less
      · exact fun after undivided => ⟨undivided.schedule,undivided.undivided,undivided.next.trans nextPartition⟩

theorem startRepartition_result (positive : 0 < spill.buildChunkRows) (schedule : Schedule config spill build probe state total) :
    Started config spill build probe state total (Undivided config spill build probe state total)
      (startRepartition config spill state) := by
  unfold startRepartition
  cases divided : state.repartitioned with
  | false => exact .nothing ⟨schedule,divided,rfl⟩
  | true =>
    rw [if_pos rfl]
    obtain ⟨finished,nextPartition,repartitioned,nrepartitions,nextRepartition⟩ := finishRepartition_ok schedule
    obtain ⟨stock,parts,left,split⟩ := finished
    cases left with
    | whole undivided =>
      rw [repartitioned,divided] at undivided
      cases undivided
    | @divided inner outer _ inStock shift =>
      have started := startRepartitions_result (finishRepartition state) positive
        (by rw [nrepartitions,nextRepartition] : state.nrepartitions - state.nextRepartition = _) (repartitioned.trans divided) inStock shift stock split
      refine started.weaken (toDo_le nextPartition ?_) (.refl _) ?_
      · rw [nrepartitions,nextRepartition]
      · exact fun after undivided => ⟨undivided.schedule,undivided.undivided,undivided.next.trans nextPartition⟩

/-- There are at most 1024 partitions. -/
theorem partitionBits_le (required : Nat) : partitionBits (nextPartitionCount required) ≤ 10 := by
  obtain ⟨rounds,few,power⟩ := Doubling.doubled_power (fun result => decide (result < required) && decide (result < 1024)) 9 2
  rw [partitionBits,nextPartitionCount,power,← pow_succ,Nat.log2_two_pow]
  omega

variable [Inhabited ι]

/-- A partition of many chunks is divided, which leaves its pairs to the parts. -/
theorem repartitionCurrentPartition_result (state : PartitionState ι) {n first partition : Nat} (shift : spill.partitionShift ≤ 10)
    (stock : Stock config n build probe first (state.files .partitions)) (from_ : first ≤ partition) (inside : partition < n) :
    repartitionCurrentPartition config spill state partition = .ok (state,false) ∨
    ∃ after parts, repartitionCurrentPartition config spill state partition = .ok (after,true) ∧
      after.nextPartition = state.nextPartition ∧
      (∀ side, Touches partition (state.files .partitions side) (after.files .partitions side)) ∧
      PartsLeft config after parts ∧ parts.Perm (partitionPairs config build probe partition) := by
  unfold repartitionCurrentPartition
  dsimp only
  split
  · exact .inl rfl
  · generalize (spill.buildPartitionRows partition + spill.buildChunkRows - 1) / spill.buildChunkRows = required
    obtain ⟨inner,outer,source,files,ran,touches,parts,pairs⟩ := dividePartition_ok spill stock from_ inside
      (nextPartitionCount_positive required)
    rw [ran]
    refine .inr ⟨_,_,rfl,rfl,touches,.divided rfl parts ?_,pairs⟩
    have bits := partitionBits_le required
    change spill.partitionShift + partitionBits (nextPartitionCount required) < 32
    omega

theorem startPartitions_result (positive : 0 < spill.buildChunkRows) (shift : spill.partitionShift ≤ 10) {left : Nat}
    (count : left = spill.npartitions - state.nextPartition) (schedule : Schedule config spill build probe state total) :
    Started config spill build probe state total (fun _ => total = []) (startPartitions config spill left state) := by
  induction left generalizing state total with
  | zero =>
    unfold startPartitions
    have started := startRepartition_result positive schedule
    cases result : startRepartition config spill state with
    | error message =>
      rw [result] at started
      cases started with
      | refused may => exact .refused may
    | ok found =>
      obtain ⟨after,more⟩ := found
      rw [result] at started
      cases started with
      | working working later front pairs less => exact .working working later front pairs less
      | nothing undivided =>
        obtain ⟨stock,parts,left,split⟩ := undivided.schedule
        refine .nothing ?_
        rw [undivided.next,stockPairs_end (by omega)] at split
        cases left with
        | whole => exact split
        | divided divided => rw [undivided.undivided] at divided; cases divided
  | succ left ih =>
    unfold startPartitions
    have inside : state.nextPartition < spill.npartitions := by omega
    have started := startRepartition_result positive schedule
    cases result : startRepartition config spill state with
    | error message =>
      rw [result] at started
      cases started with
      | refused may => exact .refused may
    | ok found =>
      obtain ⟨after,more⟩ := found
      rw [result] at started
      cases started with
      | working working later front pairs less => exact .working working later front pairs less
      | nothing undivided =>
        obtain ⟨stock,parts,left_,split⟩ := undivided.schedule
        have nothing : parts = [] := by
          cases left_ with
          | whole => rfl
          | divided divided => rw [undivided.undivided] at divided; cases divided
        have here := undivided.next
        have inside' : after.nextPartition < spill.npartitions := by rw [here]; exact inside
        rw [nothing,List.nil_append,stockPairs_step inside'] at split
        let next : PartitionState ι := {after with nextPartition := after.nextPartition + 1}
        have less (last : PartitionState ι) (same : last.nextPartition = next.nextPartition) : toDo spill last < toDo spill state := by
          refine toDo_partitions inside ?_
          rw [same,← here]
          exact Nat.lt_succ_self _
        have later : Schedule config spill build probe next (stockPairs config build probe next.nextPartition spill.npartitions) :=
          ⟨stock.later (Nat.le_succ _),[],.whole undivided.undivided,rfl⟩
        have fewer : left = spill.npartitions - next.nextPartition := by
          simp only [next]
          omega
        simp only [bind,Except.bind,Bool.false_eq_true,if_false]
        split
        · rename_i both
          obtain ⟨some_,_⟩ := stock.filed (Nat.le_refl _) both
          rcases repartitionCurrentPartition_result next shift stock (Nat.le_refl _) inside' with
            whole | ⟨divided,parts,ran,same,touches,left_,pairs⟩
          · rw [whole]
            rcases startPartitionFiles_result next .partitions positive stock inside' some_
              (show spill.partitionShift < 32 by omega) with ⟨message,may,failed⟩ | ⟨last,rest,blocks,ran,works,working,pairs⟩
            · simp only [Bool.false_eq_true,if_false,failed]
              exact .refused may
            · simp only [Bool.false_eq_true,if_false,ran,if_true]
              refine .working working (later.works works (Nat.lt_succ_self _)) ?_ ?_ (less last works.nextPartition)
              · change _ < last.nextPartition
                rw [works.nextPartition]
                exact Nat.lt_succ_self _
              · rw [split]
                exact pairs.append_right _
          · rw [ran]
            simp only [if_true]
            have schedule' : Schedule config spill build probe divided
                (parts ++ stockPairs config build probe divided.nextPartition spill.npartitions) := by
              refine ⟨?_,parts,left_,rfl⟩
              rw [same]
              exact (stock.later (Nat.le_succ _)).touched (Nat.lt_succ_self _) touches
            refine (ih (by rw [same]; exact fewer) schedule').weaken (le_of_lt (less divided same)) ?_ ?_
            · rw [split,same]
              exact pairs.append_right _
            · intro _ none
              have perm : (parts ++ stockPairs config build probe divided.nextPartition spill.npartitions).Perm total := by
                rw [split,same]
                exact pairs.append_right _
              exact List.Perm.eq_nil (none ▸ perm.symm)
        · rename_i missing
          have none := stock.unfiled (Nat.le_refl _) (by simpa using missing)
          rw [none,List.nil_append] at split
          exact (ih fewer later).weaken (le_of_lt (less next rfl)) (by rw [split]) fun _ none => split.trans none

/-- The search starts with the files of the last partition closed. -/
theorem startNextPartition_result (positive : 0 < spill.buildChunkRows) (shift : spill.partitionShift ≤ 10)
    (schedule : Schedule config spill build probe state total)
    (front : ∀ level partition, state.active = some (level,partition) → partition < state.first level) :
    Started config spill build probe state total (fun _ => total = []) (startNextPartition config spill state) := by
  obtain ⟨finished,next,nrepartitions,nextRepartition⟩ := finishActivePartition_ok schedule front
  unfold startNextPartition
  refine (startPartitions_result positive shift (by rw [next]) finished).weaken (toDo_le next ?_) (.refl _) fun _ none => none
  rw [nrepartitions,nextRepartition]

end Search

/-! The run. -/

section Run
variable [Inhabited ι] {config : Config} {spill : BuildSpill ι} {build probe : Nat → List (Row ι)} {state : PartitionState ι}
  {total : List (ι × ι)}

/-- The active partition is delivered before those that are left. -/
theorem Working.supplies {inner outer : Nat → List (Row ι)} {level : Level} {partition : Nat} {rest : List (Row ι)}
    {blocks : List (Store ι)} {later : List (ι × ι)} (positive : 0 < spill.buildChunkRows)
    (behind : ∀ after, Works level partition state after → after.partitionActive = false →
      after.active = some (level,partition) → Supplies config spill after later)
    (working : Working config inner outer level partition rest blocks state) :
    Supplies config spill state (activePairs config outer partition rest blocks state.build ++ later) := by
  generalize size : rest.length = count
  induction count using Nat.strong_induction_on generalizing rest blocks state with
  | _ count ih =>
    induction blocks generalizing state with
    | nil =>
      have turn : partitionTurn config spill state = blockTurn config spill state := if_pos working.active
      rcases working.blockTurn_none positive with ⟨message,may,failed⟩ | ⟨none,after,ran,works,idle,active⟩ |
        ⟨some_,after,blocks,ran,works,working',pairs⟩
      · exact .refused (turn.trans failed) may
      · refine .again (turn.trans ran) ?_
        have nothing : activePairs config outer partition rest [] state.build = [] := by simp [activePairs,none]
        rw [nothing,List.nil_append]
        exact behind after works idle active
      · have shorter : (rest.drop spill.buildChunkRows).length < count := by
          have := List.length_pos_of_ne_nil some_
          rw [List.length_drop]
          omega
        have supplies := ih _ shorter (fun last works' => behind last (works.trans works')) working' rfl
        exact .again (turn.trans ran) (supplies.perm (pairs.append_right later))
    | cons block blocks ih' =>
      obtain ⟨after,ran,works,same,table,working',small,probes⟩ := working.blockTurn_some spill
      have turn : partitionTurn config spill state = blockTurn config spill state := if_pos working.active
      have supplies := ih' (fun last works' => behind last (works.trans works')) working'
      refine .block (turn.trans ran) working'.tabled (same ▸ small) (same ▸ probes) supplies ?_
      rw [same,table,activePairs,activePairs,List.flatMap_cons,List.append_assoc,List.append_assoc,List.append_assoc]

/-- From any schedule on, all its pairs come up. -/
theorem Schedule.supplies (positive : 0 < spill.buildChunkRows) (shift : spill.partitionShift ≤ 10)
    (schedule : Schedule config spill build probe state total) (idle : state.partitionActive = false)
    (front : ∀ level partition, state.active = some (level,partition) → partition < state.first level) :
    Supplies config spill state total := by
  generalize left : toDo spill state = bound
  induction bound using WellFoundedLT.induction generalizing state total with
  | _ bound ih =>
    have started := startNextPartition_result positive shift schedule front
    have turn : partitionTurn config spill state = (do
        let found ← startNextPartition config spill state
        if found.2 then blockTurn config spill found.1 else .ok (found.1,.ended)) := if_neg (by simp [idle])
    cases result : startNextPartition config spill state with
    | error message =>
      rw [result] at started turn
      cases started with
      | refused may => exact .refused turn may
    | ok found =>
      obtain ⟨after,more⟩ := found
      rw [result] at started turn
      cases started with
      | nothing none => exact .ended turn none
      | @working _ level partition inner outer rest blocks later working schedule' front' pairs less =>
        refine Supplies.perm (Supplies.congr (working.supplies positive ?_) ?_) pairs
        · intro last works idle' active
          refine ih _ (?_ : toDo spill last < bound) (schedule'.works works front') idle' ?_ rfl
          · rw [← left]
            refine lt_of_le_of_lt (toDo_le works.nextPartition ?_) less
            rw [works.nrepartitions,works.nextRepartition]
          · rintro other place found
            rw [active] at found
            cases found
            have same : last.first level = after.first level := by
              cases level with
              | partitions => exact works.nextPartition
              | repartitions => exact works.nextRepartition
            rw [same]
            exact front'
        · rw [turn]
          exact (if_pos working.active).symm

/-- When all outer rows have been divided, the pairs of all partitions come up. -/
theorem partitions_supply {probeSpill : ProbeSpill ι} {store : BuildStore ι} (positive : 0 < spill.buildChunkRows)
    (shift : spill.partitionShift ≤ 10)
    (stock : Stock config spill.npartitions build probe 0 ((partitionsStart spill probeSpill store).files .partitions)) :
    Supplies config spill (partitionsStart spill probeSpill store) (stockPairs config build probe 0 spill.npartitions) :=
  Schedule.supplies positive shift ⟨stock,[],.whole rfl,rfl⟩ rfl fun _ _ none => by cases none

end Run

end PgBatch.HashJoin
