import PgBatch.Nodes.HashJoinFilters
import PgBatch.Nodes.HashJoinRoutingRun

/-! The serial hash join as a whole, from its two children to its output: the table that
`build_hash_table` leaves, and all pairs of rows with equal keys, whatever was spilled. -/
namespace PgBatch.HashJoin
open Words Columnar Spill Joining
open Parallel (partitionOf)
variable {ι : Type} {config : Config} {inner : List (Batch ι)}

theorem entries_perm {left right : List (Row ι)} (same : (left.map bare).Perm (right.map bare)) (keys : List Nat) :
    (left.map (entry keys)).Perm (right.map (entry keys)) := by
  have both := same.map fun view => (keys.map fun key => view.2.2.getD key 0#32,view.1)
  rw [List.map_map,List.map_map] at both
  rw [funext (entry_bare keys)]
  exact both

theorem acceptedRows_builds {row : Row ι} (member : row ∈ acceptedRows config inner) : BuildRow config row := by
  obtain ⟨batch,_,taken⟩ := List.mem_flatMap.mp member
  obtain ⟨index,kept,rfl⟩ := List.mem_map.mp taken
  obtain ⟨values,found⟩ := Option.isSome_iff_exists.mp (List.mem_filter.mp kept).2
  obtain ⟨same,hash,_⟩ := accepted_row config.innerInside found
  exact ⟨by simp [Batch.row],by rw [hash,same]⟩

/-- So does a row that differs from one of them in the validity of its values only. -/
theorem bare_builds {row : Row ι} (taken : bare row ∈ (acceptedRows config inner).map bare) : BuildRow config row := by
  obtain ⟨original,member,same⟩ := List.mem_map.mp taken
  have build := acceptedRows_builds member
  have hash : original.hash = row.hash := congrArg (fun view => view.2.1) same
  have cells := congrArg (fun view => view.2.2.length) same
  simp only [bare,List.length_map] at cells
  exact ⟨cells ▸ build.width,by rw [← hash,build.hash,entry_bare,same,← entry_bare]⟩

section Tables
variable {state : BuildState ι} {spill : BuildSpill ι}

theorem Unlinked.few {store : BuildStore ι} (unlinked : Unlinked store) (roomy : Roomy store) : store.nrows ≤ 2 ^ 30 := by
  have allocated := unlinked.allocated
  have room := roomy.room
  unfold maxAllocSize at allocated
  omega

/-- With all rows in memory they are those of the table. -/
theorem finishBuild_memory (buildable : Buildable config (acceptedRows config inner) state) (unspilled : state.spill = none) :
    finishBuild config state = .error "invalid memory alloc request size" ∨
      ∃ table, finishBuild config state = .ok ⟨table,none,table.nrows⟩ ∧ Tabled config table ∧
        (tableEntries config table.toStore).Perm ((acceptedRows config inner).map (entry config.innerKeys)) := by
  have whole := buildable.whole unspilled
  have keyed : Keyed config state.build := keyed_rows buildable.unlinked.fresh (by rw [buildable.unlinked.shift]; decide)
    fun row member => (bare_builds (whole.subset (List.mem_map_of_mem member))).hash
  unfold finishBuild
  rw [unspilled]
  rcases finishTable_result keyed (buildable.unlinked.few buildable.roomy) with failed | ⟨table,ran,tabled,same⟩
  · rw [failed]
    exact .inl rfl
  · rw [ran]
    refine .inr ⟨table,rfl,tabled,?_⟩
    rw [tableEntries,same]
    exact entries_perm whole config.innerKeys

/-- The resident rows are those of the table, if there are any. -/
theorem finishResidentTable_result {store : BuildStore ι} (unlinked : Unlinked store) (roomy : Roomy store)
    (builds : ∀ row ∈ store.rows config.ninnerColumns, BuildRow config row) :
    finishResidentTable config store = .error "invalid memory alloc request size" ∨
      ∃ table, finishResidentTable config store = .ok table ∧ table.toStore = store.toStore ∧
        (store.nrows ≠ 0 → Tabled config table) := by
  unfold finishResidentTable
  split
  · have keyed : Keyed config {store with hashShift := 0} := keyed_rows unlinked.fresh (by simp) fun row member => (builds row member).hash
    rcases finishTable_result keyed (unlinked.few roomy) with failed | ⟨table,ran,tabled,same⟩
    · exact .inl failed
    · exact .inr ⟨table,ran,same,fun _ => tabled⟩
  · rename_i none
    exact .inr ⟨store,rfl,rfl,fun some_ => absurd (Nat.pos_of_ne_zero some_) none⟩

variable [Inhabited ι]

omit [Inhabited ι] in
theorem Sound.filed_sets (sound : Sound config spill) :
    Filed config.ninnerColumns spill.npartitions spill.buildFiles spill.buildSpill.toWriters := by
  refine ⟨sound.valid,sound.ncolumns,sound.npartitions,sound.unfinished,fun partition => ?_⟩
  split
  · rename_i empty
    exact sound.unfiled partition empty
  · rename_i rows_
    exact sound.filed partition rows_

omit [Inhabited ι] in
/-- Behind the switch to partitions the rows are those of the table and of the partitions. -/
theorem finishBuild_spilled (buildable : Buildable config (acceptedRows config inner) state) (spilled : state.spill = some spill)
    (some_ : state.buildRows ≠ 0) : finishBuild config state = .error "invalid memory alloc request size" ∨
      ∃ table after, finishBuild config state = .ok ⟨table,some after,state.buildRows⟩ ∧
        BuiltSide config after table ((acceptedRows config inner).map (entry config.innerKeys)) spill.contents := by
  obtain ⟨residency,_⟩ := buildable.residency spill spilled
  have filters := buildable.filters spill spilled
  have taken : ∀ row ∈ state.build.rows config.ninnerColumns ++ (List.range spill.npartitions).flatMap spill.contents,
      BuildRow config row := fun row member => bare_builds (residency.union.subset (List.mem_map_of_mem member))
  have stored : ∀ row ∈ state.build.rows config.ninnerColumns, BuildRow config row :=
    fun row member => taken row (List.mem_append_left _ member)
  have written : ∀ partition, ∀ row ∈ spill.contents partition, BuildRow config row := by
    intro partition row member
    have inside := (residency.placed partition row member).1
    exact taken row (List.mem_append_right _ (List.mem_flatMap.mpr ⟨partition,List.mem_range.mpr inside,member⟩))
  obtain ⟨set,finished,shelf⟩ := residency.sound.filed_sets.finish false
  unfold finishBuild
  rw [spilled]
  dsimp only
  rw [if_neg some_,finished]
  simp only [bind,Except.bind]
  rcases finishResidentTable_result buildable.unlinked buildable.roomy stored with failed | ⟨table,ran,same,tabled⟩
  · rw [failed]
    exact .inl rfl
  · rw [ran]
    refine .inr ⟨table,_,rfl,⟨residency.positive,?_,?_,written,?_,?_,?_⟩,?_,shelf,filters.chunk,filters.shift⟩
    · rw [tableEntries,same,← List.map_flatMap,← List.map_append]
      exact entries_perm residency.union config.innerKeys
    · intro row member
      rw [tableEntries,same] at member
      obtain ⟨original,among,rfl⟩ := List.mem_map.mp member
      rw [← (stored original among).hash]
      refine List.mem_filter.mpr ⟨residency.stored original among,decide_eq_true ?_⟩
      rw [residency.residentRows]
      exact Nat.ne_of_gt (List.length_pos_of_mem (mem_part.mpr ⟨among,rfl⟩))
    · intro partition row member
      obtain ⟨_,gone,here⟩ := residency.placed partition row member
      exact ⟨fun kept => gone (List.mem_filter.mp kept).1,here⟩
    · exact residency.sound.filed_sets.file
    · intro words found row member
      obtain ⟨original,among,rfl⟩ := List.mem_map.mp member
      rw [← (acceptedRows_builds among).hash]
      exact filters.bloom words found original.hash (List.mem_map_of_mem among)
    · intro kept
      apply tabled
      intro none
      obtain ⟨partition,member⟩ := List.exists_mem_of_ne_nil _ kept
      have rows_ := of_decide_eq_true (List.mem_filter.mp member).2
      have empty : state.build.rows config.ninnerColumns = [] := by
        rw [← List.length_eq_zero_iff,length_rows]
        exact none
      rw [residency.residentRows,empty] at rows_
      exact rows_ rfl

/-! The join. -/

omit [Inhabited ι] in
theorem beginProbe_filed (config : Config) {npartitions : Nat} (positive : 0 < npartitions) :
    ∃ probe : ProbeSpill ι, beginProbe config npartitions = .ok probe ∧ ProbeFiled config npartitions probe ∧
      probe.probeSpill.toWriters.contents = fun _ => [] := by
  have created := @spillCreate_ok ι (spillTupleDesc config.nouterColumns) config.nouterColumns npartitions
    (config.memoryLimit / 4) config.outer_columns (by simp [spillTupleDesc]) positive (by
      intro attr member
      rw [List.eq_of_mem_replicate member]
      exact ⟨rfl,rfl⟩)
  refine ⟨_,by rw [beginProbe,created]; rfl,?_,rfl⟩
  exact @filed_create ι config.nouterColumns npartitions (config.memoryLimit / 4)

/-- From its start a join that spilled delivers all pairs. -/
theorem BuiltSide.feeds {after : BuildSpill ι} {table : BuildStore ι} {entries : List (Entry ι)} {parts : Nat → List (Row ι)}
    (built : BuiltSide config after table entries parts) {buildRows : Nat} (some_ : buildRows ≠ 0) (outer : List (Batch ι))
    (side : ProbeSide config ι) (probeHashes : Nat → BitVec 32) (probeHashRows : BitVec 64) {probe : ProbeSpill ι}
    (filed : ProbeFiled config after.npartitions probe) (empty : probe.probeSpill.toWriters.contents = fun _ => []) :
    Feeds (serialProbes config) SerialJoin.pairTags GrowError
      ⟨.routing after buildRows (probeStart config table probe outer),side,probeHashes,probeHashRows⟩
      (matchPairs (outer.flatMap (batchEntries config.outerKeys config.outerBatchColumns)) entries) := by
  have none : stockPairs config parts (fun _ => []) 0 after.npartitions = [] := by
    simp [stockPairs,partitionPairs]
  have divides : Divides config after table entries parts (probeStart config table probe outer) [] (fun _ => [])
      (matchPairs (outer.flatMap (batchEntries config.outerKeys config.outerBatchColumns)) entries) :=
    ⟨rfl,buffers_init _,(by decide : 0 < pgBatchSize * 2),rfl,fun _ none => absurd none List.not_mem_nil,fun some_ => absurd rfl some_,
      fun _ _ none => absurd none List.not_mem_nil,fun _ => ⟨filed,empty⟩,fun ended => Bool.noConfusion ended,
      by rw [none]; exact .refl _⟩
  exact divides.feeds built some_ side probeHashes probeHashRows

/-- The join is set up, and delivers the pairs of rows with equal keys. -/
theorem buildHashTable_result (config : Config) (store : BuildStore ι) (inner outer : List (Batch ι)) :
    (∃ message, GrowError message ∧ buildHashTable config store inner outer = .error message) ∨
      ∃ join, buildHashTable config store inner outer = .ok join ∧
        Feeds (serialProbes config) SerialJoin.pairTags GrowError join (equiJoin config outer inner) := by
  unfold buildHashTable equiJoin
  rw [← acceptedRows_entries]
  rcases buildBatches_result config store inner with ⟨message,may,failed⟩ | ⟨state,ran,_⟩
  · exact .inl ⟨message,may,by rw [failed]; rfl⟩
  have buildable := buildBatches_buildable ran
  rw [ran]
  cases spilled : state.spill with
  | none =>
    rcases finishBuild_memory buildable spilled with failed | ⟨table,finished,tabled,entries⟩
    · refine .inl ⟨_,.inr rfl,?_⟩
      simp only [bind,Except.bind,failed]
    · refine .inr ⟨⟨.memory table outer,emptySide config,fun _ => 0#32,0#64⟩,?_,?_⟩
      · simp only [bind,Except.bind,finished]
        rfl
      · exact (memory_feeds tabled outer _ _ _).perm (matchPairs_perm (.refl _) entries)
  | some spill =>
    by_cases nothing : state.buildRows = 0
    · obtain ⟨residency,_⟩ := buildable.residency spill spilled
      obtain ⟨probe,began,_⟩ := beginProbe_filed config residency.positive
      have finished : finishBuild config state = .ok state := by
        unfold finishBuild
        rw [spilled]
        exact if_pos nothing
      have none : acceptedRows config inner = [] := by
        have count := buildable.buildRows
        rw [spilled,nothing] at count
        exact List.length_eq_zero_iff.mp count
      let join : SerialJoin config ι :=
        ⟨.routing spill state.buildRows (probeStart config state.build probe outer),emptySide config,fun _ => 0#32,0#64⟩
      refine .inr ⟨join,?_,?_⟩
      · simp only [bind,Except.bind,finished,startPhase,spilled,began]
        rfl
      · have ended : (serialProbes config).fetch join = .ok (join,.ended) := by
          change SerialJoin.fetchRouted join spill _ _ = _
          rw [SerialJoin.fetchRouted,fetchTurn,if_pos nothing]
          rfl
        exact .ended ended trivial (by rw [none,List.map_nil,matchPairs_nil_right])
    · rcases finishBuild_spilled buildable spilled nothing with failed | ⟨table,after,finished,built⟩
      · refine .inl ⟨_,.inr rfl,?_⟩
        simp only [bind,Except.bind,failed]
      · obtain ⟨probe,began,filed,empty⟩ := beginProbe_filed config built.positive
        refine .inr ⟨⟨.routing after state.buildRows (probeStart config table probe outer),emptySide config,
          fun _ => 0#32,0#64⟩,?_,built.feeds nothing outer _ _ _ filed empty⟩
        simp only [bind,Except.bind,finished,startPhase,began]

end Tables

end PgBatch.HashJoin
