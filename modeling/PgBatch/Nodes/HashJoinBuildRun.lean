import PgBatch.Nodes.HashJoinResidency

/-! Runs of the loop over the inner batches, from `build_hash_table` on. -/
namespace PgBatch.HashJoin
open Words Columnar Spill Joining Doubling
open Parallel (partitionOf nextPartitionCount)

variable {ι β : Type} {config : Config} {view : Row ι → β} {accepted : List (Row ι)}
  {store store' : BuildStore ι} {spill after : BuildSpill ι}

theorem nextPartitionCount_positive (required : Nat) : 0 < nextPartitionCount required :=
  Nat.lt_of_lt_of_le Nat.two_pos (le_doubled ..)

/-- A join has inner columns, since it has keys. -/
theorem Config.columns (config : Config) : 0 < config.ninnerColumns := by
  obtain ⟨key,member⟩ := List.exists_mem_of_ne_nil _ config.keyed
  exact Nat.lt_of_le_of_lt (Nat.zero_le _) (config.innerInside key member)

/-- The spill starts with no rows, so that the store has all of them. -/
theorem beginSpill_ledger (config : Config) (estimatedBytes estimatedRows : Nat)
    (same : ((store.rows config.ninnerColumns).map view).Perm (accepted.map view)) :
    ∃ spill, beginSpill config store estimatedBytes estimatedRows = .ok spill ∧
      Ledger view config accepted store spill ∧ spill.residentPartitionRows = (fun _ => 0) ∧ spill.residentBuildRows = 0 := by
  let npartitions := nextPartitionCount
    (max ((estimatedBytes + config.memoryLimit - 1) % 2 ^ 64 / config.memoryLimit) config.plannedPartitions)
  have positive : 0 < npartitions := nextPartitionCount_positive _
  have created := @spillCreate_ok ι (spillTupleDesc config.ninnerColumns) config.ninnerColumns npartitions
    (config.memoryLimit / 4) config.columns (by simp [spillTupleDesc]) positive
    (by
      intro attr member
      rw [List.eq_of_mem_replicate member]
      exact ⟨rfl,rfl⟩)
  have none (partition : Nat) : (create config.ninnerColumns npartitions (config.memoryLimit / 4) : Writers ι).contents
      partition = [] := rfl
  refine ⟨_,by unfold beginSpill; simp only [bind,Except.bind]; rw [created],?_⟩
  refine ⟨⟨⟨create_valid ..,rfl,rfl,rfl,fun _ _ => rfl,fun partition some => absurd (none partition) some⟩,positive,?_,
    List.nodup_range,?_,?_,fun partition => rfl⟩,rfl,rfl⟩
  · intro partition member
    have below := List.mem_range.mp member
    change partition < npartitions
    split at below <;> omega
  · have nowhere : (List.range npartitions).flatMap
        (create config.ninnerColumns npartitions (config.memoryLimit / 4) : Writers ι).contents = [] := by
      simp [none]
    change (List.map view (_ ++ (List.range npartitions).flatMap
      (create config.ninnerColumns npartitions (config.memoryLimit / 4) : Writers ι).contents)).Perm _
    rw [nowhere,List.append_nil]
    exact same
  · exact fun partition row member => absurd (show row ∈ ([] : List (Row ι)) from member) List.not_mem_nil

/-- What holds between two inner batches. -/
structure Between (view : Row ι → β) (config : Config) (accepted : List (Row ι)) (state : BuildState ι) : Prop where
  roomy : Roomy state.build
  whole : state.spill = none → ((state.build.rows config.ninnerColumns).map view).Perm (accepted.map view)
  residency : ∀ spill, state.spill = some spill → Residency view config accepted state.build spill ∧
    Fits config state.build spill
  buildRows : (state.spill.elim 0 fun _ => accepted.length) = state.buildRows

variable [Inhabited ι]

/-- The rows that the next batch would store, and what they find in their slots. -/
def Honest (view : Row ι → β) (config : Config) (store : BuildStore ι) (added : List (Row ι)) : Prop :=
  (storedFrom config store store.nrows added).map view = added.map view

/-- The rows of a batch that go to the store. -/
def stores (config : Config) (state : BuildState ι) (batch : Batch ι) : List (Row ι) :=
  match state.spill with
  | none => batchRows config batch
  | some spill => storedRows config spill (loadColumns config.innerBatchColumns batch) (hashed config batch).1
      (rows (hashed config batch).2)

omit [Inhabited ι] in
theorem roomy_reset (store : BuildStore ι) : Roomy (resetBuildStore store) :=
  ⟨Nat.le_refl 0,Nat.dvd_zero 64,fun _ _ _ => rfl⟩

omit [Inhabited ι] in
theorem resizeBuildStore_ok {capacity : Nat} (roomy : Roomy store) (empty : store.nrows = 0) (words : 64 ∣ capacity)
    (ran : resizeBuildStore store capacity = .ok store') : Roomy store' ∧ store'.nrows = 0 := by
  unfold resizeBuildStore at ran
  split at ran
  · cases ran
  · rename_i grows
    split at ran
    · cases ran
    · cases ran
      refine ⟨⟨by simp [empty],words,?_⟩,empty⟩
      intro column slot above
      have beyond := roomy.beyond column slot (by simp only at above; omega)
      simp [beyond]

omit [Inhabited ι] in
theorem resizeBuildStore_error {capacity : Nat} {message : String} (failed : resizeBuildStore store capacity = .error message) :
    GrowError message := by
  unfold resizeBuildStore at failed
  split at failed
  · cases failed
    exact .inl rfl
  · split at failed
    · cases failed
      exact .inr rfl
    · cases failed

omit [Inhabited ι] in
theorem firstStore_ok (ran : firstStore config store = .ok store') : Roomy store' ∧ store'.nrows = 0 := by
  unfold firstStore at ran
  dsimp only at ran
  have roomy := roomy_reset store
  split at ran
  · have roomy' : Roomy {resetBuildStore store with hashShift := 0} := ⟨roomy.room,roomy.words,roomy.beyond⟩
    refine resizeBuildStore_ok roomy' rfl ?_ ran
    obtain ⟨rounds,_,doubles⟩ := doubled_power
      (fun capacity => capacity < config.estimatedRows && capacity ≤ (2 ^ 32 - 1) / 2) 21 1024
    rw [doubles]
    exact Dvd.dvd.mul_left (by decide) _
  · cases ran
    exact ⟨⟨roomy.room,roomy.words,roomy.beyond⟩,rfl⟩

omit [Inhabited ι] in
theorem firstStore_error {message : String} (failed : firstStore config store = .error message) : GrowError message := by
  unfold firstStore at failed
  dsimp only at failed
  split at failed
  · exact resizeBuildStore_error failed
  · cases failed

omit [Inhabited ι] in
theorem firstSpill_residency (view : Row ι → β) (config : Config) (empty : store.nrows = 0) :
    ∃ spill, firstSpill config store = .ok spill ∧ ∀ spill', spill = some spill' → Residency view config [] store spill' := by
  have none : store.rows config.ninnerColumns = [] := by
    rw [← List.length_eq_zero_iff,length_rows,empty]
  unfold firstSpill
  split
  · obtain ⟨spill,begun,ledger,zero,zero'⟩ : ∃ spill, beginSpill config store
        (config.memoryLimit * config.plannedPartitions % 2 ^ 64) config.estimatedRows = .ok spill ∧
        Ledger view config [] store spill ∧ _ := beginSpill_ledger config _ _ (by rw [none])
    refine ⟨some spill,by rw [begun]; rfl,?_⟩
    rintro _ ⟨⟩
    refine ⟨ledger,by simp [none],?_,by rw [zero',empty]⟩
    intro partition
    rw [zero,none]
    rfl
  · exact ⟨_,rfl,fun _ => nofun⟩

omit [Inhabited ι] in
/-- Whatever the store held before, the loop starts with an empty one. -/
theorem buildStart_result (view : Row ι → β) (config : Config) (store : BuildStore ι) :
    (∃ message, GrowError message ∧ buildStart config store = .error message) ∨
      ∃ state, buildStart config store = .ok state ∧ Between view config [] state := by
  unfold buildStart
  cases first : firstStore config store with
  | error message => exact .inl ⟨message,firstStore_error first,rfl⟩
  | ok ready =>
    obtain ⟨roomy,empty⟩ := firstStore_ok first
    obtain ⟨spill,began,residency⟩ := firstSpill_residency view config empty
    refine .inr ⟨⟨ready,spill,0⟩,by simp only [bind,Except.bind,began],roomy,?_,?_,?_⟩
    · intro _
      have none : ready.rows config.ninnerColumns = [] := by
        rw [← List.length_eq_zero_iff,length_rows,empty]
      rw [none]
    · exact fun spill' some => ⟨residency spill' some,.inr empty⟩
    · cases spill <;> rfl

/-- The switch writes out what no longer fits. -/
theorem switchToSpill_between {state : BuildState ι} (between : Between view config accepted state) (batch : Batch ι) :
    ∃ middle, switchToSpill config state batch = .ok middle ∧ Between view config accepted middle := by
  unfold switchToSpill
  dsimp only
  cases spilled : state.spill with
  | some spill => exact ⟨state,rfl,between⟩
  | none =>
    have whole := between.whole spilled
    have count : state.buildRows = 0 := by
      have rows_ := between.buildRows
      rw [spilled] at rows_
      exact rows_.symm
    dsimp only
    split
    · exact ⟨state,rfl,between⟩
    · generalize state.build.nrows + popcount batch.selection = nrows
      obtain ⟨spill,begun,ledger,_⟩ := beginSpill_ledger config (estimatedBuildMemory nrows config.ninnerColumns) nrows whole
      obtain ⟨store,written,wrote,spills⟩ := spillBuildStore_spills state.build ledger.sound
      obtain ⟨store',after,limited,residency,fits,keeps⟩ := limitResidentBuild_fits (ledger.spills spills)
      refine ⟨⟨store',some after,state.buildRows + state.build.nrows⟩,?_,?_,nofun,?_,?_⟩
      · rw [begun]
        simp only [bind,Except.bind,wrote,limited]
      · exact keeps.roomy (spills.keeps.roomy between.roomy)
      · rintro _ ⟨⟩
        exact ⟨residency,fits⟩
      · have length := whole.length_eq
        rw [List.length_map,List.length_map,length_rows] at length
        simp only [Option.elim_some,count,length,Nat.zero_add]

/-- One batch of the loop. -/
theorem takeBatch_result {state : BuildState ι} (between : Between view config accepted state) (batch : Batch ι)
    (honest : Honest view config state.build (stores config state batch)) :
    (∃ message, GrowError message ∧ takeBatch config state batch = .error message) ∨
      ∃ state', takeBatch config state batch = .ok state' ∧
        Between view config (accepted ++ batchRows config batch) state' := by
  unfold takeBatch
  dsimp only
  cases spilled : state.spill with
  | some spill =>
    obtain ⟨residency,_⟩ := between.residency spill spilled
    rw [Honest,stores,spilled] at honest
    dsimp only at honest ⊢
    rcases appendOrSpill_result residency between.roomy batch honest with ⟨message,refused,failed⟩ | ⟨store',after,ran,rest⟩
    · refine .inl ⟨message,refused,?_⟩
      rw [failed]
      rfl
    · obtain ⟨residency',fits,roomy,_⟩ := rest
      refine .inr ⟨⟨store',some after,state.buildRows + (batchRows config batch).length⟩,?_,roomy,nofun,?_,?_⟩
      · rw [ran]
        rfl
      · rintro _ ⟨⟩
        exact ⟨residency',fits⟩
      · have count := between.buildRows
        rw [spilled,Option.elim_some] at count
        simp only [Option.elim_some,List.length_append,count]
  | none =>
    have whole := between.whole spilled
    rw [Honest,stores,spilled] at honest
    dsimp only at honest ⊢
    have visits : (rows (hashed config batch).2).foldlM (fun store row => appendBuildRow config store
          (inputRow config.ninnerColumns (loadColumns config.innerBatchColumns batch) (hashed config batch).1 row))
        state.build = (batchRows config batch).foldlM (appendBuildRow config) state.build := by
      rw [batchRows_eq,List.foldlM_map]
    rw [visits]
    cases stored : (batchRows config batch).foldlM (appendBuildRow config) state.build with
    | error message =>
      exact .inl ⟨message,Results.foldlM_fails GrowError (fun _ _ _ => appendBuildRow_error) stored,rfl⟩
    | ok store =>
      obtain ⟨appends,_,rows_⟩ := appendRows_ok between.roomy stored
      refine .inr ⟨_,rfl,appends.roomy,?_,fun spill some => absurd some (by simp),?_⟩
      · intro _
        dsimp only
        rw [rows_,List.map_append,List.map_append,honest]
        exact whole.append_right _
      · have count := between.buildRows
        rwa [spilled] at count

theorem buildBatch_result {state : BuildState ι} (between : Between view config accepted state) (batch : Batch ι)
    (honest : ∀ middle, switchToSpill config state batch = .ok middle →
      Honest view config middle.build (stores config middle batch)) :
    (∃ message, GrowError message ∧ buildBatch config state batch = .error message) ∨
      ∃ state', buildBatch config state batch = .ok state' ∧
        Between view config (accepted ++ batchRows config batch) state' := by
  obtain ⟨middle,switched,between'⟩ := switchToSpill_between between batch
  unfold buildBatch
  rw [switched]
  exact takeBatch_result between' batch (honest middle switched)

/-! The run. -/

/-- A row without the validity of its values. -/
def bare (row : Row ι) : ι × BitVec 32 × List Int4 :=
  (row.tag,row.hash,row.cells.map Columnar.Cell.value)

omit [Inhabited ι] in
theorem bare_storedAt (slot : Nat) {row : Row ι} (width : row.cells.length = config.ninnerColumns) :
    bare (storedAt config store slot row) = bare row := by
  have cells := congrArg (List.map Columnar.Cell.value) (Columnar.cells_eq width)
  rw [List.map_map] at cells
  simp only [bare,storedAt,List.map_map,← cells]
  rfl

omit [Inhabited ι] in
/-- Storing keeps all of a row but its validity. -/
theorem honest_bare {added : List (Row ι)} (width : ∀ row ∈ added, row.cells.length = config.ninnerColumns) :
    Honest bare config store added := by
  unfold Honest
  generalize store.nrows = slot
  induction added generalizing slot with
  | nil => rfl
  | cons row rest ih =>
    rw [storedFrom,List.map_cons,List.map_cons,bare_storedAt slot (width row (List.mem_cons_self ..)),
      ih fun row member => width row (List.mem_cons_of_mem _ member)]

omit [Inhabited ι] in
theorem stores_width {state : BuildState ι} {batch : Batch ι} {row : Row ι} (member : row ∈ stores config state batch) :
    row.cells.length = config.ninnerColumns := by
  unfold stores at member
  split at member
  · obtain ⟨index,_,rfl⟩ := List.mem_map.mp member
    simp [Batch.row]
  · obtain ⟨index,_,rfl⟩ := List.mem_map.mp member
    exact length_inputRow ..

/-- The rows that the join has taken from the inner batches. -/
def acceptedRows (config : Config) (batches : List (Batch ι)) : List (Row ι) :=
  batches.flatMap (batchRows config)

/-- `build_hash_table` over some of the inner batches. -/
def buildBatches (config : Config) (store : BuildStore ι) (batches : List (Batch ι)) : Except String (BuildState ι) := do
  let state ← buildStart config store
  batches.foldlM (buildBatch config) state

/-- In any run the store and the partitions have all the rows; only growing the store can fail. -/
theorem buildBatches_result (config : Config) (store : BuildStore ι) (batches : List (Batch ι)) :
    (∃ message, GrowError message ∧ buildBatches config store batches = .error message) ∨
      ∃ state, buildBatches config store batches = .ok state ∧ Between bare config (acceptedRows config batches) state := by
  unfold buildBatches
  rcases buildStart_result bare config store with ⟨message,refused,failed⟩ | ⟨first,started,between⟩
  · exact .inl ⟨message,refused,by rw [failed]; rfl⟩
  · rw [started]
    induction batches using List.reverseRecOn with
    | nil => exact .inr ⟨first,rfl,between⟩
    | append_singleton before batch ih =>
      rcases ih with ⟨message,refused,failed⟩ | ⟨state,ran,between'⟩
      · refine .inl ⟨message,refused,?_⟩
        change List.foldlM _ _ _ = _ at failed
        change List.foldlM _ _ _ = _
        rw [List.foldlM_append,failed]
        rfl
      · change List.foldlM _ _ _ = _ at ran
        have same : (before ++ [batch]).foldlM (buildBatch config) first = buildBatch config state batch := by
          rw [List.foldlM_append,ran]
          exact bind_pure (buildBatch config state batch)
        have grown : acceptedRows config (before ++ [batch]) = acceptedRows config before ++ batchRows config batch := by
          simp [acceptedRows]
        change (∃ message, _ ∧ List.foldlM _ _ _ = _) ∨ ∃ state, List.foldlM _ _ _ = _ ∧ _
        rw [same,grown]
        exact buildBatch_result between' batch fun middle _ => honest_bare fun row => stores_width

/-- What a spilled join looks like between two inner batches: each row it has
taken is in the store or in one partition, by the hash of its keys. -/
structure Resident (config : Config) (accepted : List (Row ι)) (store : BuildStore ι) (spill : BuildSpill ι) : Prop where
  union : ((store.rows config.ninnerColumns ++ (List.range spill.npartitions).flatMap spill.contents).map Row.tag).Perm
    (accepted.map Row.tag)
  stored : ∀ row ∈ store.rows config.ninnerColumns, rowPartition spill.npartitions row ∈ spill.residentPartitions
  spilled : ∀ partition, ∀ row ∈ spill.contents partition, partition < spill.npartitions ∧
    rowPartition spill.npartitions row = partition ∧ partition ∉ spill.residentPartitions
  files : ∀ partition, (spill.buildFiles partition).isSome = true ↔ spill.contents partition ≠ []
  residentRows : ∀ partition, spill.residentPartitionRows partition =
    (part (rowPartition spill.npartitions) (store.rows config.ninnerColumns) partition).length
  residentBuild : spill.residentBuildRows = store.nrows
  partitionRows : ∀ partition, spill.buildPartitionRows partition = (spill.contents partition).length

omit [Inhabited ι] in
theorem Residency.resident (residency : Residency bare config accepted store spill) :
    Resident config accepted store spill where
  union := by
    have tags := residency.union.map Prod.fst
    rwa [List.map_map,List.map_map] at tags
  stored := residency.stored
  spilled := by
    intro partition row member
    obtain ⟨inside,gone,here⟩ := residency.placed partition row member
    exact ⟨inside,here,gone⟩
  files := by
    intro partition
    by_cases empty : spill.contents partition = []
    · simp [residency.sound.unfiled partition empty,empty]
    · simp [residency.sound.filed partition empty,empty]
  residentRows := residency.residentRows
  residentBuild := residency.residentBuild
  partitionRows := residency.partitionRows

/-- After any inner batches, a spilled join keeps its rows in their places and its
store within bounds, and the evictions come to an end; the loop fails only where the
store cannot grow. -/
theorem residency_kept (config : Config) (store : BuildStore ι) (batches : List (Batch ι)) :
    (∃ message, GrowError message ∧ buildBatches config store batches = .error message) ∨
      ∃ state, buildBatches config store batches = .ok state ∧ ∀ spill, state.spill = some spill →
        Resident config (acceptedRows config batches) state.build spill ∧ Fits config state.build spill := by
  rcases buildBatches_result config store batches with failed | ⟨state,ran,between⟩
  · exact .inl failed
  · refine .inr ⟨state,ran,fun spill spilled => ?_⟩
    obtain ⟨residency,fits⟩ := between.residency spill spilled
    exact ⟨residency.resident,fits⟩

end PgBatch.HashJoin
