import PgBatch.Nodes.HashJoinSerial

/-! What the loop over the inner batches keeps besides the rows: the store can become a
table, and the Bloom filter, if there is one, has the hashes of all rows that were taken. -/
namespace PgBatch.HashJoin
open Words Columnar Spill
variable {ι : Type}

/-- A store that no table was made of yet, as large as it may be allocated. -/
structure Unlinked (store : BuildStore ι) : Prop where
  fresh : store.hasDuplicates = false
  shift : store.hashShift = 0
  allocated : 8 * store.capacity ≤ maxAllocSize

/-- The bits that the partitions take, the rows of a chunk and the filter. -/
structure Filters (hashes : List (BitVec 32)) (spill : BuildSpill ι) : Prop where
  shift : spill.partitionShift ≤ 10
  chunk : 0 < spill.buildChunkRows
  bloom : ∀ words, spill.bloomWords = some words → ∀ hash ∈ hashes, bloomMayContain spill.bloomNbits words hash = true

section Bloom
variable {nbits : Nat}

theorem bloomAdd_contains (words : Nat → BitVec 64) (added hash : BitVec 32) :
    bloomMayContain nbits (bloomAdd nbits words added) hash =
      (bloomMayContain nbits words hash || decide (bloomPosition nbits added = bloomPosition nbits hash)) := by
  unfold bloomMayContain bloomAdd
  dsimp only
  generalize bloomPosition nbits added = first
  generalize bloomPosition nbits hash = second
  by_cases word : second / 64 = first / 64
  · rw [word,Function.update_self,BitVec.getLsbD_or,getLsbD_bit]
    congr 1
    rw [decide_eq_decide]
    constructor
    · rintro ⟨-,same⟩
      omega
    · rintro rfl
      exact ⟨Nat.mod_lt _ (by decide),rfl⟩
  · rw [Function.update_of_ne word,decide_eq_false (fun same => word (by rw [same])),Bool.or_false]

/-- A filter has what it had, and all hashes that are added. -/
theorem bloomAdds_contain {α : Type} (items : List α) (hashOf : α → BitVec 32) (words : Nat → BitVec 64) (hash : BitVec 32)
    (there : bloomMayContain nbits words hash = true ∨ hash ∈ items.map hashOf) :
    bloomMayContain nbits (items.foldl (fun words item => bloomAdd nbits words (hashOf item)) words) hash = true := by
  induction items generalizing words with
  | nil => exact there.resolve_right List.not_mem_nil
  | cons item rest ih =>
    apply ih
    rw [bloomAdd_contains,Bool.or_eq_true,decide_eq_true_eq]
    rcases there with before | among
    · exact .inl (.inl before)
    · rcases List.mem_cons.mp among with rfl | later
      · exact .inl (.inr rfl)
      · exact .inr later

end Bloom

section Stores
variable {config : Config} {store store' : BuildStore ι} {spill after : BuildSpill ι}

theorem makeRoom_kept (ran : makeRoom store = .ok store') :
    store'.hasDuplicates = store.hasDuplicates ∧ store'.hashShift = store.hashShift := by
  unfold makeRoom at ran
  split at ran
  · unfold growBuildStore resizeBuildStore at ran
    generalize (if store.capacity = 0 then 1024 else store.capacity * 2 % 2 ^ 32) = capacity at ran
    split at ran
    · cases ran
    · split at ran
      · cases ran
      · cases ran
        exact ⟨rfl,rfl⟩
  · cases ran
    exact ⟨rfl,rfl⟩

theorem appendBuildRow_unlinked {row : Row ι} (ran : appendBuildRow config store row = .ok store') (unlinked : Unlinked store) :
    Unlinked store' := by
  have allocated := appendBuildRow_allocated unlinked.allocated ran
  obtain ⟨grown,grew,appended⟩ := Results.bind_ok.mp ran
  obtain ⟨duplicates,shift⟩ := makeRoom_kept grew
  cases appended
  exact ⟨duplicates.trans unlinked.fresh,shift.trans unlinked.shift,allocated⟩

theorem firstStore_unlinked (ran : firstStore config store = .ok store') : Unlinked store' := by
  have start : Unlinked {resetBuildStore store with hashShift := 0} := ⟨rfl,rfl,Nat.zero_le _⟩
  unfold firstStore at ran
  dsimp only at ran
  split at ran
  · unfold resizeBuildStore at ran
    split at ran
    · cases ran
    · split at ran
      · cases ran
      · rename_i small
        cases ran
        exact ⟨rfl,rfl,Nat.not_lt.mp small⟩
  · cases ran
    exact start

theorem Unlinked.compacted (unlinked : Unlinked store) (rows : Columnar.Store ι (BitVec 32) Int4) :
    Unlinked {store with toStore := rows} :=
  ⟨unlinked.fresh,unlinked.shift,unlinked.allocated⟩

variable [Inhabited ι]

theorem spillBuildStore_unlinked (ran : spillBuildStore config store spill = .ok (store',after)) (unlinked : Unlinked store) :
    Unlinked store' := by
  obtain ⟨written,_,rest⟩ := Results.bind_ok.mp ran
  cases rest
  exact unlinked.compacted _

theorem limitResidentBuild_unlinked (ran : limitResidentBuild config store spill = .ok (store',after))
    (unlinked : Unlinked store) : Unlinked store' := by
  induction size : spill.residentPartitions.length using Nat.strong_induction_on generalizing store spill with
  | _ size_ ih =>
    unfold limitResidentBuild at ran
    split at ran
    · cases ran
      exact unlinked
    · split at ran
      · cases ran
        exact unlinked
      · rename_i largest found
        split at ran
        · cases ran
        · rename_i middle between spilled
          obtain ⟨member,_⟩ := largestResident_mem found
          have shorter : between.residentPartitions.length < size_ := by
            rw [← size,spillBuildStore_resident spilled,List.length_erase_of_mem member]
            exact Nat.sub_lt (List.length_pos_of_mem member) Nat.one_pos
          exact ih _ shorter ran (spillBuildStore_unlinked spilled unlinked) rfl

theorem appendOrSpill_unlinked {columns : Batch ι} {hashes : Nat → BitVec 32} {hashRows : BitVec 64} {accepted : Nat}
    (ran : appendOrSpillBuildBatch config store spill columns hashes hashRows = .ok (store',after,accepted))
    (unlinked : Unlinked store) : Unlinked store' := by
  obtain ⟨⟨written,residentRows⟩,_,ran⟩ := Results.bind_ok.mp ran
  obtain ⟨⟨grown,counted⟩,appended,ran⟩ := Results.bind_ok.mp ran
  obtain ⟨⟨limited,left⟩,evicted,ran⟩ := Results.bind_ok.mp ran
  cases ran
  refine limitResidentBuild_unlinked evicted ?_
  refine Results.foldlM_keeps (fun state : BuildStore ι × BuildSpill ι => Unlinked state.1) ?_ appended unlinked
  intro before row next step kept
  obtain ⟨store,stored,same⟩ := Results.bind_ok.mp step
  cases same
  exact appendBuildRow_unlinked stored kept

end Stores

/-! The filter. -/

section Filtering
variable {config : Config} {store : BuildStore ι} {spill after : BuildSpill ι} {hashes : List (BitVec 32)}

theorem beginSpill_filters {estimatedBytes estimatedRows : Nat}
    (ran : beginSpill config store estimatedBytes estimatedRows = .ok spill) :
    Filters ((store.rows config.ninnerColumns).map Row.hash) spill := by
  unfold beginSpill at ran
  obtain ⟨set,created,same⟩ := Results.bind_ok.mp ran
  cases same
  refine ⟨partitionBits_le _,?_,?_⟩
  · change 0 < max 64 _
    omega
  · intro words found hash member
    dsimp only at found ⊢
    split at found
    · rename_i bloom
      cases found
      rw [if_pos bloom]
      refine bloomAdds_contain (List.range store.nrows) store.hashes _ hash (.inr ?_)
      rw [Store.rows,List.map_map] at member
      exact member
    · cases found

/-- An eviction leaves the filter. -/
theorem Filters.kept {store' : BuildStore ι} (filters : Filters hashes spill) (keeps : Keeps store spill store' after) :
    Filters hashes after := by
  refine ⟨keeps.partitionShift ▸ filters.shift,keeps.buildChunkRows ▸ filters.chunk,fun words found => ?_⟩
  rw [keeps.bloomWords] at found
  rw [keeps.bloomNbits]
  exact filters.bloom words found

/-- What holds between two inner batches. -/
structure Buildable (config : Config) (accepted : List (Row ι)) (state : BuildState ι) : Prop extends
    Between bare config accepted state where
  unlinked : Unlinked state.build
  filters : ∀ spill, state.spill = some spill → Filters (accepted.map Row.hash) spill

variable [Inhabited ι] {accepted : List (Row ι)} {state next : BuildState ι}

omit [Inhabited ι] in
theorem bare_hashes {left right : List (Row ι)} (same : (left.map bare).Perm (right.map bare)) :
    (left.map Row.hash).Perm (right.map Row.hash) := by
  have hashes := same.map fun view : ι × BitVec 32 × List Int4 => view.2.1
  rwa [List.map_map,List.map_map] at hashes

omit [Inhabited ι] in
theorem buildStart_buildable (ran : buildStart config store = .ok state) : Buildable config [] state := by
  have between : Between bare config [] state := by
    rcases buildStart_result bare config store with ⟨message,_,failed⟩ | ⟨first,started,between⟩
    · rw [failed] at ran
      cases ran
    · rw [started] at ran
      cases ran
      exact between
  obtain ⟨ready,first,ran⟩ := Results.bind_ok.mp ran
  obtain ⟨spill,began,same⟩ := Results.bind_ok.mp ran
  cases same
  refine ⟨between,firstStore_unlinked first,fun spill' found => ?_⟩
  dsimp only at found
  subst found
  unfold firstSpill at began
  split at began
  · obtain ⟨_,begun,same⟩ := Results.bind_ok.mp began
    cases same
    have filters := beginSpill_filters begun
    exact ⟨filters.shift,filters.chunk,fun _ _ _ none => absurd none List.not_mem_nil⟩
  · cases began

theorem switchToSpill_buildable {batch : Batch ι} (buildable : Buildable config accepted state)
    (ran : switchToSpill config state batch = .ok next) : Buildable config accepted next := by
  obtain ⟨middle,switched,between⟩ := switchToSpill_between buildable.toBetween batch
  rw [switched] at ran
  cases ran
  unfold switchToSpill at switched
  dsimp only at switched
  split at switched
  · cases switched
    exact buildable
  · rename_i unspilled
    split at switched
    · cases switched
      exact buildable
    · obtain ⟨spill,begun,rest⟩ := Results.bind_ok.mp switched
      obtain ⟨⟨store,written⟩,wrote,rest⟩ := Results.bind_ok.mp rest
      obtain ⟨⟨store',limited⟩,evicted,rest⟩ := Results.bind_ok.mp rest
      cases rest
      have whole := buildable.whole unspilled
      refine ⟨between,limitResidentBuild_unlinked evicted (spillBuildStore_unlinked wrote buildable.unlinked),?_⟩
      rintro _ ⟨⟩
      obtain ⟨spill',begun',ledger,_⟩ := beginSpill_ledger config _ _ whole
      rw [begun] at begun'
      cases begun'
      obtain ⟨store₁,written₁,wrote₁,spills⟩ := spillBuildStore_spills state.build ledger.sound
      rw [wrote] at wrote₁
      cases wrote₁
      obtain ⟨store₂,limited₂,evicted₂,_,_,keeps⟩ := limitResidentBuild_fits (ledger.spills spills)
      rw [evicted] at evicted₂
      cases evicted₂
      have filters := ((beginSpill_filters begun).kept spills.keeps).kept keeps
      exact ⟨filters.shift,filters.chunk,fun words found hash member =>
        filters.bloom words found hash ((bare_hashes whole).symm.subset member)⟩

theorem takeBatch_buildable {batch : Batch ι} (buildable : Buildable config accepted state)
    (ran : takeBatch config state batch = .ok next) : Buildable config (accepted ++ batchRows config batch) next := by
  have honest : Honest bare config state.build (stores config state batch) := honest_bare fun row => stores_width
  have between : Between bare config (accepted ++ batchRows config batch) next := by
    rcases takeBatch_result buildable.toBetween batch honest with ⟨message,_,failed⟩ | ⟨taken,took,between⟩
    · rw [failed] at ran
      cases ran
    · rw [took] at ran
      cases ran
      exact between
  unfold takeBatch at ran
  dsimp only at ran
  split at ran
  · rename_i spill spilled
    obtain ⟨⟨store,after,count⟩,appended,same⟩ := Results.bind_ok.mp ran
    cases same
    refine ⟨between,appendOrSpill_unlinked appended buildable.unlinked,?_⟩
    rintro _ ⟨⟩
    obtain ⟨residency,_⟩ := buildable.residency spill spilled
    rw [Honest,stores,spilled] at honest
    have filters := buildable.filters spill spilled
    rcases appendOrSpill_result residency buildable.roomy batch honest with ⟨message,_,failed⟩ |
      ⟨store₁,after₁,ran₁,_,_,_,_,shift,chunk,nbits,words⟩
    · rw [failed] at appended
      cases appended
    · rw [appended] at ran₁
      cases ran₁
      refine ⟨shift ▸ filters.shift,chunk ▸ filters.chunk,fun words' found hash member => ?_⟩
      rw [words] at found
      obtain ⟨before,there,rfl⟩ := Option.map_eq_some_iff.mp found
      rw [nbits]
      refine bloomAdds_contain _ _ before hash ?_
      rw [List.map_append] at member
      rcases List.mem_append.mp member with old | new
      · exact .inl (filters.bloom before there hash old)
      · rw [batchRows_eq,List.map_map] at new
        exact .inr new
  · rename_i unspilled
    obtain ⟨store,stored,same⟩ := Results.bind_ok.mp ran
    cases same
    refine ⟨between,Results.foldlM_keeps Unlinked (fun _ _ _ => appendBuildRow_unlinked) stored buildable.unlinked,?_⟩
    intro spill found
    dsimp only at found
    rw [unspilled] at found
    cases found

/-- Whatever inner batches there are, a table can be made of what was stored. -/
theorem buildBatches_buildable {batches : List (Batch ι)} (ran : buildBatches config store batches = .ok state) :
    Buildable config (acceptedRows config batches) state := by
  obtain ⟨first,started,took⟩ := Results.bind_ok.mp ran
  have start := buildStart_buildable started
  clear ran
  induction batches using List.reverseRecOn generalizing state with
  | nil =>
    cases took
    exact start
  | append_singleton before batch ih =>
    rw [List.foldlM_append] at took
    obtain ⟨middle,done,last⟩ := Results.bind_ok.mp took
    have buildable := ih done
    rw [List.foldlM_cons] at last
    obtain ⟨next,step,same⟩ := Results.bind_ok.mp last
    cases same
    obtain ⟨switched,switches,takes⟩ := Results.bind_ok.mp step
    have grown : acceptedRows config (before ++ [batch]) = acceptedRows config before ++ batchRows config batch := by
      simp [acceptedRows]
    rw [grown]
    exact takeBatch_buildable (switchToSpill_buildable buildable switches) takes

end Filtering

end PgBatch.HashJoin
