import PgBatch.Nodes.HashJoinTable

/-! What the serial hash join requests for its build side, and that
`hash_join_estimated_build_memory` covers it: the estimate, the growth of the
store, its first size and the number of buckets are powers of two that stay in
step. -/
namespace PgBatch.HashJoin
open Words Columnar Doubling
variable {ι : Type}

/-- The bytes of the arrays of a store: links, and the values and validity words of each column. -/
def storeBytes (ncolumns capacity : Nat) : Nat :=
  8 * capacity + ncolumns * (4 * capacity + 8 * ((capacity + 63) / 64))

/-- The bytes of the array of buckets for so many rows. -/
def bucketBytes (nrows : Nat) : Nat :=
  4 * chooseBucketCount nrows

/-- The capacity of a store that grew row by row from nothing. -/
def grownCapacity : Nat → Nat
  | 0 => 0
  | nrows + 1 =>
    let capacity := grownCapacity nrows
    if nrows = capacity then (if capacity = 0 then 1024 else capacity * 2 % 2 ^ 32) else capacity

/-! The powers of two. -/

/-- The loop of the estimate and of the first size. -/
def plannedCapacity (nrows : Nat) : Nat :=
  doubled (fun capacity => capacity < nrows && capacity ≤ (2 ^ 32 - 1) / 2) 21 1024

theorem estimatedBuildMemory_eq (nrows ncolumns : Nat) :
    estimatedBuildMemory nrows ncolumns =
      storeBytes ncolumns (plannedCapacity nrows) + 8 * plannedCapacity nrows := by
  unfold estimatedBuildMemory
  rw [← plannedCapacity,storeBytes]
  ring

theorem plannedCapacity_power (nrows : Nat) : ∃ rounds ≤ 21, plannedCapacity nrows = 2 ^ rounds * 1024 :=
  doubled_power ..

theorem plannedCapacity_covers {nrows : Nat} (few : nrows ≤ 2 ^ 31) : nrows ≤ plannedCapacity nrows := by
  rcases doubled_stops (fun capacity => capacity < nrows && capacity ≤ (2 ^ 32 - 1) / 2) 21 1024 with stops | full
  · rw [← plannedCapacity,Bool.and_eq_false_iff,decide_eq_false_iff_not,decide_eq_false_iff_not] at stops
    omega
  · rw [← plannedCapacity] at full
    omega

theorem plannedCapacity_le {nrows rounds : Nat} (few : rounds ≤ 21) (enough : nrows ≤ 2 ^ rounds * 1024) :
    plannedCapacity nrows ≤ 2 ^ rounds * 1024 :=
  doubled_le few (by simp [Nat.not_lt.mpr enough])

theorem plannedCapacity_self {rounds : Nat} (few : rounds ≤ 21) :
    plannedCapacity (2 ^ rounds * 1024) = 2 ^ rounds * 1024 := by
  have bounded := Nat.pow_le_pow_right Nat.two_pos few
  exact Nat.le_antisymm (plannedCapacity_le few (Nat.le_refl _)) (plannedCapacity_covers (by omega))

theorem chooseBucketCount_le {nrows rounds : Nat} (few : rounds ≤ 20) (enough : nrows ≤ 2 ^ rounds * 1024) :
    chooseBucketCount nrows ≤ 2 * (2 ^ rounds * 1024) := by
  have next : 2 * (2 ^ rounds * 1024) = 2 ^ (rounds + 1) * 1024 := by ring
  rw [next]
  refine doubled_le (Nat.succ_le_succ few) ?_
  have stops : ¬ 2 ^ (rounds + 1) * 1024 < nrows * 2 := by omega
  simp [stops]

theorem storeBytes_mono {less more : Nat} (ncolumns : Nat) (le : less ≤ more) :
    storeBytes ncolumns less ≤ storeBytes ncolumns more := by
  unfold storeBytes
  gcongr

/-- A store and buckets within the planned capacity of an estimate are within the estimate. -/
theorem requested_le_estimate {capacity rounds nrows planned : Nat} (ncolumns : Nat) (few : rounds ≤ 20)
    (power : capacity = 2 ^ rounds * 1024) (room : nrows ≤ capacity) (within : capacity ≤ plannedCapacity planned) :
    storeBytes ncolumns capacity + bucketBytes nrows ≤ estimatedBuildMemory planned ncolumns := by
  subst power
  have arrays := storeBytes_mono ncolumns within
  have buckets := chooseBucketCount_le few room
  rw [estimatedBuildMemory_eq,bucketBytes]
  omega

/-! A store that grows row by row. -/

/-- What a capacity can be up to 2^30. -/
def Doubles (capacity : Nat) : Prop :=
  capacity = 0 ∨ ∃ rounds ≤ 20, capacity = 2 ^ rounds * 1024

/-- A full store that has to take one more row grows, within what is planned for that many rows. -/
theorem Doubles.grow {capacity planned : Nat} (doubles : Doubles capacity) (more : capacity < planned)
    (few : planned ≤ 2 ^ 30) :
    ∃ rounds ≤ 20, (if capacity = 0 then 1024 else capacity * 2 % 2 ^ 32) = 2 ^ rounds * 1024 ∧
      capacity < 2 ^ rounds * 1024 ∧ 2 ^ rounds * 1024 ≤ plannedCapacity planned := by
  obtain ⟨others,_,power⟩ := plannedCapacity_power planned
  have covers : planned ≤ plannedCapacity planned := plannedCapacity_covers (by omega)
  rcases doubles with rfl | ⟨rounds,bounded,rfl⟩
  · refine ⟨0,Nat.zero_le _,if_pos rfl,by decide,?_⟩
    rw [power]
    exact Nat.mul_le_mul_right 1024 (Nat.two_pow_pos others)
  · have next : 2 ^ (rounds + 1) * 1024 = 2 * (2 ^ rounds * 1024) := by ring
    have twice : 2 * (2 ^ rounds * 1024) ≤ plannedCapacity planned := by
      rw [power] at covers ⊢
      exact double_le (Nat.lt_of_lt_of_le more covers)
    have least : plannedCapacity planned ≤ 2 ^ 20 * 1024 :=
      plannedCapacity_le (by decide) (by omega)
    have fewer : rounds + 1 ≤ 20 := by
      refine (Nat.pow_le_pow_iff_right Nat.one_lt_two).mp (Nat.le_of_mul_le_mul_right ?_ (Nat.zero_lt_succ 1023))
      rw [next]
      exact Nat.le_trans twice least
    have positive := Nat.two_pow_pos rounds
    refine ⟨rounds + 1,fewer,?_,by omega,next ▸ twice⟩
    rw [if_neg (by omega),next]
    omega

theorem plannedCapacity_mono {less more : Nat} (le : less ≤ more) (few : more ≤ 2 ^ 30) :
    plannedCapacity less ≤ plannedCapacity more := by
  obtain ⟨rounds,bounded,power⟩ := plannedCapacity_power more
  have covers : more ≤ plannedCapacity more := plannedCapacity_covers (by omega)
  rw [power] at covers ⊢
  exact plannedCapacity_le bounded (Nat.le_trans le covers)

theorem grownCapacity_doubles {nrows : Nat} (few : nrows ≤ 2 ^ 30) :
    Doubles (grownCapacity nrows) ∧ nrows ≤ grownCapacity nrows ∧ grownCapacity nrows ≤ plannedCapacity nrows := by
  induction nrows with
  | zero => exact ⟨.inl rfl,Nat.le_refl 0,Nat.zero_le _⟩
  | succ nrows ih =>
    obtain ⟨doubles,room,within⟩ := ih (by omega)
    unfold grownCapacity
    dsimp only
    split
    · rename_i full
      have more : grownCapacity nrows < nrows + 1 := by omega
      obtain ⟨rounds,bounded,grown,larger,planned⟩ := doubles.grow more few
      rw [grown]
      exact ⟨.inr ⟨rounds,bounded,rfl⟩,by omega,planned⟩
    · rename_i space
      exact ⟨doubles,by omega,Nat.le_trans within (plannedCapacity_mono (Nat.le_succ nrows) few)⟩

/-- No request for a store grown to so many rows, with its buckets, is beyond the estimate. -/
theorem grown_le_estimate {nrows : Nat} (few : nrows ≤ 2 ^ 30) (ncolumns : Nat) :
    storeBytes ncolumns (grownCapacity nrows) + bucketBytes nrows ≤ estimatedBuildMemory nrows ncolumns := by
  obtain ⟨doubles,room,within⟩ := grownCapacity_doubles few
  rcases doubles with empty | ⟨rounds,bounded,power⟩
  · rw [empty] at room ⊢
    have least : 2 ^ 0 * 1024 ≤ plannedCapacity nrows := le_doubled ..
    have arrays := storeBytes_mono ncolumns (Nat.zero_le (2 ^ 0 * 1024))
    have enough : nrows ≤ 2 ^ 0 * 1024 := Nat.le_trans room (Nat.zero_le _)
    have whole := requested_le_estimate ncolumns (Nat.zero_le 20) rfl enough least
    omega
  · exact requested_le_estimate ncolumns bounded power room within

/-- The estimate is computed in 64 bits without wrapping round. -/
theorem estimate_fits {nrows ncolumns : Nat} (few : nrows ≤ 2 ^ 30) (int : ncolumns < 2 ^ 31) :
    estimatedBuildMemory nrows ncolumns < 2 ^ 64 := by
  have least : plannedCapacity nrows ≤ 2 ^ 20 * 1024 := plannedCapacity_le (by decide) (by omega)
  have arrays := storeBytes_mono ncolumns least
  rw [estimatedBuildMemory_eq]
  unfold storeBytes at arrays ⊢
  omega

/-! The build. -/

variable {config : Config} {store store' : BuildStore ι}

/-- A store whose memory is within the limit, with as much again for its buckets. -/
structure Funded (config : Config) (store : BuildStore ι) : Prop where
  doubles : Doubles store.capacity
  allocated : 8 * store.capacity ≤ maxAllocSize
  room : store.nrows ≤ store.capacity
  covered : storeBytes config.ninnerColumns store.capacity + 8 * store.capacity ≤ config.memoryLimit

theorem funded_empty (store : BuildStore ι) (shift : Nat) :
    Funded config {resetBuildStore store with hashShift := shift} where
  doubles := .inl rfl
  allocated := Nat.zero_le _
  room := Nat.le_refl 0
  covered := by simp [resetBuildStore,storeBytes]

theorem firstStore_funded (ran : firstStore config store = .ok store') : Funded config store' := by
  unfold firstStore at ran
  dsimp only at ran
  rw [← plannedCapacity] at ran
  split at ran
  · rename_i afford
    unfold resizeBuildStore at ran
    split at ran
    · cases ran
    · split at ran
      · cases ran
      · rename_i allocated
        cases ran
        obtain ⟨rounds,bounded,power⟩ := plannedCapacity_power config.estimatedRows
        rw [power] at afford allocated ⊢
        rw [estimatedBuildMemory_eq,plannedCapacity_self bounded] at afford
        have fewer : rounds ≤ 20 := by
          by_contra most
          obtain rfl : rounds = 21 := by omega
          exact allocated (by decide)
        exact ⟨.inr ⟨rounds,fewer,rfl⟩,Nat.not_lt.mp allocated,Nat.zero_le _,afford.2⟩
  · cases ran
    exact funded_empty store 0

theorem makeRoom_funded (funded : Funded config store) {planned : Nat} (more : store.nrows < planned)
    (few : planned ≤ 2 ^ 30) (afford : estimatedBuildMemory planned config.ninnerColumns ≤ config.memoryLimit)
    (ran : makeRoom store = .ok store') : Funded config store' ∧ store'.nrows = store.nrows ∧ store'.nrows < store'.capacity := by
  unfold makeRoom at ran
  split at ran
  · rename_i full
    obtain ⟨rounds,bounded,grown,larger,within⟩ := funded.doubles.grow (full ▸ more) few
    unfold growBuildStore at ran
    rw [grown] at ran
    unfold resizeBuildStore at ran
    split at ran
    · cases ran
    · split at ran
      · cases ran
      · rename_i allocated
        cases ran
        have bytes := storeBytes_mono config.ninnerColumns within
        rw [estimatedBuildMemory_eq] at afford
        refine ⟨⟨.inr ⟨rounds,bounded,rfl⟩,by simpa using allocated,?_,?_⟩,rfl,?_⟩
        · dsimp only
          omega
        · dsimp only
          omega
        · dsimp only
          omega
  · cases ran
    exact ⟨funded,rfl,by have := funded.room; omega⟩

theorem appendRows_funded (funded : Funded config store) {planned : Nat} (few : planned ≤ 2 ^ 30)
    (afford : estimatedBuildMemory planned config.ninnerColumns ≤ config.memoryLimit) {added : List (Row ι)}
    (more : store.nrows + added.length ≤ planned) (ran : added.foldlM (appendBuildRow config) store = .ok store') :
    Funded config store' := by
  induction added generalizing store with
  | nil =>
    cases ran
    exact funded
  | cons row rest ih =>
    rw [List.length_cons] at more
    rw [List.foldlM_cons] at ran
    obtain ⟨middle,first,others⟩ := Results.bind_ok.mp ran
    obtain ⟨grown,grew,appended⟩ := Results.bind_ok.mp first
    obtain ⟨funded',same,room⟩ := makeRoom_funded funded (by omega) few afford grew
    cases appended
    have kept : Funded config {grown with
        toStore := grown.toStore.append config.ninnerColumns row.tag row.hash row.cell} :=
      ⟨funded'.doubles,funded'.allocated,room,funded'.covered⟩
    refine ih kept ?_ others
    change grown.nrows + 1 + rest.length ≤ planned
    omega

variable {state state' : BuildState ι}

/-- What holds of a join that has not spilled, after some batches. -/
def Paid (config : Config) (state : BuildState ι) (begun : Prop) : Prop :=
  state.spill = none → Funded config state.build ∧
    (begun → storeBytes config.ninnerColumns 1024 + 8 * 1024 ≤ config.memoryLimit)

theorem buildStart_paid (ran : buildStart config store = .ok state) : Paid config state False := by
  obtain ⟨first,stored,rest⟩ := Results.bind_ok.mp ran
  obtain ⟨spill,spilled,last⟩ := Results.bind_ok.mp rest
  cases last
  exact fun _ => ⟨firstStore_funded stored,False.elim⟩

theorem switchToSpill_unspilled [Inhabited ι] {batch : Batch ι} (ran : switchToSpill config state batch = .ok state')
    (unspilled : state'.spill = none) :
    state' = state ∧ estimatedBuildMemory (state.build.nrows + popcount batch.selection) config.ninnerColumns ≤
      config.memoryLimit := by
  unfold switchToSpill at ran
  dsimp only at ran
  split at ran
  · rename_i spilled
    cases ran
    rw [unspilled] at spilled
    cases spilled
  · split at ran
    · rename_i afford
      cases ran
      exact ⟨rfl,afford⟩
    · obtain ⟨_,_,rest⟩ := Results.bind_ok.mp ran
      obtain ⟨_,_,rest⟩ := Results.bind_ok.mp rest
      obtain ⟨_,_,rest⟩ := Results.bind_ok.mp rest
      cases rest
      cases unspilled

theorem takeBatch_unspilled [Inhabited ι] {batch : Batch ι} (ran : takeBatch config state batch = .ok state')
    (unspilled : state'.spill = none) :
    state.spill = none ∧ ((rows (hashed config batch).2).map
        (inputRow config.ninnerColumns (loadColumns config.innerBatchColumns batch) (hashed config batch).1)).foldlM
      (appendBuildRow config) state.build = .ok state'.build := by
  unfold takeBatch at ran
  dsimp only at ran
  split at ran
  · obtain ⟨_,_,rest⟩ := Results.bind_ok.mp ran
    cases rest
    cases unspilled
  · rename_i none_
    obtain ⟨store,appended,rest⟩ := Results.bind_ok.mp ran
    cases rest
    exact ⟨none_,by rw [List.foldlM_map]; exact appended⟩

/-- The rows of a batch are among its selected ones. -/
theorem hashed_rows_le (config : Config) (batch : Batch ι) :
    (rows (hashed config batch).2).length ≤ popcount batch.selection := by
  rw [hashed,hashBatch_rows config.keyed,Batch.selected,rows_and]
  exact (List.length_filter_le ..).trans (List.length_filter_le ..)

theorem buildBatch_paid [Inhabited ι] {begun : Prop} (paid : Paid config state begun) {batch : Batch ι}
    (ran : buildBatch config state batch = .ok state') : Paid config state' True := by
  obtain ⟨middle,switched,taken⟩ := Results.bind_ok.mp ran
  intro unspilled
  obtain ⟨unspilled',appended⟩ := takeBatch_unspilled taken unspilled
  obtain ⟨rfl,afford⟩ := switchToSpill_unspilled switched unspilled'
  obtain ⟨funded,_⟩ := paid unspilled'
  have fewer := hashed_rows_le config batch
  have few : middle.build.nrows + popcount batch.selection ≤ 2 ^ 30 := by
    have := funded.room
    have := funded.allocated
    have : popcount batch.selection ≤ 64 := popcount_le _
    unfold maxAllocSize at *
    omega
  refine ⟨appendRows_funded funded few afford (by rw [List.length_map]; omega) appended,fun _ => ?_⟩
  have least : 1024 ≤ plannedCapacity (middle.build.nrows + popcount batch.selection) := le_doubled ..
  have arrays := storeBytes_mono config.ninnerColumns least
  rw [estimatedBuildMemory_eq] at afford
  omega

theorem buildBatches_paid [Inhabited ι] {batches : List (Batch ι)}
    (ran : batches.foldlM (buildBatch config) state = .ok state') {begun : Prop} (paid : Paid config state begun) :
    Paid config state' (begun ∨ batches ≠ []) := by
  induction batches generalizing state begun with
  | nil =>
    cases ran
    exact fun unspilled => ⟨(paid unspilled).1,fun begun => (paid unspilled).2 (begun.resolve_right fun some => some rfl)⟩
  | cons batch rest ih =>
    obtain ⟨middle,first,others⟩ := Results.bind_ok.mp ran
    have paid' := ih others (buildBatch_paid paid first)
    exact fun unspilled => ⟨(paid' unspilled).1,fun _ => (paid' unspilled).2 (.inl trivial)⟩

/-- What a row that is stored makes of the capacity. -/
theorem appendBuildRow_grown {row : Row ι} (grown : store.capacity = grownCapacity store.nrows)
    (ran : appendBuildRow config store row = .ok store') :
    store'.capacity = grownCapacity store'.nrows ∧ store'.nrows = store.nrows + 1 := by
  obtain ⟨middle,roomed,appended⟩ := Results.bind_ok.mp ran
  have capacity : middle.capacity = grownCapacity (store.nrows + 1) ∧ middle.nrows = store.nrows := by
    rw [grownCapacity,← grown]
    unfold makeRoom at roomed
    split at roomed
    · rename_i full
      rw [if_pos full]
      unfold growBuildStore resizeBuildStore at roomed
      generalize (if store.capacity = 0 then 1024 else store.capacity * 2 % 2 ^ 32) = larger at roomed ⊢
      split at roomed
      · cases roomed
      · split at roomed
        · cases roomed
        · cases roomed
          exact ⟨rfl,rfl⟩
    · rename_i space
      rw [if_neg space]
      cases roomed
      exact ⟨rfl,rfl⟩
  cases appended
  change middle.capacity = grownCapacity (middle.nrows + 1) ∧ middle.nrows + 1 = store.nrows + 1
  rw [capacity.2]
  exact ⟨capacity.1,rfl⟩

theorem appendRows_grown {added : List (Row ι)} (grown : store.capacity = grownCapacity store.nrows)
    (ran : added.foldlM (appendBuildRow config) store = .ok store') :
    store'.capacity = grownCapacity store'.nrows ∧ store'.nrows = store.nrows + added.length := by
  induction added generalizing store with
  | nil =>
    cases ran
    exact ⟨grown,rfl⟩
  | cons row rest ih =>
    obtain ⟨middle,first,others⟩ := Results.bind_ok.mp ran
    obtain ⟨grown',one⟩ := appendBuildRow_grown grown first
    obtain ⟨grown'',more⟩ := ih grown' others
    exact ⟨grown'',by rw [more,one,List.length_cons]; omega⟩

theorem linkRows_sizes {fuel : Nat} {rows : List Nat} (linked : rows.foldlM (linkBuildRow config fuel) store = some store') :
    store'.capacity = store.capacity ∧ store'.nbuckets = store.nbuckets := by
  induction rows generalizing store with
  | nil =>
    cases linked
    exact ⟨rfl,rfl⟩
  | cons row rest ih =>
    obtain ⟨middle,first,others⟩ := Option.bind_eq_some_iff.mp linked
    obtain ⟨bucket,_,rfl⟩ := Option.map_eq_some_iff.mp first
    have sizes := ih others
    exact sizes

/-- What the finished table consists of. -/
theorem finishBuildTable_sizes {fuel : Nat} (finished : finishBuildTable config fuel store = some (.ok store')) :
    store'.capacity = store.capacity ∧ 4 * store'.nbuckets = bucketBytes store.nrows := by
  unfold finishBuildTable at finished
  split at finished
  · cases finished
  · obtain ⟨table,linked,same⟩ := Option.map_eq_some_iff.mp finished
    cases same
    obtain ⟨capacity,nbuckets⟩ := linkRows_sizes linked
    exact ⟨capacity,by rw [nbuckets,bucketBytes]⟩

/-- A build that has taken a batch and not spilled is within the limit, buckets included. -/
theorem unspilled_bounded [Inhabited ι] {batches : List (Batch ι)} (nonempty : batches ≠ [])
    (ran : buildBatches config store batches = .ok state) (unspilled : state.spill = none) :
    storeBytes config.ninnerColumns state.build.capacity + bucketBytes state.build.nrows ≤ config.memoryLimit := by
  obtain ⟨first,started,rest⟩ := Results.bind_ok.mp ran
  obtain ⟨funded,begun⟩ := buildBatches_paid rest (buildStart_paid started) unspilled
  have least := begun (.inr nonempty)
  rcases funded.doubles with empty | ⟨rounds,bounded,power⟩
  · have few : state.build.nrows ≤ 2 ^ 0 * 1024 := Nat.le_trans (empty ▸ funded.room) (Nat.zero_le _)
    have buckets := chooseBucketCount_le (Nat.zero_le 20) few
    have arrays := storeBytes_mono config.ninnerColumns (Nat.zero_le 1024)
    rw [empty,bucketBytes]
    omega
  · have buckets := chooseBucketCount_le bounded (power ▸ funded.room)
    have covered := funded.covered
    rw [bucketBytes]
    omega

/-- The build within its limit, and the estimate as a bound for each number of rows and columns. -/
theorem build_memory_bounded [Inhabited ι] (config : Config) (store : BuildStore ι) :
    (∀ batches state, batches ≠ [] → buildBatches config store batches = .ok state → state.spill = none →
      storeBytes config.ninnerColumns state.build.capacity + bucketBytes state.build.nrows ≤ config.memoryLimit ∧
      ∀ fuel table, finishBuildTable config fuel state.build = some (.ok table) →
        storeBytes config.ninnerColumns table.capacity + 4 * table.nbuckets ≤ config.memoryLimit) ∧
    ∀ nrows ncolumns, nrows ≤ 2 ^ 30 →
      storeBytes ncolumns (grownCapacity nrows) + bucketBytes nrows ≤ estimatedBuildMemory nrows ncolumns ∧
      (ncolumns < 2 ^ 31 → estimatedBuildMemory nrows ncolumns < 2 ^ 64) := by
  refine ⟨fun batches state nonempty ran unspilled => ?_,fun nrows ncolumns few =>
    ⟨grown_le_estimate few ncolumns,estimate_fits few⟩⟩
  have bounded := unspilled_bounded nonempty ran unspilled
  refine ⟨bounded,fun fuel table finished => ?_⟩
  obtain ⟨capacity,buckets⟩ := finishBuildTable_sizes finished
  rw [capacity,buckets]
  exact bounded

/-- A batch of two rows for that join, which may use a million bytes. -/
def oneBatch : Batch Unit :=
  ⟨2,by decide,3#64,fun _ _ => some 7#32,fun _ => ()⟩

theorem oneBatch_bounded : ∃ state, buildBatches twoRows.1 twoRows.2 [oneBatch] = .ok state ∧
    storeBytes 1 state.build.capacity + bucketBytes state.build.nrows ≤ 1000000 :=
  ⟨_,rfl,((build_memory_bounded twoRows.1 twoRows.2).1 [oneBatch] _ (List.cons_ne_nil _ _) rfl rfl).1⟩

end PgBatch.HashJoin
