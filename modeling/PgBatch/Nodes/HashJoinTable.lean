import PgBatch.Library.Probing
import PgBatch.Nodes.HashJoinBuildRun

/-! The hash table over the rows of the build store: `hash_join_finish_build_table`
and `find_build_head` in `nodes/hash_join.c`. -/
namespace PgBatch.HashJoin
open Words Columnar Doubling Chains Probing
variable {ι : Type}

/-- `choose_bucket_count`. -/
def chooseBucketCount (nrows : Nat) : Nat :=
  doubled (fun result => decide (result < nrows * 2) && decide (result < (2 ^ 32 - 1) / 2 + 1)) 21 1024

def buildKeysEqual (config : Config) (store : BuildStore ι) (left right : Nat) : Bool :=
  config.innerKeys.dropLast.all fun column => store.values column left == store.values column right

def bucketOf (store : BuildStore ι) (hash : BitVec 32) : Nat :=
  (hash >>> store.hashShift).toNat &&& (store.nbuckets - 1)

def nextBucket (store : BuildStore ι) (bucket : Nat) : Nat :=
  (bucket + 1) % 2 ^ 32 &&& (store.nbuckets - 1)

/-- Where the loop for a build row ends. -/
def linkEnds (config : Config) (store : BuildStore ι) (row bucket : Nat) : Bool :=
  let head := store.buckets bucket
  head == 0 || store.hashes (head - 1) == store.hashes row && buildKeysEqual config store (head - 1) row

/-- One turn of the row loop of `hash_join_finish_build_table`. -/
def linkBuildRow (config : Config) (fuel : Nat) (store : BuildStore ι) (row : Nat) : Option (BuildStore ι) :=
  (probe (nextBucket store) (linkEnds config store row) fuel (bucketOf store (store.hashes row))).map fun bucket =>
    {store with
      next := Function.update store.next row (store.buckets bucket)
      buckets := Function.update store.buckets bucket ((row + 1) % 2 ^ 32)
      hasDuplicates := store.hasDuplicates || store.buckets bucket != 0}

/-- The rows linked in a new array of buckets. -/
def linkBuildRows (config : Config) (fuel : Nat) (store : BuildStore ι) : Option (BuildStore ι) :=
  (List.range store.nrows).foldlM (linkBuildRow config fuel)
    {store with nbuckets := chooseBucketCount store.nrows, buckets := fun _ => 0}

def finishBuildTable (config : Config) (fuel : Nat) (store : BuildStore ι) :
    Option (Except String (BuildStore ι)) :=
  if maxAllocSize < 4 * chooseBucketCount store.nrows then some (.error "invalid memory alloc request size")
  else (linkBuildRows config fuel store).map .ok

/-- The test of `find_build_head`, which takes the probe value of a NULL for zero. -/
def probeMatches (config : Config) (store : BuildStore ι) (probe : Nat → Option Int4) (hash : BitVec 32) (row : Nat) :
    Bool :=
  store.hashes row == hash && (config.innerKeys.zip config.outerKeys).dropLast.all fun (inner,outer) =>
    store.values inner row == (inputValue (probe outer)).value

/-- `find_build_head` in the serial table. -/
def findBuildHead (config : Config) (fuel : Nat) (store : BuildStore ι) (probe : Nat → Option Int4)
    (hash : BitVec 32) : Option Nat :=
  (Probing.probe (nextBucket store)
    (fun bucket => store.buckets bucket == 0 || probeMatches config store probe hash (store.buckets bucket - 1))
    fuel (bucketOf store hash)).map store.buckets

/-- The test of `parallel_hash_join_find_head` in the table of a partition that one participant has loaded. -/
def localMatches (config : Config) (store : BuildStore ι) (probe : Nat → Option Int4) (hash : BitVec 32) (row : Nat) :
    Bool :=
  store.hashes row == hash && (config.innerKeys.zip config.outerKeys).dropLast.all fun (inner,outer) =>
    (probe outer).elim false fun value => store.values inner row == value

/-- The keys of a build row. -/
def keysOf (config : Config) (store : BuildStore ι) (row : Nat) : List Int4 :=
  config.innerKeys.map fun column => store.values column row

/-- What the table is made of: rows with the hash of their keys, and nothing known of duplicates yet. -/
structure Keyed (config : Config) (store : BuildStore ι) : Prop where
  hashed : ∀ row, row < store.nrows → store.hashes row = keyHash (keysOf config store row)
  fresh : store.hasDuplicates = false
  shift : store.hashShift < 32

section Tests
variable {config : Config} {store : BuildStore ι}

theorem keysOf_length (config : Config) (store : BuildStore ι) (row : Nat) :
    (keysOf config store row).length = config.innerKeys.length :=
  List.length_map ..

/-- `build_keys_equal` behind a comparison of the hashes. -/
theorem buildKeysEqual_iff {left right : Nat} (one : store.hashes left = keyHash (keysOf config store left))
    (two : store.hashes right = keyHash (keysOf config store right)) :
    (store.hashes left == store.hashes right && buildKeysEqual config store left right) = true ↔
      keysOf config store left = keysOf config store right := by
  rw [Bool.and_eq_true,beq_iff_eq,one,two]
  have pre : buildKeysEqual config store left right = true ↔
      (keysOf config store left).dropLast = (keysOf config store right).dropLast := by
    simp only [buildKeysEqual,keysOf,List.all_eq_true,beq_iff_eq,← List.map_dropLast,List.map_inj_left]
  rw [pre]
  constructor
  · rintro ⟨hashes,agree⟩
    exact keyHash_exact (by rw [keysOf_length,keysOf_length]) hashes agree
  · intro same
    rw [same]
    exact ⟨rfl,rfl⟩

variable {probe : Nat → Option Int4} {values : List Int4} {row : Nat}

theorem mapM_length {outer : List Nat} (given : outer.mapM probe = some values) : values.length = outer.length := by
  induction outer generalizing values with
  | nil =>
    cases given
    rfl
  | cons column columns ih =>
    simp only [List.mapM_cons,Option.bind_eq_bind,Option.bind_eq_some_iff] at given
    obtain ⟨_,_,rest,others,joined⟩ := given
    cases joined
    simp [ih others]

/-- A test of all keys but the last, for probe values that are there. -/
theorem zip_all {inner outer : List Nat} (cell : Nat → Int4) (test : Int4 → Option Int4 → Bool) (tests : ∀ one two, test one (some two) = (one == two))
    (paired : outer.length = inner.length) (given : outer.mapM probe = some values) :
    ((inner.zip outer).dropLast.all fun (inner,outer) => test (cell inner) (probe outer)) = true ↔
      (inner.map cell).dropLast = values.dropLast := by
  induction inner generalizing outer values with
  | nil =>
    cases List.length_eq_zero_iff.mp paired
    cases given
    simp
  | cons key keys ih =>
    cases outer with
    | nil => cases paired
    | cons column columns =>
      simp only [List.mapM_cons,Option.bind_eq_bind,Option.bind_eq_some_iff] at given
      obtain ⟨value,found,rest,others,joined⟩ := given
      cases joined
      have shorter := Nat.succ.inj paired
      have length := mapM_length others
      cases keys with
      | nil =>
        cases List.length_eq_zero_iff.mp shorter
        cases List.length_eq_zero_iff.mp length
        simp
      | cons second keys =>
        cases columns with
        | nil => cases shorter
        | cons third columns =>
          cases rest with
          | nil => cases length
          | cons fourth rest =>
            have tail := ih shorter others
            simp only [List.zip_cons_cons,List.dropLast_cons_cons,List.all_cons,List.map_cons,List.cons.injEq,found,
              tests,Bool.and_eq_true,beq_iff_eq] at tail ⊢
            rw [tail]

private theorem matches_iff (test : Int4 → Option Int4 → Bool) (tests : ∀ one two, test one (some two) = (one == two))
    (given : config.outerKeys.mapM probe = some values) (hashed : store.hashes row = keyHash (keysOf config store row)) :
    (store.hashes row == keyHash values && (config.innerKeys.zip config.outerKeys).dropLast.all fun (inner,outer) =>
      test (store.values inner row) (probe outer)) = true ↔ keysOf config store row = values := by
  rw [Bool.and_eq_true,beq_iff_eq,hashed,zip_all (fun inner => store.values inner row) test tests config.paired given]
  constructor
  · rintro ⟨hashes,agree⟩
    exact keyHash_exact (by rw [keysOf_length,mapM_length given,config.paired]) hashes agree
  · rintro rfl
    exact ⟨rfl,rfl⟩

/-- The test of `find_build_head`. -/
theorem probeMatches_iff (given : config.outerKeys.mapM probe = some values)
    (hashed : store.hashes row = keyHash (keysOf config store row)) :
    probeMatches config store probe (keyHash values) row = true ↔ keysOf config store row = values :=
  matches_iff (fun value cell => value == (inputValue cell).value) (fun _ _ => rfl) given hashed

theorem localMatches_iff (given : config.outerKeys.mapM probe = some values)
    (hashed : store.hashes row = keyHash (keysOf config store row)) :
    localMatches config store probe (keyHash values) row = true ↔ keysOf config store row = values :=
  matches_iff (fun value cell => cell.elim false fun found => value == found) (fun _ _ => rfl) given hashed

end Tests

section Buckets
variable {nrows : Nat}

theorem chooseBucketCount_power (nrows : Nat) : ∃ rounds ≤ 31, chooseBucketCount nrows = 2 ^ rounds := by
  obtain ⟨rounds,few,doubles⟩ := doubled_power
    (fun result => decide (result < nrows * 2) && decide (result < (2 ^ 32 - 1) / 2 + 1)) 21 1024
  exact ⟨rounds + 10,by omega,by rw [chooseBucketCount,doubles,pow_add]; rfl⟩

/-- Up to 2^30 rows no more than half of the buckets are ever in use. -/
theorem chooseBucketCount_room (few : nrows ≤ 2 ^ 30) : nrows < chooseBucketCount nrows := by
  have least : 1024 ≤ chooseBucketCount nrows := le_doubled ..
  rcases doubled_stops (fun result => decide (result < nrows * 2) && decide (result < (2 ^ 32 - 1) / 2 + 1)) 21 1024
    with stops | grown
  · rw [← chooseBucketCount,Bool.and_eq_false_iff,decide_eq_false_iff_not,decide_eq_false_iff_not] at stops
    omega
  · rw [← chooseBucketCount] at grown
    omega

variable {store : BuildStore ι}

theorem nextBucket_cyclic (sized : store.nbuckets = chooseBucketCount nrows) :
    Cyclic store.nbuckets (nextBucket store) := by
  obtain ⟨rounds,few,power⟩ := chooseBucketCount_power nrows
  intro bucket inside
  have bound : 2 ^ rounds ≤ 2 ^ 31 := Nat.pow_le_pow_right Nat.two_pos few
  unfold nextBucket
  rw [sized,power] at *
  rw [Nat.mod_eq_of_lt (by omega),Nat.and_two_pow_sub_one_eq_mod]

theorem bucketOf_lt (sized : store.nbuckets = chooseBucketCount nrows) (hash : BitVec 32) :
    bucketOf store hash < store.nbuckets := by
  obtain ⟨rounds,few,power⟩ := chooseBucketCount_power nrows
  rw [bucketOf,sized,power,Nat.and_two_pow_sub_one_eq_mod]
  exact Nat.mod_lt _ (Nat.two_pow_pos rounds)

end Buckets

section Linking
variable {config : Config} {store : BuildStore ι}

/-- Where the search for a key tuple begins. -/
def homeOf (store : BuildStore ι) (keys : List Int4) : Nat :=
  bucketOf store (keyHash keys)

/-- What linking leaves alone. -/
structure SameRows (before after : BuildStore ι) : Prop where
  rows : after.toStore = before.toStore
  nbuckets : after.nbuckets = before.nbuckets
  hashShift : after.hashShift = before.hashShift

/-- The first `count` rows are linked. -/
structure Linked (config : Config) (start : BuildStore ι) (count : Nat) (table : BuildStore ι) : Prop where
  same : SameRows start table
  indexed : Indexed start.nbuckets (homeOf start) (keysOf config start) count table.buckets table.next
  duplicates : table.hasDuplicates = true ↔ ∃ left right, left < right ∧ right < count ∧
    keysOf config start left = keysOf config start right

theorem SameRows.keysOf (same : SameRows store after) (config : Config) : keysOf config after = keysOf config store := by
  funext row
  simp only [HashJoin.keysOf,same.rows]

/-- One more row is linked. -/
theorem linkBuildRow_ok {start table : BuildStore ι} (nrows : Nat) {count : Nat} (linked : Linked config start count table)
    (sized : start.nbuckets = chooseBucketCount nrows) (room : count < start.nbuckets) (small : count < 2 ^ 31)
    (hashed : ∀ row, row ≤ count → start.hashes row = keyHash (HashJoin.keysOf config start row)) :
    ∃ table', (∀ fuel, start.nbuckets ≤ fuel → linkBuildRow config fuel table count = some table') ∧
      Linked config start (count + 1) table' := by
  have sized' : table.nbuckets = chooseBucketCount nrows := linked.same.nbuckets.trans sized
  have home (hash : BitVec 32) : bucketOf table hash = bucketOf start hash := by
    simp only [bucketOf,linked.same.nbuckets,linked.same.hashShift]
  obtain ⟨bucket,inside,ends,chain,indexed⟩ := linked.indexed.insert room (bucketOf_lt sized _)
  have cyclic := nextBucket_cyclic sized'
  rw [linked.same.nbuckets] at cyclic
  have stops : ∀ slot, slot < start.nbuckets → linkEnds config table count slot =
      stopsAt (keyAt (HashJoin.keysOf config start) table.buckets) (HashJoin.keysOf config start count) slot := by
    intro slot bounded
    unfold linkEnds stopsAt keyAt
    dsimp only
    by_cases zero : table.buckets slot = 0
    · simp [zero]
    · have before := linked.indexed.head bounded zero
      have one := hashed _ (Nat.le_of_lt before)
      have two := hashed _ (Nat.le_refl count)
      rw [← linked.same.keysOf config] at one two ⊢
      rw [← linked.same.rows] at one two
      have test := buildKeysEqual_iff one two
      rw [if_neg zero]
      simp only [beq_eq_false_iff_ne.mpr zero,Bool.false_or]
      rw [Bool.eq_iff_iff,test,decide_eq_true_eq]
  have found (fuel : Nat) (enough : start.nbuckets ≤ fuel) :
      probe (nextBucket table) (linkEnds config table count) fuel (bucketOf table (table.hashes count)) =
        some bucket := by
    rw [linked.same.rows,hashed count (Nat.le_refl _),home,
      probe_congr cyclic stops (bucketOf_lt sized _)]
    exact ends _ cyclic fuel enough
  have ran (fuel : Nat) (enough : start.nbuckets ≤ fuel) : linkBuildRow config fuel table count = some {table with
      next := Function.update table.next count (table.buckets bucket)
      buckets := Function.update table.buckets bucket ((count + 1) % 2 ^ 32)
      hasDuplicates := table.hasDuplicates || table.buckets bucket != 0} := by
    rw [linkBuildRow,found fuel enough]
    rfl
  refine ⟨_,ran,⟨linked.same.rows,linked.same.nbuckets,linked.same.hashShift⟩,?_,?_⟩
  · rw [Nat.mod_eq_of_lt (show count + 1 < 2 ^ 32 by omega)]
    exact indexed
  · have head : table.buckets bucket ≠ 0 ↔
        ∃ row, row < count ∧ HashJoin.keysOf config start row = HashJoin.keysOf config start count := by
      rw [ne_eq,chain.empty fun _ _ => Nat.succ_ne_zero _,List.eq_nil_iff_forall_not_mem]
      push Not
      simp only [mem_rowsOf]
    simp only [Bool.or_eq_true,bne_iff_ne,head,linked.duplicates]
    constructor
    · rintro (⟨left,right,less,below,same⟩ | ⟨row,below,same⟩)
      · exact ⟨left,right,less,by omega,same⟩
      · exact ⟨row,count,below,Nat.lt_succ_self _,same⟩
    · rintro ⟨left,right,less,below,same⟩
      by_cases last : right = count
      · subst last
        exact .inr ⟨left,less,same⟩
      · exact .inl ⟨left,right,less,by omega,same⟩

/-- All rows are linked, however many buckets a search may visit. -/
theorem linkBuildRows_ok (keyed : Keyed config store) (few : store.nrows ≤ 2 ^ 30) :
    ∃ table, (∀ fuel, chooseBucketCount store.nrows ≤ fuel → linkBuildRows config fuel store = some table) ∧
      Linked config {store with nbuckets := chooseBucketCount store.nrows, buckets := fun _ => 0} store.nrows table := by
  let start : BuildStore ι := {store with nbuckets := chooseBucketCount store.nrows, buckets := fun _ => 0}
  have room := chooseBucketCount_room few
  have loop (count : Nat) (most : count ≤ store.nrows) : ∃ table,
      (∀ fuel, chooseBucketCount store.nrows ≤ fuel →
        (List.range count).foldlM (linkBuildRow config fuel) start = some table) ∧ Linked config start count table := by
    induction count with
    | zero =>
      refine ⟨start,fun _ _ => rfl,⟨rfl,rfl,rfl⟩,indexed_empty ..,?_⟩
      rw [show start.hasDuplicates = false from keyed.fresh]
      simp
    | succ count ih =>
      obtain ⟨table,ran,linked⟩ := ih (Nat.le_of_succ_le most)
      obtain ⟨table',step,linked'⟩ := linkBuildRow_ok store.nrows linked rfl
        (show count < chooseBucketCount store.nrows by omega) (by omega)
        (fun row below => keyed.hashed row (Nat.lt_of_le_of_lt below most))
      refine ⟨table',fun fuel enough => ?_,linked'⟩
      rw [List.range_succ,List.foldlM_append,ran fuel enough,Option.bind_eq_bind,Option.bind_some,
        List.foldlM_cons,step fuel enough]
      rfl
  exact loop store.nrows (Nat.le_refl _)

/-- A lookup ends at the chain of the rows with the keys of the probe row. -/
theorem findBuildHead_ok {start table : BuildStore ι} (nrows : Nat) {count : Nat} (linked : Linked config start count table)
    (sized : start.nbuckets = chooseBucketCount nrows) (room : count < start.nbuckets)
    (hashed : ∀ row, row < count → start.hashes row = keyHash (HashJoin.keysOf config start row))
    {probe : Nat → Option Int4} {values : List Int4} (given : config.outerKeys.mapM probe = some values) :
    ∃ head, (∀ fuel, start.nbuckets ≤ fuel → findBuildHead config fuel table probe (keyHash values) = some head) ∧
      Chain (· + 1) table.next head (rowsOf (HashJoin.keysOf config start) count values) := by
  obtain ⟨bucket,inside,ends,chain,_⟩ := linked.indexed.find room values (bucketOf_lt sized _)
  have cyclic := nextBucket_cyclic (linked.same.nbuckets.trans sized)
  rw [linked.same.nbuckets] at cyclic
  have home : bucketOf table (keyHash values) = homeOf start values := by
    simp only [homeOf,bucketOf,linked.same.nbuckets,linked.same.hashShift]
  have stops : ∀ slot, slot < start.nbuckets →
      (table.buckets slot == 0 || probeMatches config table probe (keyHash values) (table.buckets slot - 1)) =
        stopsAt (keyAt (HashJoin.keysOf config start) table.buckets) values slot := by
    intro slot bounded
    unfold stopsAt keyAt
    by_cases zero : table.buckets slot = 0
    · simp [zero]
    · have one := hashed _ (linked.indexed.head bounded zero)
      rw [← linked.same.keysOf config] at one ⊢
      rw [← linked.same.rows] at one
      rw [if_neg zero]
      simp only [beq_eq_false_iff_ne.mpr zero,Bool.false_or]
      rw [Bool.eq_iff_iff,probeMatches_iff given one,decide_eq_true_eq]
  refine ⟨table.buckets bucket,fun fuel enough => ?_,chain⟩
  have inside : homeOf start values < start.nbuckets := bucketOf_lt sized _
  rw [findBuildHead,home,probe_congr cyclic stops inside,ends _ cyclic fuel enough]
  rfl

end Linking

section Batches
variable {config : Config}

end Batches

/-- What a table over the rows of a store answers. -/
structure Answers (config : Config) (store table : BuildStore ι) : Prop where
  lookup : ∀ probe values, config.outerKeys.mapM probe = some values → ∃ head found,
    (∀ fuel, table.nbuckets ≤ fuel → findBuildHead config fuel table probe (keyHash values) = some head) ∧
      (∀ fuel, store.nrows < fuel → follow table.next fuel head = some found) ∧ (head = 0 ↔ found = []) ∧
      found.Nodup ∧ ∀ row, row ∈ found ↔ row < store.nrows ∧ keysOf config store row = values
  duplicates : table.hasDuplicates = true ↔ ∃ left right, left < right ∧ right < store.nrows ∧
    keysOf config store left = keysOf config store right

/-- The table is finished unless its buckets cannot be allocated, and it answers every probe. -/
theorem build_table_answers (config : Config) (store : BuildStore ι) (keyed : Keyed config store)
    (few : store.nrows ≤ 2 ^ 30) : ∃ table, Answers config store table ∧ table.toStore = store.toStore ∧
      ∀ fuel, chooseBucketCount store.nrows ≤ fuel → linkBuildRows config fuel store = some table ∧
        finishBuildTable config fuel store =
          some (if maxAllocSize < 4 * chooseBucketCount store.nrows then .error "invalid memory alloc request size"
            else .ok table) := by
  obtain ⟨table,ran,linked⟩ := linkBuildRows_ok keyed few
  refine ⟨table,⟨?_,linked.duplicates⟩,linked.same.rows,fun fuel enough => ⟨ran fuel enough,?_⟩⟩
  · intro probe values given
    obtain ⟨head,found,chain⟩ := findBuildHead_ok store.nrows linked rfl (chooseBucketCount_room few)
      keyed.hashed given
    have short : (rowsOf (keysOf config store) store.nrows values).length ≤ store.nrows := by
      rw [rowsOf,List.length_reverse]
      exact Nat.le_trans (List.length_filter_le ..) (by rw [List.length_range])
    refine ⟨head,_,?_,fun fuel enough => follow_chain chain (Nat.lt_of_le_of_lt short enough),
      chain.empty fun _ _ => Nat.succ_ne_zero _,rowsOf_nodup values,fun row => mem_rowsOf⟩
    rw [linked.same.nbuckets]
    exact found
  · unfold finishBuildTable
    split
    · rfl
    · rw [ran fuel enough]
      rfl

/-- A join on one column, and a store of two rows with one key. -/
def twoRows : Config × BuildStore Unit where
  fst := ⟨1,1,id,id,[0],[0],List.cons_ne_nil _ _,rfl,by decide,by decide,1000000,by decide,1,2⟩
  snd := ⟨⟨2,fun _ => (),fun _ => keyHash [7#32],fun _ _ => 7#32,fun _ _ => true⟩,1024,fun _ => 0,fun _ => 0,0,0,false⟩

theorem twoRows_answers : ∃ table, Answers twoRows.1 twoRows.2 table ∧ table.toStore = twoRows.2.toStore ∧
    ∀ fuel, chooseBucketCount twoRows.2.nrows ≤ fuel → linkBuildRows twoRows.1 fuel twoRows.2 = some table ∧
      finishBuildTable twoRows.1 fuel twoRows.2 =
        some (if maxAllocSize < 4 * chooseBucketCount twoRows.2.nrows then .error "invalid memory alloc request size"
          else .ok table) :=
  build_table_answers twoRows.1 twoRows.2 ⟨fun _ _ => rfl,rfl,by decide⟩ (by decide)

end PgBatch.HashJoin
