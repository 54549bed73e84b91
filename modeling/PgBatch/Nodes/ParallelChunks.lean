import PgBatch.Nodes.ParallelReads

/-! Loading the build rows of a claimed partition: whole blocks go to the build store until
there are enough of them for a chunk, and the chunk becomes a table. -/
namespace PgBatch.ParallelJoin
open Words Columnar Spill HashJoin
variable {ι : Type}

/-! The build store. -/

/-- A build store with these rows, of which no table has been made. -/
structure Filled (config : Config) (taken : List (Row ι)) (store : BuildStore ι) : Prop where
  roomy : Roomy store
  clear : store.Clear config.ninnerColumns
  rows : store.rows config.ninnerColumns = taken
  fresh : store.hasDuplicates = false
  shift : store.hashShift = 0
  allocated : 8 * store.capacity ≤ maxAllocSize

section Store
variable {config : Config} {taken : List (Row ι)} {store store' : BuildStore ι}

theorem Filled.count (filled : Filled config taken store) : store.nrows = taken.length := by
  rw [← filled.rows,length_rows]

theorem filled_reset (config : Config) (shift : store.hashShift = 0) : Filled config [] (resetBuildStore store) :=
  ⟨roomy_reset store,fun _ _ _ _ => rfl,rfl,rfl,shift,Nat.zero_le _⟩

/-- Room is made without touching the rows, unless the store cannot grow. -/
theorem makeRoomFor_result (filled : Filled config taken store) (nrows : Nat) :
    (∃ message, GrowError message ∧ makeRoomFor nrows store = .error message) ∨
      ∃ store', makeRoomFor nrows store = .ok store' ∧ Filled config taken store' ∧ nrows ≤ store'.capacity - store'.nrows := by
  fun_induction makeRoomFor nrows store with
  | case1 store less message failed => exact .inl ⟨message,resizeBuildStore_error failed,rfl⟩
  | case2 store less store' grew ih =>
    have larger := growBuildStore_larger grew
    obtain ⟨roomy,_,capacity,rfl⟩ := growBuildStore_ok filled.roomy grew
    exact ih ⟨roomy,filled.clear,filled.rows,filled.fresh,filled.shift,larger.2⟩
  | case3 store enough => exact .inr ⟨store,rfl,filled,Nat.not_lt.mp enough⟩

/-- A row is stored as it is given. -/
theorem Filled.append (filled : Filled config taken store) (block : Store ι) (row : Nat) (room : store.nrows < store.capacity) :
    Filled config (taken ++ [block.row config.ninnerColumns row]) (appendBlockRow config block store row) := by
  refine ⟨⟨room,filled.roomy.words,?_⟩,clear_append filled.clear _ _ _,?_,filled.fresh,filled.shift,filled.allocated⟩
  · intro column slot above
    have apart : slot ≠ store.nrows := by
      simp only [appendBlockRow] at above
      omega
    have clear : store.valid column slot = false := filled.roomy.beyond column slot above
    simp [appendBlockRow,Store.append,apart,clear]
  · exact (rows_append filled.clear _ _ _).trans (congrArg (· ++ _) filled.rows)

theorem appendBlockRows_ok (filled : Filled config taken store) (block : Store ι) (visits : List Nat)
    (room : store.nrows + visits.length ≤ store.capacity) :
    Filled config (taken ++ visits.map (block.row config.ninnerColumns)) (visits.foldl (appendBlockRow config block) store) := by
  induction visits generalizing store taken with
  | nil => simpa using filled
  | cons row rest ih =>
    rw [List.length_cons] at room
    have first := filled.append block row (by omega)
    have grown : (appendBlockRow config block store row).nrows = store.nrows + 1 := rfl
    have same : (appendBlockRow config block store row).capacity = store.capacity := rfl
    have others := ih first (by omega)
    rwa [List.append_assoc] at others

/-- The rows of a block are stored behind the others, unless the store cannot grow. -/
theorem appendDenseBuild_result (filled : Filled config taken store) (block : Store ι) :
    (∃ message, GrowError message ∧ appendDenseBuild config config.ninnerColumns block store = .error message) ∨
      ∃ store', appendDenseBuild config config.ninnerColumns block store = .ok store' ∧
        Filled config (taken ++ block.rows config.ninnerColumns) store' := by
  unfold appendDenseBuild
  rw [if_neg (not_not_intro rfl)]
  rcases makeRoomFor_result filled block.nrows with ⟨message,may,failed⟩ | ⟨roomy,ran,filled',room⟩
  · exact .inl ⟨message,may,by rw [failed]; rfl⟩
  · refine .inr ⟨_,by rw [ran]; rfl,appendBlockRows_ok filled' block _ ?_⟩
    have bound := filled'.roomy.room
    rw [List.length_range]
    omega

theorem finishTable_shift {table : BuildStore ι} (keyed : Keyed config store) (few : store.nrows ≤ 2 ^ 30)
    (finished : finishTable config store = .ok table) : table.hashShift = store.hashShift := by
  obtain ⟨linkedTable,ran,linked⟩ := linkBuildRows_ok keyed few
  unfold finishTable finishBuildTable at finished
  split at finished
  · cases finished
  · rw [ran _ (Nat.le_refl _)] at finished
    cases finished
    exact linked.same.hashShift

/-- The rows become a table, unless its buckets cannot be allocated. -/
theorem Filled.finish (filled : Filled config taken store) (built : ∀ row ∈ taken, BuildRow config row) :
    finishTable config store = .error "invalid memory alloc request size" ∨
      ∃ table, finishTable config store = .ok table ∧ Tabled config table ∧ table.hashShift = 0 ∧
        tableEntries config table.toStore = taken.map (entry config.innerKeys) := by
  have keyed : Keyed config store := by
    refine keyed_rows filled.fresh (by rw [filled.shift]; exact Nat.zero_lt_succ _) ?_
    intro row member
    rw [filled.rows] at member
    exact (built row member).hash
  have few : store.nrows ≤ 2 ^ 30 := by
    have room := filled.roomy.room
    have allocated := filled.allocated
    unfold maxAllocSize at allocated
    omega
  rcases finishTable_result keyed few with failed | ⟨table,ran,tabled,same⟩
  · exact .inl failed
  · refine .inr ⟨table,ran,tabled,(finishTable_shift keyed few ran).trans filled.shift,?_⟩
    rw [tableEntries,same,filled.rows]

end Store

/-! The head of a chain. -/

section Heads
variable {config : Config} {store : BuildStore ι} {probe : Nat → Option Int4} {values : List Int4}

/-- For keys that are there both tests are one. -/
theorem localMatches_eq (given : config.outerKeys.mapM probe = some values) (hash : BitVec 32) (row : Nat) :
    localMatches config store probe hash row = probeMatches config store probe hash row := by
  have present : ∀ outer ∈ config.outerKeys, (probe outer).isSome = true := by
    intro outer member
    generalize config.outerKeys = keys at given member
    induction keys generalizing values with
    | nil => cases member
    | cons key rest ih =>
      simp only [List.mapM_cons,Option.bind_eq_bind,Option.bind_eq_some_iff] at given
      obtain ⟨value,found,others,rest_,_⟩ := given
      rcases List.mem_cons.mp member with same | later
      · rw [same,found]
        rfl
      · exact ih rest_ later
  unfold localMatches probeMatches
  congr 1
  rw [Bool.eq_iff_iff,List.all_eq_true,List.all_eq_true]
  refine forall₂_congr fun pair member => ?_
  obtain ⟨value,found⟩ := Option.isSome_iff_exists.mp
    (present pair.2 (List.of_mem_zip (List.mem_of_mem_dropLast member)).2)
  simp [found,inputValue]

/-- In a table that was made without a shift the search of a participant is that of the serial join. -/
theorem findLocalHead_eq (shift : store.hashShift = 0) (given : config.outerKeys.mapM probe = some values) (fuel : Nat)
    (hash : BitVec 32) : findLocalHead config fuel store probe hash = findBuildHead config fuel store probe hash := by
  have bucket : bucketOf store hash = hash.toNat &&& (store.nbuckets - 1) := by
    rw [bucketOf,shift,BitVec.ushiftRight_zero]
  have tests : (fun bucket => store.buckets bucket == 0 || localMatches config store probe hash (store.buckets bucket - 1)) =
      fun bucket => store.buckets bucket == 0 || probeMatches config store probe hash (store.buckets bucket - 1) :=
    funext fun bucket => by rw [localMatches_eq given]
  rw [findLocalHead,findBuildHead,tests,bucket]

end Heads

/-! A chunk. -/

/-- The build rows that the readers have ahead. -/
def Opened.rowsAhead (config : Config) (shared : SharedFiles ι) (opened : Opened ι) : List (Row ι) :=
  (opened.buildAhead shared).flatMap (Store.rows config.ninnerColumns)

theorem buildChunkRows_positive (config : Config) : 0 < buildChunkRows config :=
  Nat.lt_of_lt_of_le (by decide : 0 < blockRows) (Nat.le_max_left ..)

section Chunks
variable {config : Config} {shared : SharedFiles ι} {inner outer : Nat → List (Row ι)} {opened : Opened ι}
  {later : List (ι × ι)} {taken : List (Row ι)} {build : BuildStore ι}

theorem Sound.built (sound : Sound config shared opened later) (files : FilesHold config shared inner outer) :
    ∀ row ∈ opened.rowsAhead config shared, BuildRow config row := by
  intro row member
  obtain ⟨block,ahead,stored⟩ := List.mem_flatMap.mp member
  exact (sound.buildBlock files ahead).2.2 row stored

/-- The loop stores whole blocks, until there are enough rows or no more blocks. -/
theorem loadBlocks_result (files : FilesHold config shared inner outer) (sound : Sound config shared opened later)
    (filled : Filled config taken build) {left : Nat} (enough : buildChunkRows config ≤ build.nrows + left) :
    (∃ message, GrowError message ∧ loadBlocks config shared left opened build = .error message) ∨
      ∃ after build' more, loadBlocks config shared left opened build = .ok (after,build') ∧
        ReadsBuild config shared opened after later ∧ Filled config (taken ++ more) build' ∧
        opened.rowsAhead config shared = more ++ after.rowsAhead config shared ∧
        (after.rowsAhead config shared = [] ∨ buildChunkRows config ≤ build'.nrows) := by
  have stay (full : buildChunkRows config ≤ build.nrows) : ReadsBuild config shared opened opened later ∧
      Filled config (taken ++ []) build ∧ opened.rowsAhead config shared = [] ++ opened.rowsAhead config shared ∧
      (opened.rowsAhead config shared = [] ∨ buildChunkRows config ≤ build.nrows) :=
    ⟨⟨sound,rfl,rfl,rfl⟩,by rwa [List.append_nil],rfl,.inr full⟩
  induction left generalizing opened taken build with
  | zero => exact .inr ⟨opened,build,[],rfl,stay enough⟩
  | succ left ih =>
    unfold loadBlocks
    by_cases few : build.nrows < buildChunkRows config
    · rw [if_pos few]
      cases ahead : opened.buildAhead shared with
      | nil =>
        obtain ⟨after,width,next,reads,none⟩ := nextBuildBlock_none sound files ahead
        refine .inr ⟨after,build,[],by simp only [bind,Except.bind,next],reads,by rwa [List.append_nil],?_,.inl ?_⟩
        · rw [Opened.rowsAhead,Opened.rowsAhead,ahead,none]
          rfl
        · rw [Opened.rowsAhead,none]
          rfl
      | cons block rest =>
        obtain ⟨after,next,reads,left'⟩ := nextBuildBlock_some sound files ahead
        have some_ := (sound.buildBlock files (ahead ▸ List.mem_cons_self ..)).1
        simp only [bind,Except.bind,next]
        rcases appendDenseBuild_result filled block with ⟨message,may,failed⟩ | ⟨grown,ran,filled'⟩
        · exact .inl ⟨message,may,by rw [failed]⟩
        · rw [ran]
          have count : grown.nrows = build.nrows + block.nrows := by
            rw [filled'.count,filled.count,List.length_append,length_rows]
          have whole : opened.rowsAhead config shared = block.rows config.ninnerColumns ++ after.rowsAhead config shared := by
            rw [Opened.rowsAhead,Opened.rowsAhead,ahead,left']
            rfl
          rcases ih reads.sound filled' (by omega) (fun full => ⟨⟨reads.sound,rfl,rfl,rfl⟩,by rwa [List.append_nil],rfl,.inr full⟩) with
            failed | ⟨last,build',more,ran',reads',filled'',split,ended⟩
          · exact .inl failed
          · refine .inr ⟨last,build',block.rows config.ninnerColumns ++ more,ran',reads.trans reads',?_,?_,ended⟩
            · rwa [← List.append_assoc]
            · rw [whole,split,List.append_assoc]
    · rw [if_neg few]
      exact .inr ⟨opened,build,[],rfl,stay (Nat.not_lt.mp few)⟩

/-- How loading a chunk may end: with no rows, or with a table of some of the rows ahead. -/
inductive ChunkLoaded (config : Config) (shared : SharedFiles ι) (own : Participant config ι) (opened : Opened ι)
    (later : List (ι × ι)) : Except String (Participant config ι × Opened ι × Bool) → Prop
  | refused {message : String} (may : GrowError message) : ChunkLoaded config shared own opened later (.error message)
  | nothing {store : BuildStore ι} {after : Opened ι} (none : opened.rowsAhead config shared = [])
      (reads : ReadsBuild config shared opened after later) (shift : store.hashShift = 0) :
      ChunkLoaded config shared own opened later (.ok ({own with build := store},after,false))
  | table {table : BuildStore ι} {after : Opened ι} {flag : Bool} {more : List (Row ι)} (some_ : more ≠ [])
      (split : opened.rowsAhead config shared = more ++ after.rowsAhead config shared)
      (reads : ReadsBuild config shared opened after later) (tabled : Tabled config table) (shift : table.hashShift = 0)
      (entries : tableEntries config table.toStore = more.map (entry config.innerKeys))
      (last : flag = false → after.rowsAhead config shared = []) :
      ChunkLoaded config shared own opened later (.ok ({own with build := table, buildMaybeMore := flag},after,true))

theorem loadLocalBuildChunk_result (files : FilesHold config shared inner outer) (sound : Sound config shared opened later)
    {own : Participant config ι} (shift : own.build.hashShift = 0) :
    ChunkLoaded config shared own opened later (loadLocalBuildChunk config shared own opened) := by
  unfold loadLocalBuildChunk
  have enough : buildChunkRows config ≤ (resetBuildStore own.build).nrows + buildChunkRows config := Nat.le_add_left ..
  rcases loadBlocks_result files sound (filled_reset config shift) enough with
    ⟨message,may,failed⟩ | ⟨after,build,more,ran,reads,filled,split,ended⟩
  · rw [failed]
    exact .refused may
  · rw [ran]
    rw [List.nil_append] at filled
    simp only [bind,Except.bind]
    have positive := buildChunkRows_positive config
    cases more with
    | nil =>
      have none : build.nrows = 0 := filled.count
      rw [if_pos none]
      refine .nothing ?_ reads filled.shift
      rw [split]
      exact ended.resolve_right (by omega)
    | cons row rest =>
      have some_ : build.nrows ≠ 0 := by
        rw [filled.count,List.length_cons]
        exact Nat.succ_ne_zero _
      rw [if_neg some_]
      have built : ∀ row' ∈ row :: rest, BuildRow config row' := fun row' member =>
        sound.built files row' (split ▸ List.mem_append_left _ member)
      rcases filled.finish built with failed | ⟨table,finished,tabled,shift',entries⟩
      · rw [failed]
        exact .refused (.inr rfl)
      · rw [finished]
        have same : table.nrows = build.nrows := by
          have length := congrArg List.length entries
          rwa [tableEntries,List.length_map,List.length_map,length_rows,← filled.count] at length
        refine .table (List.cons_ne_nil _ _) split reads tabled shift' entries fun last => ?_
        exact ended.resolve_right (same ▸ of_decide_eq_false last)

end Chunks

end PgBatch.ParallelJoin
