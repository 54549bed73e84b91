import PgBatch.Nodes.HashJoinShelves
import PgBatch.Nodes.HashJoinMatches
import PgBatch.Nodes.HashJoinMemory

/-! Loading the build rows of a spilled partition chunk by chunk: each chunk becomes a
table, and together they are the rows of the partition. -/
namespace PgBatch.HashJoin
open Words Columnar Spill
variable {ι : Type}

namespace PartitionState

@[simp] theorem setFiles_files (state : PartitionState ι) (level : Level) (side : Side) (files : SpillFiles ι) :
    (state.setFiles level side files).files level side = files := by
  simp [setFiles]

theorem setFiles_side (state : PartitionState ι) (level : Level) {side other : Side} (files : SpillFiles ι) (apart : other ≠ side) :
    (state.setFiles level side files).files level other = state.files level other := by
  simp [setFiles,apart]

theorem setFiles_level (state : PartitionState ι) {level other : Level} (side : Side) (files : SpillFiles ι) (apart : other ≠ level) :
    (state.setFiles level side files).files other = state.files other := by
  simp [setFiles,apart]

end PartitionState

/-- What loading build rows of a partition may change. -/
def Loads (level : Level) (partition : Nat) (before after : PartitionState ι) : Prop :=
  ∃ files build block row eof more, Touches partition (before.files level .build) files ∧
    after = {before.setFiles level .build files with
      build := build, buildBlock := block, buildBlockRow := row, buildFileEof := eof, buildPartitionMore := more}

section Frames
variable {level : Level} {partition : Nat} {first second third : PartitionState ι}

theorem Loads.refl (level : Level) (partition : Nat) (state : PartitionState ι) : Loads level partition state state :=
  ⟨state.files level .build,state.build,state.buildBlock,state.buildBlockRow,state.buildFileEof,state.buildPartitionMore,.refl ..,
    by simp [PartitionState.setFiles]⟩

theorem Loads.trans (one : Loads level partition first second) (two : Loads level partition second third) :
    Loads level partition first third := by
  obtain ⟨files,_,_,_,_,_,touches,rfl⟩ := one
  obtain ⟨files',build,block,row,eof,more,touches',rfl⟩ := two
  refine ⟨files',build,block,row,eof,more,touches.trans ?_,?_⟩
  · simpa using touches'
  · simp [PartitionState.setFiles]

end Frames

/-- A build row as it is stored: with all columns, and the hash of its keys. -/
structure BuildRow (config : Config) (row : Row ι) : Prop where
  width : row.cells.length = config.ninnerColumns
  hash : row.hash = keyHash (entry config.innerKeys row).1

/-- The active partition has these build rows left to load. -/
structure Loading (config : Config) (rows : Nat → List (Row ι)) (level : Level) (partition : Nat) (rest : List (Row ι))
    (state : PartitionState ι) : Prop where
  active : state.active = some (level,partition)
  readable : Readable rows partition (state.files level .build)
  width : (state.files level .build).set.ncolumns = config.ninnerColumns
  rest : (state.buildBlock.rows config.ninnerColumns).drop state.buildBlockRow ++
    ((state.files level .build).ahead partition).flatMap (Store.rows config.ninnerColumns) = rest
  eof : state.buildFileEof = true → (state.files level .build).ahead partition = []
  blocks : ∀ block ∈ (state.files level .build).ahead partition, 0 < block.nrows

section Rows
variable {config : Config} {rows : Nat → List (Row ι)} {level : Level} {partition : Nat} {rest : List (Row ι)}
  {state : PartitionState ι}

theorem drop_rows (ncolumns : Nat) {block : Store ι} {index : Nat} (inside : index < block.nrows) :
    (block.rows ncolumns).drop index = block.row ncolumns index :: (block.rows ncolumns).drop (index + 1) := by
  rw [List.drop_eq_getElem_cons (by simpa using inside)]
  simp [Store.rows]

theorem drop_rows_nil {ncolumns : Nat} {block : Store ι} {index : Nat} (behind : block.nrows ≤ index) :
    (block.rows ncolumns).drop index = [] :=
  List.drop_eq_nil_of_le (by simpa using behind)

/-- The next row is in the block, or in the block that is read then. -/
theorem nextBuildRow_some {row : Row ι} (loading : Loading config rows level partition (row :: rest) state) :
    ∃ after, nextBuildRow config state = .ok (after,true) ∧ Loads level partition state after ∧ after.build = state.build ∧
      Loading config rows level partition (row :: rest) after ∧ after.buildBlockRow < after.buildBlock.nrows ∧
      after.buildBlock.row config.ninnerColumns after.buildBlockRow = row := by
  have place : state.place = (level,partition) := by rw [PartitionState.place,loading.active]; rfl
  have split := loading.rest
  unfold nextBuildRow
  by_cases inside : state.buildBlockRow < state.buildBlock.nrows
  · rw [if_pos inside]
    rw [drop_rows _ inside,List.cons_append,List.cons.injEq] at split
    exact ⟨state,rfl,.refl ..,rfl,loading,inside,split.1⟩
  · rw [if_neg inside,place]
    rw [drop_rows_nil (Nat.not_lt.mp inside),List.nil_append] at split
    cases ahead : (state.files level .build).ahead partition with
    | nil => rw [ahead] at split; cases split
    | cons block blocks =>
      have some_ := loading.blocks block (by simp [ahead])
      obtain ⟨files,read,on⟩ := readSpillBlock_some loading.readable loading.width ahead
      refine ⟨_,by simp only [bind,Except.bind,read]; rfl,⟨files,_,_,_,_,_,on.touches,rfl⟩,rfl,?_,some_,?_⟩
      · refine ⟨loading.active,?_,?_,?_,?_,?_⟩
        · simpa using on.readable
        · obtain ⟨_,_,same⟩ := on.touches.reads
          simpa [same] using loading.width
        · rw [ahead] at split
          simpa [on.ahead] using split
        · intro ended
          have none := loading.eof ended
          rw [ahead] at none
          cases none
        · intro other member
          refine loading.blocks other ?_
          rw [ahead]
          exact List.mem_cons_of_mem _ (by simpa [on.ahead] using member)
      · rw [ahead,List.flatMap_cons] at split
        have head := drop_rows config.ninnerColumns some_
        rw [List.drop_zero] at head
        rw [head,List.cons_append,List.cons.injEq] at split
        exact split.1

/-- The file is at its end. -/
theorem nextBuildRow_none (loading : Loading config rows level partition [] state) :
    ∃ after, nextBuildRow config state = .ok (after,false) ∧ Loads level partition state after ∧ after.build = state.build ∧
      Loading config rows level partition [] after := by
  have place : state.place = (level,partition) := by rw [PartitionState.place,loading.active]; rfl
  obtain ⟨none,none'⟩ := List.append_eq_nil_iff.mp loading.rest
  have behind : ¬ state.buildBlockRow < state.buildBlock.nrows := by
    intro inside
    rw [drop_rows _ inside] at none
    cases none
  have ahead : (state.files level .build).ahead partition = [] := by
    rw [List.eq_nil_iff_forall_not_mem]
    intro block member
    have empty : block.rows config.ninnerColumns = [] := List.flatMap_eq_nil_iff.mp none' block member
    have length := congrArg List.length empty
    rw [length_rows,List.length_nil] at length
    exact absurd (loading.blocks block member) (by omega)
  unfold nextBuildRow
  rw [if_neg behind,place]
  obtain ⟨files,read,on⟩ := readSpillBlock_none loading.readable config.ninnerColumns ahead
  refine ⟨_,by simp only [bind,Except.bind,read]; rfl,⟨files,_,_,_,_,_,on.touches,rfl⟩,rfl,loading.active,?_,?_,?_,?_,?_⟩
  · simpa using on.readable
  · obtain ⟨_,_,same⟩ := on.touches.reads
    simpa [same] using loading.width
  · simpa [on.ahead,PartitionState.setFiles] using none
  · exact fun _ => by simpa using on.ahead
  · simp [on.ahead]

/-- The rows are stored in their order, as many as may be. -/
theorem loadRows_ok {left : Nat} {build : BuildStore ι} (loading : Loading config rows level partition rest state)
    (stored : (rest.take left).foldlM (appendBuildRow config) state.build = .ok build) :
    ∃ after, loadRows config left state = .ok after ∧ Loads level partition state after ∧ after.build = build ∧
      Loading config rows level partition (rest.drop left) after := by
  induction left generalizing rest state with
  | zero =>
    cases stored
    exact ⟨state,rfl,.refl ..,rfl,loading⟩
  | succ left ih =>
    unfold loadRows
    cases rest with
    | nil =>
      cases stored
      obtain ⟨after,ran,loads,same,loading'⟩ := nextBuildRow_none loading
      exact ⟨after,by rw [ran]; rfl,loads,same,loading'⟩
    | cons row rest =>
      obtain ⟨middle,ran,loads,same,loading',inside,here⟩ := nextBuildRow_some loading
      rw [List.take_succ_cons,List.foldlM_cons] at stored
      obtain ⟨grown,appended,others⟩ := Results.bind_ok.mp stored
      have stepped : Loading config rows level partition rest
          {middle with build := grown, buildBlockRow := middle.buildBlockRow + 1} := by
        refine ⟨loading'.active,loading'.readable,loading'.width,?_,loading'.eof,loading'.blocks⟩
        have split := loading'.rest
        rw [drop_rows _ inside,List.cons_append,List.cons.injEq] at split
        exact split.2
      obtain ⟨after,ran',loads',same',last⟩ := ih stepped others
      have one : appendSpillBuildRow config middle =
          .ok {middle with build := grown, buildBlockRow := middle.buildBlockRow + 1} := by
        rw [appendSpillBuildRow,here,same,appended]
        rfl
      refine ⟨after,?_,loads.trans (.trans ?_ loads'),same',last⟩
      · rw [ran]
        simp only [bind,Except.bind,one,if_true]
        exact ran'
      · exact ⟨middle.files level .build,grown,middle.buildBlock,middle.buildBlockRow + 1,middle.buildFileEof,
          middle.buildPartitionMore,.refl ..,by simp [PartitionState.setFiles]⟩

/-- Only storing a row can fail. -/
theorem loadRows_error {left : Nat} {message : String} (loading : Loading config rows level partition rest state)
    (failed : (rest.take left).foldlM (appendBuildRow config) state.build = .error message) :
    loadRows config left state = .error message := by
  induction left generalizing rest state with
  | zero => cases failed
  | succ left ih =>
    unfold loadRows
    cases rest with
    | nil => cases failed
    | cons row rest =>
      obtain ⟨middle,ran,loads,same,loading',inside,here⟩ := nextBuildRow_some loading
      rw [List.take_succ_cons,List.foldlM_cons] at failed
      rw [ran]
      simp only [bind,Except.bind,if_true]
      rw [appendSpillBuildRow,here,same]
      cases appended : appendBuildRow config state.build row with
      | error other =>
        rw [appended] at failed
        cases failed
        rfl
      | ok grown =>
        rw [appended] at failed
        have stepped : Loading config rows level partition rest
            {middle with build := grown, buildBlockRow := middle.buildBlockRow + 1} := by
          refine ⟨loading'.active,loading'.readable,loading'.width,?_,loading'.eof,loading'.blocks⟩
          have split := loading'.rest
          rw [drop_rows _ inside,List.cons_append,List.cons.injEq] at split
          exact split.2
        exact ih stepped failed

/-! A chunk. -/

theorem cell_value (row : Row ι) (column : Nat) :
    (row.cell column).value = (row.cells.map Columnar.Cell.value).getD column 0#32 := by
  rw [Row.cell,List.getD_eq_getElem?_getD,List.getD_eq_getElem?_getD,List.getElem?_map]
  cases row.cells[column]? <;> rfl

/-- The keys of a row do not depend on the validity of its values. -/
theorem entry_bare (keys : List Nat) (row : Row ι) :
    entry keys row = (keys.map fun key => (bare row).2.2.getD key 0#32,(bare row).1) := by
  simp only [entry,cell_value,bare]

theorem entries_bare {left right : List (Row ι)} (same : left.map bare = right.map bare) (keys : List Nat) :
    left.map (entry keys) = right.map (entry keys) := by
  have both := congrArg (List.map fun view => (keys.map fun key => view.2.2.getD key 0#32,view.1)) same
  rw [List.map_map,List.map_map] at both
  rw [funext (entry_bare keys)]
  exact both

theorem appendBuildRow_allocated {store store' : BuildStore ι} {row : Row ι} (allocated : 8 * store.capacity ≤ maxAllocSize)
    (ran : appendBuildRow config store row = .ok store') : 8 * store'.capacity ≤ maxAllocSize := by
  obtain ⟨grown,grew,appended⟩ := Results.bind_ok.mp ran
  cases appended
  unfold makeRoom at grew
  split at grew
  · unfold growBuildStore resizeBuildStore at grew
    generalize (if store.capacity = 0 then 1024 else store.capacity * 2 % 2 ^ 32) = capacity at grew
    split at grew
    · cases grew
    · split at grew
      · cases grew
      · rename_i small
        cases grew
        exact Nat.not_lt.mp small
  · cases grew
    exact allocated

/-- A store that holds the keys of its rows with their hashes. -/
theorem keyed_rows {store : BuildStore ι} (fresh : store.hasDuplicates = false) (shift : store.hashShift < 32)
    (hashed : ∀ row ∈ store.rows config.ninnerColumns, row.hash = keyHash (entry config.innerKeys row).1) :
    Keyed config store := by
  refine ⟨fun row inside => ?_,fresh,shift⟩
  have here := hashed (store.row config.ninnerColumns row) (List.mem_map_of_mem (List.mem_range.mpr inside))
  rw [entry_row] at here
  exact here

/-- What has been appended to an empty store makes a table, if it can be finished. -/
theorem chunk_result {store build : BuildStore ι} {taken : List (Row ι)} (built : ∀ row ∈ taken, BuildRow config row)
    (shift : store.hashShift < 32)
    (stored : taken.foldlM (appendBuildRow config) {resetBuildStore store with hashShift := store.hashShift} = .ok build) :
    build.nrows = taken.length ∧ (finishTable config build = .error "invalid memory alloc request size" ∨
      ∃ table, finishTable config build = .ok table ∧ Tabled config table ∧
        tableEntries config table.toStore = taken.map (entry config.innerKeys)) := by
  have roomy : Roomy {resetBuildStore store with hashShift := store.hashShift} :=
    ⟨(roomy_reset store).room,(roomy_reset store).words,(roomy_reset store).beyond⟩
  obtain ⟨appends,count,rows_⟩ := appendRows_ok roomy stored
  have views : (build.rows config.ninnerColumns).map bare = taken.map bare := by
    have honest : Honest bare config {resetBuildStore store with hashShift := store.hashShift} taken :=
      honest_bare fun row member => (built row member).width
    rw [Honest] at honest
    rw [rows_,List.map_append,honest]
    rfl
  have entries := entries_bare views config.innerKeys
  have hashed (row : Row ι) (member : row ∈ build.rows config.ninnerColumns) :
      row.hash = keyHash (entry config.innerKeys row).1 := by
    have view : bare row ∈ taken.map bare := views ▸ List.mem_map_of_mem member
    obtain ⟨original,among,same⟩ := List.mem_map.mp view
    have hash : original.hash = row.hash := congrArg (fun parts => parts.2.1) same
    rw [← hash,(built original among).hash,entry_bare,same,← entry_bare]
  have keyed : Keyed config build := by
    refine keyed_rows appends.hasDuplicates ?_ hashed
    rw [appends.hashShift]
    exact shift
  have allocated : 8 * build.capacity ≤ maxAllocSize :=
    Results.foldlM_keeps (fun store : BuildStore ι => 8 * store.capacity ≤ maxAllocSize)
      (fun _ _ _ ran allocated => appendBuildRow_allocated allocated ran) stored (Nat.zero_le _)
  have few : build.nrows ≤ 2 ^ 30 := by
    have room := appends.roomy.room
    unfold maxAllocSize at allocated
    omega
  refine ⟨by rw [count]; exact Nat.zero_add _,?_⟩
  rcases finishTable_result keyed few with failed | ⟨table,ran,tabled,same⟩
  · exact .inl failed
  · refine .inr ⟨table,ran,tabled,?_⟩
    rw [tableEntries,same]
    exact entries

/-- A chunk of the rows becomes the table, unless there are none left or memory runs out. -/
theorem loadBuildChunk_result (spill : BuildSpill ι) (loading : Loading config rows level partition rest state)
    (built : ∀ row ∈ rest, BuildRow config row) (positive : 0 < spill.buildChunkRows) (shift : state.activeHashShift < 32) :
    (∃ message, GrowError message ∧ loadBuildChunk config spill state = .error message) ∨
    (rest = [] ∧ ∃ after, loadBuildChunk config spill state = .ok (after,false) ∧ Loads level partition state after) ∨
    (rest ≠ [] ∧ ∃ after, loadBuildChunk config spill state = .ok (after,true) ∧ Loads level partition state after ∧
      Loading config rows level partition (rest.drop spill.buildChunkRows) after ∧ Tabled config after.build ∧
      tableEntries config after.build.toStore = (rest.take spill.buildChunkRows).map (entry config.innerKeys) ∧
      (after.buildPartitionMore = false → rest.drop spill.buildChunkRows = [])) := by
  let start : PartitionState ι := {state with build := {resetBuildStore state.build with hashShift := state.activeHashShift}}
  have loading' : Loading config rows level partition rest start :=
    ⟨loading.active,loading.readable,loading.width,loading.rest,loading.eof,loading.blocks⟩
  have begun : Loads level partition state start :=
    ⟨state.files level .build,_,_,_,_,_,.refl ..,by simp [PartitionState.setFiles,start]; exact ⟨rfl,rfl,rfl,rfl,rfl⟩⟩
  unfold loadBuildChunk
  cases stored : (rest.take spill.buildChunkRows).foldlM (appendBuildRow config) start.build with
  | error message =>
    have failed := loadRows_error loading' stored
    refine .inl ⟨message,Results.foldlM_fails GrowError (fun _ _ _ => appendBuildRow_error) stored,?_⟩
    rw [failed]
    rfl
  | ok build =>
    obtain ⟨loaded,ran,loads,same,last⟩ := loadRows_ok loading' stored
    have wide : ({state.build with hashShift := state.activeHashShift} : BuildStore ι).hashShift < 32 := shift
    obtain ⟨count,finished⟩ := chunk_result (fun row member => built row (List.mem_of_mem_take member)) wide stored
    rw [ran]
    simp only [bind,Except.bind,same,count]
    cases rest with
    | nil =>
      refine .inr (.inl ⟨rfl,_,if_pos (by simp),begun.trans (loads.trans ?_)⟩)
      exact ⟨loaded.files level .build,build,loaded.buildBlock,loaded.buildBlockRow,loaded.buildFileEof,false,.refl ..,
        by simp [PartitionState.setFiles,same]⟩
    | cons row rest =>
      have some_ : ((row :: rest).take spill.buildChunkRows).length ≠ 0 := by
        rw [List.length_take,List.length_cons]
        omega
      rw [if_neg some_]
      rcases finished with failed | ⟨table,ran',tabled,entries⟩
      · exact .inl ⟨_,.inr rfl,by rw [failed]⟩
      · rw [ran']
        refine .inr (.inr ⟨List.cons_ne_nil _ _,_,rfl,begun.trans (loads.trans ?_),?_,tabled,entries,?_⟩)
        · exact ⟨loaded.files level .build,table,loaded.buildBlock,loaded.buildBlockRow,loaded.buildFileEof,
            !loaded.buildFileEof || decide (loaded.buildBlockRow < loaded.buildBlock.nrows),.refl ..,
            by simp [PartitionState.setFiles]⟩
        · exact ⟨last.active,last.readable,last.width,last.rest,last.eof,last.blocks⟩
        · intro none
          simp only [Bool.or_eq_false_iff,Bool.not_eq_false',decide_eq_false_iff_not] at none
          have split := last.rest
          rw [last.eof none.1,drop_rows_nil (Nat.not_lt.mp none.2)] at split
          exact split.symm

end Rows

end PgBatch.HashJoin
