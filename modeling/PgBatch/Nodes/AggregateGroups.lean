import PgBatch.Nodes.AggregateSpill

/-! Grouped aggregation from end to end: the rows of a group are absorbed by the
first table or spilled, all of them together, and every group is emitted once. -/
namespace PgBatch.Aggregate
open Words Columnar Spill Grouping
variable {own : BatchAgg}

/-- The rows taken so far, divided into those the first table has absorbed and
those that were spilled. -/
structure Divides (own : BatchAgg) (taken kept spilled : List Column) : Prop where
  apart : ∀ row ∈ spilled, rowKey own row ∉ kept.map (rowKey own)
  whole : ∀ key, group (rowKey own) taken key = group (rowKey own) kept key ++ group (rowKey own) spilled key

theorem Divides.keep {taken kept spilled : List Column} {row : Column} (divides : Divides own taken kept spilled)
    (apart : rowKey own row ∉ spilled.map (rowKey own)) : Divides own (taken ++ [row]) (kept ++ [row]) spilled := by
  constructor
  · intro other member present
    rw [List.map_append,List.mem_append] at present
    rcases present with old | new
    · exact divides.apart other member old
    · exact apart (List.mem_map.mpr ⟨other,member,List.mem_singleton.mp new⟩)
  · intro key
    rw [group_append,group_append,divides.whole]
    by_cases same : rowKey own row = key
    · have none : group (rowKey own) spilled key = [] := group_eq_nil.mpr (same ▸ apart)
      rw [none,List.append_nil,List.append_nil]
    · simp [group_single,same]

theorem Divides.spill {taken kept spilled : List Column} {row : Column} (divides : Divides own taken kept spilled)
    (apart : rowKey own row ∉ kept.map (rowKey own)) : Divides own (taken ++ [row]) kept (spilled ++ [row]) := by
  constructor
  · intro other member
    rcases List.mem_append.mp member with old | new
    · exact divides.apart other old
    · rw [List.mem_singleton.mp new]
      exact apart
  · intro key
    rw [group_append,group_append,divides.whole,List.append_assoc]

/-- The groups of the rows are those of the two sides. -/
theorem Divides.perm {taken kept spilled : List Column} (divides : Divides own taken kept spilled) :
    (entriesOf own taken).Perm (entriesOf own kept ++ entriesOf own spilled) := by
  have split := groups_split (rowKey own) taken [kept,spilled]
    (by
      rw [List.pairwise_pair]
      intro key present member
      obtain ⟨row,inside,rfl⟩ := List.mem_map.mp member
      exact divides.apart row inside present)
    (fun key => by rw [divides.whole]; simp)
  have mapped := split.map fun entry => (entry.1,summary own entry.2)
  simpa [entriesOf] using mapped

/-! The row loop of a batch. -/

/-- The loop after the rows `visited`, of which `late` have been marked for spilling. -/
structure Looped (own : BatchAgg) (tags : Nat → Column) (taken kept spilled : List Column) (visited late : List Nat)
    (loop : RowLoop) : Prop where
  table : Tabulates (rowKey own) (summary own) loop.groups kept
  divides : Divides own (taken ++ visited.map tags) kept (spilled ++ late.map tags)
  fresh : loop.spilling = false → spilled = [] ∧ late = []
  hashes : ∀ row ∈ visited, loop.hashes row = sourceHash own (tags row)
  parts : ∀ partition, rows (loop.partitionRows partition) =
    late.filter fun row => decide (partitionAt 0 32 (sourceHash own (tags row)) = partition)
  subset : late ⊆ visited

theorem advanceRow_spec (grouped : own.groupInput < own.inputs.length) {vectors : List Column} {tags : Nat → Column}
    {taken kept spilled : List Column} {visited late : List Nat} {loop : RowLoop} {row : Nat}
    (cells : cellsAt vectors row = sourceCells own (tags row))
    (looped : Looped own tags taken kept spilled visited late loop) (above : ∀ earlier ∈ visited, earlier < row)
    (small : row < 64) (summable : Summable own (taken ++ (visited ++ [row]).map tags)) :
    ∃ after kept late, advanceRow own vectors loop row = .ok after ∧
      Looped own tags taken kept spilled (visited ++ [row]) late after := by
  obtain ⟨table,divides,fresh,hashes,parts,subset⟩ := looped
  have split : taken ++ (visited ++ [row]).map tags = taken ++ visited.map tags ++ [tags row] := by simp
  have hashed (row' : Nat) (member : row' ∈ visited ++ [row]) :
      Function.update loop.hashes row (sourceHash own (tags row)) row' = sourceHash own (tags row') := by
    rcases List.mem_append.mp member with old | new
    · rw [Function.update_of_ne (Nat.ne_of_lt (above row' old)),hashes row' old]
    · rw [List.mem_singleton.mp new,Function.update_self]
  have wider : late ⊆ visited ++ [row] := List.subset_append_of_subset_left _ subset
  -- A row that the table keeps: its group is not among the spilled ones.
  have keeps (apart : rowKey own (tags row) ∉ (spilled ++ late.map tags).map (rowKey own)) :
      Summable own (kept ++ [tags row]) := by
    intro key start first
    have whole := (divides.keep apart).whole key
    rw [← split] at whole
    exact summable key start (first.trans ⟨_,whole.symm⟩)
  unfold advanceRow
  dsimp only
  rw [cells,rowHash_source grouped]
  dsimp only
  by_cases present : rowKey own (tags row) ∈ kept.map (rowKey own)
  · have apart : rowKey own (tags row) ∉ (spilled ++ late.map tags).map (rowKey own) := by
      intro member
      obtain ⟨other,inside,same⟩ := List.mem_map.mp member
      exact divides.apart other inside (same ▸ present)
    obtain ⟨known,after,ran,next⟩ := advance_row table (keeps apart)
    rw [if_pos present] at ran
    rw [if_pos (by simpa [known] using present),ran]
    exact ⟨_,kept ++ [tags row],late,rfl,next,split ▸ divides.keep apart,fresh,hashed,parts,wider⟩
  · have unknown : ¬ (find loop.groups (rowKey own (tags row))).isSome = true := by
      rw [table.find,if_neg present]
      decide
    rw [if_neg unknown]
    by_cases room : loop.spilling = false ∧ loop.groups.length < own.groupLimit
    · obtain ⟨rfl,rfl⟩ := fresh room.1
      obtain ⟨_,after,ran,next⟩ := advance_row table (keeps (by simp))
      rw [if_neg present] at ran
      rw [if_pos room,ran]
      exact ⟨_,kept ++ [tags row],[],rfl,next,split ▸ divides.keep (by simp),fun _ => ⟨rfl,rfl⟩,hashed,parts,by simp⟩
    · rw [if_neg room]
      refine ⟨_,kept,late ++ [row],rfl,table,?_,Bool.noConfusion,hashed,?_,?_⟩
      · rw [split,List.map_append,← List.append_assoc]
        exact divides.spill present
      · intro partition
        dsimp only
        rw [List.filter_append]
        by_cases here : partition = partitionAt 0 32 (sourceHash own (tags row))
        · subst here
          rw [Function.update_self,rows_or_last small,parts]
          · simp
          · intro index member
            rw [parts] at member
            exact above index (subset (List.mem_filter.mp member).1)
        · rw [Function.update_of_ne here,parts]
          simp [Ne.symm here]
      · intro index member
        rcases List.mem_append.mp member with old | new
        · exact wider old
        · exact List.mem_append_right _ new

/-- The whole loop over rows in ascending order. -/
theorem advanceRows_spec (grouped : own.groupInput < own.inputs.length) {vectors : List Column} {tags : Nat → Column}
    {taken kept spilled : List Column} {visits : List Nat} (loop : RowLoop)
    (cells : ∀ row, cellsAt vectors row = sourceCells own (tags row))
    (start : Looped own tags taken kept spilled [] [] loop) (ascending : visits.Pairwise (· < ·))
    (small : ∀ row ∈ visits, row < 64) (summable : Summable own (taken ++ visits.map tags)) :
    ∃ after kept late, visits.foldlM (advanceRow own vectors) loop = .ok after ∧
      Looped own tags taken kept spilled visits late after := by
  induction visits using List.reverseRecOn with
  | nil => exact ⟨loop,kept,[],rfl,start⟩
  | append_singleton before row ih =>
    obtain ⟨earlier,_,above⟩ := List.pairwise_append.mp ascending
    have first : taken ++ before.map tags <+: taken ++ (before ++ [row]).map tags := by
      rw [List.map_append,← List.append_assoc]
      exact List.prefix_append _ _
    obtain ⟨middle,kept',late,ran,looped⟩ := ih earlier (fun row member => small row (List.mem_append_left _ member))
      (summable.of_prefix first)
    obtain ⟨after,kept',late,ran',looped'⟩ := advanceRow_spec grouped (cells row) looped
      (fun other member => above other member row (List.mem_singleton.mpr rfl))
      (small row (List.mem_append_right _ (List.mem_singleton.mpr rfl))) summable
    refine ⟨after,kept',late,?_,looped'⟩
    rw [List.foldlM_append,ran]
    change List.foldlM (advanceRow own vectors) middle [row] = _
    rw [List.foldlM_cons,ran']
    rfl

/-! A batch, and all batches. -/

/-- The initial spill set holds the rows spilled so far, by the first five hash bits. -/
structure Stored (own : BatchAgg) (sets : Nat → SpillSet Column) (nsets index : Nat) (spilled : List Column) : Prop where
  inside : index < nsets
  writable : Writable own 32 (sets index).toWriters
  contents : ∀ partition, (sets index).toWriters.contents partition =
    (inPartition own 0 32 partition spilled).map (spillRow own)

/-- The state between two batches, after the rows `taken`. -/
structure Collected (own : BatchAgg) (state : AggState) (taken kept spilled : List Column) : Prop where
  table : Tabulates (rowKey own) (summary own) state.mainGroups kept
  divides : Divides own taken kept spilled
  fresh : state.spilling = false → spilled = []
  waiting : state.inputDone = false ∧ state.spillWork = []
  unspilled : state.initialSpill = none → spilled = []
  stored : ∀ index, state.initialSpill = some index → Stored own state.sets state.nsets index spilled

theorem ensureInitialSpill_spec (grouped : own.groupInput < own.inputs.length) (state : AggState)
    {spilled : List Column} (unspilled : state.initialSpill = none → spilled = [])
    (stored : ∀ index, state.initialSpill = some index → Stored own state.sets state.nsets index spilled) :
    ∃ sets nsets index, ensureInitialSpill own state =
        .ok ({state with sets := sets, nsets := nsets, initialSpill := some index},index) ∧
      Stored own sets nsets index spilled := by
  unfold ensureInitialSpill
  cases spill : state.initialSpill with
  | some index =>
    have same : state = {state with sets := state.sets, nsets := state.nsets, initialSpill := some index} := by
      rw [← spill]
    exact ⟨state.sets,state.nsets,index,by rw [← same],stored index spill⟩
  | none =>
    dsimp only
    rw [newSpill_ok grouped (by decide)]
    refine ⟨_,_,_,rfl,Nat.lt_succ_self _,?_,?_⟩
    · dsimp only
      rw [Function.update_self]
      exact create_writable 32
    · intro partition
      dsimp only
      rw [Function.update_self,unspilled spill]
      rfl

/-- One batch of published rows. -/
theorem advanceGroupedBatch_spec (grouped : own.groupInput < own.inputs.length) {state : AggState}
    {taken kept spilled : List Column} {batch : InputBatch} (collected : Collected own state taken kept spilled)
    (published : publishBatch pgBatchSize batch = .ok ()) (summable : Summable own (taken ++ batch.selectedRows)) :
    ∃ after kept spilled, advanceGroupedBatch own state batch = .ok after ∧
      Collected own after (taken ++ batch.selectedRows) kept spilled := by
  obtain ⟨_,small,one⟩ := publishBatch_small published
  rw [selectedRows_published published] at summable ⊢
  let tags : Nat → Column := fun row column => batch.column column row
  have cells (row : Nat) : cellsAt (loadGroupVectors own batch) row = sourceCells own (tags row) := by
    simp [cellsAt,loadGroupVectors,sourceCells,tags]
  obtain ⟨loop,kept',late,ran,looped⟩ := advanceRows_spec grouped
    ⟨state.mainGroups,state.spilling,state.hashes,fun _ => 0#64⟩ cells
    ⟨collected.table,by simpa using collected.divides,fun fresh => ⟨collected.fresh fresh,rfl⟩,by simp,by simp,by simp⟩
    (rows_sorted (batch.selection.words 0)) (fun _ => rows_lt) summable
  have inside (row : Nat) (member : row ∈ late) : row < batch.selection.nrows := by
    have selected := mem_rows.mp (looped.subset member)
    rw [← publishBatch_clear published,getLsbD_word] at selected
    simp only [Bool.and_eq_true,decide_eq_true_eq] at selected
    omega
  unfold advanceGroupedBatch
  rw [if_neg (by unfold pgBatchSize; omega)]
  dsimp only
  rw [ran]
  dsimp only [bind,Except.bind]
  by_cases spilling : loop.spilling = true
  · rw [if_pos spilling]
    obtain ⟨sets,nsets,index,ensured,stored⟩ := ensureInitialSpill_spec grouped
      {state with mainGroups := loop.groups, spilling := loop.spilling, hashes := loop.hashes}
      collected.unspilled collected.stored
    rw [ensured]
    dsimp only
    obtain ⟨writers,wrote,writable,contents⟩ := writePartitions_spec
      (vectorRow (loadGroupVectors own batch) loop.hashes tags) stored.writable small inside
      (fun row _ => partitionAt_lt 0 5 (sourceHash own (tags row)))
      (fun partition _ => looped.parts partition) (fun row => by simp [vectorRow,cells,sourceCells])
    rw [wrote]
    refine ⟨_,kept',spilled ++ late.map tags,rfl,looped.table,looped.divides,fun never => ?_,collected.waiting,
      (fun never => by cases never),?_⟩
    · rw [spilling] at never
      cases never
    · intro other same
      cases same
      refine ⟨stored.inside,?_,?_⟩
      · dsimp only
        rw [Function.update_self]
        exact writable
      · intro partition
        dsimp only
        rw [Function.update_self]
        refine (contents partition).trans ?_
        rw [stored.contents,inPartition_append,List.map_append]
        congr 1
        rw [inPartition,List.filter_map,List.map_map]
        apply List.map_congr_left
        intro row member
        have visited := looped.subset (List.mem_filter.mp member).1
        simp [vectorRow,looped.hashes row visited,cells,spillRow]
  · have none : loop.spilling = false := by simpa using spilling
    obtain ⟨rfl,rfl⟩ := looped.fresh none
    rw [if_neg spilling]
    exact ⟨_,kept',[],rfl,looped.table,looped.divides,fun _ => rfl,collected.waiting,fun _ => rfl,collected.stored⟩

theorem collectInput_spec (grouped : own.groupInput < own.inputs.length) {state : AggState}
    {taken kept spilled : List Column} (collected : Collected own {state with input := []} taken kept spilled)
    (published : ∀ batch ∈ state.input, publishBatch pgBatchSize batch = .ok ())
    (summable : Summable own (taken ++ state.input.flatMap InputBatch.selectedRows)) :
    ∃ after kept spilled, collectInput own state = .ok after ∧
      Collected own after (taken ++ state.input.flatMap InputBatch.selectedRows) kept spilled := by
  unfold collectInput
  generalize state.input = batches at published summable ⊢
  generalize {state with input := []} = start at collected ⊢
  induction batches generalizing start taken kept spilled with
  | nil => exact ⟨start,kept,spilled,rfl,by simpa using collected⟩
  | cons batch rest ih =>
    have here := published batch (List.mem_cons_self ..)
    rw [List.flatMap_cons,← List.append_assoc] at summable ⊢
    obtain ⟨middle,kept',spilled',ran,collected'⟩ :=
      advanceGroupedBatch_spec grouped collected here (summable.of_prefix (List.prefix_append _ _))
    obtain ⟨after,kept'',spilled'',ran',collected''⟩ :=
      ih (fun batch member => published batch (List.mem_cons_of_mem _ member)) summable middle collected'
    refine ⟨after,kept'',spilled'',?_,collected''⟩
    rw [List.foldlM_cons,here]
    change (advanceGroupedBatch own start batch >>= _) = _
    rw [ran]
    exact ran'

theorem collected_start (own : BatchAgg) (batches : List InputBatch) :
    Collected own {aggStart batches with input := []} [] [] [] :=
  ⟨tabulates_nil,⟨by simp,by simp⟩,fun _ => rfl,⟨rfl,rfl⟩,fun _ => rfl,fun _ never => by cases never⟩

/-- After the input, all groups of the rows taken are left to be emitted. -/
theorem finishGroupInput_spec (scan : HashScan) {state : AggState} {taken kept spilled : List Column}
    (collected : Collected own state taken kept spilled) (summable : Summable own taken) :
    ∃ after, finishGroupInput scan state = .ok after ∧ Emitting own after (entriesOf own taken) := by
  obtain ⟨table,divides,_,⟨_,idle⟩,unspilled,stored⟩ := collected
  have resident : (scan.order state.mainGroups).Perm (entriesOf own kept) := (scan.perm _).trans table.perm
  have late : Summable own spilled := by
    intro key start first
    by_cases present : key ∈ spilled.map (rowKey own)
    · have none : group (rowKey own) kept key = [] := by
        rw [group_eq_nil]
        intro early
        obtain ⟨row,member,rfl⟩ := List.mem_map.mp present
        exact divides.apart row member early
      refine summable key start ?_
      rw [divides.whole,none]
      exact first
    · rw [group_eq_nil.mpr present,List.prefix_nil] at first
      exact summable key start (first ▸ List.nil_prefix)
  unfold finishGroupInput
  cases spill : state.initialSpill with
  | none =>
    rw [unspilled spill] at divides
    refine ⟨_,rfl,rfl,[],?_,?_⟩
    · dsimp only
      rw [idle]
      exact .nil
    · simpa using divides.perm.trans (List.Perm.append_right _ resident.symm)
  | some index =>
    obtain ⟨inside,writable,contents⟩ := stored index spill
    obtain ⟨set,ended,held,frozen,ncolumns,count,_⟩ := spillFinish_holds _ writable.valid writable.unfinished true
    let after : AggState := {state with
      inputDone := true, groupSeq := scan.order state.mainGroups, sets := Function.update state.sets index set}
    have here : after.sets index = set := Function.update_self ..
    obtain ⟨items,queue,works,ready,emitted⟩ := queue_of_set after 32 inside
      (by
        rw [here]
        rwa [show (state.sets index).toWriters.contents = _ from funext contents] at held)
      (by rw [here,count]; exact writable.npartitions) (by rw [here,ncolumns]; exact writable.ncolumns)
      (by rw [here]; exact frozen) (by decide)
      (fun partition => aligned_child 5 ⟨0,fun _ _ => Nat.mod_one _⟩)
      (fun _ => summable_part late)
    rw [here] at works
    refine ⟨{after with spillWork := state.spillWork ++ items},?_,rfl,queue,?_,?_⟩
    · dsimp only
      rw [ended]
      change (appendSpillWork set index 32 5 state.spillWork >>= _) = _
      rw [works,← spill]
      rfl
    · dsimp only
      rw [idle,List.nil_append]
      exact ready.keep (keepsSets_of_eq rfl rfl)
    · rw [emitted]
      exact divides.perm.trans (resident.symm.append (entriesOf_partition 0 5))

/-! The whole node. -/

theorem groupHash_key_injective : Function.Injective fun key => (groupHash key).2 := by
  intro left right same
  cases left <;> cases right <;> simp_all [groupHash]

/-- What SQL allows in one group, the accumulators of the node hold. -/
theorem summable_of_noOverflow {plan : List (AggKind × Int)} (begun : Begun plan own) {rows : List Column}
    (noOverflow : NoOverflow plan (keyColumn own) rows) : Summable own rows := by
  intro key start first
  by_cases present : key ∈ rows.map (rowKey own)
  · obtain ⟨row,_,rfl⟩ := List.mem_map.mp present
    refine inRange_of_fits begun (noOverflow (row (keyColumn own)) start ?_)
    rwa [← group_comp groupHash_key_injective]
  · rw [group_eq_nil.mpr present,List.prefix_nil] at first
    exact inRange_of_fits begun (noOverflow none start (first ▸ List.nil_prefix))

private theorem sum_bounds {found : List Int} (small : ∀ value ∈ found, -2 ^ 31 ≤ value ∧ value < 2 ^ 31) :
    -(2 ^ 31 * found.length) ≤ found.sum ∧ found.sum ≤ 2 ^ 31 * found.length := by
  induction found with
  | nil => simp
  | cons first rest ih =>
    have here := small first (List.mem_cons_self ..)
    have tail := ih fun value member => small value (List.mem_cons_of_mem _ member)
    rw [List.sum_cons,List.length_cons]
    push_cast
    omega

/-- Fewer than `2 ^ 32` rows cannot overflow any accumulator. -/
theorem noOverflow_of_few (plan : List (AggKind × Int)) (column : Nat) {rows : List Column}
    (few : rows.length < 2 ^ 32) : NoOverflow plan column rows := by
  intro key start first agg _
  have short : start.length < 2 ^ 32 :=
    Nat.lt_of_le_of_lt (Nat.le_trans first.length_le (List.length_filter_le ..)) few
  have values (column : Nat) : (columnValues column start).length ≤ start.length := by
    rw [columnValues,nonNull]
    exact Nat.le_trans (List.length_filterMap_le ..) (Nat.le_of_eq (List.length_map ..))
  have small (column : Nat) : ∀ value ∈ columnValues column start, -2 ^ 31 ≤ value ∧ value < 2 ^ 31 := by
    intro value member
    obtain ⟨cell,_,found⟩ := List.mem_filterMap.mp member
    obtain ⟨word,_,rfl⟩ := Option.map_eq_some_iff.mp found
    exact ⟨BitVec.le_toInt word,BitVec.toInt_lt⟩
  obtain ⟨kind,column⟩ := agg
  have count := values column.toNat
  have sum := sum_bounds (small column.toNat)
  cases kind <;> simp only [InInt64] <;> omega

end PgBatch.Aggregate
