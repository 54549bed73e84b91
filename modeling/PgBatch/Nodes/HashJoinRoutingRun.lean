import PgBatch.Nodes.HashJoinRouting

/-! Runs of `fetch_probe_batch` for a serial join that spilled: the outer batches are
divided, the blocks of the resident rows are delivered, and the partitions follow. -/
namespace PgBatch.HashJoin
open Words Columnar Spill
variable {ι : Type}

/-- A build side that is complete, with the table of its resident rows and the files of its partitions. -/
structure BuiltSide (config : Config) (spill : BuildSpill ι) (table : BuildStore ι) (inner : List (Entry ι))
    (parts : Nat → List (Row ι)) : Prop extends
    BuildSide config spill inner (tableEntries config table.toStore) parts where
  tabled : spill.residentPartitions ≠ [] → Tabled config table
  shelf : Shelf config.ninnerColumns spill.npartitions false parts 0 ⟨spill.buildFiles,spill.buildSpill⟩
  chunk : 0 < spill.buildChunkRows
  shift : spill.partitionShift ≤ 10

/-- Between two turns: `contents` are the rows of the block, `written` those of the probe partitions. -/
structure Divides (config : Config) (spill : BuildSpill ι) (table : BuildStore ι) (inner : List (Entry ι))
    (parts : Nat → List (Row ι)) (state : ProbeState ι) (contents : List (Row ι)) (written : Nat → List (Row ι))
    (total : List (ι × ι)) : Prop where
  build : state.build = table
  buffers : Buffers config.nouterColumns state.block contents
  room : contents.length < pgBatchSize * 2
  waiting : state.spillProbeStarted = false
  buffered : ∀ row ∈ contents, ProbeRow config row
  resident : contents ≠ [] → spill.residentPartitions ≠ []
  probes : ∀ partition, ∀ row ∈ written partition, ProbeRow config row
  filed : state.probeInputDone = false →
    ProbeFiled config spill.npartitions state.probe ∧ state.probe.probeSpill.toWriters.contents = written
  ended : state.probeInputDone = true → state.input = [] ∧
    Shelf config.nouterColumns spill.npartitions true written 0 ⟨state.probe.probeFiles,state.probe.probeSpill⟩
  ledger : (matchPairs (contents.map (entry config.outerKeys)) (tableEntries config table.toStore) ++
    (stockPairs config parts written 0 spill.npartitions ++
      matchPairs (state.input.flatMap (batchEntries config.outerKeys config.outerBatchColumns)) inner)).Perm total

section Turns
variable {config : Config} {spill : BuildSpill ι} {table : BuildStore ι} {inner : List (Entry ι)}
  {parts written : Nat → List (Row ι)} {state : ProbeState ι} {contents : List (Row ι)} {total : List (ι × ι)}
  {buildRows : Nat}

theorem stockPairs_append {before added : Nat → List (Row ι)} {first npartitions : Nat}
    (each : ∀ partition, written partition = before partition ++ added partition) :
    (stockPairs config parts written first npartitions).Perm
      (stockPairs config parts before first npartitions ++ stockPairs config parts added first npartitions) := by
  have split (partition : Nat) : partitionPairs config parts written partition =
      partitionPairs config parts before partition ++ partitionPairs config parts added partition := by
    rw [partitionPairs,each,List.map_append,matchPairs_append_left]
    rfl
  rw [stockPairs,stockPairs,stockPairs,funext split]
  exact (List.flatMap_append_perm ..).symm

/-- The rows of a published block are selected. -/
theorem publishResidentProbe_selection {block after : ProbeBlock ι} {finalBatch : Bool}
    (published : publishResidentProbe block finalBatch = some after) :
    after.selection = wordMask after.batchRows ∧ after.batchRows ≤ 64 := by
  unfold publishResidentProbe at published
  split at published
  · cases published
  · dsimp only at published
    split at published
    · cases published
    · cases published
      exact ⟨rfl,Nat.min_le_right ..⟩

theorem loadInputColumn_ok (side : ProbeSide config ι) (selected : BitVec 64) {column : Nat}
    (inside : column < config.nouterColumns) : ∃ after, loadInputColumn selected side column = .ok after := by
  have requested : side.batchColumn column ∈ (⟨{side.batchColumn column},selected⟩ : ColumnAccess).columns :=
    Finset.mem_singleton_self _
  exact ⟨_,bindInputColumn_ok inside requested⟩

/-- The columns of a batch that is divided are there. -/
theorem routeColumns_ok (spill : BuildSpill ι) (buildRows : Nat) (side : ProbeSide config ι) (batch : Batch ι) :
    ∃ columns, routeColumns spill buildRows side batch = .ok columns := by
  unfold routeColumns
  obtain ⟨first,keys⟩ := Results.foldlM_total (fun state key member => loadInputColumn_ok state batch.selection
    (config.outerInside key member)) (⟨.input batch,side.residentBlock,side.probeBlock,noColumns,side.wide⟩ : ProbeSide config ι)
  have each : ∀ (state : ProbeSide config ι), ∀ column ∈ List.range config.nouterColumns, ∃ next,
      (if survivors spill buildRows config batch = 0#64 ∨ (state.columns column).prepared = true then .ok state
        else loadInputColumn (survivors spill buildRows config batch) state column) = Except.ok next := by
    intro state column member
    split
    · exact ⟨state,rfl⟩
    · exact loadInputColumn_ok state _ (List.mem_range.mp member)
  obtain ⟨last,others⟩ := Results.foldlM_total each first
  exact ⟨last.columns,by rw [keys]; simp only [bind,Except.bind,others]⟩

variable [Inhabited ι]

/-- A turn with a block to deliver. -/
theorem Divides.delivers (built : BuiltSide config spill table inner parts)
    (divides : Divides config spill table inner parts state contents written total) (some_ : buildRows ≠ 0) {block : ProbeBlock ι}
    (publishing : publishResidentProbe state.block state.probeInputDone = some block) (join : SerialJoin config ι) :
    ∃ (after : SerialJoin config ι) (rest : List (ι × ι)), join.fetchRouted spill buildRows state = .ok (after,.found) ∧
      after.Ready ∧ after.phase = .routing spill buildRows {state with block := block, fromResident := true} ∧
      contents ≠ [] ∧ (matchPairs after.side.entries (tableEntries config table.toStore) ++ rest).Perm total ∧
      Divides config spill table inner parts (finishProbe {state with block := block, fromResident := true})
        (contents.drop pgBatchSize) written rest := by
  obtain ⟨buffers,consumed,nonempty,delivered,_⟩ := publishResidentProbe_some divides.buffers publishing
  obtain ⟨selected,few⟩ := publishResidentProbe_selection publishing
  let next : ProbeState ι := {state with block := block, fromResident := true}
  have turn : fetchTurn config spill buildRows (outerHashed config) state = .ok (next,.delivered) := by
    unfold fetchTurn
    rw [if_neg some_,if_neg (by rw [divides.waiting]; decide),publishing]
  obtain ⟨bound,prepared,cells⟩ := prepareProbeKeys_bound (join.side.ofResident block)
  have side : join.side.ofResident block = ⟨.resident,block,join.side.probeBlock,join.side.columns,buffers.width⟩ :=
    dif_pos buffers.width
  rw [side] at prepared cells
  let after : SerialJoin config ι := ⟨.routing spill buildRows next,
    ⟨.resident,block,join.side.probeBlock,bound,buffers.width⟩,join.probeHashes,join.probeHashRows⟩
  have ran : join.fetchRouted spill buildRows state = .ok (after,.found) := by
    rw [SerialJoin.fetchRouted,turn]
    simp only [bind,Except.bind,next,side,prepared]
    rfl
  have visits : after.side.rowSelection.rowsFrom 0 = Words.rows block.selection := by
    have count : after.side.rowSelection.nrows = block.batchRows := Nat.mod_eq_of_lt (show block.batchRows < 2 ^ 31 by omega)
    rw [rowsFrom_word (count ▸ few),count]
    change Words.rows (block.selection &&& _) = _
    rw [selected,BitVec.and_self]
  have rows_ : (Words.rows block.selection).map (block.store.row config.nouterColumns) = contents.take pgBatchSize := by
    rw [← delivered,ProbeBlock.delivered,buffers.width]
  have stored : StoredBlock after.side after.loadProbeHash block.store (Words.rows block.selection) := by
    refine ⟨visits,rfl,fun _ _ => rfl,fun _ => rfl,fun row member => divides.buffered _ ?_⟩
    have among : block.store.row config.nouterColumns row ∈ contents.take pgBatchSize := by
      rw [← rows_]
      exact List.mem_map_of_mem member
    exact List.mem_of_mem_take among
  obtain ⟨bound,entries⟩ := stored.ready cells
  have ready : after.Ready := by
    refine ⟨?_,bound⟩
    change Tabled config state.build
    rw [divides.build]
    exact built.tabled (divides.resident nonempty)
  rw [rows_] at entries
  refine ⟨after,_,ran,ready,rfl,nonempty,?_,⟨divides.build,finishResidentProbe_ok buffers consumed divides.room,?_,divides.waiting,
    fun row member => divides.buffered row (List.mem_of_mem_drop member),fun _ => divides.resident nonempty,divides.probes,
    divides.filed,divides.ended,.refl _⟩⟩
  · rw [entries,← List.append_assoc,← matchPairs_append_left,← List.map_append,List.take_append_drop]
    exact divides.ledger
  · rw [List.length_drop]
    exact Nat.lt_of_le_of_lt (Nat.sub_le ..) divides.room

/-- A turn that divides a batch. -/
theorem Divides.batch (built : BuiltSide config spill table inner parts)
    (divides : Divides config spill table inner parts state contents written total) (some_ : buildRows ≠ 0)
    (kept : publishResidentProbe state.block state.probeInputDone = none) (going : state.probeInputDone = false)
    {batch : Batch ι} {rest : List (Batch ι)} (input : state.input = batch :: rest) (join : SerialJoin config ι) :
    ∃ (next : ProbeState ι) (columns : Nat → InputColumn) (contents' : List (Row ι)) (written' : Nat → List (Row ι)),
      join.fetchRouted spill buildRows state =
        .ok (⟨.routing spill buildRows next,{join.side with columns := columns},join.probeHashes,join.probeHashRows⟩,.again) ∧
      Divides config spill table inner parts next contents' written' total ∧ toGo next contents' < toGo state contents := by
  obtain ⟨few,_⟩ := publishResidentProbe_none divides.buffers kept
  obtain ⟨filed,holds⟩ := divides.filed going
  obtain ⟨block,probe,divided,buffers,filed',grown⟩ := spillProbeBatch_divides built.positive filed divides.buffers few buildRows batch
  obtain ⟨columns,loaded⟩ := routeColumns_ok spill buildRows join.side batch
  let next : ProbeState ι := {state with input := rest, probeInputDone := false, block := block, probe := probe}
  have turn : fetchTurn config spill buildRows (outerHashed config) state = .ok (next,.again) := by
    unfold fetchTurn
    rw [if_neg some_,if_neg (by rw [divides.waiting]; decide),kept]
    simp only [going,Bool.false_eq_true,if_false,input,bind,Except.bind,divided]
    rfl
  have size : pgBatchSize = 64 := rfl
  have short : (residentRows config spill buildRows (outerHashed config) batch).length ≤ pgBatchSize := by
    rw [residentRows,List.length_map]
    exact (List.length_filter_le ..).trans ((List.length_filter_le ..).trans (popcount_le _))
  refine ⟨next,columns,_,_,?_,⟨divides.build,buffers,?_,divides.waiting,?_,?_,?_,fun _ => ⟨filed',rfl⟩,?_,?_⟩,?_⟩
  · rw [SerialJoin.fetchRouted,turn]
    simp only [bind,Except.bind,input,routedColumns,loaded]
  · rw [List.length_append]
    omega
  · intro row member
    rcases List.mem_append.mp member with old | new
    · exact divides.buffered row old
    · rw [residentRows_eq] at new
      exact survivingRows_probes (List.mem_filter.mp new).1
  · intro nonempty none
    have old : contents = [] := by
      by_contra before
      exact divides.resident before none
    rw [old,residentRows_eq,none] at nonempty
    exact nonempty (List.filter_eq_nil_iff.mpr (by simp))
  · intro partition row member
    rw [grown,holds] at member
    rcases List.mem_append.mp member with old | new
    · exact divides.probes partition row old
    · exact writtenRows_probes new
  · exact fun ended => Bool.noConfusion ended
  · have added : (stockPairs config parts probe.probeSpill.toWriters.contents 0 spill.npartitions).Perm
        (stockPairs config parts written 0 spill.npartitions ++
          stockPairs config parts (writtenRows config spill buildRows batch) 0 spill.npartitions) :=
      stockPairs_append fun partition => by rw [grown,holds]
    have ledger := divides.ledger
    rw [input,List.flatMap_cons,matchPairs_append_left] at ledger
    rw [List.map_append,matchPairs_append_left,List.append_assoc]
    refine .trans (List.Perm.append_left _ ?_) ledger
    refine ((added.append_right _).append_left _).trans ?_
    rw [List.append_assoc]
    refine (List.perm_append_comm_assoc ..).trans (List.Perm.append_left _ ?_)
    rw [← List.append_assoc]
    exact (built.pairs buildRows batch).append_right _
  · simp only [toGo,next,input,going,List.length_cons,List.length_append]
    omega

/-- The turn behind the last batch. -/
theorem Divides.input_ends (divides : Divides config spill table inner parts state contents written total)
    (some_ : buildRows ≠ 0) (kept : publishResidentProbe state.block state.probeInputDone = none)
    (going : state.probeInputDone = false) (input : state.input = []) (join : SerialJoin config ι) :
    ∃ next, join.fetchRouted spill buildRows state = .ok (⟨.routing spill buildRows next,join.side,join.probeHashes,
        join.probeHashRows⟩,.again) ∧
      Divides config spill table inner parts next contents written total ∧ toGo next contents < toGo state contents := by
  obtain ⟨filed,holds⟩ := divides.filed going
  obtain ⟨set,finished,shelf⟩ := Filed.finish filed true
  let next : ProbeState ι := {state with input := [], probeInputDone := true, probe := {state.probe with probeSpill := set}}
  have turn : fetchTurn config spill buildRows (outerHashed config) state = .ok (next,.again) := by
    unfold fetchTurn
    rw [if_neg some_,if_neg (by rw [divides.waiting]; decide),kept]
    simp only [going,Bool.false_eq_true,if_false,input,bind,Except.bind,finished]
    rfl
  refine ⟨next,?_,⟨divides.build,divides.buffers,divides.room,divides.waiting,divides.buffered,divides.resident,divides.probes,
    fun going => Bool.noConfusion going,fun _ => ⟨rfl,holds ▸ shelf⟩,?_⟩,?_⟩
  · rw [SerialJoin.fetchRouted,turn]
    simp only [bind,Except.bind,input,routedColumns]
  · have ledger := divides.ledger
    rwa [input] at ledger
  · simp only [toGo,next,input,going,if_true,Bool.false_eq_true,if_false]
    omega

/-- From here on the blocks of the resident rows are delivered, and then the partitions. -/
theorem Divides.feeds (built : BuiltSide config spill table inner parts)
    (divides : Divides config spill table inner parts state contents written total) (some_ : buildRows ≠ 0)
    (side : ProbeSide config ι) (probeHashes : Nat → BitVec 32) (probeHashRows : BitVec 64) :
    Feeds (serialProbes config) SerialJoin.pairTags GrowError
      ⟨.routing spill buildRows state,side,probeHashes,probeHashRows⟩ total := by
  generalize left : toGo state contents = bound
  induction bound using Nat.strong_induction_on generalizing state contents written total side probeHashes probeHashRows with
  | _ bound ih =>
    let join : SerialJoin config ι := ⟨.routing spill buildRows state,side,probeHashes,probeHashRows⟩
    cases publishing : publishResidentProbe state.block state.probeInputDone with
    | some block =>
      obtain ⟨after,rest,ran,ready,phase,nonempty,split,divides'⟩ := divides.delivers built some_ publishing join
      have fewer : (contents.drop pgBatchSize).length < contents.length := by
        have positive := List.length_pos_of_ne_nil nonempty
        rw [List.length_drop]
        exact Nat.sub_lt positive (by decide)
      have less : toGo (finishProbe {state with block := block, fromResident := true}) (contents.drop pgBatchSize) < bound :=
        left ▸ Nat.add_lt_add_left fewer _
      obtain ⟨_,side',hashes',hashRows'⟩ := after
      dsimp only at phase
      subst phase
      have split' : (matchPairs side'.entries (tableEntries config state.build.toStore) ++ rest).Perm total := by
        rw [divides.build]
        exact split
      exact ready.feeds ran (ih _ less divides' side' _ _ rfl) split'
    | none =>
      cases going : state.probeInputDone with
      | true =>
        obtain ⟨_,last⟩ := publishResidentProbe_none divides.buffers publishing
        obtain ⟨input,shelf⟩ := divides.ended going
        let next : PartitionState ι := partitionsStart spill state.probe (resetBuildStore state.build)
        have turn : fetchTurn config spill buildRows (outerHashed config) state =
            .ok ({state with build := resetBuildStore state.build, spillProbeStarted := true},.partitions) := by
          unfold fetchTurn
          rw [if_neg some_,if_neg (by rw [divides.waiting]; decide),publishing]
          simp only [going,if_true]
        have ran : join.fetchRouted spill buildRows state = .ok ({join with phase := .partitions spill next},.again) := by
          rw [SerialJoin.fetchRouted,turn]
          rfl
        have stock : Stock config spill.npartitions parts written 0 (next.files .partitions) :=
          ⟨built.shelf,shelf,built.builds,divides.probes⟩
        have feeds := (partitions_supply built.chunk built.shift stock).feeds side probeHashes probeHashRows
        have ledger := divides.ledger
        rw [last going,input] at ledger
        simp only [List.map_nil,matchPairs_nil_left,List.flatMap_nil,List.nil_append,List.append_nil] at ledger
        exact .again ran (feeds.perm ledger)
      | false =>
        cases input : state.input with
        | nil =>
          obtain ⟨next,ran,divides',less⟩ := divides.input_ends some_ publishing going input join
          exact .again ran (ih _ (left ▸ less) divides' side _ _ rfl)
        | cons batch rest =>
          obtain ⟨next,columns,contents',written',ran,divides',less⟩ := divides.batch built some_ publishing going input join
          exact .again ran (ih _ (left ▸ less) divides' _ _ _ rfl)

end Turns

end PgBatch.HashJoin
