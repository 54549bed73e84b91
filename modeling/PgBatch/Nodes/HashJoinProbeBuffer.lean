import PgBatch.Library.Bitmap
import PgBatch.Nodes.HashJoinTable

/-! The outer rows of a serial hash join that spilled: rows of a resident
partition are gathered in a block and delivered from there, the others are
written to the probe partitions (`hash_join_spill_input_batch`,
`buffer_resident_probe_row` and the first loop of `fetch_probe_batch`). -/
namespace PgBatch.HashJoin
open Words Columnar Spill Bitmaps
open Parallel (partitionOf)
variable {ι : Type}

/-- The `SpillBlock` of the resident rows, with the part of it that is delivered. -/
structure ProbeBlock (ι : Type) where
  ncolumns : Nat
  capacity : Nat
  nrows : Nat
  tags : Nat → ι
  hashes : Nat → BitVec 32
  values : Nat → Nat → Int4
  validity : Nat → Nat → BitVec 8
  batchRows : Nat
  selection : BitVec 64

/-- The probe side of the spill. -/
structure ProbeSpill (ι : Type) where
  probeFiles : Nat → Option HashSpillFile
  probeSpill : SpillSet ι

/-- Between two turns of the loop of `fetch_probe_batch`; `input` is what the outer child has left. -/
structure ProbeState (ι : Type) where
  build : BuildStore ι
  input : List (Batch ι)
  probeInputDone : Bool
  spillProbeStarted : Bool
  block : ProbeBlock ι
  probe : ProbeSpill ι
  fromResident : Bool

/-- `hash_join_init_spill_block` for the resident rows, with its bits zeroed. -/
def initResidentBlock [Inhabited ι] (ncolumns : Nat) : ProbeBlock ι :=
  ⟨ncolumns,pgBatchSize * 2,0,fun _ => default,fun _ => 0#32,fun _ _ => 0#32,fun _ _ => 0#8,0,0#64⟩

/-- `buffer_resident_probe_row`. -/
def bufferResidentProbeRow (block : ProbeBlock ι) (row : Row ι) : Except String (ProbeBlock ι) :=
  let output := block.nrows
  if block.capacity ≤ output then .error "pg_batch resident probe buffer overflow"
  else .ok {block with
    nrows := block.nrows + 1
    tags := Function.update block.tags output row.tag
    hashes := Function.update block.hashes output row.hash
    values := fun column index =>
      if index = output ∧ column < block.ncolumns then (row.cell column).value else block.values column index
    validity := fun column =>
      if column < block.ncolumns ∧ (row.cell column).valid then setBit (block.validity column) output
      else block.validity column}

/-- `hash_join_publish_resident_probe`: deliver the first rows, if there is a block of them. -/
def publishResidentProbe (block : ProbeBlock ι) (finalBatch : Bool) : Option (ProbeBlock ι) :=
  if block.nrows < pgBatchSize ∧ finalBatch = false then none
  else
    let nrows := min block.nrows pgBatchSize
    if nrows = 0 then none
    else some {block with selection := wordMask nrows, batchRows := nrows}

/-- `memmove` to the front of an array. -/
def moveFront {α : Type} (array : Nat → α) (start count : Nat) : Nat → α :=
  fun index => if index < count then array (start + index) else array index

/-- What becomes of the bits of a column: those of the remaining rows move to the front, the others are cleared. -/
def finishBits (stride : Nat) (validity : Nat → BitVec 8) (consumed remaining : Nat) : Nat → BitVec 8 := fun byte =>
  if byte < (pgBatchSize + 7) / 8 then moveBits validity consumed remaining byte
  else if byte < stride then 0#8 else validity byte

/-- `hash_join_finish_resident_probe`: the rows that were not delivered move to the front. -/
def finishResidentProbe (block : ProbeBlock ι) : ProbeBlock ι :=
  let consumed := block.batchRows
  let remaining := block.nrows - consumed
  let stride := (block.capacity + 7) / 8
  if 0 < remaining then {block with
    nrows := remaining
    tags := moveFront block.tags consumed remaining
    hashes := moveFront block.hashes consumed remaining
    values := fun column =>
      if column < block.ncolumns then moveFront (block.values column) consumed remaining else block.values column
    validity := fun column =>
      if column < block.ncolumns then finishBits stride (block.validity column) consumed remaining
      else block.validity column}
  else {block with
    nrows := remaining
    validity := fun column byte =>
      if column < block.ncolumns ∧ byte < stride then 0#8 else block.validity column byte}

/-! Routing the rows of an outer batch. -/

/-- `bloom_usable`, which is settled when the build side is complete. -/
def bloomUsable (spill : BuildSpill ι) (buildRows : Nat) : Bool :=
  spill.bloomWords.isSome && decide (2 ≤ spill.bloomNbits / buildRows)

/-- The filters that are applied to the hash of an outer row. -/
def survives (spill : BuildSpill ι) (buildRows : Nat) (hash : BitVec 32) : Bool :=
  let partition := partitionOf spill.npartitions hash
  if bloomUsable spill buildRows && !bloomMayContain spill.bloomNbits (spill.bloomWords.getD fun _ => 0#64) hash then false
  else decide (partition ∈ spill.residentPartitions) || (spill.buildFiles partition).isSome

/-- A resident row is buffered, another one linked to its partition. -/
def routeProbeRow (spill : BuildSpill ι) (hashes : Nat → BitVec 32) (row : Nat → Row ι)
    (state : ProbeBlock ι × Links) (index : Nat) : Except String (ProbeBlock ι × Links) :=
  let partition := partitionOf spill.npartitions (hashes index)
  if partition ∈ spill.residentPartitions then do
    let block ← bufferResidentProbeRow state.1 (row index)
    .ok (block,state.2)
  else if (spill.buildFiles partition).isSome then .ok (state.1,state.2.add partition index)
  else .ok state

/-- `write_partition_rows` for the probe side. -/
def writeProbeRows [Inhabited ι] (row : Nat → Row ι) (partition : Nat) (probe : ProbeSpill ι) (block : List Nat) :
    Except String (ProbeSpill ι) := do
  let selection := block.foldl (fun selection row => selection ||| bit 64 row) 0#64
  let writers ← spillWrite probe.probeSpill.toWriters partition pgBatchSize selection row
  .ok {probe with
    probeSpill := {probe.probeSpill with toWriters := writers}
    probeFiles := spillFile probe.probeFiles partition}

/-- `hash_join_spill_input_batch` for the probe side. -/
def spillProbeBatch [Inhabited ι] (config : Config) (spill : BuildSpill ι) (buildRows : Nat)
    (block : ProbeBlock ι) (probe : ProbeSpill ι) (columns : Batch ι) (hashes : Nat → BitVec 32) (hashRows : BitVec 64) :
    Except String (ProbeBlock ι × ProbeSpill ι) := do
  let row := inputRow config.nouterColumns columns hashes
  let (block,links) ← ((rows hashRows).filter fun index => survives spill buildRows (hashes index)).foldlM
    (routeProbeRow spill hashes row) (block,Links.empty)
  let probe ← links.used.foldlM
    (fun probe partition => inBlocks pgBatchSize (writeProbeRows row partition) probe [] (links.linked partition)) probe
  .ok (block,probe)

/-! The loop. -/

/-- How a turn of the loop ends. -/
inductive ProbeTurn
  /-- It goes round again. -/
  | again
  /-- A block of resident rows is the probe batch. -/
  | delivered
  /-- The spilled partitions are next. -/
  | partitions
  /-- There is nothing to probe. -/
  | nothing
deriving DecidableEq

/-- `hash_input_batch` for an outer batch. -/
def outerHashed (config : Config) (batch : Batch ι) : (Nat → BitVec 32) × BitVec 64 :=
  hashBatch config.outerKeys (loadColumns config.outerBatchColumns batch)

/-- One turn of the loop of `fetch_probe_batch`, with the hashes of a batch by `hashInputBatch`. -/
def fetchTurn [Inhabited ι] (config : Config) (spill : BuildSpill ι) (buildRows : Nat)
    (hashInputBatch : Batch ι → (Nat → BitVec 32) × BitVec 64) (state : ProbeState ι) :
    Except String (ProbeState ι × ProbeTurn) :=
  if buildRows = 0 then .ok (state,.nothing)
  else if state.spillProbeStarted then .ok (state,.partitions)
  else match publishResidentProbe state.block state.probeInputDone with
    | some block => .ok ({state with block := block, fromResident := true},.delivered)
    | none =>
      if state.probeInputDone then
        .ok ({state with build := resetBuildStore state.build, spillProbeStarted := true},.partitions)
      else match state.input with
        | [] => do
          let set ← spillFinish state.probe.probeSpill true
          .ok ({state with probeInputDone := true, probe := {state.probe with probeSpill := set}},.again)
        | batch :: rest => do
          let (hashes,hashRows) := hashInputBatch batch
          let (block,probe) ← spillProbeBatch config spill buildRows state.block state.probe
            (loadColumns config.outerBatchColumns batch) hashes hashRows
          .ok ({state with input := rest, block := block, probe := probe},.again)

/-- `finish_probe_batch` for a block of resident rows. -/
def finishProbe (state : ProbeState ι) : ProbeState ι :=
  {state with block := finishResidentProbe state.block, fromResident := false}

/-- The probe side of `hash_join_begin_spill`. -/
def beginProbe (config : Config) (npartitions : Nat) : Except String (ProbeSpill ι) := do
  let set ← spillCreate (spillTupleDesc config.nouterColumns) config.nouterColumns npartitions (config.memoryLimit / 4)
  .ok ⟨fun _ => none,set⟩

/-- The state in which a join that has just built its table begins to probe. -/
def probeStart [Inhabited ι] (config : Config) (build : BuildStore ι) (probe : ProbeSpill ι) (input : List (Batch ι)) :
    ProbeState ι :=
  ⟨build,input,false,false,initResidentBlock config.nouterColumns,probe,false⟩

/-! The block as a queue of rows. -/

/-- The rows of the block, without its batch. -/
def ProbeBlock.store (block : ProbeBlock ι) : Store ι :=
  ⟨block.nrows,block.tags,block.hashes,block.values,fun column => bitAt (block.validity column)⟩

/-- What the join finds in the block it is delivered. -/
def ProbeBlock.delivered (block : ProbeBlock ι) : List (Row ι) :=
  (Words.rows block.selection).map (block.store.row block.ncolumns)

/-- The turns from one state to another, with what is found in the blocks that are delivered on the way. -/
inductive Turns [Inhabited ι] (config : Config) (spill : BuildSpill ι) (buildRows : Nat)
    (hashInputBatch : Batch ι → (Nat → BitVec 32) × BitVec 64) (first : ProbeState ι) :
    List (List (Row ι)) → ProbeState ι → Prop
  | start : Turns config spill buildRows hashInputBatch first [] first
  | again {published : List (List (Row ι))} {state next : ProbeState ι} :
      Turns config spill buildRows hashInputBatch first published state →
      fetchTurn config spill buildRows hashInputBatch state = .ok (next,.again) →
      Turns config spill buildRows hashInputBatch first published next
  | delivered {published : List (List (Row ι))} {state next : ProbeState ι} :
      Turns config spill buildRows hashInputBatch first published state →
      fetchTurn config spill buildRows hashInputBatch state = .ok (next,.delivered) →
      Turns config spill buildRows hashInputBatch first (published ++ [next.block.delivered]) (finishProbe next)

/-- The block has these rows, and the bits of all rows to come are clear. -/
structure Buffers (ncolumns : Nat) (block : ProbeBlock ι) (contents : List (Row ι)) : Prop where
  width : block.ncolumns = ncolumns
  capacity : block.capacity = pgBatchSize * 2
  rows : block.store.rows ncolumns = contents
  clear : block.store.Clear ncolumns

section Queue
variable {ncolumns : Nat} {block : ProbeBlock ι} {contents : List (Row ι)}

theorem Buffers.nrows (buffers : Buffers ncolumns block contents) : block.nrows = contents.length := by
  rw [← buffers.rows,length_rows]
  rfl

theorem buffers_init [Inhabited ι] (ncolumns : Nat) : Buffers ncolumns (initResidentBlock ncolumns : ProbeBlock ι) [] :=
  ⟨rfl,rfl,rfl,fun _ row _ _ => bitAt_zero row⟩

/-- There is room for a row, and it is put behind the others. -/
theorem bufferResidentProbeRow_ok (buffers : Buffers ncolumns block contents) {row : Row ι}
    (width : row.cells.length = ncolumns) (room : contents.length < pgBatchSize * 2) :
    ∃ after, bufferResidentProbeRow block row = .ok after ∧ Buffers ncolumns after (contents ++ [row]) := by
  unfold bufferResidentProbeRow
  dsimp only
  rw [if_neg (by rw [buffers.capacity,buffers.nrows]; omega)]
  refine ⟨_,rfl,?_⟩
  generalize stored : ProbeBlock.mk .. = after
  have appended : after.store = block.store.append ncolumns row.tag row.hash row.cell := by
    subst stored
    unfold ProbeBlock.store Store.append
    rw [← buffers.width]
    congr 1
    funext column index
    dsimp only
    split
    · rename_i valid
      rw [bitAt_setBit,valid.2]
      simp [valid.1]
    · rename_i clear
      by_cases inside : column < block.ncolumns
      · have unset : (row.cell column).valid = false := by simpa [inside] using clear
        simp [unset]
      · simp [inside]
  have shape : after.ncolumns = block.ncolumns ∧ after.capacity = block.capacity := by
    subst stored
    exact ⟨rfl,rfl⟩
  refine ⟨shape.1.trans buffers.width,shape.2.trans buffers.capacity,?_,?_⟩
  · rw [appended,rows_append buffers.clear,buffers.rows,cells_eq width]
  · rw [appended]
    exact clear_append buffers.clear _ _ _

/-- A block is delivered when 64 rows have come together, or the last ones. -/
theorem publishResidentProbe_some (buffers : Buffers ncolumns block contents) {finalBatch : Bool} {after : ProbeBlock ι}
    (published : publishResidentProbe block finalBatch = some after) :
    Buffers ncolumns after contents ∧ after.batchRows = min contents.length pgBatchSize ∧ contents ≠ [] ∧
      after.delivered = contents.take pgBatchSize ∧ (finalBatch = true ∨ pgBatchSize ≤ contents.length) := by
  have nrows := buffers.nrows
  unfold publishResidentProbe at published
  split at published
  · cases published
  · rename_i enough
    dsimp only at published
    split at published
    · cases published
    · rename_i some_
      cases published
      refine ⟨⟨buffers.width,buffers.capacity,buffers.rows,buffers.clear⟩,by rw [nrows],?_,?_,?_⟩
      · rintro rfl
        rw [nrows] at some_
        exact some_ rfl
      · change (Words.rows (wordMask (min block.nrows pgBatchSize))).map (block.store.row block.ncolumns) = _
        have visits : min 64 (min block.nrows pgBatchSize) = min pgBatchSize block.nrows := by
          unfold pgBatchSize
          omega
        rw [rows_wordMask,visits,← List.take_range,List.map_take,buffers.width]
        exact congrArg _ buffers.rows
      · by_cases last : finalBatch = true
        · exact .inl last
        · exact .inr (Nat.not_lt.mp fun few => enough ⟨nrows ▸ few,by simpa using last⟩)

theorem publishResidentProbe_none (buffers : Buffers ncolumns block contents) {finalBatch : Bool}
    (kept : publishResidentProbe block finalBatch = none) :
    contents.length < pgBatchSize ∧ (finalBatch = true → contents = []) := by
  unfold publishResidentProbe at kept
  rw [buffers.nrows] at kept
  split at kept
  · rename_i few
    exact ⟨few.1,fun last => absurd few.2 (last ▸ Bool.true_eq_false.mp)⟩
  · dsimp only at kept
    split at kept
    · rename_i none_
      have empty : contents.length = 0 := by
        unfold pgBatchSize at none_
        omega
      exact ⟨empty ▸ by decide,fun _ => List.length_eq_zero_iff.mp empty⟩
    · cases kept

theorem bitAt_finishBits {stride : Nat} {validity : Nat → BitVec 8} {remaining : Nat} (consumed : Nat)
    (few : remaining ≤ pgBatchSize) (clear : ∀ index, stride * 8 ≤ index → bitAt validity index = false) (index : Nat) :
    bitAt (finishBits stride validity consumed remaining) index =
      (decide (index < remaining) && bitAt validity (consumed + index)) := by
  have bound : pgBatchSize = 64 := rfl
  by_cases front : index / 8 < (pgBatchSize + 7) / 8
  · rw [← bitAt_moveBits]
    exact bitAt_congr (if_pos front)
  · have beyond : ¬ index < remaining := by omega
    simp only [beyond,decide_false,Bool.false_and]
    by_cases inside : index / 8 < stride
    · rw [← bitAt_zero index]
      exact bitAt_congr ((if_neg front).trans (if_pos inside))
    · rw [← clear index (by omega)]
      exact bitAt_congr ((if_neg front).trans (if_neg inside))

/-- The rows that were not delivered are in front, and the bits behind them are clear. -/
theorem finishResidentProbe_ok (buffers : Buffers ncolumns block contents)
    (consumed : block.batchRows = min contents.length pgBatchSize) (room : contents.length < pgBatchSize * 2) :
    Buffers ncolumns (finishResidentProbe block) (contents.drop pgBatchSize) := by
  have nrows := buffers.nrows
  have rest : block.nrows - block.batchRows = contents.length - pgBatchSize := by omega
  unfold finishResidentProbe
  dsimp only
  rw [rest,consumed]
  split
  · rename_i some_
    have whole : min contents.length pgBatchSize = pgBatchSize := by omega
    rw [whole]
    have stride : (block.capacity + 7) / 8 = 16 := by
      rw [buffers.capacity]
      rfl
    have bits (column : Nat) (within : column < ncolumns) (index : Nat) :
        bitAt (finishBits 16 (block.validity column) pgBatchSize (contents.length - pgBatchSize)) index =
          (decide (index < contents.length - pgBatchSize) && bitAt (block.validity column) (pgBatchSize + index)) := by
      refine bitAt_finishBits pgBatchSize (by omega) (fun index above => buffers.clear column index within ?_) index
      change block.nrows ≤ index
      unfold pgBatchSize at room
      omega
    rw [stride]
    refine ⟨buffers.width,buffers.capacity,?_,?_⟩
    · apply List.ext_getElem
      · rw [length_rows,List.length_drop]
        rfl
      · intro index inside _
        rw [length_rows] at inside
        change index < contents.length - pgBatchSize at inside
        have old : contents[pgBatchSize + index] = block.store.row ncolumns (pgBatchSize + index) := by
          simp only [← buffers.rows,Store.rows,List.getElem_map,List.getElem_range]
        rw [List.getElem_drop,old]
        simp only [Store.rows,List.getElem_map,List.getElem_range]
        have cells (column : Nat) (within : column < ncolumns) :
            (⟨(if column < block.ncolumns then
                  moveFront (block.values column) pgBatchSize (contents.length - pgBatchSize)
                else block.values column) index,
              bitAt (if column < block.ncolumns then
                  finishBits 16 (block.validity column) pgBatchSize (contents.length - pgBatchSize)
                else block.validity column) index⟩ : Cell) = block.store.cell column (pgBatchSize + index) := by
          rw [if_pos (buffers.width ▸ within),if_pos (buffers.width ▸ within),moveFront,if_pos inside,
            bits column within index,decide_eq_true inside,Bool.true_and]
          rfl
        unfold Store.row
        congr 1
        · exact if_pos inside
        · exact if_pos inside
        · exact List.map_congr_left fun column member => cells column (List.mem_range.mp member)
    · intro column row within above
      change contents.length - pgBatchSize ≤ row at above
      have valid : bitAt (if column < block.ncolumns then
            finishBits 16 (block.validity column) pgBatchSize (contents.length - pgBatchSize)
          else block.validity column) row = false := by
        rw [if_pos (buffers.width ▸ within),bits column within row,decide_eq_false (Nat.not_lt.mpr above),Bool.false_and]
      exact valid
  · rename_i none_
    have empty : contents.drop pgBatchSize = [] := List.drop_eq_nil_of_le (by omega)
    have zero : contents.length - pgBatchSize = 0 := by omega
    rw [empty,zero]
    refine ⟨buffers.width,buffers.capacity,rfl,?_⟩
    intro column row inside _
    have clear : bitAt (fun byte => if column < block.ncolumns ∧ byte < (block.capacity + 7) / 8 then 0#8
        else block.validity column byte) row = false := by
      by_cases front : row / 8 < (block.capacity + 7) / 8
      · rw [← bitAt_zero row]
        exact bitAt_congr (if_pos ⟨buffers.width ▸ inside,front⟩)
      · have beyond : block.nrows ≤ row := by
          rw [buffers.capacity] at front
          unfold pgBatchSize at front room
          omega
        rw [← buffers.clear column row inside beyond]
        exact bitAt_congr (if_neg fun both => front both.2)
    exact clear

end Queue

/-! Routing. -/

/-- The probe partitions can be written to. -/
structure ProbeSound (config : Config) (npartitions : Nat) (probe : ProbeSpill ι) : Prop where
  valid : probe.probeSpill.toWriters.Valid
  ncolumns : probe.probeSpill.ncolumns = config.nouterColumns
  npartitions : probe.probeSpill.npartitions = npartitions
  unfinished : probe.probeSpill.finished = false

/-- The rows of a batch that are buffered. -/
def residentRows (config : Config) (spill : BuildSpill ι) (buildRows : Nat)
    (hashInputBatch : Batch ι → (Nat → BitVec 32) × BitVec 64) (batch : Batch ι) : List (Row ι) :=
  let (hashes,hashRows) := hashInputBatch batch
  (((rows hashRows).filter fun index => survives spill buildRows (hashes index)).filter fun index =>
    decide (partitionOf spill.npartitions (hashes index) ∈ spill.residentPartitions)).map
    (inputRow config.nouterColumns (loadColumns config.outerBatchColumns batch) hashes)

section Routing
variable {config : Config} {spill : BuildSpill ι} {block : ProbeBlock ι} {contents : List (Row ι)}

theorem used_add {links : Links} {npartitions partition : Nat}
    (used : ∀ other ∈ links.used, other < npartitions) (inside : partition < npartitions) (index : Nat) :
    ∀ other ∈ (links.add partition index).used, other < npartitions := by
  intro other member
  unfold Links.add at member
  dsimp only at member
  split at member
  · rcases List.mem_append.mp member with old | new
    · exact used other old
    · exact List.mem_singleton.mp new ▸ inside
  · exact used other member

/-- Resident rows are buffered in their order, and the others go to partitions that there are. -/
theorem routeProbeRows_ok (positive : 0 < spill.npartitions) (hashes : Nat → BitVec 32) {row : Nat → Row ι}
    (buffers : Buffers config.nouterColumns block contents)
    (width : ∀ index, (row index).cells.length = config.nouterColumns) {visits : List Nat}
    (room : contents.length + visits.length ≤ pgBatchSize * 2) :
    ∃ after links, visits.foldlM (routeProbeRow spill hashes row) (block,Links.empty) = .ok (after,links) ∧
      Buffers config.nouterColumns after (contents ++ (visits.filter fun index =>
        decide (partitionOf spill.npartitions (hashes index) ∈ spill.residentPartitions)).map row) ∧
      ∀ partition ∈ links.used, partition < spill.npartitions := by
  let resident (index : Nat) : Bool := decide (partitionOf spill.npartitions (hashes index) ∈ spill.residentPartitions)
  let Inv (done : List Nat) (state : ProbeBlock ι × Links) : Prop :=
    Buffers config.nouterColumns state.1 (contents ++ (done.filter resident).map row) ∧
      ∀ partition ∈ state.2.used, partition < spill.npartitions
  have start : Inv [] (block,Links.empty) := ⟨by simpa using buffers,fun _ none => absurd none List.not_mem_nil⟩
  obtain ⟨⟨after,links⟩,ran,kept,used⟩ : ∃ state, visits.foldlM (routeProbeRow spill hashes row) (block,Links.empty) =
      .ok state ∧ Inv visits state := Results.foldlM_rule Inv start (by
    rintro done index rest ⟨before,links⟩ split ⟨kept,used⟩
    have grown : contents ++ ((done ++ [index]).filter resident).map row =
        contents ++ (done.filter resident).map row ++ ([index].filter resident).map row := by
      rw [List.filter_append,List.map_append,List.append_assoc]
    change ∃ next, _ ∧ Buffers _ _ (contents ++ ((done ++ [index]).filter resident).map row) ∧ _
    rw [grown]
    unfold routeProbeRow
    dsimp only
    split
    · rename_i stays
      have added : (([index].filter resident).map row) = [row index] := by simp [resident,stays]
      have fewer : (contents ++ (done.filter resident).map row).length < pgBatchSize * 2 := by
        have passed := List.length_filter_le resident done
        have := congrArg List.length split
        rw [List.length_append,List.length_cons] at this
        rw [List.length_append,List.length_map]
        omega
      obtain ⟨next,buffered,kept'⟩ := bufferResidentProbeRow_ok kept (width index) fewer
      exact ⟨(next,links),by rw [buffered]; rfl,by rw [added]; exact kept',used⟩
    · rename_i leaves
      have none : (([index].filter resident).map row) = [] := by simp [resident,leaves]
      rw [none,List.append_nil]
      split
      · refine ⟨_,rfl,kept,used_add used ?_ index⟩
        exact Nat.lt_of_le_of_lt Nat.and_le_right (Nat.sub_lt positive Nat.one_pos)
      · exact ⟨_,rfl,kept,used⟩)
  exact ⟨after,links,ran,kept,used⟩

theorem writeProbeRows_ok [Inhabited ι] {npartitions : Nat} {probe : ProbeSpill ι}
    (sound : ProbeSound config npartitions probe) {partition : Nat} (inside : partition < npartitions)
    {row : Nat → Row ι} (width : ∀ index, (row index).cells.length = config.nouterColumns) (block : List Nat) :
    ∃ after, writeProbeRows row partition probe block = .ok after ∧ ProbeSound config npartitions after := by
  obtain ⟨writers,ran,adds⟩ : ∃ writers, spillWrite probe.probeSpill.toWriters partition pgBatchSize
      (block.foldl (fun selection row => selection ||| bit 64 row) 0#64) row = .ok writers ∧ _ :=
    write_adds sound.valid row (sound.npartitions ▸ inside) sound.unfinished (Nat.le_refl 64)
      (fun index => (width index).trans sound.ncolumns.symm)
  exact ⟨_,by rw [writeProbeRows,ran]; rfl,adds.valid,adds.same.ncolumns.trans sound.ncolumns,
    adds.same.npartitions.trans sound.npartitions,adds.same.finished.trans sound.unfinished⟩

/-- A batch is routed without an error while fewer than 64 rows are buffered. -/
theorem spillProbeBatch_ok [Inhabited ι] (positive : 0 < spill.npartitions) {probe : ProbeSpill ι}
    (sound : ProbeSound config spill.npartitions probe) (buffers : Buffers config.nouterColumns block contents)
    (few : contents.length < pgBatchSize) (buildRows : Nat)
    (hashInputBatch : Batch ι → (Nat → BitVec 32) × BitVec 64) (batch : Batch ι) :
    ∃ after written, spillProbeBatch config spill buildRows block probe (loadColumns config.outerBatchColumns batch)
        (hashInputBatch batch).1 (hashInputBatch batch).2 = .ok (after,written) ∧
      Buffers config.nouterColumns after (contents ++ residentRows config spill buildRows hashInputBatch batch) ∧
      ProbeSound config spill.npartitions written := by
  unfold spillProbeBatch residentRows
  generalize hashInputBatch batch = hashed
  obtain ⟨hashes,hashRows⟩ := hashed
  dsimp only
  have width (index : Nat) := length_inputRow config.nouterColumns (loadColumns config.outerBatchColumns batch) hashes index
  have visits : ((rows hashRows).filter fun index => survives spill buildRows (hashes index)).length ≤ pgBatchSize :=
    (List.length_filter_le ..).trans (popcount_le hashRows)
  have room : contents.length + ((rows hashRows).filter fun index =>
      survives spill buildRows (hashes index)).length ≤ pgBatchSize * 2 := by omega
  obtain ⟨after,links,routed,kept,used⟩ := routeProbeRows_ok positive hashes buffers width room
  obtain ⟨written,wrote,sound'⟩ : ∃ written, links.used.foldlM
      (fun probe partition => inBlocks pgBatchSize
        (writeProbeRows (inputRow config.nouterColumns (loadColumns config.outerBatchColumns batch) hashes) partition)
        probe [] (links.linked partition)) probe = .ok written ∧ ProbeSound config spill.npartitions written := by
    refine Results.foldlM_rule (fun _ written => ProbeSound config spill.npartitions written) sound ?_
    intro done partition rest probe split sound
    have inside := used partition (by simp [split])
    exact inBlocks_rule (fun _ written => ProbeSound config spill.npartitions written) (by decide) sound
      fun _ block _ _ _ _ _ sound => writeProbeRows_ok sound inside width block
  refine ⟨after,written,?_,kept,sound'⟩
  rw [routed]
  simp only [bind,Except.bind,wrote]

end Routing

/-! The run. -/

theorem Config.outer_columns (config : Config) : 0 < config.nouterColumns := by
  have keyed : config.outerKeys ≠ [] := by
    intro none
    have paired := config.paired
    rw [none,List.length_nil] at paired
    exact config.keyed (List.length_eq_zero_iff.mp paired.symm)
  obtain ⟨key,member⟩ := List.exists_mem_of_ne_nil _ keyed
  exact Nat.lt_of_le_of_lt (Nat.zero_le _) (config.outerInside key member)

section Run
variable [Inhabited ι] {config : Config} {spill : BuildSpill ι} {buildRows : Nat}
  {hashInputBatch : Batch ι → (Nat → BitVec 32) × BitVec 64} {batches : List (Batch ι)}
  {published : List (List (Row ι))} {state : ProbeState ι} {contents : List (Row ι)}

omit [Inhabited ι] in
theorem beginProbe_sound {npartitions : Nat} (config : Config) (positive : 0 < npartitions) :
    ∃ probe : ProbeSpill ι, beginProbe config npartitions = .ok probe ∧ ProbeSound config npartitions probe := by
  have created := @spillCreate_ok ι (spillTupleDesc config.nouterColumns) config.nouterColumns npartitions
    (config.memoryLimit / 4) config.outer_columns (by simp [spillTupleDesc]) positive
    (by
      intro attr member
      rw [List.eq_of_mem_replicate member]
      exact ⟨rfl,rfl⟩)
  exact ⟨_,by rw [beginProbe,created]; rfl,create_valid ..,rfl,rfl,rfl⟩

/-- Between two turns; `contents` are the rows that were not delivered yet. -/
structure Probing (config : Config) (spill : BuildSpill ι) (buildRows : Nat)
    (hashInputBatch : Batch ι → (Nat → BitVec 32) × BitVec 64) (batches : List (Batch ι))
    (published : List (List (Row ι))) (state : ProbeState ι) (contents : List (Row ι)) : Prop where
  buffers : Buffers config.nouterColumns state.block contents
  room : contents.length < pgBatchSize * 2
  waiting : state.spillProbeStarted = false
  sound : state.probeInputDone = false → ProbeSound config spill.npartitions state.probe
  ended : state.probeInputDone = true → state.input = []
  routed : ∃ taken, batches = taken ++ state.input ∧
    published.flatten ++ contents = taken.flatMap (residentRows config spill buildRows hashInputBatch)

/-- What is left to do before the partitions. -/
def toGo (state : ProbeState ι) (contents : List (Row ι)) : Nat :=
  200 * state.input.length + (if state.probeInputDone then 0 else 1) + contents.length

theorem Probing.turn (probing : Probing config spill buildRows hashInputBatch batches published state contents)
    (positive : 0 < spill.npartitions) (some : buildRows ≠ 0) :
    (∃ next, fetchTurn config spill buildRows hashInputBatch state = .ok (next,.delivered) ∧
      next.block.delivered = contents.take pgBatchSize ∧ contents ≠ [] ∧
      toGo (finishProbe next) (contents.drop pgBatchSize) < toGo state contents ∧
      Probing config spill buildRows hashInputBatch batches (published ++ [contents.take pgBatchSize])
        (finishProbe next) (contents.drop pgBatchSize)) ∨
    (∃ next rest, fetchTurn config spill buildRows hashInputBatch state = .ok (next,.again) ∧
      contents.length < pgBatchSize ∧ toGo next rest < toGo state contents ∧
      Probing config spill buildRows hashInputBatch batches published next rest) ∨
    ∃ next, fetchTurn config spill buildRows hashInputBatch state = .ok (next,.partitions) ∧
      contents = [] ∧ state.input = [] := by
  unfold fetchTurn
  rw [if_neg some,if_neg (by rw [probing.waiting]; decide)]
  cases publishing : publishResidentProbe state.block state.probeInputDone with
  | some block =>
    obtain ⟨buffers,consumed,nonempty,delivered,_⟩ := publishResidentProbe_some probing.buffers publishing
    refine .inl ⟨_,rfl,delivered,nonempty,?_,?_⟩
    · have fewer : (contents.drop pgBatchSize).length < contents.length := by
        have positive := List.length_pos_of_ne_nil nonempty
        rw [List.length_drop]
        exact Nat.sub_lt positive (by decide)
      exact Nat.add_lt_add_left fewer _
    · obtain ⟨taken,all,rows_⟩ := probing.routed
      refine ⟨finishResidentProbe_ok buffers consumed probing.room,?_,probing.waiting,probing.sound,probing.ended,
        taken,all,?_⟩
      · rw [List.length_drop]
        exact Nat.lt_of_le_of_lt (Nat.sub_le ..) probing.room
      · rw [List.flatten_append,List.flatten_singleton,List.append_assoc,List.take_append_drop]
        exact rows_
  | none =>
    obtain ⟨few,last⟩ := publishResidentProbe_none probing.buffers publishing
    dsimp only
    cases done : state.probeInputDone with
    | true => exact .inr (.inr ⟨_,rfl,last done,probing.ended done⟩)
    | false =>
      refine .inr (.inl ?_)
      obtain ⟨taken,all,rows_⟩ := probing.routed
      have sound := probing.sound done
      obtain ⟨build,input,inputDone,started,block,probe,fromResident⟩ := state
      dsimp only at done all sound ⊢
      subst done
      cases input with
      | nil =>
        let next : ProbeState ι := ⟨build,[],true,started,block,{probe with probeSpill :=
          {finishWriters probe.probeSpill.toWriters with finished := true, frozen := true, position := fun _ => 0}},fromResident⟩
        refine ⟨next,contents,?_,few,?_,probing.buffers,probing.room,probing.waiting,by simp,fun _ => rfl,taken,all,rows_⟩
        · simp only [spillFinish,sound.unfinished,bind,Except.bind]
          rfl
        · exact Nat.add_lt_add_right (Nat.lt_succ_self _) _
      | cons batch rest =>
        obtain ⟨after,written,ran,kept,sound'⟩ := spillProbeBatch_ok positive sound probing.buffers few
          buildRows hashInputBatch batch
        have short : (residentRows config spill buildRows hashInputBatch batch).length ≤ pgBatchSize := by
          rw [residentRows,List.length_map]
          exact (List.length_filter_le ..).trans ((List.length_filter_le ..).trans (popcount_le _))
        have size : pgBatchSize = 64 := rfl
        let next : ProbeState ι := ⟨build,rest,false,started,after,written,fromResident⟩
        refine ⟨next,_,?_,few,?_,kept,?_,probing.waiting,fun _ => sound',by simp [next],taken ++ [batch],?_,?_⟩
        · simp only [bind,Except.bind,ran]
          rfl
        · simp only [toGo,next,List.length_cons,List.length_append]
          omega
        · rw [List.length_append]
          omega
        · rw [all,List.append_assoc,List.singleton_append]
        · rw [← List.append_assoc,rows_,List.flatMap_append,List.flatMap_singleton]

theorem Probing.start (build : BuildStore ι) {probe : ProbeSpill ι} (sound : ProbeSound config spill.npartitions probe)
    (batches : List (Batch ι)) : Probing config spill buildRows hashInputBatch batches []
      (probeStart config build probe batches) [] where
  buffers := buffers_init config.nouterColumns
  room := (by decide : 0 < pgBatchSize * 2)
  waiting := rfl
  sound := fun _ => sound
  ended := nofun
  routed := ⟨[],rfl,rfl⟩

/-- What holds at the start holds in all states that the turns reach. -/
theorem Turns.probing {first : ProbeState ι}
    (start : Probing config spill buildRows hashInputBatch batches [] first []) (positive : 0 < spill.npartitions)
    (some : buildRows ≠ 0) (turns : Turns config spill buildRows hashInputBatch first published state) :
    ∃ contents, Probing config spill buildRows hashInputBatch batches published state contents := by
  induction turns with
  | start => exact ⟨[],start⟩
  | again _ ran ih =>
    obtain ⟨contents,probing⟩ := ih
    rcases probing.turn positive some with ⟨next,ran',_⟩ | ⟨next,rest,ran',_,_,probing'⟩ | ⟨next,ran',_⟩
    · rw [ran'] at ran
      cases ran
    · rw [ran'] at ran
      cases ran
      exact ⟨rest,probing'⟩
    · rw [ran'] at ran
      cases ran
  | delivered _ ran ih =>
    obtain ⟨contents,probing⟩ := ih
    rcases probing.turn positive some with ⟨next,ran',delivered,_,_,probing'⟩ | ⟨next,_,ran',_⟩ | ⟨next,ran',_⟩
    · rw [ran'] at ran
      cases ran
      exact ⟨_,delivered ▸ probing'⟩
    · rw [ran'] at ran
      cases ran
    · rw [ran'] at ran
      cases ran

/-- From any such state the turns come to the partitions, with all rows delivered. -/
theorem Turns.ends {first : ProbeState ι} (positive : 0 < spill.npartitions) (some : buildRows ≠ 0)
    (turns : Turns config spill buildRows hashInputBatch first published state)
    (probing : Probing config spill buildRows hashInputBatch batches published state contents) :
    ∃ blocks last next, Turns config spill buildRows hashInputBatch first blocks last ∧
      fetchTurn config spill buildRows hashInputBatch last = .ok (next,.partitions) ∧
      blocks.flatten = batches.flatMap (residentRows config spill buildRows hashInputBatch) := by
  generalize left : toGo state contents = bound
  induction bound using Nat.strong_induction_on generalizing published state contents with
  | _ bound ih =>
    rcases probing.turn positive some with ⟨next,ran,delivered,_,less,probing'⟩ | ⟨next,rest,ran,_,less,probing'⟩ |
      ⟨next,ran,empty,ended⟩
    · have turns' := turns.delivered ran
      rw [delivered] at turns'
      exact ih _ (left ▸ less) turns' probing' rfl
    · exact ih _ (left ▸ less) (turns.again ran) probing' rfl
    · obtain ⟨taken,all,rows_⟩ := probing.routed
      rw [ended,List.append_nil] at all
      rw [empty,List.append_nil] at rows_
      exact ⟨published,state,next,turns,ran,by rw [rows_,all]⟩

/-- The buffer never overflows: fewer than 64 rows wait when a batch is routed. The blocks that are
delivered have the resident rows of the batches in their order, and in the end all of them. -/
theorem resident_probe_blocks (config : Config) (spill : BuildSpill ι) (positive : 0 < spill.npartitions)
    (buildRows : Nat) (some : buildRows ≠ 0) (hashInputBatch : Batch ι → (Nat → BitVec 32) × BitVec 64)
    (build : BuildStore ι) (batches : List (Batch ι)) :
    ∃ probe, beginProbe config spill.npartitions = .ok probe ∧
      (∀ published state, Turns config spill buildRows hashInputBatch (probeStart config build probe batches) published state →
        (∃ next turn, fetchTurn config spill buildRows hashInputBatch state = .ok (next,turn)) ∧
        state.block.nrows < state.block.capacity ∧
        (∀ next, fetchTurn config spill buildRows hashInputBatch state = .ok (next,.again) → state.block.nrows < 64) ∧
        ∃ taken, batches = taken ++ state.input ∧ published.flatten ++ state.block.store.rows config.nouterColumns =
          taken.flatMap (residentRows config spill buildRows hashInputBatch)) ∧
      ∃ published state next, Turns config spill buildRows hashInputBatch (probeStart config build probe batches) published state ∧
        fetchTurn config spill buildRows hashInputBatch state = .ok (next,.partitions) ∧
        published.flatten = batches.flatMap (residentRows config spill buildRows hashInputBatch) := by
  obtain ⟨probe,began,sound⟩ := beginProbe_sound config positive
  have start : Probing config spill buildRows hashInputBatch batches [] (probeStart config build probe batches) [] :=
    .start build sound batches
  refine ⟨probe,began,fun published state turns => ?_,Turns.ends positive some .start start⟩
  obtain ⟨contents,probing⟩ := turns.probing start positive some
  have nrows := probing.buffers.nrows
  refine ⟨?_,?_,?_,?_⟩
  · rcases probing.turn positive some with ⟨next,ran,_⟩ | ⟨next,_,ran,_⟩ | ⟨next,ran,_⟩
    · exact ⟨next,_,ran⟩
    · exact ⟨next,_,ran⟩
    · exact ⟨next,_,ran⟩
  · rw [nrows,probing.buffers.capacity]
    exact probing.room
  · intro next ran
    rcases probing.turn positive some with ⟨_,ran',_⟩ | ⟨_,_,_,few,_⟩ | ⟨_,ran',_⟩
    · rw [ran'] at ran
      cases ran
    · rw [nrows]
      exact few
    · rw [ran'] at ran
      cases ran
  · rw [probing.buffers.rows]
    exact probing.routed

end Run

/-- Two partitions for the rows of `twoRows`, the first one resident. -/
def halfResident : BuildSpill Unit where
  npartitions := 2
  partitionShift := 1
  residentPartitions := [0]
  residentPartitionRows := fun _ => 1
  residentBuildRows := 1
  residentMemoryLimit := 500000
  bloomWords := none
  bloomNbits := 0
  buildFiles := fun partition => if partition = 1 then some ⟨1,none⟩ else none
  buildSpill := {create 1 2 1024 with frozen := false, position := fun _ => 0}
  buildPartitionRows := fun _ => 1
  buildChunkRows := 64

/-- A batch of forty rows with as many keys. -/
def fortyRows : Batch Unit :=
  ⟨40,by decide,0xffffffffff#64,fun _ row => some (BitVec.ofNat 32 row),fun _ => ()⟩

theorem halfResident_blocks : ∃ probe, beginProbe twoRows.1 2 = .ok probe ∧ ∃ published state next,
    Turns twoRows.1 halfResident 2 (outerHashed twoRows.1) (probeStart twoRows.1 twoRows.2 probe [fortyRows,fortyRows])
      published state ∧
    fetchTurn twoRows.1 halfResident 2 (outerHashed twoRows.1) state = .ok (next,.partitions) ∧
    published.flatten = [fortyRows,fortyRows].flatMap (residentRows twoRows.1 halfResident 2 (outerHashed twoRows.1)) := by
  obtain ⟨probe,began,_,ends⟩ := resident_probe_blocks twoRows.1 halfResident (by decide) 2 (by decide)
    (outerHashed twoRows.1) twoRows.2 [fortyRows,fortyRows]
  exact ⟨probe,began,ends⟩

end PgBatch.HashJoin
