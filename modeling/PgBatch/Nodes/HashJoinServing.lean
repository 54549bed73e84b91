import PgBatch.Nodes.HashJoinSerial

/-! What a probe batch of the serial join contributes to its output: a batch of the outer
child, a block of the resident rows and a block of a partition all have their pairs with
the rows of the table. Without a spill, and among the partitions, that is all there is. -/
namespace PgBatch.HashJoin
open Words Columnar Spill Chains
variable {ι : Type}

/-- The rows of an input batch that have keys. -/
def batchEntries (keys : List Nat) (batchColumns : Nat → Nat) (batch : Batch ι) : List (Entry ι) :=
  probeEntries batch.selected (keysAt (keys.map (loadColumns batchColumns batch).column)) batch.tag

/-- The pairs of rows with equal keys, none of them NULL. -/
def equiJoin (config : Config) (outer inner : List (Batch ι)) : List (ι × ι) :=
  matchPairs (outer.flatMap (batchEntries config.outerKeys config.outerBatchColumns))
    (inner.flatMap (batchEntries config.innerKeys config.innerBatchColumns))

section Entries
variable {config : Config}

theorem Config.outer_keyed (config : Config) : config.outerKeys ≠ [] := by
  intro none
  have paired := config.paired
  rw [none] at paired
  exact config.keyed (List.length_eq_zero_iff.mp paired.symm)

theorem mapM_congr {α β : Type} {items : List α} {one two : α → Option β} (same : ∀ item ∈ items, one item = two item) :
    items.mapM one = items.mapM two := by
  induction items with
  | nil => rfl
  | cons item rest ih =>
    rw [List.mapM_cons,List.mapM_cons,same item (List.mem_cons_self ..),
      ih fun other member => same other (List.mem_cons_of_mem _ member)]

/-- A selection of one word. -/
theorem rowsFrom_word {selection : Selection} (few : selection.nrows ≤ 64) :
    selection.rowsFrom 0 = rows (selection.words 0 &&& wordMask selection.nrows) := by
  apply sorted_ext (selection.rowsFrom_sorted 0) (rows_sorted _)
  intro row
  rw [Selection.mem_rowsFrom,mem_rows,BitVec.getLsbD_and,getLsbD_wordMask,Bool.and_eq_true,decide_eq_true_eq]
  unfold Selection.Selected
  constructor
  · rintro ⟨-,inside,set⟩
    have small : row < 64 := Nat.lt_of_lt_of_le inside few
    rw [Nat.div_eq_of_lt small,Nat.mod_eq_of_lt small] at set
    exact ⟨set,small,inside⟩
  · rintro ⟨set,small,inside⟩
    rw [Nat.div_eq_of_lt small,Nat.mod_eq_of_lt small]
    exact ⟨Nat.zero_le _,inside,set⟩

theorem rows_mask (nrows : Nat) (few : nrows ≤ 64) : rows (wordMask nrows &&& wordMask nrows) = List.range nrows := by
  rw [BitVec.and_self,rows_wordMask,Nat.min_eq_right few]

/-- What a stored row has in its columns. -/
theorem cell_row {store : Columnar.Store ι (BitVec 32) Int4} {ncolumns column : Nat} (inside : column < ncolumns) (row : Nat) :
    (store.row ncolumns row).cell column = ⟨store.values column row,store.valid column row⟩ := by
  simp [Row.cell,Store.row,Store.cell,List.getD_eq_getElem?_getD,inside]

/-- The keys of a row that was stored. -/
theorem stored_keys {store : Columnar.Store ι (BitVec 32) Int4} {row : Nat}
    (probes : ProbeRow config (store.row config.nouterColumns row)) :
    (config.outerKeys.mapM fun key => if store.valid key row then some (store.values key row) else none) =
      some (entry config.outerKeys (store.row config.nouterColumns row)).1 := by
  have each : ∀ key ∈ config.outerKeys, (if store.valid key row then some (store.values key row) else none) =
      pure ((store.row config.nouterColumns row).cell key).value := by
    intro key member
    have valid := probes.valid key member
    rw [cell_row (config.outerInside key member)] at valid ⊢
    exact if_pos valid
  rw [mapM_congr each,List.mapM_pure]
  rfl

theorem probeEntries_stored {store : Columnar.Store ι (BitVec 32) Int4} {visits : List Nat} {keys : Nat → Option (List Int4)}
    (each : ∀ row ∈ visits, keys row = some (entry config.outerKeys (store.row config.nouterColumns row)).1) :
    probeEntries visits keys store.tags = (visits.map (store.row config.nouterColumns)).map (entry config.outerKeys) := by
  induction visits with
  | nil => rfl
  | cons row rest ih =>
    have here := each row (List.mem_cons_self ..)
    rw [List.map_cons,List.map_cons,← ih fun other member => each other (List.mem_cons_of_mem _ member)]
    simp only [probeEntries,List.filterMap_cons,here,Option.map_some]
    rfl

end Entries

/-! The batch that is held. -/

section Sides
variable {config : Config}

/-- The keys of a probe row. -/
def ProbeSide.keys (side : ProbeSide config ι) (row : Nat) : Option (List Int4) :=
  config.outerKeys.mapM fun key => side.current key row

/-- The rows of the batch that have keys. -/
def ProbeSide.entries (side : ProbeSide config ι) : List (Entry ι) :=
  probeEntries (side.rowSelection.rowsFrom 0) side.keys side.tag

/-- The keys of the batch are bound, and its rows have the hashes of their keys. -/
structure ProbeSide.Bound (side : ProbeSide config ι) (hash : Nat → Option (BitVec 32)) : Prop where
  bound : ∀ key ∈ config.outerKeys, ∀ row, side.cells row key = side.current key row
  hashes : ∀ row ∈ side.rowSelection.rowsFrom 0, hash row = (side.keys row).map keyHash

/-- A search with the bound columns is one for the keys of the row. -/
theorem ProbeSide.Bound.looks {side : ProbeSide config ι} {hash : Nat → Option (BitVec 32)} (bound : side.Bound hash) {row : Nat}
    (member : row ∈ side.rowSelection.rowsFrom 0) {values : List Int4} (found : side.keys row = some values) :
    hash row = some (keyHash values) ∧ config.outerKeys.mapM (side.cells row) = some values := by
  refine ⟨(bound.hashes row member).trans (by rw [found]; rfl),?_⟩
  rw [← found]
  exact mapM_congr fun key inside => bound.bound key inside row

namespace SerialJoin

/-- The batch that is held is bound, and the table is there. -/
structure Ready (join : SerialJoin config ι) : Prop where
  tabled : Tabled config join.phase.table
  bound : join.side.Bound join.loadProbeHash

def content (join : SerialJoin config ι) : Content (ι × ι) :=
  tableContent config join.phase.table join.side.rowSelection join.side.keys join.side.tag

variable [Inhabited ι] {join : SerialJoin config ι}

/-- As long as it is held, the batch serves its pairs with the table. -/
theorem Ready.held (ready : join.Ready) : BatchHeld (serialProbes config) pairTags (· = join) join.content := by
  constructor
  · rintro join rfl
    refine ready.tabled.serves rfl rfl rfl rfl ?_ ?_
    · intro row member none
      change join.loadProbeHash row = _
      rw [ready.bound.hashes row member,none]
      rfl
    · intro row member values found
      obtain ⟨hash,given⟩ := ready.bound.looks member found
      exact ⟨hash,join.side.cells row,given,rfl⟩
  · rintro join rfl first output _ _ _
    have all : (output.drop first).filter join.content.passes = output.drop first :=
      List.filter_eq_self.mpr fun _ _ => rfl
    exact ⟨join,by rw [all,List.take_append_drop]; rfl,rfl⟩

omit [Inhabited ι] in
theorem content_emits (join : SerialJoin config ι) :
    join.content.emits.Perm (matchPairs join.side.entries (tableEntries config join.phase.table.toStore)) :=
  tableContent_emits ..

/-- A turn that ends with such a batch adds its pairs with the table. -/
theorem Ready.feeds {before : SerialJoin config ι} {total rest : List (ι × ι)} (ready : join.Ready)
    (ran : (serialProbes config).fetch before = .ok (join,.found))
    (later : Feeds (serialProbes config) pairTags GrowError ((serialProbes config).finish join) rest)
    (split : (matchPairs join.side.entries (tableEntries config join.phase.table.toStore) ++ rest).Perm total) :
    Feeds (serialProbes config) pairTags GrowError before total := by
  refine .found join.content (· = join) ran rfl ready.held (fun last same => ?_)
    ((join.content_emits.append_right rest).trans split)
  rw [same]
  exact later

end SerialJoin

/-- Binding the keys binds them to the batch, and leaves the batch as it is. -/
theorem prepareProbeKeys_bound (side : ProbeSide config ι) : ∃ bound,
    prepareProbeKeys side = .ok {side with columns := bound} ∧
      ∀ key ∈ config.outerKeys, ∀ row, ({side with columns := bound} : ProbeSide config ι).cells row key = side.current key row := by
  obtain ⟨bound,ran,keys,_⟩ := prepareProbeKeys_ok side
  refine ⟨bound,ran,fun key member row => ?_⟩
  rw [← read_pointer side key,← (keys key member).2.2]
  rfl

variable [Inhabited ι] {table : BuildStore ι}

/-! With all build rows in memory. -/

omit [Inhabited ι] in
theorem keysAt_batch (batch : Batch ι) (row : Nat) :
    keysAt (config.outerKeys.map (loadColumns config.outerBatchColumns batch).column) row =
      config.outerKeys.mapM fun key => batch.column (config.outerBatchColumns key) row := by
  rw [keysAt,List.mapM_map]
  rfl

omit [Inhabited ι] in
/-- `hash_input_batch` has the hashes of the rows with keys. -/
theorem outerHashed_keys {batch : Batch ι} {row : Nat} (selected : row ∈ batch.selected) :
    (if (outerHashed config batch).2.getLsbD row then some ((outerHashed config batch).1 row) else none) =
      (keysAt (config.outerKeys.map (loadColumns config.outerBatchColumns batch).column) row).map keyHash := by
  have keyed := config.outer_keyed
  have kept : row ∈ rows (outerHashed config batch).2 ↔
      (keysAt (config.outerKeys.map (loadColumns config.outerBatchColumns batch).column) row).isSome = true := by
    rw [outerHashed,hashBatch_rows keyed,List.mem_filter]
    exact and_iff_right selected
  rw [mem_rows] at kept
  cases found : keysAt (config.outerKeys.map (loadColumns config.outerBatchColumns batch).column) row with
  | none =>
    rw [found] at kept
    exact if_neg (by simpa using kept)
  | some values =>
    have present := kept.mpr (by rw [found]; rfl)
    have hash : (outerHashed config batch).1 row = _ := hashBatch_hash keyed _ (mem_rows.mpr present) 0
    rw [if_pos present,hash]
    simp [Batch.row,found]

/-- Each outer batch has its pairs with the table. -/
theorem memory_feeds (tabled : Tabled config table) (input : List (Batch ι)) (side : ProbeSide config ι)
    (probeHashes : Nat → BitVec 32) (probeHashRows : BitVec 64) :
    Feeds (serialProbes config) SerialJoin.pairTags GrowError ⟨.memory table input,side,probeHashes,probeHashRows⟩
      (matchPairs (input.flatMap (batchEntries config.outerKeys config.outerBatchColumns))
        (tableEntries config table.toStore)) := by
  induction input generalizing side probeHashes probeHashRows with
  | nil => exact .ended rfl trivial rfl
  | cons batch rest ih =>
    obtain ⟨bound,prepared,cells⟩ := prepareProbeKeys_bound (side.ofInput batch)
    let after : SerialJoin config ι :=
      ⟨.memory table rest,{side.ofInput batch with columns := bound},(outerHashed config batch).1,(outerHashed config batch).2⟩
    have visits : after.side.rowSelection.rowsFrom 0 = batch.selected := rowsFrom_word batch.small
    have keys (row : Nat) : after.side.keys row =
        keysAt (config.outerKeys.map (loadColumns config.outerBatchColumns batch).column) row :=
      (keysAt_batch batch row).symm
    have ready : after.Ready := ⟨tabled,cells,fun row member => by
      rw [keys]
      exact outerHashed_keys (visits ▸ member)⟩
    have entries : after.side.entries = batchEntries config.outerKeys config.outerBatchColumns batch := by
      rw [ProbeSide.entries,visits,funext keys]
      rfl
    have ran : (serialProbes config).fetch ⟨.memory table (batch :: rest),side,probeHashes,probeHashRows⟩ =
        .ok (after,.found) := by
      change SerialJoin.fetchInput _ table (batch :: rest) = _
      rw [SerialJoin.fetchInput,prepared]
      rfl
    have split : matchPairs after.side.entries (tableEntries config table.toStore) ++ matchPairs
        (rest.flatMap (batchEntries config.outerKeys config.outerBatchColumns)) (tableEntries config table.toStore) =
        matchPairs ((batch :: rest).flatMap (batchEntries config.outerKeys config.outerBatchColumns))
          (tableEntries config table.toStore) := by
      rw [List.flatMap_cons,matchPairs_append_left,entries]
    exact ready.feeds ran (ih _ _ _) (.of_eq split)

/-! Among the partitions. -/

/-- A block of rows that were stored with their hashes, as it is bound. -/
structure StoredBlock (side : ProbeSide config ι) (hash : Nat → Option (BitVec 32))
    (store : Columnar.Store ι (BitVec 32) Int4) (visits : List Nat) : Prop where
  rows : side.rowSelection.rowsFrom 0 = visits
  tags : side.tag = store.tags
  current : ∀ key row, side.current key row = if store.valid key row then some (store.values key row) else none
  hashes : ∀ row, hash row = some (store.hashes row)
  probes : ∀ row ∈ visits, ProbeRow config (store.row config.nouterColumns row)

omit [Inhabited ι] in
theorem StoredBlock.ready {side : ProbeSide config ι} {hash : Nat → Option (BitVec 32)}
    {store : Columnar.Store ι (BitVec 32) Int4} {visits : List Nat} (stored : StoredBlock side hash store visits)
    (bound : ∀ key ∈ config.outerKeys, ∀ row, side.cells row key = side.current key row) :
    side.Bound hash ∧ side.entries = (visits.map (store.row config.nouterColumns)).map (entry config.outerKeys) := by
  have keys : ∀ row ∈ visits, side.keys row = some (entry config.outerKeys (store.row config.nouterColumns row)).1 := by
    intro row member
    rw [← stored_keys (stored.probes row member)]
    exact mapM_congr fun key _ => stored.current key row
  refine ⟨⟨bound,fun row member => ?_⟩,?_⟩
  · have visited : row ∈ visits := stored.rows ▸ member
    rw [keys row visited,stored.hashes]
    exact congrArg some (stored.probes row visited).hash
  · rw [ProbeSide.entries,stored.rows,stored.tags]
    exact probeEntries_stored keys

omit [Inhabited ι] in
/-- A block of a partition is bound with its keys. -/
theorem ofSpilled_ready (side : ProbeSide config ι) {block : Store ι} (small : block.nrows ≤ blockRows)
    (probes : ∀ row ∈ block.rows config.nouterColumns, ProbeRow config row) {bound : Nat → InputColumn}
    (cells : ∀ key ∈ config.outerKeys, ∀ row,
      ({side.ofSpilled block with columns := bound} : ProbeSide config ι).cells row key = (side.ofSpilled block).current key row) :
    ({side.ofSpilled block with columns := bound} : ProbeSide config ι).Bound (fun row => some (block.hashes row)) ∧
      ({side.ofSpilled block with columns := bound} : ProbeSide config ι).entries =
        (block.rows config.nouterColumns).map (entry config.outerKeys) := by
  have few : block.nrows ≤ 64 := small
  have nrows : block.nrows % 2 ^ 31 = block.nrows := Nat.mod_eq_of_lt (by omega)
  have visits : ({side.ofSpilled block with columns := bound} : ProbeSide config ι).rowSelection.rowsFrom 0 =
      List.range block.nrows := by
    have count : ({side.ofSpilled block with columns := bound} : ProbeSide config ι).rowSelection.nrows = block.nrows := nrows
    rw [rowsFrom_word (count ▸ few),count]
    exact rows_mask _ few
  have stored : StoredBlock ({side.ofSpilled block with columns := bound} : ProbeSide config ι)
      (fun row => some (block.hashes row)) block (List.range block.nrows) :=
    ⟨visits,rfl,fun _ _ => rfl,fun _ => rfl,fun row member => probes _ (List.mem_map_of_mem member)⟩
  exact stored.ready cells

/-- The blocks of the partitions have their pairs with the tables that are there with them. -/
theorem Supplies.feeds {spill : BuildSpill ι} {state : PartitionState ι} {total : List (ι × ι)}
    (supplies : Supplies config spill state total) (side : ProbeSide config ι) (probeHashes : Nat → BitVec 32)
    (probeHashRows : BitVec 64) : Feeds (serialProbes config) SerialJoin.pairTags GrowError
      ⟨.partitions spill state,side,probeHashes,probeHashRows⟩ total := by
  induction supplies generalizing side with
  | @refused state _ message failed may =>
    have ran : SerialJoin.fetchSpilled ⟨.partitions spill state,side,probeHashes,probeHashRows⟩ spill state = .error message := by
      rw [SerialJoin.fetchSpilled,failed]
      rfl
    exact .refused ran may
  | @ended state after _ ran none =>
    have ran : SerialJoin.fetchSpilled ⟨.partitions spill state,side,probeHashes,probeHashRows⟩ spill state =
        .ok (⟨.partitions spill after,side,probeHashes,probeHashRows⟩,.ended) := by
      rw [SerialJoin.fetchSpilled,ran]
      rfl
    exact .ended ran trivial none
  | @again state after _ ran _ ih =>
    have ran : SerialJoin.fetchSpilled ⟨.partitions spill state,side,probeHashes,probeHashRows⟩ spill state =
        .ok (⟨.partitions spill after,side,probeHashes,probeHashRows⟩,.again) := by
      rw [SerialJoin.fetchSpilled,ran]
      rfl
    exact .again ran (ih side)
  | @block state after total rest ran tabled small probes _ split ih =>
    obtain ⟨bound,prepared,cells⟩ := prepareProbeKeys_bound (side.ofSpilled after.probeBlock)
    let join : SerialJoin config ι :=
      ⟨.partitions spill after,{side.ofSpilled after.probeBlock with columns := bound},probeHashes,probeHashRows⟩
    obtain ⟨ready,entries⟩ := ofSpilled_ready side small probes cells
    have ready : join.Ready := ⟨tabled,ready⟩
    have ran : SerialJoin.fetchSpilled ⟨.partitions spill state,side,probeHashes,probeHashRows⟩ spill state =
        .ok (join,.found) := by
      rw [SerialJoin.fetchSpilled,ran]
      simp only [bind,Except.bind,prepared]
      rfl
    exact ready.feeds ran (ih _) (entries ▸ split)

end Sides

end PgBatch.HashJoin
