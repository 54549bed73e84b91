import PgBatch.Nodes.ParallelBuild
import Mathlib.Algebra.BigOperators.Group.Finset.Piecewise
import Mathlib.Data.Multiset.Basic

/-! What the private writes of the shared build store: `spill_vectors` and
`spill_chunk` put every row they are given into its own partition, once. -/
namespace PgBatch.Parallel
open Words Columnar Spill

variable {ι τ : Type}

theorem partitionOf_lt {npartitions : Nat} (power : ∃ bits, npartitions = 2 ^ bits) (hash : BitVec 32) :
    partitionOf npartitions hash < npartitions := by
  obtain ⟨bits,rfl⟩ := power
  rw [partitionOf,Nat.and_two_pow_sub_one_eq_mod]
  exact Nat.mod_lt _ (Nat.two_pow_pos bits)

theorem partitionWord_rows (npartitions : Nat) (hashes : Nat → BitVec 32) (pending : BitVec 64) (partition : Nat) :
    rows (partitionWord npartitions hashes pending partition) =
      (rows pending).filter fun row => decide (partitionOf npartitions (hashes row) = partition) :=
  rows_gather _ _ _

theorem hashedRow_eq (config : Config) (batch : Batch τ) {row : Nat}
    (member : row ∈ rows (hashBatch config.innerKeys batch).2) :
    hashedRow config batch row = batch.row config.innerKeys config.ninnerColumns row := by
  rw [hashedRow,hashBatch_hash config.keyed batch member config.ninnerColumns]
  rfl

/-- The rows of `pending`, as the build stores them. -/
def pendingRows (config : Config) (batch : Batch τ) (pending : BitVec 64) : List (Row τ) :=
  (rows pending).map (hashedRow config batch)

def rowPartition (config : Config) (row : Row τ) : Nat :=
  partitionOf config.npartitions row.hash

/-- The part of `stored` that belongs to one partition. -/
def partRows (config : Config) (stored : List (Row τ)) (partition : Nat) : List (Row τ) :=
  stored.filter fun row => decide (rowPartition config row = partition)

theorem pendingRows_accepted (config : Config) (batch : Batch τ) :
    pendingRows config batch (hashBatch config.innerKeys batch).2 =
      batch.accepted config.innerKeys config.ninnerColumns := by
  rw [Batch.accepted,← hashBatch_rows config.keyed,pendingRows]
  apply List.map_congr_left
  intro row member
  exact hashedRow_eq config batch member

/-- The pending rows of a batch are among those its hashing accepted. -/
def Hashed (config : Config) (batch : Batch τ) (pending : BitVec 64) : Prop :=
  ∀ row ∈ rows pending, row ∈ rows (hashBatch config.innerKeys batch).2

theorem hashed_lt {config : Config} {batch : Batch τ} {pending : BitVec 64} (hashed : Hashed config batch pending)
    {row : Nat} (member : row ∈ rows pending) : row < batch.nrows := by
  have accepted := hashed row member
  rw [hashBatch_rows config.keyed] at accepted
  have selected := mem_rows.mp (List.mem_filter.mp accepted).1
  rw [BitVec.getLsbD_and,getLsbD_wordMask] at selected
  simp only [Bool.and_eq_true,decide_eq_true_eq] at selected
  exact selected.2.2

/-- A writer of the build side that can still be written to. -/
structure Writable (config : Config) (writer : Writers τ) : Prop where
  valid : writer.Valid
  ncolumns : writer.ncolumns = config.ninnerColumns
  npartitions : writer.npartitions = config.npartitions
  unfinished : writer.finished = false

/-- Every row stands in the file of its own partition. -/
def Partitioned (config : Config) (writer : Writers τ) : Prop :=
  ∀ partition, ∀ row ∈ writer.contents partition, rowPartition config row = partition

theorem Writable.of_same {config : Config} {before after : Writers τ} (writable : Writable config before)
    (same : Same before after) (valid : after.Valid) : Writable config after :=
  ⟨valid,same.ncolumns.trans writable.ncolumns,same.npartitions.trans writable.npartitions,
    same.finished.trans writable.unfinished⟩

/-- What storing `stored` through a writer does. -/
structure Stores (config : Config) (before after : Writers τ) (stored : List (Row τ)) : Prop where
  writable : Writable config after
  contents : ∀ partition, after.contents partition = before.contents partition ++
    if partition < config.npartitions then partRows config stored partition else []

variable [Inhabited τ]

theorem spillVectors_stores (config : Config) {writer : Writers τ} (writable : Writable config writer)
    (batch : Batch τ) {pending : BitVec 64} (hashed : Hashed config batch pending) :
    ∃ after, spillVectors config writer batch pending = .ok after ∧
      Stores config writer after (pendingRows config batch pending) := by
  obtain ⟨after,ran,same,held,contents⟩ := foldlM_adds
    (fun writer partition =>
      let selected := partitionWord config.npartitions (hashBatch config.innerKeys batch).1 pending partition
      if selected = 0#64 then .ok writer
      else sharedSpillWrite writer partition batch.nrows selected (hashedRow config batch))
    (partRows config (pendingRows config batch pending)) writable.valid config.npartitions (by
      intro middle held same partition inside
      have own : Writable config middle := writable.of_same same held
      have split : partRows config (pendingRows config batch pending) partition =
          (rows (partitionWord config.npartitions (hashBatch config.innerKeys batch).1 pending partition)).map
            (hashedRow config batch) := by
        rw [partitionWord_rows,partRows,pendingRows,List.filter_map]
        rfl
      dsimp only
      split
      · rename_i none
        exact ⟨middle,rfl,.refl middle,held,by rw [split,none]; simp⟩
      · obtain ⟨after,ran,adds⟩ := write_adds held
          (hashedRow config batch) (own.npartitions ▸ inside) own.unfinished batch.small
          (fun index => by simp [hashedRow,own.ncolumns])
        refine ⟨after,ran,?_⟩
        have masked : rows (partitionWord config.npartitions (hashBatch config.innerKeys batch).1 pending partition
            &&& wordMask batch.nrows) =
            rows (partitionWord config.npartitions (hashBatch config.innerKeys batch).1 pending partition) := by
          rw [rows_and,List.filter_eq_self]
          intro row member
          rw [partitionWord_rows] at member
          have pended := (List.mem_filter.mp member).1
          rw [getLsbD_wordMask,decide_eq_true_eq]
          exact ⟨rows_lt pended,hashed_lt hashed pended⟩
        rw [split,← masked]
        exact adds)
  exact ⟨after,ran,writable.of_same same held,contents⟩

omit [Inhabited τ] in
theorem chunk_row_partition (config : Config) (chunk : Store τ) (row : Nat) :
    rowPartition config (chunk.row config.ninnerColumns row) = partitionOf config.npartitions (chunk.hashes row) :=
  rfl

/-- The row loop of one partition: what is written and what is still gathered
are, together, the rows of the partition that it has passed. -/
theorem spillChunkRows_stores (config : Config) (chunk : Store τ) {partition : Nat}
    (inside : partition < config.npartitions) (visits : List Nat) :
    ∀ writer out, Writable config writer → out.Clear config.ninnerColumns → out.nrows < blockRows →
      ∃ after rest, spillChunkRows config chunk partition writer out visits = .ok (after,rest) ∧
        Writable config after ∧ Same writer after ∧ rest.nrows < blockRows ∧
        (∀ other, other ≠ partition → after.contents other = writer.contents other) ∧
        after.contents partition ++ rest.rows config.ninnerColumns =
          writer.contents partition ++ out.rows config.ninnerColumns ++
            partRows config (visits.map (chunk.row config.ninnerColumns)) partition := by
  induction visits with
  | nil =>
    intro writer out writable _ room
    exact ⟨writer,out,rfl,writable,.refl writer,room,fun _ _ => rfl,by simp [partRows]⟩
  | cons row rest ih =>
    intro writer out writable clear room
    unfold spillChunkRows
    by_cases here : partitionOf config.npartitions (chunk.hashes row) = partition
    · have kept : partRows config ((row :: rest).map (chunk.row config.ninnerColumns)) partition =
          chunk.row config.ninnerColumns row ::
            partRows config (rest.map (chunk.row config.ninnerColumns)) partition := by
        rw [partRows,List.map_cons,List.filter_cons_of_pos (by simp [chunk_row_partition,here])]
        rfl
      let grown := out.append config.ninnerColumns (chunk.tags row) (chunk.hashes row)
        (fun column => chunk.cell column row)
      have gained : grown.rows config.ninnerColumns =
          out.rows config.ninnerColumns ++ [chunk.row config.ninnerColumns row] := rows_append clear _ _ _
      rw [if_neg (by simpa using here)]
      dsimp only
      by_cases full : grown.nrows = blockRows
      · obtain ⟨flushed,wrote,adds⟩ := writeDense_adds writable.valid
          (writable.npartitions ▸ inside) writable.unfinished (by rw [full]; decide) (Nat.le_of_eq full)
        obtain ⟨after,last,ran,done,same,few,others,total⟩ :=
          ih flushed grown.wipe (writable.of_same adds.same adds.valid) (clear_wipe _ _)
            (by simp [Store.wipe,blockRows])
        refine ⟨after,last,?_,done,adds.same.trans same,few,?_,?_⟩
        · rw [if_pos full]
          change (sharedService.writeDense writer partition grown >>= _) = _
          rw [wrote]
          exact ran
        · intro other apart
          rw [others other apart,adds.contents,Function.update_of_ne apart]
        · rw [total,adds.contents,Function.update_self,rows_wipe,List.append_nil,writable.ncolumns,gained,kept]
          simp
      · have open_ : grown.nrows < blockRows := by
          have : grown.nrows = out.nrows + 1 := rfl
          omega
        obtain ⟨after,last,ran,done,same,few,others,total⟩ := ih writer grown writable (clear_append clear _ _ _) open_
        refine ⟨after,last,?_,done,same,few,others,?_⟩
        · rw [if_neg full]
          exact ran
        · rw [total,gained,kept]
          simp
    · have skipped : partRows config ((row :: rest).map (chunk.row config.ninnerColumns)) partition =
          partRows config (rest.map (chunk.row config.ninnerColumns)) partition := by
        rw [partRows,List.map_cons,List.filter_cons_of_neg (by simp [chunk_row_partition,here])]
        rfl
      obtain ⟨after,last,ran,done⟩ := ih writer out writable clear room
      refine ⟨after,last,?_,?_⟩
      · rw [if_pos here]
        exact ran
      · rw [skipped]
        exact done

theorem spillChunk_stores (config : Config) (chunk : Store τ) {writer : Writers τ}
    (writable : Writable config writer) :
    ∃ after, spillChunk config chunk writer = .ok after ∧
      Stores config writer after (chunk.rows config.ninnerColumns) := by
  obtain ⟨after,ran,same,held,contents⟩ := foldlM_adds (spillChunkPartition config chunk)
    (partRows config (chunk.rows config.ninnerColumns)) writable.valid config.npartitions (by
      intro middle held same partition inside
      have own : Writable config middle := writable.of_same same held
      obtain ⟨written,rest,ran,open_,same',few,others,total⟩ :=
        spillChunkRows_stores config chunk inside (List.range chunk.nrows) middle .zero own (clear_zero _)
          (by simp [Store.zero,blockRows])
      rw [Columnar.rows_zero,List.append_nil] at total
      unfold spillChunkPartition
      rw [ran]
      by_cases some : 0 < rest.nrows
      · obtain ⟨after,wrote,adds⟩ := writeDense_adds open_.valid (open_.npartitions ▸ inside)
          open_.unfinished some (Nat.le_of_lt few)
        refine ⟨after,?_,same'.trans adds.same,adds.valid,?_⟩
        · change (if 0 < rest.nrows then _ else _) = _
          rw [if_pos some]
          exact wrote
        · funext other
          rw [adds.contents]
          by_cases this : other = partition
          · subst this
            rw [Function.update_self,Function.update_self,open_.ncolumns,total]
            rfl
          · rw [Function.update_of_ne this,Function.update_of_ne this,others other this]
      · have none : rest.rows config.ninnerColumns = [] := by
          rw [← List.length_eq_zero_iff,length_rows]
          omega
        refine ⟨written,?_,same',open_.valid,?_⟩
        · change (if 0 < rest.nrows then _ else _) = _
          rw [if_neg some]
        · funext other
          by_cases this : other = partition
          · subst this
            rw [none,List.append_nil] at total
            rw [Function.update_self,total]
            rfl
          · rw [Function.update_of_ne this,others other this])
  exact ⟨after,ran,writable.of_same same held,contents⟩

omit [Inhabited τ] in
/-- Rows split by partition are all the rows. -/
theorem sum_partRows (config : Config) (stored : List (Row τ)) :
    ∑ partition ∈ Finset.range config.npartitions, (partRows config stored partition : Multiset (Row τ)) =
      stored := by
  induction stored with
  | nil => simp [partRows]
  | cons row rest ih =>
    have split (partition : Nat) : (partRows config (row :: rest) partition : Multiset (Row τ)) =
        (if rowPartition config row = partition then {row} else 0) + partRows config rest partition := by
      by_cases here : rowPartition config row = partition
      · simp [partRows,here,← Multiset.cons_coe,← Multiset.singleton_add]
      · simp [partRows,here]
    have inside : rowPartition config row < config.npartitions := partitionOf_lt config.power row.hash
    simp only [split]
    rw [Finset.sum_add_distrib,ih,Finset.sum_ite_eq,if_pos (Finset.mem_range.mpr inside),
      Multiset.singleton_add,Multiset.cons_coe]

/-- All rows a writer holds. -/
def writerRows (config : Config) (writer : Writers τ) : Multiset (Row τ) :=
  ∑ partition ∈ Finset.range config.npartitions, (writer.contents partition : Multiset (Row τ))

omit [Inhabited τ] in
theorem Stores.total {config : Config} {before after : Writers τ} {stored : List (Row τ)}
    (stores : Stores config before after stored) :
    writerRows config after = writerRows config before + stored := by
  have each (partition : Nat) (member : partition ∈ Finset.range config.npartitions) :
      (after.contents partition : Multiset (Row τ)) =
        before.contents partition + (partRows config stored partition : Multiset (Row τ)) := by
    rw [stores.contents,if_pos (Finset.mem_range.mp member),← Multiset.coe_add]
  rw [writerRows,Finset.sum_congr rfl each,Finset.sum_add_distrib,sum_partRows]
  rfl

omit [Inhabited τ] in
theorem Stores.partitioned {config : Config} {before after : Writers τ} {stored : List (Row τ)}
    (stores : Stores config before after stored) (kept : Partitioned config before) :
    Partitioned config after := by
  intro partition row member
  rw [stores.contents] at member
  rcases List.mem_append.mp member with old | new
  · exact kept partition row old
  · split at new
    · simpa [partRows] using (List.mem_filter.mp new).2
    · contradiction

end PgBatch.Parallel
