import PgBatch.Nodes.HashJoinServing
import PgBatch.Nodes.SharedChainsRun

/-! Probing the shared table: with all build rows in memory, a participant of a parallel join looks
the rows of its outer batches up in the chains that all participants have linked. -/
namespace PgBatch.ParallelJoin
open Words Columnar HashJoin Chains Parallel SharedChains
variable {ι : Type} [Inhabited ι]

/-! The rows of a table. -/

section Places
variable {table : Table ι}

/-- The row number of a place, which is what links are made of. -/
def number (place : Nat × Nat) : Nat :=
  rowId place.1 place.2

/-- The ghost of a row number. -/
def tagAt (table : Table ι) (row : Nat) : ι :=
  (table.chunk (row / chunkRows)).tags (row % chunkRows)

/-- All rows, chunk after chunk. -/
def places (table : Table ι) : List (Nat × Nat) :=
  (List.range table.chunks.length).flatMap fun index => (List.range (table.chunk index).nrows).map (index,·)

theorem mem_places {place : Nat × Nat} : place ∈ places table ↔ table.Holds place := by
  simp only [places,List.mem_flatMap,List.mem_range,List.mem_map,Table.Holds]
  constructor
  · rintro ⟨index,inside,row,below,rfl⟩
    exact ⟨inside,below⟩
  · rintro ⟨inside,below⟩
    exact ⟨place.1,inside,place.2,below,rfl⟩

theorem places_nodup (table : Table ι) : (places table).Nodup := by
  refine List.nodup_flatMap.mpr ⟨fun index _ => List.nodup_range.map fun _ _ same => (Prod.mk.inj same).2,?_⟩
  refine List.nodup_range.imp fun {one two} apart => ?_
  intro place left right
  obtain ⟨_,_,rfl⟩ := List.mem_map.mp left
  obtain ⟨_,_,same⟩ := List.mem_map.mp right
  exact apart (Prod.mk.inj same).1.symm

theorem chunks_range (table : Table ι) : (List.range table.chunks.length).map table.chunk = table.chunks := by
  refine List.ext_getElem (by simp) fun index _ below => ?_
  rw [List.getElem_map,List.getElem_range,Table.chunk,List.getD_eq_getElem _ _ below]

/-- The rows as they are stored. -/
theorem places_rows (table : Table ι) (ncolumns : Nat) :
    (places table).map (fun place => (table.chunk place.1).row ncolumns place.2) = table.chunks.flatMap (Store.rows ncolumns) := by
  rw [places,List.map_flatMap]
  conv_rhs => rw [← chunks_range table,List.flatMap_map]
  refine List.flatMap_congr fun index _ => ?_
  rw [List.map_map]
  rfl

theorem length_places (table : Table ι) : (places table).length = (table.chunks.map (·.nrows)).sum := by
  have rows := congrArg List.length (places_rows table 0)
  rwa [List.length_map,List.length_flatMap,List.map_congr_left fun chunk _ => length_rows 0 chunk] at rows

theorem number_tag {place : Nat × Nat} (holds : table.Holds place) :
    tagAt table (number place) = (table.chunk place.1).tags place.2 := by
  have small := holds.small
  have same : rowId place.1 place.2 = chunkRows * place.1 + place.2 := by
    rw [← holds.number,holds.code,Nat.add_sub_cancel]
  rw [tagAt,number,same,Nat.mul_add_div (by decide),Nat.div_eq_of_lt small,Nat.add_zero,Nat.mul_add_mod,Nat.mod_eq_of_lt small]

end Places

/-! Lookups. -/

/-- The link that a search has found; there is none when it has failed. -/
def linkOf : Option (Except String Nat) → Nat
  | some (.ok link) => link
  | some (.error _) | none => 0

/-- More steps than any chain has rows. -/
def steps (table : Table ι) : Nat :=
  (table.chunks.map (·.nrows)).sum + 1

section Chains
variable {table : Table ι} {chains : SharedChains.Shared} {outerKeys : List Nat} {probe : Nat → Option Int4}

/-- From its first match on, a chain of rows is a chain of matches. -/
theorem linked_matches {nodes : List (Nat × Nat)} {link fuel : Nat} (chain : Chain Table.code chains.links link nodes)
    (holds : ∀ place ∈ nodes, table.Holds place) (hash : BitVec 32) (enough : nodes.length < fuel) :
    Chain (· + 1) (fun build => linkOf (nextMatch table chains outerKeys probe build fuel))
      ((nodes.find? (matchesKeys table outerKeys probe hash)).elim 0 Table.code)
      ((nodes.filter (matchesKeys table outerKeys probe hash)).map number) := by
  induction nodes generalizing link with
  | nil => exact .nil
  | cons node rest ih =>
    have tail := @Chain.behind _ _ _ [] _ _ _ chain
    have later : ∀ place ∈ rest, table.Holds place := fun place member => holds place (List.mem_cons_of_mem _ member)
    have shorter : rest.length < fuel := Nat.lt_trans (Nat.lt_succ_self _) enough
    rw [List.find?_cons,List.filter_cons]
    cases passes : matchesKeys table outerKeys probe hash node with
    | false => exact ih tail later shorter
    | true =>
      have held := holds node (List.mem_cons_self ..)
      obtain ⟨nonzero,decoded⟩ := held.coded
      have numbered := held.number
      have same : table.hash node = hash := by
        simp only [matchesKeys,Bool.and_eq_true,beq_iff_eq] at passes
        exact passes.1
      have next : linkOf (nextMatch table chains outerKeys probe (number node) fuel) =
          (rest.find? (matchesKeys table outerKeys probe hash)).elim 0 Table.code := by
        rw [numbered] at decoded
        simp only [nextMatch,number,decoded,same]
        rw [seek_chain tail (fun place member => (later place member).coded) shorter]
        rfl
      have coded : Table.code node = number node + 1 := by
        rw [number,← numbered]
        omega
      simp only [Option.elim_some,coded,if_true,List.map_cons]
      refine .cons _ _ ?_
      rw [next]
      exact ih tail later shorter

/-- The chains are those of all rows, and the flag is up if two of them have the same keys. -/
structure ChainsHold (table : Table ι) (chains : SharedChains.Shared) (pushed : List (Nat × Nat)) : Prop where
  links : ∀ bucket, Chain Table.code chains.links (chains.heads bucket) (table.inBucket bucket pushed)
  distinct : pushed.Nodup
  rows : ∀ place, place ∈ pushed ↔ table.Holds place
  unique : chains.hasDuplicates = false → ∀ left right, table.Holds left → table.Holds right →
    table.keys left = table.keys right → left = right

/-- The rows with these keys, the last one that was linked first. -/
def found (table : Table ι) (pushed : List (Nat × Nat)) (values : List Int4) : List Nat :=
  (pushed.filter fun place => table.keys place == values).map number

variable {pushed : List (Nat × Nat)} {values : List Int4}

theorem ChainsHold.perm (hold : ChainsHold table chains pushed) : pushed.Perm (places table) :=
  (List.perm_ext_iff_of_nodup hold.distinct (places_nodup table)).mpr fun place => (hold.rows place).trans mem_places.symm

theorem ChainsHold.few (hold : ChainsHold table chains pushed) (bucket : Nat) :
    (table.inBucket bucket pushed).length < steps table := by
  have shorter : (table.inBucket bucket pushed).length ≤ pushed.length := List.length_filter_le ..
  rw [hold.perm.length_eq,length_places] at shorter
  exact Nat.lt_succ_of_le shorter

/-- A lookup comes to the rows with the keys of the probe row, one behind the other. -/
theorem ChainsHold.lookup (hold : ChainsHold table chains pushed) (nkeys : outerKeys.length = table.config.innerKeys.length)
    (given : outerKeys.mapM probe = some values) : ∃ head,
      SharedChains.findHead table chains outerKeys probe (keyHash values) (steps table) = some (.ok head) ∧
      Chain (· + 1) (fun build => linkOf (nextMatch table chains outerKeys probe build (steps table))) head
        (found table pushed values) := by
  have links := hold.links (table.bucket (keyHash values))
  have few := hold.few (table.bucket (keyHash values))
  have holds : ∀ place ∈ table.inBucket (table.bucket (keyHash values)) pushed, table.Holds place := fun place member =>
    (hold.rows place).mp (List.mem_filter.mp member).1
  refine ⟨_,seek_chain links (fun place member => (holds place member).coded) few,?_⟩
  have same : (table.inBucket (table.bucket (keyHash values)) pushed).filter (matchesKeys table outerKeys probe (keyHash values)) =
      pushed.filter fun place => table.keys place == values := by
    rw [Table.inBucket,List.filter_filter]
    refine List.filter_congr fun place member => ?_
    have held := (hold.rows place).mp member
    rw [Bool.eq_iff_iff,Bool.and_eq_true,matchesKeys_iff held nkeys given,beq_iff_eq,beq_iff_eq]
    refine ⟨And.left,fun keys => ⟨keys,?_⟩⟩
    rw [held.hash,keys]
  rw [found,← same]
  exact linked_matches links holds _ few

/-- The lookups come to an end, and no link is out of range. -/
theorem ChainsHold.sound (hold : ChainsHold table chains pushed) (probe : Nat → Option Int4) :
    (∀ hash, ∃ link, SharedChains.findHead table chains outerKeys probe hash (steps table) = some (.ok link)) ∧
      ∀ place, table.Holds place → ∃ link, nextMatch table chains outerKeys probe (number place) (steps table) = some (.ok link) := by
  have coded (bucket : Nat) (place : Nat × Nat) (member : place ∈ table.inBucket bucket pushed) :=
    ((hold.rows place).mp (List.mem_filter.mp member).1).coded
  refine ⟨fun hash => ⟨_,seek_chain (hold.links (table.bucket hash)) (coded _) (hold.few _)⟩,fun place held => ?_⟩
  obtain ⟨nonzero,decoded⟩ := held.coded
  rw [held.number] at decoded
  have links := hold.links (table.bucket (table.hash place))
  have member : place ∈ table.inBucket (table.bucket (table.hash place)) pushed :=
    List.mem_filter.mpr ⟨(hold.rows place).mpr held,by simp⟩
  have few := hold.few (table.bucket (table.hash place))
  have all := coded (table.bucket (table.hash place))
  generalize table.inBucket (table.bucket (table.hash place)) pushed = nodes at links member few all
  obtain ⟨front,back,rfl⟩ := List.append_of_mem member
  have shorter : back.length < steps table := by
    rw [List.length_append,List.length_cons] at few
    omega
  simp only [nextMatch,number,decoded]
  exact ⟨_,seek_chain links.behind (fun other behind => all other (List.mem_append_right _ (List.mem_cons_of_mem _ behind))) shorter⟩

theorem ChainsHold.single (hold : ChainsHold table chains pushed) (alone : chains.hasDuplicates = false) (values : List Int4) :
    (found table pushed values).length ≤ 1 := by
  rw [found,List.length_map]
  have nodup := hold.distinct.filter fun place => table.keys place == values
  have same : ∀ one ∈ pushed.filter (fun place => table.keys place == values),
      ∀ two ∈ pushed.filter (fun place => table.keys place == values), one = two := by
    intro one first two second
    obtain ⟨inside,here⟩ := List.mem_filter.mp first
    obtain ⟨inside',there⟩ := List.mem_filter.mp second
    exact hold.unique alone one two ((hold.rows one).mp inside) ((hold.rows two).mp inside')
      ((beq_iff_eq.mp here).trans (beq_iff_eq.mp there).symm)
  generalize pushed.filter (fun place => table.keys place == values) = items at nodup same ⊢
  rcases items with _ | ⟨one,_ | ⟨two,rest⟩⟩
  · exact Nat.zero_le 1
  · exact Nat.le_refl 1
  · have equal := same one (List.mem_cons_self ..) two (List.mem_cons_of_mem _ (List.mem_cons_self ..))
    exact absurd (equal ▸ List.mem_cons_self ..) (List.nodup_cons.mp nodup).1

/-- The rows of a table with their keys. -/
def tableRows (table : Table ι) : List (Entry ι) :=
  (places table).map fun place => (table.keys place,(table.chunk place.1).tags place.2)

theorem ChainsHold.found_perm (hold : ChainsHold table chains pushed) (values : List Int4) (tag : ι) :
    ((found table pushed values).map fun row => (tag,tagAt table row)).Perm (matchPairs [(values,tag)] (tableRows table)) := by
  have named : ((found table pushed values).map fun row => (tag,tagAt table row)) =
      (pushed.filter fun place => table.keys place == values).map fun place => (tag,(table.chunk place.1).tags place.2) := by
    rw [found,List.map_map]
    refine List.map_congr_left fun place member => ?_
    simp only [Function.comp_apply,number_tag ((hold.rows place).mp (List.mem_filter.mp member).1)]
  rw [named,matchPairs,Joining.joined,tableRows,List.flatMap_singleton,List.filter_map,List.map_map,List.map_map]
  have same : ((fun other : Entry ι => decide (other.1 = values)) ∘ fun place => (table.keys place,(table.chunk place.1).tags place.2)) =
      fun place => table.keys place == values := by
    funext place
    exact Bool.eq_iff_iff.mpr (by simp)
  rw [same]
  exact (hold.perm.filter _).map _

end Chains

/-! Outer batches. -/

/-- The outer batches that a participant is still to read, and the one it works on. -/
structure MemoryJoin (config : HashJoin.Config) (ι : Type) where
  input : List (Batch ι)
  side : ProbeSide config ι
  probeHashes : Nat → BitVec 32
  probeHashRows : BitVec 64

namespace MemoryJoin
variable {config : HashJoin.Config}

/-- The part of `parallel_hash_join_fetch_probe` for a join that has not spilled. -/
def fetch (join : MemoryJoin config ι) : Except String (MemoryJoin config ι × Fetched) :=
  match join.input with
  | [] => .ok (join,.ended)
  | batch :: rest => do
    let side ← prepareProbeKeys (join.side.ofInput batch)
    let (hashes,hashRows) := outerHashed config batch
    .ok (⟨rest,side,hashes,hashRows⟩,.found)

/-- `load_probe_hash` for a batch of the outer child. -/
def loadProbeHash (join : MemoryJoin config ι) (row : Nat) : Option (BitVec 32) :=
  if join.probeHashRows.getLsbD row then some (join.probeHashes row) else none

/-- The rows of an output row. -/
def pairTags (table : Table ι) (join : MemoryJoin config ι) (pair : Nat × Nat) : ι × ι :=
  (join.side.tag pair.1,tagAt table pair.2)

end MemoryJoin

/-- What `produce_output` makes use of; without conditions all rows of the output qualify. -/
def memoryProbes (config : HashJoin.Config) (table : Table ι) (chains : SharedChains.Shared) : Probes (MemoryJoin config ι) where
  fetch := MemoryJoin.fetch
  finish := id
  selection := fun join => join.side.rowSelection
  probeHash := MemoryJoin.loadProbeHash
  findHead := fun join hash row =>
    linkOf (SharedChains.findHead table chains config.outerKeys (join.side.cells row) hash (steps table))
  next := fun join build row => linkOf (nextMatch table chains config.outerKeys (join.side.cells row) build (steps table))
  hasDuplicates := fun _ => chains.hasDuplicates
  qualify := fun join _ output => .ok (join,output)

section Serving
variable {config : HashJoin.Config} {table : Table ι} {chains : SharedChains.Shared} {pushed : List (Nat × Nat)}

namespace MemoryJoin

/-- The batch with what its rows find. -/
def content (table : Table ι) (chains : SharedChains.Shared) (pushed : List (Nat × Nat)) (join : MemoryJoin config ι) :
    Content (ι × ι) where
  selection := join.side.rowSelection
  found := fun row => (join.side.keys row).elim [] (found table pushed)
  next := fun build row => linkOf (nextMatch table chains config.outerKeys (join.side.cells row) build (steps table))
  passes := fun _ => true
  name := pairTags table join

/-- As long as it is held, a batch whose keys are bound serves its pairs with the table. -/
theorem held (hold : ChainsHold table chains pushed) (same : table.config.innerKeys = config.innerKeys)
    {join : MemoryJoin config ι} (bound : join.side.Bound join.loadProbeHash) :
    BatchHeld (memoryProbes config table chains) (pairTags table) (· = join) (join.content table chains pushed) := by
  have nkeys : config.outerKeys.length = table.config.innerKeys.length := by
    rw [same]
    exact config.paired
  constructor
  · rintro join rfl
    refine ⟨rfl,rfl,rfl,?_,?_,?_⟩
    · intro row member nothing
      have hash := (bound.hashes row member).symm.trans nothing
      cases keys : join.side.keys row with
      | none => simp only [content,keys,Option.elim_none]
      | some values =>
        rw [keys] at hash
        cases hash
    · intro row member hash hashed
      cases keys : join.side.keys row with
      | none =>
        have none_ := (bound.hashes row member).symm.trans hashed
        rw [keys] at none_
        cases none_
      | some values =>
        obtain ⟨same',given⟩ := bound.looks member keys
        obtain rfl := Option.some.inj (same'.symm.trans hashed)
        obtain ⟨head,ends,chain⟩ := hold.lookup nkeys given
        simp only [memoryProbes,content,keys,Option.elim_some,ends]
        exact chain
    · intro alone row _
      cases keys : join.side.keys row with
      | none => simp [content,keys]
      | some values => simpa [content,keys] using hold.single alone values
  · rintro join rfl first output _ _ _
    have all : (output.drop first).filter (join.content table chains pushed).passes = output.drop first :=
      List.filter_eq_self.mpr fun _ _ => rfl
    exact ⟨join,by rw [all,List.take_append_drop]; rfl,rfl⟩

theorem content_emits (hold : ChainsHold table chains pushed) (join : MemoryJoin config ι) :
    (join.content table chains pushed).emits.Perm (matchPairs join.side.entries (tableRows table)) := by
  have all : (join.content table chains pushed).emits =
      (join.content table chains pushed).pairs.map (join.content table chains pushed).name :=
    congrArg (List.map _) (List.filter_eq_self.mpr fun _ _ => rfl)
  rw [all,Content.pairs,ProbeSide.entries]
  change (List.map _ (pairsOf _ (join.side.rowSelection.rowsFrom 0))).Perm _
  induction join.side.rowSelection.rowsFrom 0 with
  | nil => exact .refl _
  | cons row rest ih =>
    rw [pairsOf_cons,List.map_append,List.map_map]
    cases keys : join.side.keys row with
    | none =>
      have skipped : probeEntries (row :: rest) join.side.keys join.side.tag = probeEntries rest join.side.keys join.side.tag := by
        simp [probeEntries,keys]
      simpa [content,keys,skipped] using ih
    | some values =>
      have taken : probeEntries (row :: rest) join.side.keys join.side.tag =
          [(values,join.side.tag row)] ++ probeEntries rest join.side.keys join.side.tag := by
        simp [probeEntries,keys]
      rw [taken,matchPairs_append_left]
      refine List.Perm.append ?_ ih
      simpa [content,keys,Function.comp_def,pairTags] using hold.found_perm values (join.side.tag row)

/-- Each outer batch has its pairs with the table, and nothing fails. -/
theorem feeds (hold : ChainsHold table chains pushed) (same : table.config.innerKeys = config.innerKeys) (input : List (Batch ι))
    (side : ProbeSide config ι) (probeHashes : Nat → BitVec 32) (probeHashRows : BitVec 64) :
    Feeds (memoryProbes config table chains) (pairTags table) (fun _ => False) ⟨input,side,probeHashes,probeHashRows⟩
      (matchPairs (input.flatMap (batchEntries config.outerKeys config.outerBatchColumns)) (tableRows table)) := by
  induction input generalizing side probeHashes probeHashRows with
  | nil => exact .ended rfl trivial rfl
  | cons batch rest ih =>
    obtain ⟨columns,prepared,cells⟩ := prepareProbeKeys_bound (side.ofInput batch)
    let after : MemoryJoin config ι :=
      ⟨rest,{side.ofInput batch with columns := columns},(outerHashed config batch).1,(outerHashed config batch).2⟩
    have visits : after.side.rowSelection.rowsFrom 0 = batch.selected := rowsFrom_word batch.small
    have keys (row : Nat) : after.side.keys row =
        keysAt (config.outerKeys.map (loadColumns config.outerBatchColumns batch).column) row :=
      (keysAt_batch batch row).symm
    have bound : after.side.Bound after.loadProbeHash := ⟨cells,fun row member => by
      rw [keys]
      exact outerHashed_keys (visits ▸ member)⟩
    have entries : after.side.entries = batchEntries config.outerKeys config.outerBatchColumns batch := by
      rw [ProbeSide.entries,visits,funext keys]
      rfl
    have ran : (memoryProbes config table chains).fetch ⟨batch :: rest,side,probeHashes,probeHashRows⟩ = .ok (after,.found) := by
      change MemoryJoin.fetch ⟨batch :: rest,side,probeHashes,probeHashRows⟩ = _
      rw [MemoryJoin.fetch]
      dsimp only
      rw [prepared]
      rfl
    have split : ((after.content table chains pushed).emits ++
        matchPairs (rest.flatMap (batchEntries config.outerKeys config.outerBatchColumns)) (tableRows table)).Perm
          (matchPairs ((batch :: rest).flatMap (batchEntries config.outerKeys config.outerBatchColumns)) (tableRows table)) := by
      rw [List.flatMap_cons,matchPairs_append_left,← entries]
      exact (content_emits hold after).append_right _
    refine .found (after.content table chains pushed) (· = after) ran rfl (held hold same bound) ?_ split
    rintro _ rfl
    exact ih _ _ _

end MemoryJoin

end Serving

end PgBatch.ParallelJoin
