import PgBatch.Nodes.ParallelMemory
import PgBatch.Nodes.ParallelTable
import PgBatch.Nodes.ParallelJoinShares

/-! A parallel join whose build stays in memory. Once the chunks are linked the table is the same
for all participants and for ever, and what each of them publishes for its outer batches
are their pairs with all rows of the inner side. -/
namespace PgBatch.ParallelJoin
open Words Columnar HashJoin Chains
open SharedChains (Table)
variable {n : Nat} {ι : Type} [Inhabited ι] {config : Config}

/-- The shared memory as a participant reads it through its pointers; there is nothing behind NULL. Its own
`build_has_duplicates` is the flag as it leaves `parallel_hash_join_prepare`. -/
def sharedChains {κ : Type} (shared : Parallel.Shared κ ι) (own : Parallel.Local ι) : SharedChains.Shared where
  heads := if own.buckets.isSome then shared.bucketHeads else fun _ => 0
  links := if own.directory.isSome then fun place => shared.links (number place) else fun _ => 0
  hasDuplicates := shared.hasDuplicates
  nextChunk := shared.nextChunk
  pushed := []

/-- With bound pointers, it has the chains of all rows. -/
theorem chains_hold {state : Parallel.State (Fin n) ι} {table : Table ι} {chains : SharedChains.State (Fin n)}
    (settled : Parallel.Settled state.shared) (counted : state.shared.nchunks = table.chunks.length)
    (invariant : SharedChains.Invariant table chains) (linked : chains.Linked table)
    (views : Parallel.Views table state.shared chains.shared) {own : Parallel.Local ι} (bound : Parallel.Bound state.shared own) :
    ChainsHold table (sharedChains state.shared own) chains.shared.pushed := by
  have rows := invariant.linked_iff linked
  refine ⟨fun bucket => ?_,invariant.distinct,rows,fun alone left right one two same => ?_⟩
  · have chain := invariant.chains bucket
    have heads : (sharedChains state.shared own).heads = chains.shared.heads := by
      rw [sharedChains,bound.buckets,bound.allocated,← views.heads]
      rfl
    rw [heads]
    refine chain.congr fun place member => ?_
    have holds := (rows place).mp (List.mem_filter.mp member).1
    have some_ : 0 < state.shared.nchunks := by
      rw [counted]
      exact Nat.lt_of_le_of_lt (Nat.zero_le _) holds.1
    rw [sharedChains,bound.directory,(settled.directory some_).1]
    exact views.links place holds
  · by_contra apart
    have found := (invariant.duplicates linked).mpr ⟨left,right,one,two,apart,same⟩
    rw [← views.duplicates] at found
    have none : state.shared.hasDuplicates = false := alone
    rw [none] at found
    cases found

/-! The rows of the table. -/

theorem tableRows_stored (table : Table ι) (inside : ∀ key ∈ table.config.innerKeys, key < table.config.ninnerColumns) :
    tableRows table = (Parallel.storedRows table.config table.chunks).map (entry table.config.innerKeys) := by
  rw [Parallel.storedRows,← places_rows,List.map_map,tableRows]
  refine List.map_congr_left fun place _ => ?_
  refine Prod.ext (List.map_congr_left fun key member => ?_) rfl
  exact (congrArg Cell.value (cell_row (inside key member) place.2)).symm

section Rows
variable {inners outers : Fin n → List (Batch ι)} {state : JoinState config n ι} {table : Table ι}
  (ledger : Parallel.Ledger (sharedConfig config n) (innerInput config inners) state.build)
  (ended : 3 ≤ state.build.shared.barrier.phase) (unspilled : state.build.shared.spilled = false)
  (same : table.config = sharedConfig config n) (chunks : table.chunks = state.build.shared.chunks)
include ledger ended unspilled same chunks

/-- The table has the rows of all inner batches that have been read. -/
theorem tableRows_accepted : (tableRows table).Perm ((acceptedRows config (state.innerTaken inners)).map (entry config.innerKeys)) := by
  rw [tableRows_stored table (by rw [same]; exact config.innerInside),same,chunks]
  refine List.Perm.map (entry config.innerKeys) ?_
  rw [← fetched_accepted ledger.assigned,← Multiset.coe_eq_coe,Parallel.fetchedRows,Parallel.coe_flatMap_finRange]
  exact ((Parallel.ledger_stored ledger ended).resident unspilled).1

theorem table_pairs (outer : List (Batch ι)) :
    (matchPairs (outer.flatMap (batchEntries config.outerKeys config.outerBatchColumns)) (tableRows table)).Perm
      (equiJoin config outer (state.innerTaken inners)) := by
  rw [equiJoin,← acceptedRows_entries]
  exact matchPairs_perm (.refl _) (tableRows_accepted ledger ended unspilled same chunks)

end Rows

/-! Runs. -/

theorem sharedMemoryLimit_small (config : Config) (n : Nat) :
    (sharedConfig config n).sharedMemoryLimit < 2 ^ 64 := by
  unfold sharedConfig
  dsimp only
  split
  · decide
  · rename_i fits
    by_cases none : n = 0
    · rw [none,Nat.mul_zero]
      decide
    · have product := (Nat.le_div_iff_mul_le (Nat.pos_of_ne_zero none)).mp (Nat.le_of_not_lt fits)
      omega

/-- The invariants of the build, for all runs. -/
structure Prepared (inners : Fin n → List (Batch ι)) (state : JoinState config n ι) : Prop where
  budget : Parallel.Budget (sharedConfig config n) (innerInput config inners) state.build
  linking : Parallel.Linking (sharedConfig config n) state.build
  tallied : Parallel.Tallied state.build
  pointed : ∀ id, Parallel.Pointed state.build.shared (state.build.locals id)
  early : Parallel.Early state.build

section Runs
variable {inners outers : Fin n → List (Batch ι)} {state : JoinState config n ι} {missing : String} {capacity : Nat}

theorem initial_prepared (config : Config) (inners outers : Fin n → List (Batch ι)) :
    Prepared inners (JoinState.initial config inners outers) :=
  ⟨Parallel.initial_budget _ _,Parallel.initial_linking _ _,Parallel.initial_tallied _ _,Parallel.initial_pointed _ _,
    Parallel.initial_early _ _⟩

/-- In a run of the join, the build runs, too. -/
theorem build_after (missing : String) (capacity : Nat) (state : JoinState config n ι) (run : List (JoinAction n)) :
    ∃ steps, (state.after missing capacity run).build = state.build.after (sharedConfig config n) steps := by
  induction run generalizing state with
  | nil => exact ⟨[],rfl⟩
  | cons action rest ih =>
    obtain ⟨steps,later⟩ := ih (state.act missing capacity action)
    rcases act_build missing capacity state action with same | ⟨step,rfl,free⟩
    · exact ⟨steps,later.trans (by rw [same])⟩
    · refine ⟨step :: steps,later.trans ?_⟩
      rw [act_free free]
      rfl

theorem Prepared.after (prepared : Prepared inners state) (run : List (JoinAction n)) :
    Prepared inners (state.after missing capacity run) := by
  obtain ⟨steps,same⟩ := build_after missing capacity state run
  have small := sharedMemoryLimit_small config n
  refine ⟨?_,?_,?_,?_,?_⟩ <;> rw [same]
  · exact Parallel.budget_after small prepared.budget steps
  · exact Parallel.linking_after small prepared.budget prepared.linking steps
  · exact Parallel.tallied_after small prepared.budget prepared.tallied steps
  · exact Parallel.pointed_after prepared.budget.ledger prepared.pointed steps
  · exact Parallel.early_after prepared.budget.ledger prepared.early steps

/-- Whoever came in time has read all of its batches, and has bound its pointers when it leaves. -/
theorem Prepared.attended (prepared : Prepared inners state) {id : Fin n} (first : state.build.shared.barrier.phase = 0)
    (inside : (state.build.locals id).pc ≠ .outside) (run : List (JoinAction n))
    (ended : 3 ≤ (state.after missing capacity run).build.shared.barrier.phase) :
    (inners id).take ((state.after missing capacity run).build.locals id).taken.length = inners id ∧
      (((state.after missing capacity run).build.locals id).pc = .left false →
        ((state.after missing capacity run).build.locals id).buckets.isSome = true) := by
  have attending : Parallel.Attending state.build id := by rwa [Parallel.Attending,if_pos first]
  have binding := prepared.early (by omega) id
  obtain ⟨steps,same⟩ := build_after missing capacity state run
  have later : Prepared inners (state.after missing capacity run) := prepared.after run
  have ledger := later.budget.ledger
  rw [same] at ended ledger ⊢
  have read := Parallel.after_attending (sharedConfig config n) prepared.budget.ledger steps id attending
  have bound := Parallel.binding_after prepared.budget.ledger inside binding steps
  constructor
  · have assigned := ledger.assigned id
    rw [Parallel.Attending,if_neg (by omega)] at read
    rw [read,List.append_nil] at assigned
    rw [assigned,innerInput,List.length_map,List.take_length]
  · intro left
    have attached := (Parallel.binding_attached (ledger.protocol.placed id) bound).left left
    rw [attached.buckets]
    exact attached.allocated

end Runs

/-! The output of the participants. -/

/-- What a participant sees in the shared memory. -/
abbrev JoinState.view (state : JoinState config n ι) (id : Fin n) : SharedChains.Shared :=
  sharedChains state.build.shared (state.build.locals id)

/-- A participant with its outer batches before it. -/
def memoryStart (config : Config) (outer : List (Batch ι)) : MemoryJoin config ι :=
  ⟨outer,emptySide config,fun _ => 0#32,0#64⟩

/-- These pages have been published, and then there was nothing left. -/
def Finished (config : Config) (table : Table ι) (chains : SharedChains.Shared) (capacity : Nat) (outer : List (Batch ι))
    (pages : List (List (ι × ι))) : Prop :=
  ∃ output next fuel, Calls (memoryProbes config table chains) (MemoryJoin.pairTags table) capacity
      (outputStart (memoryStart config outer)) pages output ∧
    produceOutput (memoryProbes config table chains) capacity fuel output = some (.ok (next,false))

/-- What `produce_output` does for a participant, whatever its outer batches are: no lookup fails, each call comes to an end,
a page is of the batch that is held, and so the calls go on until all pairs with the inner rows are published. -/
structure MemoryRight (config : Config) (missing : String) (capacity : Nat) (inner : List (Batch ι)) (table : Table ι)
    (state : JoinState config n ι) (id : Fin n) : Prop where
  stays : ∀ run, (state.after missing capacity run).view id = state.view id
  sound : ∀ probe, (∀ hash, ∃ link,
      SharedChains.findHead table (state.view id) config.outerKeys probe hash (steps table) = some (.ok link)) ∧
    ∀ place, table.Holds place → ∃ link,
      SharedChains.nextMatch table (state.view id) config.outerKeys probe (number place) (steps table) = some (.ok link)
  calls : ∀ outer pages output, Calls (memoryProbes config table (state.view id)) (MemoryJoin.pairTags table) capacity
      (outputStart (memoryStart config outer)) pages output → ∃ bound result,
    (∀ fuel, bound < fuel → produceOutput (memoryProbes config table (state.view id)) capacity fuel output = some result) ∧
    Gives (memoryProbes config table (state.view id)) (MemoryJoin.pairTags table) (fun _ => False) capacity
      (equiJoin config outer inner) pages result
  ends : ∀ outer, ∃ pages, Finished config table (state.view id) capacity outer pages

section Output
variable {missing : String} {capacity : Nat} {inner : List (Batch ι)} {table : Table ι} {state : JoinState config n ι} {id : Fin n}

theorem MemoryRight.finished (right : MemoryRight config missing capacity inner table state id) {outer : List (Batch ι)}
    {pages : List (List (ι × ι))} (finished : Finished config table (state.view id) capacity outer pages) :
    pages.flatten.Perm (equiJoin config outer inner) := by
  obtain ⟨output,next,fuel,calls,ran⟩ := finished
  obtain ⟨bound,result,ends,gives⟩ := right.calls outer pages output calls
  have same := ends (max fuel (bound + 1)) (by omega)
  have found : produceOutput (memoryProbes config table (state.view id)) capacity (max fuel (bound + 1)) output =
      some (.ok (next,false)) := outputLoop_fuel ran (Nat.le_max_left ..)
  rw [found] at same
  cases same
  exact gives

omit [Inhabited ι] in
/-- Outer batches of several participants, joined by each of them. -/
theorem equiJoin_shares (config : Config) (inner : List (Batch ι)) (outer : Fin n → List (Batch ι)) (ids : List (Fin n)) :
    equiJoin config (ids.flatMap outer) inner = ids.flatMap fun id => equiJoin config (outer id) inner := by
  induction ids with
  | nil => rfl
  | cons id rest ih =>
    rw [List.flatMap_cons,List.flatMap_cons,← ih]
    simp only [equiJoin,List.flatMap_append,matchPairs_append_left]

/-- With the chains of all rows, a participant is right. -/
theorem memory_right (positive : 0 < capacity) (small : capacity ≤ pgBatchSize) {pushed : List (Nat × Nat)}
    (hold : ChainsHold table (state.view id) pushed) (same : table.config.innerKeys = config.innerKeys)
    (pairs : ∀ outer : List (Batch ι),
      (matchPairs (outer.flatMap (batchEntries config.outerKeys config.outerBatchColumns)) (tableRows table)).Perm
        (equiJoin config outer inner))
    (stays : ∀ run, (state.after missing capacity run).view id = state.view id) :
    MemoryRight config missing capacity inner table state id := by
  have feeds (outer : List (Batch ι)) := (MemoryJoin.feeds hold same outer (emptySide config) (fun _ => 0#32) 0#64).perm (pairs outer)
  refine ⟨stays,hold.sound,fun outer => (produce_right positive small (feeds outer)).1,fun outer => ?_⟩
  obtain ⟨calls,pages,output,bound,result,some_,ends,last⟩ := produce_right positive small (feeds outer)
  obtain ⟨bound',result',ends',gives⟩ := calls pages output some_
  have one := ends (max bound bound' + 1) (by omega)
  rw [ends' (max bound bound' + 1) (by omega)] at one
  cases one
  cases result with
  | error => exact gives.elim
  | ok ended =>
    obtain ⟨next,found⟩ := ended
    cases found with
    | true => exact absurd rfl (last next)
    | false => exact ⟨pages,output,next,bound + 1,some_,ends _ (Nat.lt_succ_self bound)⟩

end Output

section Final
variable {inners : Fin n → List (Batch ι)} {state : JoinState config n ι} (prepared : Prepared inners state)
  (ended : 3 ≤ state.build.shared.barrier.phase) (unspilled : state.build.shared.spilled = false)
include prepared ended

/-- What the participants see does not change any more. -/
theorem Prepared.view_stays (missing : String) (capacity : Nat) (id : Fin n) (run : List (JoinAction n)) :
    (state.after missing capacity run).view id = state.view id := by
  obtain ⟨steps,same⟩ := build_after missing capacity state run
  have resting := Parallel.resting_after prepared.budget.ledger ended steps
  obtain ⟨barrier,shared⟩ := resting.shared
  obtain ⟨pc,own⟩ := resting.locals id
  rw [JoinState.view,JoinState.view,same,shared,own]
  rfl

include unspilled

omit ended in
theorem Prepared.bound {id : Fin n} (given : (state.build.locals id).buckets.isSome = true) :
    Parallel.Bound state.build.shared (state.build.locals id) := by
  obtain ⟨second,directory,buckets⟩ := prepared.pointed id given
  exact ⟨directory,buckets,(Parallel.protocol_settled prepared.budget.ledger.protocol second).buckets unspilled⟩

/-- The published chunks are a table with the chains of all its rows. -/
theorem Prepared.table (few : n ≤ SharedChains.maxBackends)
    (directory : 8 * state.build.shared.nchunks ≤ SharedChains.maxAllocSize)
    (buckets : 4 * state.build.shared.nbuckets ≤ SharedChains.maxAllocSize) : ∃ table : Table ι,
      table.config = sharedConfig config n ∧ table.chunks = state.build.shared.chunks ∧
      ∀ id, (state.build.locals id).buckets.isSome = true → ∃ pushed, ChainsHold table (state.view id) pushed := by
  have settled := Parallel.protocol_settled prepared.budget.ledger.protocol (Nat.le_of_succ_le ended)
  rw [prepared.budget.sized.buckets unspilled (settled.buckets unspilled)] at buckets
  obtain ⟨table,same,chunks⟩ := Parallel.published_table prepared.budget.ledger ended unspilled config.innerInside
    prepared.budget.sized prepared.tallied (by rwa [Fintype.card_fin]) directory buckets
  obtain ⟨chains,invariant,linked,views⟩ := prepared.linking.linked prepared.budget ended unspilled same chunks
  refine ⟨table,same,chunks,fun id given => ⟨chains.shared.pushed,?_⟩⟩
  refine chains_hold settled ?_ invariant linked views (prepared.bound unspilled given)
  rw [prepared.budget.ledger.protocol.counted,chunks]

end Final

/-- Two participants that move in turn; the first one has a row. -/
def lockstep : List (JoinAction 2) :=
  (List.replicate 32 [.build (.run ⟨0,Nat.zero_lt_two⟩),.build (.run ⟨1,Nat.one_lt_two⟩)]).flatten

def lockstepEnd : JoinState payload 2 Unit :=
  (JoinState.initial payload Parallel.smallInputs fun _ => []).after "" (outputCapacity 64) lockstep

end PgBatch.ParallelJoin
