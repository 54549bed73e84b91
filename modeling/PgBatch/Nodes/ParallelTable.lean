import PgBatch.Nodes.ParallelLinking
import PgBatch.Nodes.ParallelJoinFiles

/-! The chunks that a shared build has published are a table: all but one for each participant are
full, and their rows are those of the inner side. -/
namespace PgBatch.Parallel
open Words Columnar Chains
open SharedChains (Table)
variable {ι τ : Type} [DecidableEq ι] [Inhabited τ] [Fintype ι] {config : Config} {inputs : ι → List (Batch τ)} {state : State ι τ}

/-! The chunks that are not full: a participant publishes one of them at most. -/

/-- Positions behind the last chunk that is published. -/
def Pc.emptied : Pc τ → Bool
  | .count _ .done => true
  | pc => pc.meeting == some 0

/-- The publication of a chunk while a batch is being appended. -/
def Pc.replacing : Pc τ → Bool
  | .publish (.append _ _) => true
  | _ => false

/-- A chunk that is published there is full. -/
def Whole (own : Local τ) : Prop :=
  own.pc.replacing = true → ∀ chunk, own.chunk = some chunk → chunk.nrows = chunkRows

/-- All chunks but those of `short` participants are full. -/
structure Tallied (state : State ι τ) : Prop where
  whole : ∀ id, Whole (state.locals id)
  short : state.shared.spilled = false → ∃ short : Finset ι,
    (∀ id ∈ short, state.shared.barrier.phase ≠ 0 ∨ (state.locals id).pc.emptied = true) ∧
    chunkRows * state.shared.chunks.length ≤ (state.shared.chunks.map (·.nrows)).sum + chunkRows * short.card

omit [DecidableEq ι] [Inhabited τ] [Fintype ι] in
theorem whole_elsewhere {own : Local τ} (elsewhere : own.pc.replacing = false) : Whole own := by
  intro here
  rw [elsewhere] at here
  cases here

omit [DecidableEq ι] [Inhabited τ] [Fintype ι] in
theorem resume_replacing (resume : Resume τ) : resume.pc.replacing = false := by
  cases resume <;> rfl

omit [Fintype ι] in
theorem execute_whole (id : ι) (shared : Shared ι τ) (own : Local τ) : Whole (execute config id shared own).2 := by
  obtain ⟨pc,input,taken,chunk,directory,buckets,writer⟩ := own
  cases pc with
  | append batch rows =>
    unfold execute
    dsimp only
    split
    · exact whole_elsewhere rfl
    · split
      · refine whole_elsewhere ?_
        dsimp only
        split <;> rfl
      · split
        · rintro _ _ ⟨⟩
          assumption
        · exact whole_elsewhere rfl
  | publish resume =>
    unfold execute
    dsimp only
    (repeat' split) <;> first | exact whole_elsewhere (resume_replacing resume) | exact whole_elsewhere rfl
  | count nrows resume => exact whole_elsewhere (resume_replacing resume)
  | stuck case fault => exact whole_elsewhere rfl
  | wait case start =>
    unfold execute
    dsimp only [afterBarrier]
    (repeat' split) <;> exact whole_elsewhere rfl
  | _ =>
    unfold execute
    dsimp only [afterBarrier]
    (repeat' split) <;> exact whole_elsewhere rfl

omit [Fintype ι] in
/-- What an access does to the published chunks. -/
theorem execute_publishes (config : Config) (id : ι) (shared : Shared ι τ) (own : Local τ) :
    (execute config id shared own).1.chunks = shared.chunks ∨ ∃ resume chunk, own.pc = .publish resume ∧ own.chunk = some chunk ∧
      (execute config id shared own).1.chunks = chunk :: shared.chunks ∧
      (execute config id shared own).2.pc = .count chunk.nrows resume := by
  obtain ⟨pc,input,taken,chunk,directory,buckets,writer⟩ := own
  cases pc with
  | publish resume =>
    unfold execute
    dsimp only
    split
    · exact .inl rfl
    · split
      · exact .inl rfl
      · exact .inr ⟨resume,_,rfl,rfl,rfl,rfl⟩
  | setup =>
    unfold execute
    dsimp only
    exact .inl (setup_sizes shared).1
  | _ =>
    unfold execute
    dsimp only
    (repeat' split) <;> exact .inl rfl

omit [Fintype ι] in
/-- Nobody goes back within phase 0. -/
theorem execute_emptied (id : ι) {shared : Shared ι τ} {own : Local τ} (emptied : own.pc.emptied = true)
    (first : (execute config id shared own).1.barrier.phase = 0) : (execute config id shared own).2.pc.emptied = true := by
  obtain ⟨pc,input,taken,chunk,directory,buckets,writer⟩ := own
  cases pc with
  | count nrows resume =>
    cases resume with
    | done => rfl
    | append | spill => cases emptied
  | arrive case =>
    simp only [execute] at first ⊢
    by_cases last : shared.barrier.arrived + 1 = shared.barrier.participants
    · rw [Barriers.Barrier.arrive,if_pos last] at first
      cases first
    · rw [Barriers.Barrier.arrive,if_neg last]
      exact emptied
  | wait case start =>
    simp only [execute] at first ⊢
    split
    · rename_i released
      rw [if_pos released] at first
      have same := (Barriers.wake_fields shared.barrier start).1
      dsimp only at first
      omega
    · exact emptied
  | _ => cases emptied

theorem act_tallied (budget : Budget config inputs state) (tallied : Tallied state) (action : Action ι) :
    Tallied (state.act config action) := by
  have protocol := budget.ledger.protocol
  have grows : state.shared.barrier.phase ≤ (state.act config action).shared.barrier.phase := by
    rcases act_phase config protocol action with same | ⟨up,_⟩ <;> omega
  cases action with
  | shutdown id =>
    obtain ⟨barrier,moved⟩ := shutdown_shared config state id
    refine ⟨fun other => ?_,fun unspilled => ?_⟩
    · rcases shutdown_local config state id other with same | ⟨_,_,same⟩
      · rw [same]
        exact tallied.whole other
      · rw [same]
        exact whole_elsewhere rfl
    · rw [moved] at unspilled
      obtain ⟨short,done,full⟩ := tallied.short unspilled
      refine ⟨short,fun other member => ?_,by rw [moved]; exact full⟩
      rcases done other member with late | emptied
      · exact .inl (by omega)
      · rcases shutdown_local config state id other with same | ⟨spilled,left,_⟩
        · exact .inr (same ▸ emptied)
        · rw [left] at emptied
          cases emptied
  | run id =>
    refine ⟨fun other => ?_,fun unspilled => ?_⟩
    · by_cases mine : other = id
      · subst mine
        simp only [State.act,Function.update_self]
        exact execute_whole other state.shared (state.locals other)
      · rw [act_other config state (.run id) mine]
        exact tallied.whole other
    · have before := ((execute_pays config id state.shared (state.locals id) (budget.filled id)).spilled unspilled).1
      obtain ⟨short,done,full⟩ := tallied.short before
      have kept (other : ι) (member : other ∈ short) : (state.act config (.run id)).shared.barrier.phase ≠ 0 ∨
          ((state.act config (.run id)).locals other).pc.emptied = true := by
        rcases done other member with late | emptied
        · exact .inl (by omega)
        · by_cases mine : other = id
          · subst mine
            by_cases first : (state.act config (.run other)).shared.barrier.phase = 0
            · refine .inr ?_
              simp only [State.act,Function.update_self]
              exact execute_emptied other emptied first
            · exact .inl first
          · rw [act_other config state (.run id) mine]
            exact .inr emptied
      rcases execute_publishes config id state.shared (state.locals id) with same | ⟨resume,chunk,position,held,grown,next⟩
      · exact ⟨short,kept,by simp only [State.act,same]; exact full⟩
      · cases resume with
        | append batch rows =>
          have whole := tallied.whole id (by rw [position]; rfl) chunk held
          refine ⟨short,kept,?_⟩
          simp only [State.act,grown,List.length_cons,List.map_cons,List.sum_cons,whole]
          rw [Nat.mul_succ]
          omega
        | spill batch rows =>
          have := (budget.ledger.orderly id).spills (by rw [position]; rfl)
          rw [before] at this
          cases this
        | done =>
          have fresh : id ∉ short := fun member => by
            have first := (protocol.placed id).home 0 (by rw [position]; rfl)
            rcases done id member with late | emptied
            · exact late first
            · rw [position] at emptied
              cases emptied
          refine ⟨insert id short,fun other member => ?_,?_⟩
          · rcases Finset.mem_insert.mp member with rfl | old
            · refine .inr ?_
              simp only [State.act,Function.update_self,next]
              rfl
            · exact kept other old
          · rw [Finset.card_insert_of_notMem fresh]
            simp only [State.act,grown,List.length_cons,List.map_cons,List.sum_cons]
            rw [Nat.mul_succ,Nat.mul_succ]
            omega

omit [DecidableEq ι] [Fintype ι] [Inhabited τ] in
theorem initial_tallied (config : Config) (inputs : ι → List (Batch τ)) : Tallied (State.initial config inputs) :=
  ⟨fun _ => whole_elsewhere rfl,fun _ => ⟨∅,fun _ member => absurd member (Finset.notMem_empty _),Nat.zero_le _⟩⟩

theorem tallied_after (size : config.sharedMemoryLimit < 2 ^ 64) (budget : Budget config inputs state) (tallied : Tallied state)
    (run : List (Action ι)) : Tallied (state.after config run) := by
  induction run generalizing state with
  | nil => exact tallied
  | cons action rest ih => exact ih (act_budget size budget action) (act_tallied budget tallied action)

/-! The table. -/

section Table
variable (ledger : Ledger config inputs state) (ended : 3 ≤ state.shared.barrier.phase) (unspilled : state.shared.spilled = false)
  (inside : ∀ key ∈ config.innerKeys, key < config.ninnerColumns)
include ledger ended unspilled

omit [DecidableEq ι] [Inhabited τ] in
/-- The rows of the published chunks are accepted rows of batches that were read. -/
theorem stored_accepted {row : Row τ} (member : row ∈ storedRows config state.shared.chunks) :
    ∃ id, ∃ batch ∈ (state.locals id).taken, row ∈ batch.accepted config.innerKeys config.ninnerColumns := by
  have rows := ((ledger_stored ledger ended).resident unspilled).1
  have held : row ∈ (storedRows config state.shared.chunks : Multiset (Row τ)) := member
  rw [rows,Multiset.mem_sum] at held
  obtain ⟨id,_,fetched⟩ := held
  obtain ⟨batch,taken,accepted⟩ := List.mem_flatMap.mp (Multiset.mem_coe.mp fetched)
  exact ⟨id,batch,taken,accepted⟩

include inside

omit [DecidableEq ι] [Inhabited τ] in
theorem stored_hashed {chunk : Store τ} (member : chunk ∈ state.shared.chunks) {row : Nat} (below : row < chunk.nrows) :
    chunk.hashes row = keyHash (config.innerKeys.map fun key => chunk.values key row) := by
  have stored : chunk.row config.ninnerColumns row ∈ storedRows config state.shared.chunks :=
    List.mem_flatMap.mpr ⟨chunk,member,List.mem_map_of_mem (List.mem_range.mpr below)⟩
  obtain ⟨_,batch,_,accepted⟩ := stored_accepted ledger ended unspilled stored
  obtain ⟨index,kept,same⟩ := List.mem_map.mp accepted
  obtain ⟨values,found⟩ := Option.isSome_iff_exists.mp (List.mem_filter.mp kept).2
  obtain ⟨keys,hash,_⟩ := HashJoin.accepted_row inside found
  rw [same] at keys hash
  have values_ : (config.innerKeys.map fun key => chunk.values key row) = values := by
    have first : (HashJoin.entry config.innerKeys (chunk.row config.ninnerColumns row)).1 = values := congrArg Prod.fst keys
    rw [← first]
    refine List.map_congr_left fun key member => ?_
    rw [HashJoin.cell_row (inside key member)]
  rw [values_,← hash]
  rfl

omit [DecidableEq ι] [Inhabited τ] in
/-- The published chunks are a table, when its arrays can be allocated. -/
theorem published_table (sized : Sized state.shared) (tallied : Tallied state) (few : Fintype.card ι ≤ SharedChains.maxBackends)
    (directory : 8 * state.shared.nchunks ≤ SharedChains.maxAllocSize)
    (buckets : 4 * chooseBucketCount state.shared.buildRows ≤ SharedChains.maxAllocSize) :
    ∃ table : Table τ, table.config = config ∧ table.chunks = state.shared.chunks := by
  obtain ⟨short,_,full⟩ := tallied.short unspilled
  refine ⟨⟨config,state.shared.chunks,short.card,sized.small,fun chunk member row below =>
    stored_hashed ledger ended unspilled inside member below,?_,?_,full,?_⟩,rfl,rfl⟩
  · rw [← ledger.protocol.counted]
    exact directory
  · rw [← length_storedRows config,← (ledger_counted ledger (by omega) unspilled).2]
    exact buckets
  · exact Nat.le_trans (Finset.card_le_univ short) few

end Table

/-! Behind the linking. -/

/-- A participant with a bucket array has bound its pointers. -/
def Pointed (shared : Shared ι τ) (own : Local τ) : Prop :=
  own.buckets.isSome = true → 2 ≤ shared.barrier.phase ∧ own.directory = shared.directory ∧ own.buckets = shared.buckets

section Behind
variable {config : Config} {state : State ι τ}

theorem act_arrays (config : Config) (protocol : Protocol state) (second : 2 ≤ state.shared.barrier.phase) (action : Action ι) :
    (state.act config action).shared.directory = state.shared.directory ∧
      (state.act config action).shared.buckets = state.shared.buckets := by
  cases action with
  | shutdown id =>
    obtain ⟨barrier,same⟩ := shutdown_shared config state id
    rw [same]
    exact ⟨rfl,rfl⟩
  | run id =>
    cases meets : (state.locals id).pc.meets with
    | true =>
      obtain ⟨barrier,same⟩ := execute_meets config id state.shared (state.locals id) meets
      simp only [State.act,same]
      exact ⟨trivial,trivial⟩
    | false =>
      have elsewhere : (state.locals id).pc ≠ .setup := fun setup => by
        have := (protocol.placed id).home 1 (by rw [setup]; rfl)
        omega
      obtain ⟨directory,_,buckets⟩ := (execute_quiet config id state.shared (state.locals id) meets).arrays elsewhere
      exact ⟨directory,buckets⟩

theorem act_pointed (protocol : Protocol state) (pointed : ∀ id, Pointed state.shared (state.locals id)) (action : Action ι) (id : ι) :
    Pointed (state.act config action).shared ((state.act config action).locals id) := by
  have phase := act_phase config protocol action
  have kept (own : Local τ) (before : Pointed state.shared own) : Pointed (state.act config action).shared own := by
    intro some_
    obtain ⟨second,directory,buckets⟩ := before some_
    obtain ⟨directory',buckets'⟩ := act_arrays config protocol second action
    exact ⟨by omega,directory.trans directory'.symm,buckets.trans buckets'.symm⟩
  cases action with
  | shutdown actor =>
    have own := kept (state.locals id) (pointed id)
    rcases shutdown_local config state actor id with same | ⟨spilled,_,same⟩ <;> rw [same] <;> exact own
  | run actor =>
    by_cases mine : id = actor
    · subst mine
      by_cases binds : (state.locals id).pc = .bind
      · intro _
        have second := (protocol.placed id).home 2 (by rw [binds]; rfl)
        simp only [State.act,Function.update_self,execute,binds]
        exact ⟨Nat.le_of_eq second.symm,trivial,trivial⟩
      · obtain ⟨directory,buckets⟩ := execute_pointers config id state.shared (state.locals id) binds
        have own := kept (state.locals id) (pointed id)
        unfold Pointed at own ⊢
        simp only [State.act,Function.update_self,directory,buckets] at own ⊢
        exact own
    · rw [act_other config state (.run actor) mine]
      exact kept _ (pointed id)

omit [DecidableEq ι] [Fintype ι] [Inhabited τ] in
theorem initial_pointed (config : Config) (inputs : ι → List (Batch τ)) (id : ι) :
    Pointed (State.initial config inputs).shared ((State.initial config inputs).locals id) :=
  fun some_ => Bool.noConfusion some_

theorem pointed_after {inputs : ι → List (Batch τ)} (ledger : Ledger config inputs state)
    (pointed : ∀ id, Pointed state.shared (state.locals id)) (run : List (Action ι)) (id : ι) :
    Pointed (state.after config run).shared ((state.after config run).locals id) := by
  induction run generalizing state with
  | nil => exact pointed id
  | cons action rest ih => exact ih (act_ledger config ledger action) (act_pointed ledger.protocol pointed action)

/-! A participant that comes before phase 2 binds them. -/

omit [Fintype ι] in
theorem act_inside (config : Config) (state : State ι τ) (action : Action ι) {id : ι} (inside : (state.locals id).pc ≠ .outside) :
    ((state.act config action).locals id).pc ≠ .outside := by
  cases action with
  | shutdown actor =>
    rcases shutdown_local config state actor id with same | ⟨spilled,_,same⟩
    · rwa [same]
    · rw [same]
      simp
  | run actor =>
    by_cases mine : id = actor
    · subst mine
      simp only [State.act,Function.update_self]
      exact execute_inside config id state.shared (state.locals id) inside
    · rwa [act_other config state (.run actor) mine]

/-- Before phase 2 nobody comes too late. -/
def Early (state : State ι τ) : Prop :=
  state.shared.barrier.phase < 2 → ∀ id, Binding state.shared (state.locals id)

theorem act_early (protocol : Protocol state) (early : Early state) (action : Action ι) : Early (state.act config action) := by
  intro still id
  have phase := act_phase config protocol action
  have before : state.shared.barrier.phase < 2 := by omega
  exact act_binding config protocol (early before id) fun _ _ _ => .inl before

omit [DecidableEq ι] [Fintype ι] [Inhabited τ] in
theorem initial_early (config : Config) (inputs : ι → List (Batch τ)) : Early (State.initial config inputs) :=
  fun _ _ => ⟨fun second => by simp [State.initial,Barriers.Barrier.init] at second,fun _ => by simp [State.initial]⟩

theorem early_after {inputs : ι → List (Batch τ)} (ledger : Ledger config inputs state) (early : Early state)
    (run : List (Action ι)) : Early (state.after config run) := by
  induction run generalizing state with
  | nil => exact early
  | cons action rest ih => exact ih (act_ledger config ledger action) (act_early ledger.protocol early action)

theorem binding_after {inputs : ι → List (Batch τ)} (ledger : Ledger config inputs state) {id : ι}
    (inside : (state.locals id).pc ≠ .outside) (binding : Binding state.shared (state.locals id)) (run : List (Action ι)) :
    Binding (state.after config run).shared ((state.after config run).locals id) := by
  induction run generalizing state with
  | nil => exact binding
  | cons action rest ih =>
    refine ih (act_ledger config ledger action) (act_inside config state action inside) ?_
    refine act_binding config ledger.protocol binding fun own _ outside => ?_
    rw [← own] at outside
    exact absurd outside inside

/-! The end. -/

omit [Fintype ι] in
/-- From phase 3 on a step touches nothing but the barrier. -/
theorem execute_ended (config : Config) (id : ι) (shared : Shared ι τ) (own : Local τ)
    (away : ∀ phase, own.pc.home = some phase → 3 ≤ phase) :
    (∃ barrier, (execute config id shared own).1 = {shared with barrier := barrier}) ∧
      ∃ pc, (execute config id shared own).2 = {own with pc := pc} := by
  obtain ⟨pc,input,taken,chunk,directory,buckets,writer⟩ := own
  cases pc with
  | outside | loop | arrive | wait | branch | probe | ready | left | detached | stuck =>
    unfold execute
    dsimp only
    (repeat' split) <;> exact ⟨⟨_,rfl⟩,_,rfl⟩
  | setup => exact absurd (away 1 rfl) (by decide)
  | bind | sweep | claim | drain | link | swap | inspect | detect | finishWriter => exact absurd (away 2 rfl) (by decide)
  | _ => exact absurd (away 0 rfl) (by decide)

/-- What is left of a participant and of the shared memory when only barrier and positions may change. -/
structure Resting (before after : State ι τ) : Prop where
  shared : ∃ barrier, after.shared = {before.shared with barrier := barrier}
  locals : ∀ id, ∃ pc, after.locals id = {before.locals id with pc := pc}

omit [DecidableEq ι] [Inhabited τ] [Fintype ι] in
theorem Resting.refl (state : State ι τ) : Resting state state :=
  ⟨⟨_,rfl⟩,fun _ => ⟨_,rfl⟩⟩

omit [DecidableEq ι] [Inhabited τ] [Fintype ι] in
theorem Resting.trans {one two three : State ι τ} (first : Resting one two) (second : Resting two three) : Resting one three := by
  obtain ⟨barrier,shared⟩ := first.shared
  obtain ⟨barrier',shared'⟩ := second.shared
  refine ⟨⟨barrier',by rw [shared',shared]⟩,fun id => ?_⟩
  obtain ⟨pc,own⟩ := first.locals id
  obtain ⟨pc',own'⟩ := second.locals id
  exact ⟨pc',by rw [own',own]⟩

theorem act_resting (protocol : Protocol state) (ended : 3 ≤ state.shared.barrier.phase) (action : Action ι) :
    Resting state (state.act config action) := by
  cases action with
  | shutdown actor =>
    refine ⟨shutdown_shared config state actor,fun id => ?_⟩
    rcases shutdown_local config state actor id with same | ⟨spilled,_,same⟩
    · exact ⟨_,same⟩
    · exact ⟨_,same⟩
  | run actor =>
    obtain ⟨shared,own⟩ := execute_ended config actor state.shared (state.locals actor)
      fun phase home => (protocol.placed actor).home phase home ▸ ended
    refine ⟨shared,fun id => ?_⟩
    by_cases mine : id = actor
    · subst mine
      simp only [State.act,Function.update_self]
      exact own
    · rw [act_other config state (.run actor) mine]
      exact ⟨_,rfl⟩

/-- Once the chunks are linked, that is how they stay. -/
theorem resting_after {inputs : ι → List (Batch τ)} (ledger : Ledger config inputs state) (ended : 3 ≤ state.shared.barrier.phase)
    (run : List (Action ι)) : Resting state (state.after config run) := by
  induction run generalizing state with
  | nil => exact .refl state
  | cons action rest ih =>
    have phase := act_phase config ledger.protocol action
    exact (act_resting ledger.protocol ended action).trans (ih (act_ledger config ledger action) (by omega))

end Behind

end PgBatch.Parallel
