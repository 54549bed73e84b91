import PgBatch.Nodes.ParallelBuildLedger

/-! The memory budget of the shared build. Chunks are reserved one by one from a
common counter, each with its entry of the directory and its share of the
buckets; a build that does not spill has requested no more than was reserved. -/
namespace PgBatch.Parallel
open Words Columnar Spill Barriers Doubling

variable {ι τ : Type}

/-- `initialize_shared_state`: what all participants together may use. -/
def combinedLimit (memoryLimit participants : Nat) : Nat :=
  if (2 ^ 64 - 1) / participants < memoryLimit then 2 ^ 64 - 1 else memoryLimit * participants

/-- The chunk of a participant that is not published yet. -/
def Local.chunks (own : Local τ) : Nat :=
  if own.chunk.isSome then 1 else 0

/-- The bytes of all chunks, of the directory and of the buckets. -/
def requestedBytes [Fintype ι] (config : Config) (state : State ι τ) : Nat :=
  buildChunkSize config.ninnerColumns * (state.shared.nchunks + ∑ id, (state.locals id).chunks) +
    (if state.shared.directory.isSome then 8 * state.shared.nchunks else 0) +
    (if state.shared.buckets.isSome then 4 * state.shared.nbuckets else 0)

theorem combinedLimit_bounds {memoryLimit participants : Nat} (some : 0 < participants) (size : memoryLimit < 2 ^ 64) :
    memoryLimit ≤ combinedLimit memoryLimit participants ∧ combinedLimit memoryLimit participants < 2 ^ 64 := by
  unfold combinedLimit
  split
  · omega
  · rename_i fits
    have bounded : memoryLimit * participants ≤ 2 ^ 64 - 1 :=
      (Nat.le_div_iff_mul_le some).mp (Nat.not_lt.mp fits)
    exact ⟨Nat.le_mul_of_pos_right memoryLimit some,by omega⟩

/-- Less than four heads for each row, or the least number of them. -/
theorem chooseBucketCount_heads (rows : Nat) : chooseBucketCount rows = 1024 ∨ chooseBucketCount rows < 4 * rows := by
  rcases doubled_half (fun result => result < rows * 2 % 2 ^ 64 && result < 2 ^ 31) 21 1024 with least | ⟨half,twice,goes⟩
  · exact .inl least
  · right
    have below : half < rows * 2 % 2 ^ 64 := by
      rw [Bool.and_eq_true,decide_eq_true_eq] at goes
      exact goes.1
    have wrapped := Nat.mod_le (rows * 2) (2 ^ 64)
    rw [chooseBucketCount,twice]
    omega

theorem sum_change {Party : Type} [Fintype ι] [DecidableEq ι] (account : Party → Nat) (parties : ι → Party) (id : ι) (party : Party) :
    ∑ i, account (Function.update parties id party i) + account (parties id) = ∑ i, account (parties i) + account party := by
  have split (value : Party) : ∑ i, account (Function.update parties id value i) =
      account value + ∑ i ∈ Finset.univ \ {id}, account (parties i) := by
    simp only [Function.apply_update (fun _ => account)]
    exact Finset.sum_update_of_mem (Finset.mem_univ id) _ _
  have whole : ∑ i, account (parties i) = account (parties id) + ∑ i ∈ Finset.univ \ {id}, account (parties i) := by
    rw [← split (parties id),Function.update_eq_self]
  rw [split,whole]
  omega

/-! A chunk in the hands of a participant. -/

/-- It has rows, unless one is about to be stored in it; when it is full it is published. -/
structure Filled (own : Local τ) : Prop where
  pending : ∀ batch rows, own.pc = .reserve batch rows → own.chunk = none ∧ rows ≠ 0#64
  small : ∀ chunk, own.chunk = some chunk → chunk.nrows ≤ chunkRows
  full : ∀ chunk, own.chunk = some chunk → chunk.nrows = chunkRows → ∃ resume, own.pc = .publish resume
  some_ : ∀ chunk, own.chunk = some chunk → chunk.nrows = 0 → ∃ batch rows, own.pc = .append batch rows ∧ rows ≠ 0#64

variable [DecidableEq ι] [Inhabited τ]

omit [DecidableEq ι] [Inhabited τ] in
theorem Filled.move {own next : Local τ} (filled : Filled own) (same : next.chunk = own.chunk)
    (elsewhere : ∀ resume, own.pc ≠ .publish resume)
    (stored : ∀ batch rows, own.pc = .append batch rows → own.chunk.isSome = true → rows = 0#64)
    (pending : ∀ batch rows, next.pc = .reserve batch rows → next.chunk = none ∧ rows ≠ 0#64) : Filled next := by
  refine ⟨pending,?_,?_,?_⟩
  · rw [same]
    exact filled.small
  · intro chunk found full
    obtain ⟨resume,publishes⟩ := filled.full chunk (same ▸ found) full
    exact absurd publishes (elsewhere resume)
  · intro chunk found empty
    rw [same] at found
    obtain ⟨batch,rows,appends,some⟩ := filled.some_ chunk found empty
    exact absurd (stored batch rows appends (by rw [found]; rfl)) some

/-- The accesses that look at the chunk, and those that are about to take one. -/
def Pc.touching : Pc τ → Bool
  | .append _ _ => true
  | .publish _ => true
  | _ => false

def Pc.reserving : Pc τ → Bool
  | .reserve _ _ => true
  | _ => false

omit [DecidableEq ι] [Inhabited τ] in
theorem Filled.quiet {own next : Local τ} (filled : Filled own) (same : next.chunk = own.chunk)
    (calm : own.pc.touching = false) (after : next.pc.reserving = false) : Filled next := by
  refine filled.move same ?_ ?_ ?_
  · intro resume here
    rw [here] at calm
    cases calm
  · intro batch rows here
    rw [here] at calm
    cases calm
  · intro batch rows here
    rw [here] at after
    cases after

omit [DecidableEq ι] [Inhabited τ] in
theorem filled_none {own : Local τ} (none : own.chunk = none) (after : own.pc.reserving = false) : Filled own := by
  refine ⟨?_,?_,?_,?_⟩
  · intro batch rows here
    rw [here] at after
    cases after
  · intro chunk found
    rw [none] at found
    cases found
  · intro chunk found
    rw [none] at found
    cases found
  · intro chunk found
    rw [none] at found
    cases found

omit [Inhabited τ] in
theorem resume_reserving (resume : Resume τ) : resume.pc.reserving = false := by
  cases resume <;> rfl

omit [Inhabited τ] in
theorem afterBarrier_reserving (case : Nat) (elected : Bool) : (afterBarrier case elected : Pc τ).reserving = false := by
  unfold afterBarrier
  split
  · cases elected <;> rfl
  · rfl
  · rfl

theorem execute_filled (config : Config) (id : ι) (shared : Shared ι τ) (own : Local τ) (filled : Filled own) :
    Filled (execute config id shared own).2 := by
  obtain ⟨pc,input,taken,chunk,directory,buckets,writer⟩ := own
  cases pc with
  | append batch rows =>
    unfold execute
    dsimp only
    split
    · rename_i none
      refine filled.move rfl ?_ ?_ ?_
      · intro _ here
        cases here
      · rintro _ _ ⟨⟩ _
        exact none
      · intro _ _ here
        cases here
    · rename_i some
      cases chunk with
      | none =>
        dsimp only
        split
        · exact filled_none rfl rfl
        · refine ⟨?_,?_,?_,?_⟩
          · rintro _ _ ⟨⟩
            exact ⟨rfl,some⟩
          all_goals
            intro _ found
            cases found
      | some chunk =>
        dsimp only
        have small := filled.small chunk rfl
        have space : chunk.nrows ≠ chunkRows := fun full => by
          obtain ⟨_,publishes⟩ := filled.full chunk rfl full
          cases publishes
        split
        · rename_i full
          refine ⟨?_,?_,fun _ _ _ => ⟨_,rfl⟩,?_⟩
          · intro _ _ here
            cases here
          · rintro _ ⟨⟩
            exact Nat.le_of_eq full
          · rintro _ ⟨⟩ empty
            rw [append_nrows] at empty
            cases empty
        · rename_i room
          refine ⟨?_,?_,?_,?_⟩
          · intro _ _ here
            cases here
          · rintro _ ⟨⟩
            rw [append_nrows]
            omega
          · rintro _ ⟨⟩ full
            exact absurd full room
          · rintro _ ⟨⟩ empty
            rw [append_nrows] at empty
            cases empty
  | reserve batch rows =>
    obtain ⟨_,some⟩ := filled.pending batch rows rfl
    unfold execute
    dsimp only
    split
    · exact filled.quiet rfl rfl rfl
    · refine ⟨?_,?_,?_,?_⟩
      · intro _ _ here
        cases here
      · rintro _ ⟨⟩
        exact Nat.zero_le _
      · rintro _ ⟨⟩ full
        cases full
      · rintro _ ⟨⟩ _
        exact ⟨batch,rows,rfl,some⟩
  | publish resume =>
    unfold execute
    dsimp only
    split
    · exact filled_none rfl (resume_reserving resume)
    · split
      · exact filled_none rfl (resume_reserving resume)
      · exact filled_none rfl rfl
  | count nrows resume => exact filled.quiet rfl rfl (resume_reserving resume)
  | arrive case =>
    refine filled.quiet rfl rfl ?_
    simp only [execute]
    split
    · exact afterBarrier_reserving case true
    · rfl
  | wait case start =>
    unfold execute
    dsimp only
    split
    · exact filled.quiet rfl rfl (afterBarrier_reserving case _)
    · exact filled
  | _ =>
    unfold execute
    dsimp only
    (repeat' split) <;> exact filled.quiet rfl rfl rfl

/-! The counter of reserved bytes. -/

/-- Between a refused reservation and the store to `spilled`. -/
def Pc.refusing : Pc τ → Bool
  | .refuse _ _ => true
  | _ => false

/-- What the counter has to say while nobody was refused. -/
def Paid [Fintype ι] (config : Config) (state : State ι τ) : Prop :=
  state.shared.spilled = false → (∀ id, (state.locals id).pc.refusing = false) →
    state.shared.allocatedBytes =
        reservation config.ninnerColumns * (state.shared.nchunks + ∑ id, (state.locals id).chunks) ∧
      state.shared.allocatedBytes ≤ config.sharedMemoryLimit

/-- What one access does to the counter and the chunks. -/
structure Pays (config : Config) (before after : Shared ι τ) (own next : Local τ) : Prop where
  spilled : after.spilled = false → before.spilled = false ∧ own.pc.refusing = false
  bytes : next.pc.refusing = false → config.sharedMemoryLimit < 2 ^ 64 → before.allocatedBytes ≤ config.sharedMemoryLimit →
    after.allocatedBytes ≤ config.sharedMemoryLimit ∧
    ∃ chunks, after.allocatedBytes = before.allocatedBytes + reservation config.ninnerColumns * chunks ∧
      after.nchunks + next.chunks = before.nchunks + own.chunks + chunks

omit [DecidableEq ι] [Inhabited τ] in
/-- An access that leaves the counter and the chunks alone. -/
theorem pays_nothing {config : Config} {before after : Shared ι τ} {own next : Local τ}
    (spilled : after.spilled = false → before.spilled = false ∧ own.pc.refusing = false)
    (bytes : after.allocatedBytes = before.allocatedBytes) (nchunks : after.nchunks = before.nchunks)
    (chunks : next.chunk.isSome = own.chunk.isSome) : Pays config before after own next := by
  refine ⟨spilled,fun _ _ within => ⟨bytes ▸ within,0,by rw [bytes,Nat.mul_zero,Nat.add_zero],?_⟩⟩
  rw [nchunks,Local.chunks,Local.chunks,chunks,Nat.add_zero]

omit [DecidableEq ι] [Inhabited τ] in
theorem setup_spares (shared : Shared ι τ) : (setupSharedHash shared).spilled = shared.spilled ∧
    (setupSharedHash shared).allocatedBytes = shared.allocatedBytes ∧
    (setupSharedHash shared).nchunks = shared.nchunks := by
  unfold setupSharedHash
  dsimp only
  (repeat' split) <;> exact ⟨rfl,rfl,rfl⟩

theorem execute_pays (config : Config) (id : ι) (shared : Shared ι τ) (own : Local τ) (filled : Filled own) :
    Pays config shared (execute config id shared own).1 own (execute config id shared own).2 := by
  obtain ⟨pc,input,taken,chunk,directory,buckets,writer⟩ := own
  cases pc with
  | reserve batch rows =>
    obtain ⟨none,_⟩ := filled.pending batch rows rfl
    dsimp only at none
    subst none
    unfold execute
    dsimp only
    split
    · exact ⟨fun unspilled => ⟨unspilled,rfl⟩,nofun⟩
    · rename_i granted
      refine ⟨fun unspilled => ⟨unspilled,rfl⟩,fun _ size within => ?_⟩
      have fits : shared.allocatedBytes + reservation config.ninnerColumns ≤ config.sharedMemoryLimit := by omega
      dsimp only
      rw [Nat.mod_eq_of_lt (Nat.lt_of_le_of_lt fits size)]
      exact ⟨fits,1,by rw [Nat.mul_one],rfl⟩
  | publish resume =>
    unfold execute
    dsimp only
    split
    · exact pays_nothing (fun unspilled => ⟨unspilled,rfl⟩) rfl rfl rfl
    · rename_i chunk
      split
      · rename_i empty
        obtain ⟨_,_,appends,_⟩ := filled.some_ chunk rfl empty
        cases appends
      · exact ⟨fun unspilled => ⟨unspilled,rfl⟩,fun _ _ within => ⟨within,0,rfl,rfl⟩⟩
  | refuse batch rows => exact pays_nothing nofun rfl rfl rfl
  | append batch rows =>
    unfold execute
    dsimp only
    split
    · exact pays_nothing (fun unspilled => ⟨unspilled,rfl⟩) rfl rfl rfl
    · split
      · exact pays_nothing (fun unspilled => ⟨unspilled,rfl⟩) rfl rfl rfl
      · exact pays_nothing (fun unspilled => ⟨unspilled,rfl⟩) rfl rfl rfl
  | setup =>
    obtain ⟨spilled,bytes,nchunks⟩ := setup_spares shared
    exact pays_nothing (fun unspilled => ⟨spilled ▸ unspilled,rfl⟩) bytes nchunks rfl
  | _ =>
    unfold execute
    dsimp only
    (repeat' split) <;> exact pays_nothing (fun unspilled => ⟨unspilled,rfl⟩) rfl rfl rfl

variable [Fintype ι] {config : Config} {state : State ι τ}

theorem act_paid (size : config.sharedMemoryLimit < 2 ^ 64) (filled : ∀ id, Filled (state.locals id)) (paid : Paid config state)
    (action : Action ι) : Paid config (state.act config action) := by
  cases action with
  | shutdown id =>
    simp only [State.act]
    split
    · rename_i spilled left
      intro unspilled fair
      have fair' (other : ι) : (state.locals other).pc.refusing = false := by
        by_cases same : other = id
        · rw [same,left]
          rfl
        · have still := fair other
          dsimp only at still
          rwa [Function.update_of_ne same] at still
      obtain ⟨bytes,within⟩ := paid unspilled fair'
      have moved := sum_change Local.chunks state.locals id {state.locals id with pc := .detached}
      refine ⟨?_,within⟩
      change _ = reservation config.ninnerColumns * (state.shared.nchunks + _)
      rw [Nat.add_right_cancel moved]
      exact bytes
    · exact paid
  | run id =>
    have pays := execute_pays config id state.shared (state.locals id) (filled id)
    intro unspilled fair
    simp only [State.act] at unspilled fair ⊢
    generalize execute config id state.shared (state.locals id) = step at *
    obtain ⟨after,next⟩ := step
    dsimp only at pays unspilled fair ⊢
    obtain ⟨before,calm⟩ := pays.spilled unspilled
    have fair' (other : ι) : (state.locals other).pc.refusing = false := by
      by_cases same : other = id
      · rw [same]
        exact calm
      · have still := fair other
        rwa [Function.update_of_ne same] at still
    obtain ⟨bytes,within⟩ := paid before fair'
    have mine := fair id
    rw [Function.update_self] at mine
    obtain ⟨within',chunks,paid',counted⟩ := pays.bytes mine size within
    refine ⟨?_,within'⟩
    have moved := sum_change Local.chunks state.locals id next
    have total : after.nchunks + ∑ other, (Function.update state.locals id next other).chunks =
        state.shared.nchunks + ∑ other, (state.locals other).chunks + chunks := by omega
    rw [paid',bytes,total]
    ring

omit [Fintype ι] in
theorem act_filled (filled : ∀ id, Filled (state.locals id)) (action : Action ι) (id : ι) :
    Filled ((state.act config action).locals id) := by
  by_cases mine : id = action.id
  · subst mine
    cases action with
    | run id =>
      simp only [State.act,Action.id,Function.update_self]
      exact execute_filled config id state.shared (state.locals id) (filled id)
    | shutdown id =>
      simp only [State.act,Action.id]
      split
      · rename_i spilled left
        dsimp only
        rw [Function.update_self]
        exact (filled id).quiet rfl (by rw [left]; rfl) rfl
      · exact filled id
  · rw [act_other config state action mine]
    exact filled id

/-! The sizes of the chunks and of the table. -/

/-- Published chunks are full at most, and the number of buckets goes with the rows. -/
structure Sized (shared : Shared ι τ) : Prop where
  small : ∀ chunk ∈ shared.chunks, chunk.nrows ≤ chunkRows
  early : shared.barrier.phase = 0 → shared.buckets = none
  buckets : shared.spilled = false → shared.buckets.isSome = true → shared.nbuckets = chooseBucketCount shared.buildRows

omit [DecidableEq ι] [Inhabited τ] [Fintype ι] in
theorem setup_sizes (shared : Shared ι τ) : (setupSharedHash shared).chunks = shared.chunks ∧
    ((setupSharedHash shared).spilled = false →
      (setupSharedHash shared).nbuckets = chooseBucketCount (setupSharedHash shared).buildRows) := by
  unfold setupSharedHash
  dsimp only
  split
  · split
    · rename_i spilled
      exact ⟨rfl,fun unspilled => Bool.noConfusion (spilled.symm.trans unspilled)⟩
    · exact ⟨rfl,fun _ => rfl⟩
  · split
    · rename_i spilled
      exact ⟨rfl,fun unspilled => Bool.noConfusion (spilled.symm.trans unspilled)⟩
    · exact ⟨rfl,fun _ => rfl⟩

omit [Fintype ι] in
theorem execute_sized (config : Config) (id : ι) {shared : Shared ι τ} {own : Local τ} (placed : Placed shared own.pc)
    (filled : Filled own) (sized : Sized shared) :
    (∀ chunk ∈ (execute config id shared own).1.chunks, chunk.nrows ≤ chunkRows) ∧
      ((execute config id shared own).1.spilled = false → (execute config id shared own).1.buckets.isSome = true →
        (execute config id shared own).1.nbuckets = chooseBucketCount (execute config id shared own).1.buildRows) ∧
      (shared.barrier.phase = 0 → (execute config id shared own).1.buckets = none) := by
  have home := placed.home
  obtain ⟨pc,input,taken,chunk,directory,buckets,writer⟩ := own
  cases pc with
  | publish resume =>
    unfold execute
    dsimp only
    split
    · exact ⟨sized.small,sized.buckets,sized.early⟩
    · rename_i chunk
      split
      · exact ⟨sized.small,sized.buckets,sized.early⟩
      · refine ⟨?_,sized.buckets,sized.early⟩
        intro other member
        rcases List.mem_cons.mp member with rfl | old
        · exact filled.small _ rfl
        · exact sized.small other old
  | count nrows resume | countSpilled nrows =>
    have none := sized.early (home 0 rfl)
    refine ⟨sized.small,?_,sized.early⟩
    intro _ some
    simp only [execute,none] at some
    cases some
  | setup =>
    have one : shared.barrier.phase = 1 := home 1 rfl
    obtain ⟨chunks,buckets_⟩ := setup_sizes shared
    exact ⟨fun chunk member => sized.small chunk (chunks ▸ member),fun unspilled _ => buckets_ unspilled,by omega⟩
  | refuse batch rows =>
    refine ⟨sized.small,fun unspilled => ?_,sized.early⟩
    cases unspilled
  | _ =>
    unfold execute
    dsimp only
    (repeat' split) <;> exact ⟨sized.small,sized.buckets,sized.early⟩

theorem act_sized (protocol : Protocol state) (filled : ∀ id, Filled (state.locals id)) (sized : Sized state.shared)
    (action : Action ι) : Sized (state.act config action).shared := by
  have phase := act_phase config protocol action
  cases action with
  | run id =>
    obtain ⟨small,buckets,early⟩ := execute_sized config id (protocol.placed id) (filled id) sized
    refine ⟨small,fun first => early ?_,buckets⟩
    change (state.act config (.run id)).shared.barrier.phase = 0 at first
    omega
  | shutdown id =>
    obtain ⟨barrier,same⟩ := shutdown_shared config state id
    rw [same] at phase ⊢
    refine ⟨sized.small,fun first => sized.early ?_,sized.buckets⟩
    change barrier.phase = 0 at first
    change barrier.phase = _ ∨ barrier.phase = _ ∧ _ at phase
    omega

/-- The invariants of the budget, beside those of the ledger. -/
structure Budget (config : Config) (inputs : ι → List (Batch τ)) (state : State ι τ) : Prop where
  ledger : Ledger config inputs state
  filled : ∀ id, Filled (state.locals id)
  paid : Paid config state
  sized : Sized state.shared

theorem act_budget {inputs : ι → List (Batch τ)} (size : config.sharedMemoryLimit < 2 ^ 64)
    (budget : Budget config inputs state) (action : Action ι) : Budget config inputs (state.act config action) :=
  ⟨act_ledger config budget.ledger action,act_filled budget.filled action,act_paid size budget.filled budget.paid action,
    act_sized budget.ledger.protocol budget.filled budget.sized action⟩

omit [DecidableEq ι] [Inhabited τ] in
theorem initial_budget (config : Config) (inputs : ι → List (Batch τ)) :
    Budget config inputs (State.initial config inputs) :=
  ⟨initial_ledger config inputs,fun _ => filled_none rfl rfl,
    fun _ _ => ⟨by simp [State.initial,Local.chunks],Nat.zero_le _⟩,
    ⟨fun _ member => absurd member List.not_mem_nil,fun _ => rfl,fun _ some => nomatch some⟩⟩

theorem budget_after {inputs : ι → List (Batch τ)} (size : config.sharedMemoryLimit < 2 ^ 64)
    (budget : Budget config inputs state) (run : List (Action ι)) : Budget config inputs (state.after config run) := by
  induction run generalizing state with
  | nil => exact budget
  | cons action rest ih => exact ih (act_budget size budget action)

omit [DecidableEq ι] [Inhabited τ] in
/-- Behind phase 0 nobody holds a chunk, and all rows of an unspilled build are counted. -/
theorem ledger_counted {inputs : ι → List (Batch τ)} (ledger : Ledger config inputs state)
    (started : 1 ≤ state.shared.barrier.phase) (unspilled : state.shared.spilled = false) :
    (∀ id, (state.locals id).chunk = none ∧ (state.locals id).pc.refusing = false) ∧
      state.shared.buildRows = (storedRows config state.shared.chunks).length := by
  have idle (id : ι) : (state.locals id).pc.pendingRows config = [] ∧ (state.locals id).pc.draining = none ∧
      (state.locals id).pc.uncounted = 0 ∧ (state.locals id).pc.collecting = false ∧
      (state.locals id).pc.refusing = false := by
    have placed := ledger.protocol.placed id
    have behind : (state.locals id).pc.home ≠ some 0 := fun home => by
      have := placed.home 0 home
      omega
    have whole : (state.locals id).pc.saw ≠ some true := fun saw => by
      have := (placed.saw true saw).1
      rw [unspilled] at this
      cases this
    revert behind whole
    cases (state.locals id).pc with
    | publish resume | count _ resume => cases resume <;> simp [Pc.home]
    | _ => simp [Pc.home,Pc.saw,Pc.pendingRows,Pc.pending,Pc.draining,Pc.uncounted,Pc.collecting,Pc.refusing]
  have chunk (id : ι) : (state.locals id).chunk = none := (ledger.orderly id).chunk_none (idle id).2.2.2.1
  have writer (id : ι) : (state.locals id).buildWriter = none := by
    cases found : (state.locals id).buildWriter with
    | none => rfl
    | some writer =>
      have := ((ledger.orderly id).writer writer found).1
      rw [unspilled] at this
      cases this
  have held (id : ι) : (state.locals id).held config = 0 := by
    obtain ⟨pending,draining,_⟩ := idle id
    simp [Local.held,Local.chunkRows,pending,draining,chunk id,writer id]
  have owed (id : ι) : (state.locals id).owed config = 0 := by
    obtain ⟨pending,_,uncounted,_⟩ := idle id
    simp [Local.owed,Local.chunkRows,pending,uncounted,chunk id]
  refine ⟨fun id => ⟨chunk id,(idle id).2.2.2.2⟩,?_⟩
  have rows := congrArg Multiset.card ledger.rows
  have count := ledger.count
  simp only [held,Finset.sum_const_zero,add_zero,Shared.published,unspilled,Bool.false_eq_true,if_false,
    Multiset.coe_card,Multiset.card_sum] at rows
  simp only [owed,Finset.sum_const_zero,add_zero] at count
  exact count.trans rows.symm

omit [Fintype ι] [DecidableEq ι] [Inhabited τ] in
theorem storedRows_le (config : Config) {chunks : List (Store τ)} (small : ∀ chunk ∈ chunks, chunk.nrows ≤ chunkRows) :
    (storedRows config chunks).length ≤ chunkRows * chunks.length := by
  induction chunks with
  | nil => exact Nat.zero_le _
  | cons chunk rest ih =>
    have front := small chunk (List.mem_cons_self ..)
    have back := ih fun other member => small other (List.mem_cons_of_mem _ member)
    unfold storedRows at back ⊢
    rw [List.flatMap_cons,List.length_append,length_rows,List.length_cons,Nat.mul_succ]
    omega

/-- In every run, an unspilled build has requested no more than the limit once phase 0 is over; the
limit is a `Size`, and covers the least number of buckets. -/
theorem unspilled_within_limit (config : Config) (inputs : ι → List (Batch τ)) (run : List (Action ι))
    (size : config.sharedMemoryLimit < 2 ^ 64) (least : 4096 ≤ config.sharedMemoryLimit)
    (started : 1 ≤ (State.after config (State.initial config inputs) run).shared.barrier.phase)
    (unspilled : (State.after config (State.initial config inputs) run).shared.spilled = false) :
    requestedBytes config (State.after config (State.initial config inputs) run) ≤ config.sharedMemoryLimit := by
  have budget := budget_after size (initial_budget config inputs) run
  generalize State.after config (State.initial config inputs) run = state at *
  obtain ⟨ledger,_,paid,sized⟩ := budget
  obtain ⟨idle,counted⟩ := ledger_counted ledger started unspilled
  obtain ⟨bytes,within⟩ := paid unspilled fun id => (idle id).2
  have none : ∑ id, (state.locals id).chunks = 0 := Finset.sum_eq_zero fun id _ => by simp [Local.chunks,(idle id).1]
  have rows := storedRows_le config sized.small
  rw [← counted,← ledger.protocol.counted] at rows
  unfold requestedBytes
  rw [none,Nat.add_zero] at bytes ⊢
  have heads : (if state.shared.buckets.isSome then 4 * state.shared.nbuckets else 0) ≤ 4096 ∨
      (if state.shared.buckets.isSome then 4 * state.shared.nbuckets else 0) ≤ 16384 * state.shared.nchunks := by
    split
    · rename_i some
      rw [sized.buckets unspilled some]
      unfold chunkRows at rows
      rcases chooseBucketCount_heads state.shared.buildRows with fewest | fewer
      · exact .inl (by omega)
      · exact .inr (by omega)
    · exact .inl (Nat.zero_le _)
  have entries : (if state.shared.directory.isSome then 8 * state.shared.nchunks else 0) ≤ 8 * state.shared.nchunks := by
    split
    · exact Nat.le_refl _
    · exact Nat.zero_le _
  have shares : reservation config.ninnerColumns * state.shared.nchunks =
      buildChunkSize config.ninnerColumns * state.shared.nchunks + 16392 * state.shared.nchunks := by
    rw [reservation,Nat.add_mul]
    rfl
  rcases Nat.eq_zero_or_pos state.shared.nchunks with empty | positive
  · rw [empty] at heads entries ⊢
    omega
  · omega

/-- A build of two participants with a batch each, and room for both chunks. -/
def roomyConfig : Config :=
  ⟨1,[0],firstColumn_ne_nil,4,four_power,1,1000000,combinedLimit 1000000 2⟩

theorem both_chunks_within_limit :
    requestedBytes roomyConfig (State.after roomyConfig (State.initial roomyConfig fun _ => [smallBatch]) turns) ≤ 2000000 :=
  have bounds := combinedLimit_bounds Nat.two_pos (by decide : 1000000 < 2 ^ 64)
  unspilled_within_limit roomyConfig (fun _ => [smallBatch]) turns bounds.2 (Nat.le_trans (by decide) bounds.1)
    (by decide +kernel) (by decide +kernel)

end PgBatch.Parallel
