import PgBatch.Nodes.ParallelBuildWrites

/-! The attach protocol of the shared build.
While a participant is inside a phase the barrier cannot leave that phase, and
the shared arrays change only in the phase that owns them. What one participant
may do to the state another one relies on is `Interferes`. -/
namespace PgBatch.Parallel
open Words Columnar Spill Barriers

variable {ι τ : Type}

/-- A participant as its barrier sees it. -/
def Pc.status : Pc τ → Party
  | .outside | .detached => .away
  | .wait _ start => .waiting start
  | _ => .inside

/-- The phase that a position in `parallel_hash_join_prepare` belongs to. -/
def Pc.home : Pc τ → Option Nat
  | .next | .decide _ | .append _ _ | .reserve _ _ | .refuse _ _ | .recheck _ _ | .publish _ | .count _ _
  | .spill _ _ | .countSpilled _ => some 0
  | .arrive case => some case
  | .setup => some 1
  | .bind | .sweep | .claim _ | .drain _ | .link _ _ _ | .swap _ _ _ _ | .inspect _ _ _ | .detect _ _ _ _
  | .finishWriter _ => some 2
  | .branch | .probe => some 3
  | .stuck case _ => if case = 3 then none else some case
  | .outside | .loop | .wait _ _ | .ready | .left _ | .detached => none

/-- The value of `spilled` that a position rests on. -/
def Pc.saw : Pc τ → Option Bool
  | .claim spilled | .finishWriter spilled | .left spilled => some spilled
  | .drain _ | .probe => some true
  | .link _ _ _ | .swap _ _ _ _ | .inspect _ _ _ | .detect _ _ _ _ => some false
  | _ => none

/-- Positions behind the build. -/
def Pc.late : Pc τ → Bool
  | .ready | .left _ => true
  | _ => false

theorem home_inside {pc : Pc τ} {phase : Nat} (home : pc.home = some phase) : pc.status = .inside := by
  cases pc <;> first | rfl | simp [Pc.home] at home

/-- The `case` of a participant that arrives or waits. -/
def Pc.meeting : Pc τ → Option Nat
  | .arrive case | .wait case _ => some case
  | _ => none

structure Placed (shared : Shared ι τ) (pc : Pc τ) : Prop where
  home : ∀ phase, pc.home = some phase → shared.barrier.phase = phase
  case_ : ∀ case start, pc = .wait case start → case = start
  meeting : ∀ case, pc.meeting = some case → case ≤ 3 ∧ (case = 3 → shared.spilled = true)
  late : pc.late = true → 3 ≤ shared.barrier.phase ∧ (shared.barrier.phase = 3 → shared.spilled = false)
  saw : ∀ spilled, pc.saw = some spilled → shared.spilled = spilled ∧ 2 ≤ shared.barrier.phase

/-- The shared arrays after `setup_shared_hash`. -/
structure Settled (shared : Shared ι τ) : Prop where
  directory : 0 < shared.nchunks → shared.directory.isSome = true ∧ shared.directoryChunks = shared.chunks
  buckets : shared.spilled = false → shared.buckets.isSome = true

/-- What a step of one participant may change for another one. -/
structure Interferes (before after : Shared ι τ) (other : ι) (party : Party) : Prop where
  phase : after.barrier.phase = before.barrier.phase ∨
    after.barrier.phase = before.barrier.phase + 1 ∧ (party = .away ∨ party = .waiting before.barrier.phase)
  spilled : before.spilled = true → after.spilled = true
  decided : before.barrier.phase ≠ 0 → after.spilled = before.spilled
  chunks : before.barrier.phase ≠ 0 → after.chunks = before.chunks ∧ after.nchunks = before.nchunks
  arrays : 2 ≤ before.barrier.phase → after.directory = before.directory ∧
    after.directoryChunks = before.directoryChunks ∧ after.buckets = before.buckets
  claimed : before.nextChunk ≤ after.nextChunk
  files : after.buildSpill.files other = before.buildSpill.files other

structure Protocol (state : State ι τ) [Fintype ι] : Prop where
  barrier : Consistent state.shared.barrier fun id => (state.locals id).pc.status
  placed : ∀ id, Placed state.shared (state.locals id).pc
  counted : state.shared.nchunks = state.shared.chunks.length
  unclaimed : state.shared.barrier.phase < 2 → state.shared.nextChunk = 0
  settled : 1 ≤ state.shared.barrier.phase →
    (∃ id, (state.locals id).pc = .setup) ∨ Settled state.shared

theorem placed_interferes {before after : Shared ι τ} {other : ι} {pc : Pc τ} (placed : Placed before pc)
    (interferes : Interferes before after other pc.status) : Placed after pc := by
  have grows : before.barrier.phase ≤ after.barrier.phase := by
    rcases interferes.phase with same | ⟨next,_⟩ <;> omega
  refine ⟨?_,placed.case_,?_,?_,?_⟩
  · intro phase home
    rw [← placed.home phase home]
    rcases interferes.phase with same | ⟨_,idle⟩
    · exact same
    · rw [home_inside home] at idle
      simp at idle
  · intro case meeting
    obtain ⟨bound,set⟩ := placed.meeting case meeting
    exact ⟨bound,fun last => interferes.spilled (set last)⟩
  · intro late
    obtain ⟨behind,unspilled⟩ := placed.late late
    refine ⟨Nat.le_trans behind grows,fun here => ?_⟩
    rw [interferes.decided (by omega)]
    exact unspilled (by omega)
  · intro spilled saw
    obtain ⟨value,second⟩ := placed.saw spilled saw
    exact ⟨(interferes.decided (by omega)).trans value,Nat.le_trans second grows⟩

variable [DecidableEq ι] [Inhabited τ]

/-- The steps that touch the barrier. -/
def Pc.meets : Pc τ → Bool
  | .outside | .arrive _ | .wait _ _ => true
  | _ => false

/-- What a step that does not touch the barrier changes of the shared state. -/
structure Quiet (id : ι) (before after : Shared ι τ) (pc later : Pc τ) : Prop where
  barrier : after.barrier = before.barrier
  status : later.status = pc.status
  spilled : before.spilled = true → after.spilled = true
  decided : pc.home ≠ some 0 → after.spilled = before.spilled
  chunks : pc.home ≠ some 0 → after.chunks = before.chunks ∧ after.nchunks = before.nchunks
  arrays : pc ≠ .setup → after.directory = before.directory ∧
    after.directoryChunks = before.directoryChunks ∧ after.buckets = before.buckets
  claimed : before.nextChunk ≤ after.nextChunk
  unclaimed : pc.home ≠ some 2 → after.nextChunk = before.nextChunk
  files : ∀ other, other ≠ id → after.buildSpill.files other = before.buildSpill.files other
  counted : before.nchunks = before.chunks.length → after.nchunks = after.chunks.length

omit [DecidableEq ι] [Inhabited τ] in
theorem resume_status (resume : Resume τ) : resume.pc.status = .inside := by
  cases resume <;> rfl

theorem execute_quiet (config : Config) (id : ι) (shared : Shared ι τ) (self : Local τ)
    (away : self.pc.meets = false) :
    Quiet id shared (execute config id shared self).1 self.pc (execute config id shared self).2.pc := by
  have still (later : Pc τ) (status : later.status = self.pc.status) : Quiet id shared shared self.pc later :=
    ⟨rfl,status,fun set => set,fun _ => rfl,fun _ => ⟨rfl,rfl⟩,fun _ => ⟨rfl,rfl,rfl⟩,Nat.le_refl _,fun _ => rfl,
      fun _ _ => rfl,fun same => same⟩
  obtain ⟨pc,input,taken,chunk,directory,buckets,writer⟩ := self
  cases pc with
  | outside | arrive _ | wait _ _ => contradiction
  | publish resume =>
    simp only [execute]
    split
    · exact still _ (resume_status resume)
    · split
      · exact still _ (resume_status resume)
      · refine ⟨rfl,rfl,fun set => set,fun _ => rfl,fun home => absurd rfl home,fun _ => ⟨rfl,rfl,rfl⟩,
          Nat.le_refl _,fun _ => rfl,fun _ _ => rfl,fun same => ?_⟩
        simp [same]
  | count nrows resume =>
    exact ⟨rfl,resume_status resume,fun set => set,fun _ => rfl,fun _ => ⟨rfl,rfl⟩,fun _ => ⟨rfl,rfl,rfl⟩,
      Nat.le_refl _,fun _ => rfl,fun _ _ => rfl,fun same => same⟩
  | refuse batch rows =>
    exact ⟨rfl,rfl,fun _ => rfl,fun home => absurd rfl home,fun _ => ⟨rfl,rfl⟩,fun _ => ⟨rfl,rfl,rfl⟩,
      Nat.le_refl _,fun _ => rfl,fun _ _ => rfl,fun same => same⟩
  | setup =>
    simp only [execute,setupSharedHash]
    split <;> split <;>
      exact ⟨rfl,rfl,fun set => set,fun _ => rfl,fun _ => ⟨rfl,rfl⟩,fun home => absurd rfl home,Nat.le_refl _,
        fun _ => rfl,fun _ _ => rfl,fun same => same⟩
  | claim spilled =>
    have next (pc : Pc τ) (status : pc.status = .inside) :
        Quiet id shared {shared with nextChunk := shared.nextChunk + 1} (.claim spilled) pc :=
      ⟨rfl,status,fun set => set,fun _ => rfl,fun _ => ⟨rfl,rfl⟩,fun _ => ⟨rfl,rfl,rfl⟩,Nat.le_succ _,
        fun home => absurd rfl home,fun _ _ => rfl,fun same => same⟩
    simp only [execute]
    split
    · exact next _ rfl
    · split
      · exact next _ (by split <;> rfl)
      · exact next _ rfl
  | finishWriter spilled =>
    simp only [execute]
    split
    · split
      · exact still _ rfl
      · rename_i finished
        refine ⟨rfl,rfl,fun set => set,fun _ => rfl,fun _ => ⟨rfl,rfl⟩,fun _ => ⟨rfl,rfl,rfl⟩,Nat.le_refl _,
          fun _ => rfl,fun other apart => ?_,fun same => same⟩
        unfold sharedSpillWriterFinish at finished
        split at finished
        · contradiction
        · cases finished
          exact Function.update_of_ne apart ..
    · exact still _ rfl
  | _ =>
    -- Every other position leaves all of this alone.
    simp only [execute]
    (repeat' split) <;>
      exact ⟨rfl,rfl,fun set => set,fun _ => rfl,fun _ => ⟨rfl,rfl⟩,fun _ => ⟨rfl,rfl,rfl⟩,Nat.le_refl _,
        fun _ => rfl,fun _ _ => rfl,fun same => same⟩

omit [DecidableEq ι] [Inhabited τ] in
/-- A participant that has just passed the barrier stands where its `case` goes on. -/
theorem afterBarrier_placed (shared : Shared ι τ) (case : Nat) (elected : Bool)
    (phase : shared.barrier.phase = case + 1) : Placed shared (afterBarrier case elected : Pc τ) := by
  match case,elected with
  | 0,true | 1,_ =>
    refine ⟨?_,by simp [afterBarrier],by simp [afterBarrier,Pc.meeting],by simp [afterBarrier,Pc.late],
      by simp [afterBarrier,Pc.saw]⟩
    intro home
    simp only [afterBarrier,Pc.home,if_true,Option.some.injEq]
    omega
  | 0,false | _ + 2,_ => exact ⟨by simp [afterBarrier,Pc.home],by simp [afterBarrier],
      by simp [afterBarrier,Pc.meeting],by simp [afterBarrier,Pc.late],by simp [afterBarrier,Pc.saw]⟩

omit [DecidableEq ι] [Inhabited τ] in
/-- A private step that keeps to its phase. -/
private theorem quiet_placed {id : ι} {before after : Shared ι τ} {pc later : Pc τ} (placed : Placed before pc)
    (quiet : Quiet id before after pc later) (home : later.home = none ∨ later.home = pc.home)
    (late : later.late = false) (saw : later.saw = none ∨ later.saw = pc.saw)
    (waits : ∀ case start, later ≠ .wait case start) (meeting : ∀ case, later.meeting = some case → case ≤ 2) :
    Placed after later := by
  refine ⟨?_,fun case start same => absurd same (waits case start),fun case meets => ?_,by simp [late],?_⟩
  · intro phase here
    rw [quiet.barrier]
    rcases home with none | same
    · simp [none] at here
    · exact placed.home phase (same ▸ here)
  · have := meeting case meets
    exact ⟨by omega,fun last => by omega⟩
  · intro spilled known
    rcases saw with none | same
    · simp [none] at known
    · obtain ⟨value,second⟩ := placed.saw spilled (same ▸ known)
      rw [quiet.barrier,quiet.decided fun first => by
        have := placed.home 0 first
        omega]
      exact ⟨value,second⟩

/-- Inside a phase a participant moves to a position of the same phase; only
`loop` reads the phase anew. -/
theorem execute_placed (config : Config) (id : ι) (shared : Shared ι τ) (self : Local τ)
    (placed : Placed shared self.pc) :
    Placed (execute config id shared self).1 (execute config id shared self).2.pc := by
  obtain ⟨pc,input,taken,chunk,directory,buckets,writer⟩ := self
  have unplaced (other : Shared ι τ) (later : Pc τ) (home : later.home = none) (late : later.late = false)
      (saw : later.saw = none) (meeting : later.meeting = none) : Placed other later :=
    ⟨by simp [home],fun case start same => by simp [same,Pc.meeting] at meeting,by simp [meeting],by simp [late],
      by simp [saw]⟩
  cases pc with
  | outside => exact unplaced _ _ rfl rfl rfl rfl
  | setup => exact unplaced _ _ rfl rfl rfl rfl
  | bind => exact unplaced _ _ rfl rfl rfl rfl
  | detached => exact unplaced _ _ rfl rfl rfl rfl
  | arrive case =>
    have phase := placed.home case rfl
    simp only [execute]
    cases released : shared.barrier.arrive.2 with
    | true =>
      refine afterBarrier_placed _ case true ?_
      simp only [Barrier.arrive] at released ⊢
      split at released
      · rename_i last
        simp only [last,if_true]
        omega
      · contradiction
    | false =>
      refine ⟨by simp [Pc.home],?_,placed.meeting,by simp [Pc.late],by simp [Pc.saw]⟩
      rintro _ _ ⟨⟩
      exact phase.symm
  | wait case start =>
    simp only [execute]
    split
    · rename_i released
      refine afterBarrier_placed _ case _ ?_
      have same := placed.case_ case start rfl
      simp only [(wake_fields shared.barrier start).1]
      omega
    · exact placed
  | loop =>
    simp only [execute]
    split
    · rename_i phase
      exact ⟨by simpa [Pc.home] using phase,by simp,by simp [Pc.meeting],by simp [Pc.late],by simp [Pc.saw]⟩
    · rename_i phase
      exact ⟨by simpa [Pc.home] using phase,by simp,by simp [Pc.meeting],by simp [Pc.late],by simp [Pc.saw]⟩
    · rename_i phase
      exact ⟨by simpa [Pc.home] using phase,by simp,by simp [Pc.meeting],by simp [Pc.late],by simp [Pc.saw]⟩
    · rename_i phase
      exact ⟨by simpa [Pc.home] using phase,by simp,by simp [Pc.meeting],by simp [Pc.late],by simp [Pc.saw]⟩
    · rename_i zero one two three
      have away : shared.barrier.phase ≠ 0 ∧ shared.barrier.phase ≠ 1 ∧ shared.barrier.phase ≠ 2 ∧
          shared.barrier.phase ≠ 3 := ⟨zero,one,two,three⟩
      exact ⟨by simp [Pc.home],by simp,by simp [Pc.meeting],fun _ => ⟨by omega,fun here => absurd here three⟩,
        by simp [Pc.saw]⟩
  | sweep =>
    have phase := placed.home 2 rfl
    refine ⟨by simpa [execute,Pc.home] using phase,by simp [execute],by simp [execute,Pc.meeting],
      by simp [execute,Pc.late],?_⟩
    rintro _ ⟨⟩
    exact ⟨rfl,Nat.le_of_eq phase.symm⟩
  | branch =>
    have phase := placed.home 3 rfl
    simp only [execute]
    split
    · rename_i set
      refine ⟨by simpa [Pc.home] using phase,by simp,by simp [Pc.meeting],by simp [Pc.late],?_⟩
      rintro _ ⟨⟩
      exact ⟨set,by omega⟩
    · rename_i unset
      exact ⟨by simp [Pc.home],by simp,by simp [Pc.meeting],fun _ => ⟨by omega,fun _ => by simpa using unset⟩,
        by simp [Pc.saw]⟩
  | probe =>
    have phase := placed.home 3 rfl
    refine ⟨by simpa [execute,Pc.home] using phase,by simp [execute],?_,by simp [execute,Pc.late],
      by simp [execute,Pc.saw]⟩
    rintro _ ⟨⟩
    exact ⟨Nat.le_refl 3,fun _ => (placed.saw true rfl).1⟩
  | ready =>
    have behind := placed.late rfl
    refine ⟨by simp [execute,Pc.home],by simp [execute],by simp [execute,Pc.meeting],fun _ => behind,?_⟩
    rintro _ ⟨⟩
    exact ⟨rfl,Nat.le_of_succ_le behind.1⟩
  | left spilled =>
    simp only [execute]
    split
    · exact unplaced _ _ rfl rfl rfl rfl
    · exact placed
  | claim spilled =>
    refine quiet_placed placed (execute_quiet config id shared ⟨.claim spilled,input,taken,chunk,directory,buckets,
      writer⟩ rfl) ?_ ?_ ?_ ?_ ?_
    all_goals
      cases spilled <;> simp only [execute] <;> (repeat' split) <;>
        first | exact .inr rfl | exact .inl rfl | rfl | (intro case start; simp) | (rintro case ⟨⟩) | contradiction
  | publish resume | count _ resume =>
    refine quiet_placed placed (execute_quiet config id shared ⟨_,input,taken,chunk,directory,buckets,writer⟩ rfl)
      ?_ ?_ ?_ ?_ ?_
    all_goals
      cases resume <;> simp only [execute,Resume.pc] <;> (repeat' split) <;>
        first | exact .inr rfl | exact .inl rfl | rfl | (intro case start; simp) | (rintro case ⟨⟩ <;> omega)
  | stuck case fault =>
    exact placed
  | _ =>
    refine quiet_placed placed (execute_quiet config id shared ⟨_,input,taken,chunk,directory,buckets,writer⟩ rfl)
      ?_ ?_ ?_ ?_ ?_
    all_goals
      simp only [execute]
      (repeat' split) <;> first | exact .inr rfl | exact .inl rfl | rfl | (intro case start; simp) | (rintro case ⟨⟩ <;> omega)

variable [Fintype ι]

/-- The participant that an action moves. -/
def Action.id : Action ι → ι
  | .run id | .shutdown id => id

omit [DecidableEq ι] [Inhabited τ] in
/-- Nobody waits for the barrier any more when a participant can shut down. -/
theorem idle_of_left {state : State ι τ} (protocol : Protocol state) {id : ι}
    (late : (state.locals id).pc.late = true) (other : ι) :
    (state.locals other).pc.status ≠ .waiting state.shared.barrier.phase := by
  intro waiting
  obtain ⟨behind,unspilled⟩ := (protocol.placed id).late late
  cases position : (state.locals other).pc with
  | wait case start =>
    rw [position] at waiting
    cases waiting
    have placed := protocol.placed other
    rw [position] at placed
    have same := placed.case_ _ _ rfl
    obtain ⟨bound,set⟩ := placed.meeting case rfl
    have last : case = 3 := by omega
    have := unspilled (by omega)
    rw [set last] at this
    contradiction
  | _ => simp [position,Pc.status] at waiting

/-- When the barrier leaves a phase, nobody else is inside. -/
theorem act_phase (config : Config) {state : State ι τ} (protocol : Protocol state) (action : Action ι) :
    (state.act config action).shared.barrier.phase = state.shared.barrier.phase ∨
      (state.act config action).shared.barrier.phase = state.shared.barrier.phase + 1 ∧
        (state.locals action.id).pc = .arrive state.shared.barrier.phase ∧
        ∀ other, other ≠ action.id → (state.locals other).pc.status = .away ∨
          (state.locals other).pc.status = .waiting state.shared.barrier.phase := by
  cases action with
  | shutdown id =>
    simp only [State.act]
    split
    · rename_i spilled left
      exact .inl (detach_consistent protocol.barrier (i := id) (by simp [left,Pc.status])
        (idle_of_left protocol (by rw [left]; rfl))).1
    · exact .inl rfl
  | run id =>
    simp only [State.act]
    cases meets : (state.locals id).pc.meets with
    | false => exact .inl (by rw [(execute_quiet config id state.shared (state.locals id) meets).barrier])
    | true =>
      cases position : (state.locals id).pc with
      | outside =>
        simp only [execute,position]
        exact .inl rfl
      | wait case start =>
        simp only [execute,position]
        split
        · exact .inl (wake_fields _ _).1
        · exact .inl rfl
      | arrive case =>
        simp only [execute,position]
        have phase := (protocol.placed id).home case (by rw [position]; rfl)
        have others := arrive_released protocol.barrier (i := id) (by rw [position]; rfl)
        cases released : state.shared.barrier.arrive.2 with
        | true =>
          refine .inr ⟨?_,by rw [Action.id,position,phase],fun other apart => others released other apart⟩
          unfold Barrier.arrive at released ⊢
          split at released
          · rename_i last
            simp only [last,if_true]
          · contradiction
        | false =>
          refine .inl ?_
          unfold Barrier.arrive at released ⊢
          split at released
          · contradiction
          · rename_i last
            simp only [last,if_false]
      | _ => simp [position,Pc.meets] at meets

omit [Fintype ι] in
/-- A step that meets the barrier changes nothing but the barrier. -/
theorem execute_meets (config : Config) (id : ι) (shared : Shared ι τ) (self : Local τ)
    (meets : self.pc.meets = true) :
    ∃ barrier, (execute config id shared self).1 = {shared with barrier := barrier} := by
  obtain ⟨pc,input,taken,chunk,directory,buckets,writer⟩ := self
  cases pc with
  | outside => exact ⟨_,rfl⟩
  | arrive case => exact ⟨_,rfl⟩
  | wait case start =>
    simp only [execute]
    split
    · exact ⟨_,rfl⟩
    · exact ⟨shared.barrier,rfl⟩
  | _ => contradiction

omit [Fintype ι] in
theorem shutdown_shared (config : Config) (state : State ι τ) (id : ι) :
    ∃ barrier, (state.act config (.shutdown id)).shared = {state.shared with barrier := barrier} := by
  simp only [State.act]
  split
  · exact ⟨_,rfl⟩
  · exact ⟨state.shared.barrier,rfl⟩

theorem act_interferes (config : Config) {state : State ι τ} (protocol : Protocol state) (action : Action ι)
    {other : ι} (apart : other ≠ action.id) :
    Interferes state.shared (state.act config action).shared other (state.locals other).pc.status := by
  have phase : (state.act config action).shared.barrier.phase = state.shared.barrier.phase ∨
      (state.act config action).shared.barrier.phase = state.shared.barrier.phase + 1 ∧
        ((state.locals other).pc.status = .away ∨
          (state.locals other).pc.status = .waiting state.shared.barrier.phase) := by
    rcases act_phase config protocol action with same | ⟨next,_,others⟩
    · exact .inl same
    · exact .inr ⟨next,others other apart⟩
  have alone {after : Shared ι τ} {barrier : Barrier} (same : after = {state.shared with barrier := barrier})
      (phase : after.barrier.phase = state.shared.barrier.phase ∨
        after.barrier.phase = state.shared.barrier.phase + 1 ∧
          ((state.locals other).pc.status = .away ∨
            (state.locals other).pc.status = .waiting state.shared.barrier.phase)) :
      Interferes state.shared after other (state.locals other).pc.status := by
    subst same
    exact ⟨phase,fun set => set,fun _ => rfl,fun _ => ⟨rfl,rfl⟩,fun _ => ⟨rfl,rfl,rfl⟩,Nat.le_refl _,rfl⟩
  cases action with
  | shutdown id =>
    obtain ⟨barrier,same⟩ := shutdown_shared config state id
    exact alone same phase
  | run id =>
    cases meets : (state.locals id).pc.meets with
    | true =>
      obtain ⟨barrier,same⟩ := execute_meets config id state.shared (state.locals id) meets
      exact alone same phase
    | false =>
      have quiet := execute_quiet config id state.shared (state.locals id) meets
      have stays (phase : Nat) (elsewhere : state.shared.barrier.phase ≠ phase) :
          (state.locals id).pc.home ≠ some phase :=
        fun home => elsewhere ((protocol.placed id).home phase home)
      refine ⟨phase,quiet.spilled,fun later => quiet.decided (stays 0 later),
        fun later => quiet.chunks (stays 0 later),fun later => quiet.arrays fun setup => ?_,quiet.claimed,
        quiet.files other apart⟩
      exact stays 1 (by omega) (by rw [setup]; rfl)

omit [Inhabited τ] [Fintype ι] in
/-- The statuses after one participant has moved. -/
theorem status_update (locals : ι → Local τ) (id : ι) (self : Local τ) :
    (fun other => (Function.update locals id self other).pc.status) =
      Function.update (fun other => (locals other).pc.status) id self.pc.status := by
  funext other
  by_cases same : other = id
  · subst same
    simp
  · simp [same]

theorem act_barrier (config : Config) {state : State ι τ} (protocol : Protocol state) (action : Action ι) :
    Consistent (state.act config action).shared.barrier fun id => ((state.act config action).locals id).pc.status := by
  have consistent := protocol.barrier
  cases action with
  | shutdown id =>
    simp only [State.act]
    split
    · rename_i spilled left
      rw [status_update]
      exact (detach_consistent consistent (by simp [left,Pc.status])
        (idle_of_left protocol (by rw [left]; rfl))).2.2
    · exact consistent
  | run id =>
    simp only [State.act,status_update]
    cases meets : (state.locals id).pc.meets with
    | false =>
      have quiet := execute_quiet config id state.shared (state.locals id) meets
      rw [quiet.barrier,quiet.status,Function.update_eq_self]
      exact consistent
    | true =>
      cases position : (state.locals id).pc with
      | outside =>
        simp only [execute,position]
        exact attach_consistent consistent (by rw [position]; rfl)
      | arrive case =>
        simp only [execute,position]
        have arrived := arrive_consistent consistent (i := id) (by rw [position]; rfl)
        cases released : state.shared.barrier.arrive.2 with
        | true =>
          have inside : (afterBarrier case true : Pc τ).status = .inside := by
            unfold afterBarrier
            split <;> rfl
          simp only [released,if_true] at arrived
          simpa only [if_true,inside] using arrived
        | false =>
          simp only [released,Bool.false_eq_true,if_false] at arrived
          exact arrived
      | wait case start =>
        simp only [execute,position]
        split
        · rename_i released
          have inside (elected : Bool) : (afterBarrier case elected : Pc τ).status = .inside := by
            unfold afterBarrier
            split
            · cases elected <;> rfl
            · rfl
            · rfl
          simp only [inside]
          exact wake_consistent consistent (by rw [position]; rfl) released.symm
        · have same : (state.locals id).pc.status = .waiting start := by rw [position]; rfl
          have unchanged := Function.update_eq_self id (fun other => (state.locals other).pc.status)
          simp only [position] at unchanged
          simp only [position]
          rw [unchanged]
          exact consistent
      | _ => simp [position,Pc.meets] at meets

omit [DecidableEq ι] [Inhabited τ] [Fintype ι] in
theorem setup_settled (shared : Shared ι τ) : Settled (setupSharedHash shared) := by
  unfold setupSharedHash
  cases set : shared.spilled <;> by_cases some : 0 < shared.nchunks <;> simp only [set,some,Bool.false_eq_true,if_true,if_false]
  · exact ⟨fun _ => ⟨rfl,rfl⟩,fun _ => rfl⟩
  · exact ⟨fun more => absurd more some,fun _ => rfl⟩
  · exact ⟨fun _ => ⟨rfl,rfl⟩,fun unset => by simp at unset⟩
  · exact ⟨fun more => absurd more some,fun unset => by simp [set] at unset⟩

omit [Fintype ι] in
theorem act_other (config : Config) (state : State ι τ) (action : Action ι) {other : ι}
    (apart : other ≠ action.id) : (state.act config action).locals other = state.locals other := by
  cases action with
  | run id => exact Function.update_of_ne apart ..
  | shutdown id =>
    simp only [State.act]
    split
    · exact Function.update_of_ne apart ..
    · rfl

omit [DecidableEq ι] [Inhabited τ] [Fintype ι] in
theorem Settled.barrier {shared : Shared ι τ} (settled : Settled shared) (barrier : Barrier) :
    Settled {shared with barrier := barrier} :=
  ⟨settled.directory,settled.buckets⟩

/-- The arrays change in `setup` only, and nobody is there once phase 1 is over. -/
theorem act_settled (config : Config) {state : State ι τ} (protocol : Protocol state) (action : Action ι)
    (later : 1 ≤ (state.act config action).shared.barrier.phase) :
    (∃ id, ((state.act config action).locals id).pc = .setup) ∨ Settled (state.act config action).shared := by
  have moves := act_phase config protocol action
  by_cases first : state.shared.barrier.phase = 0
  · -- The phase was 0: the participant that released the barrier was elected.
    rcases moves with same | ⟨_,arrives,_⟩
    · omega
    · cases action with
      | shutdown id =>
        simp only [Action.id] at arrives
        simp [State.act,arrives,first] at later
      | run id =>
        simp only [Action.id] at arrives
        refine .inl ⟨id,?_⟩
        simp only [State.act,execute,arrives,first,Function.update_self] at later ⊢
        cases released : state.shared.barrier.arrive.2 with
        | true => rfl
        | false =>
          exfalso
          unfold Barrier.arrive at released later
          split at released
          · contradiction
          · rename_i last
            simp only [last,if_false,first] at later
            omega
  · have before := protocol.settled (Nat.pos_of_ne_zero first)
    rcases before with ⟨elected,setup⟩ | settled
    · by_cases same : elected = action.id
      · cases action with
        | shutdown id =>
          refine .inl ⟨elected,?_⟩
          simp only [Action.id] at same
          subst same
          simp [State.act,setup]
        | run id =>
          simp only [Action.id] at same
          subst same
          refine .inr ?_
          simp only [State.act,execute,setup]
          exact setup_settled _
      · exact .inl ⟨elected,by rw [act_other config state action same]; exact setup⟩
    · refine .inr ?_
      cases action with
      | shutdown id =>
        obtain ⟨barrier,same⟩ := shutdown_shared config state id
        rw [same]
        exact settled.barrier barrier
      | run id =>
        cases meets : (state.locals id).pc.meets with
        | true =>
          obtain ⟨barrier,same⟩ := execute_meets config id state.shared (state.locals id) meets
          simp only [State.act,same]
          exact settled.barrier barrier
        | false =>
          by_cases setup : (state.locals id).pc = .setup
          · simp only [State.act,execute,setup]
            exact setup_settled _
          · have quiet := execute_quiet config id state.shared (state.locals id) meets
            have away : (state.locals id).pc.home ≠ some 0 := fun home => first ((protocol.placed id).home 0 home)
            obtain ⟨directory,entries,buckets⟩ := quiet.arrays setup
            obtain ⟨chunks,nchunks⟩ := quiet.chunks away
            refine ⟨?_,?_⟩
            · simp only [State.act,directory,entries,chunks,nchunks]
              exact settled.directory
            · simp only [State.act,buckets,quiet.decided away]
              exact settled.buckets

theorem act_protocol (config : Config) {state : State ι τ} (protocol : Protocol state) (action : Action ι) :
    Protocol (state.act config action) := by
  have fields : (state.act config action).shared.nchunks = (state.act config action).shared.chunks.length ∧
      ((state.act config action).shared.barrier.phase < 2 → (state.act config action).shared.nextChunk = 0) := by
    have grows : state.shared.barrier.phase ≤ (state.act config action).shared.barrier.phase := by
      rcases act_phase config protocol action with same | ⟨next,_⟩ <;> omega
    cases action with
    | shutdown id =>
      obtain ⟨barrier,same⟩ := shutdown_shared config state id
      rw [same] at grows ⊢
      exact ⟨protocol.counted,fun early => protocol.unclaimed (Nat.lt_of_le_of_lt grows early)⟩
    | run id =>
      cases meets : (state.locals id).pc.meets with
      | true =>
        obtain ⟨barrier,same⟩ := execute_meets config id state.shared (state.locals id) meets
        simp only [State.act,same] at grows ⊢
        exact ⟨protocol.counted,fun early => protocol.unclaimed (Nat.lt_of_le_of_lt grows early)⟩
      | false =>
        have quiet := execute_quiet config id state.shared (state.locals id) meets
        refine ⟨quiet.counted protocol.counted,fun early => ?_⟩
        have before := Nat.lt_of_le_of_lt grows early
        refine (quiet.unclaimed fun home => ?_).trans (protocol.unclaimed before)
        have := (protocol.placed id).home 2 home
        omega
  refine ⟨act_barrier config protocol action,fun other => ?_,fields.1,fields.2,act_settled config protocol action⟩
  by_cases same : other = action.id
  · cases action with
    | shutdown id =>
      simp only [Action.id] at same
      subst same
      simp only [State.act]
      split
      · simp only [Function.update_self]
        exact ⟨by simp [Pc.home],by simp,by simp [Pc.meeting],by simp [Pc.late],by simp [Pc.saw]⟩
      · exact protocol.placed other
    | run id =>
      simp only [Action.id] at same
      subst same
      simp only [State.act,Function.update_self]
      exact execute_placed config other state.shared (state.locals other) (protocol.placed other)
  · rw [act_other config state action same]
    exact placed_interferes (protocol.placed other) (act_interferes config protocol action same)

omit [DecidableEq ι] [Inhabited τ] in
theorem initial_protocol (config : Config) (inputs : ι → List (Batch τ)) :
    Protocol (State.initial config inputs) :=
  ⟨consistent_init,fun _ => ⟨by simp [State.initial,Pc.home],by simp [State.initial],
      by simp [State.initial,Pc.meeting],by simp [State.initial,Pc.late],by simp [State.initial,Pc.saw]⟩,
    rfl,fun _ => rfl,fun later => by simp [State.initial,Barrier.init] at later⟩

/-! A participant that attaches before phase 2 binds its pointers in phase 2. -/

/-- The local pointers are those of the shared directory and bucket array. -/
structure Bound (shared : Shared ι τ) (own : Local τ) : Prop where
  directory : own.directory = shared.directory
  buckets : own.buckets = shared.buckets
  allocated : shared.buckets.isSome = true

/-- Positions of `build_or_spill_chunks` that hold a chunk to be linked. -/
def Pc.linking : Pc τ → Bool
  | .link _ _ _ | .swap _ _ _ _ | .inspect _ _ _ | .detect _ _ _ _ => true
  | _ => false

/-- What the attach protocol promises for one participant. -/
structure Attached (shared : Shared ι τ) (own : Local τ) : Prop where
  linking : own.pc.linking = true → Bound shared own
  left : own.pc = .left false → Bound shared own
  sound : ∀ case, own.pc ≠ .stuck case .nullPointer

/-- A step that lets nobody attach once chunks are being linked. -/
def Timely (state : State ι τ) (action : Action ι) : Prop :=
  action = .run action.id → (state.locals action.id).pc = .outside →
    state.shared.barrier.phase < 2 ∨ state.shared.spilled = true

def TimelyRun (config : Config) (state : State ι τ) : List (Action ι) → Prop
  | [] => True
  | action :: rest => Timely state action ∧ TimelyRun config (state.act config action) rest

/-- Has a participant passed the barrier into phase 2, and bound its pointers there? -/
def Pc.unbound : Pc τ → Bool
  | .outside | .detached | .bind | .wait 1 _ => true
  | _ => false

/-- The invariant of timely runs. -/
structure Binding (shared : Shared ι τ) (own : Local τ) : Prop where
  bound : 2 ≤ shared.barrier.phase → shared.spilled = false → own.pc.unbound = false → Bound shared own
  sound : ∀ case, own.pc ≠ .stuck case .nullPointer

omit [DecidableEq ι] [Inhabited τ] [Fintype ι] in
theorem binding_attached {shared : Shared ι τ} {self : Local τ} (placed : Placed shared self.pc)
    (binding : Binding shared self) : Attached shared self := by
  refine ⟨fun linking => ?_,fun left => ?_,binding.sound⟩
  · have saw : self.pc.saw = some false := by
      cases position : self.pc <;> simp_all [Pc.linking,Pc.saw]
    obtain ⟨unspilled,second⟩ := placed.saw false saw
    refine binding.bound second unspilled ?_
    cases position : self.pc <;> simp_all [Pc.linking,Pc.unbound]
  · obtain ⟨unspilled,second⟩ := placed.saw false (by rw [left]; rfl)
    exact binding.bound second unspilled (by rw [left]; rfl)

omit [DecidableEq ι] [Inhabited τ] in
theorem protocol_settled {state : State ι τ} (protocol : Protocol state)
    (second : 2 ≤ state.shared.barrier.phase) : Settled state.shared := by
  rcases protocol.settled (Nat.le_of_succ_le second) with ⟨id,setup⟩ | settled
  · have := (protocol.placed id).home 1 (by rw [setup]; rfl)
    omega
  · exact settled

omit [DecidableEq ι] [Inhabited τ] [Fintype ι] in
theorem binding_interferes {before after : Shared ι τ} {other : ι} {self : Local τ}
    (placed : Placed before self.pc) (binding : Binding before self)
    (interferes : Interferes before after other self.pc.status) : Binding after self := by
  refine ⟨fun second unspilled bound => ?_,binding.sound⟩
  by_cases already : 2 ≤ before.barrier.phase
  · obtain ⟨directory,_,buckets⟩ := interferes.arrays already
    have kept := binding.bound already ((interferes.decided (by omega)).symm.trans unspilled) bound
    exact ⟨kept.directory.trans directory.symm,kept.buckets.trans buckets.symm,buckets ▸ kept.allocated⟩
  · -- The barrier has just entered phase 2, so the participant still waits in phase 1.
    rcases interferes.phase with same | ⟨next,idle⟩
    · omega
    · have phase : before.barrier.phase = 1 := by omega
      rw [phase] at idle
      cases position : self.pc with
      | wait case start =>
        rw [position] at idle bound placed
        have waits : start = 1 := by simpa [Pc.status] using idle
        have same := placed.case_ case start rfl
        subst waits
        subst same
        simp [Pc.unbound] at bound
      | outside | detached => simp [position,Pc.unbound] at bound
      | _ => simp [position,Pc.status] at idle

omit [Fintype ι] in
/-- Only `bind` sets the local pointers. -/
theorem execute_pointers (config : Config) (id : ι) (shared : Shared ι τ) (self : Local τ)
    (elsewhere : self.pc ≠ .bind) :
    (execute config id shared self).2.directory = self.directory ∧
      (execute config id shared self).2.buckets = self.buckets := by
  obtain ⟨pc,input,taken,chunk,directory,buckets,writer⟩ := self
  cases pc with
  | bind => contradiction
  | _ =>
    unfold execute
    dsimp only
    (repeat' split) <;> exact ⟨rfl,rfl⟩

/-- A participant that follows its bound pointers never meets a NULL one. -/
theorem execute_sound (config : Config) {state : State ι τ} (protocol : Protocol state) (id : ι)
    (binding : Binding state.shared (state.locals id)) (case : Nat) :
    (execute config id state.shared (state.locals id)).2.pc ≠ .stuck case .nullPointer := by
  have placed := protocol.placed id
  have attached := binding_attached placed binding
  have inside {index : Nat} (within : index < state.shared.nchunks) (second : 2 ≤ state.shared.barrier.phase) :
      ∃ pointer chunk, state.shared.directory = some pointer ∧ state.shared.directoryChunks[index]? = some chunk := by
    obtain ⟨directory,chunks⟩ := (protocol_settled protocol second).directory (by omega)
    obtain ⟨pointer,found⟩ := Option.isSome_iff_exists.mp directory
    rw [protocol.counted] at within
    exact ⟨pointer,_,found,by rw [chunks]; exact List.getElem?_eq_getElem within⟩
  revert placed attached
  generalize hself : state.locals id = self
  obtain ⟨pc,input,taken,chunk,directory,buckets,writer⟩ := self
  intro placed attached
  have sound := attached.sound case
  cases pc with
  | claim spilled =>
    have second : 2 ≤ state.shared.barrier.phase := (placed.saw spilled rfl).2
    simp only [execute]
    split
    · simp
    · rename_i more
      obtain ⟨pointer,entry,found,held⟩ := inside (Nat.lt_of_not_le more) second
      simp only [found,held]
      split <;> simp
  | link index chunk row =>
    obtain ⟨_,same,allocated⟩ := attached.linking rfl
    simp only [execute]
    split
    · simp
    · split
      · rw [← same] at allocated
        contradiction
      · simp
  | detect index chunk row link =>
    obtain ⟨same,_,_⟩ := attached.linking rfl
    have second : 2 ≤ state.shared.barrier.phase := (placed.saw false rfl).2
    simp only [execute]
    split
    · simp
    · split
      · simp
      · rename_i more
        obtain ⟨pointer,entry,found,held⟩ := inside (Nat.lt_of_not_le more) second
        simp only at same
        simp only [same,found,held]
        split <;> simp
  | left spilled =>
    cases spilled with
    | true => simp [execute]
    | false =>
      obtain ⟨_,same,allocated⟩ := attached.left rfl
      simp only [execute]
      split
      · rw [← same] at allocated
        contradiction
      · simp
  | publish resume | count _ resume =>
    cases resume <;> simp only [execute,Resume.pc] <;> (repeat' split) <;> simp
  | arrive meeting =>
    simp only [execute]
    split
    · unfold afterBarrier
      split <;> simp
    · simp
  | wait meeting start =>
    simp only [execute]
    split
    · unfold afterBarrier
      (repeat' split) <;> simp
    · simp
  | stuck at_ fault => exact sound
  | _ =>
    simp only [execute]
    (repeat' split) <;> simp

theorem act_binding (config : Config) {state : State ι τ} (protocol : Protocol state) {id : ι}
    (binding : Binding state.shared (state.locals id)) {action : Action ι} (timely : id = action.id → Timely state action) :
    Binding (state.act config action).shared ((state.act config action).locals id) := by
  by_cases same : id = action.id
  · cases action with
    | shutdown actor =>
      simp only [Action.id] at same
      subst same
      simp only [State.act]
      split
      · refine ⟨fun _ _ bound => ?_,fun case => ?_⟩
        · simp [Pc.unbound] at bound
        · simp
      · exact binding
    | run actor =>
      simp only [Action.id] at same
      subst same
      have sound := execute_sound config protocol id binding
      have placed := protocol.placed id
      have pointers := execute_pointers config id state.shared (state.locals id)
      simp only [State.act,Function.update_self]
      refine ⟨fun second unspilled bound => ?_,sound⟩
      have kept {barrier : Barrier} (same : (execute config id state.shared (state.locals id)).1 =
            {state.shared with barrier := barrier}) (elsewhere : (state.locals id).pc ≠ .bind)
          (already : 2 ≤ state.shared.barrier.phase) (before : (state.locals id).pc.unbound = false) :
          Bound (execute config id state.shared (state.locals id)).1
            (execute config id state.shared (state.locals id)).2 := by
        rw [same] at unspilled ⊢
        have held := binding.bound already unspilled before
        obtain ⟨directory,buckets⟩ := pointers elsewhere
        exact ⟨directory.trans held.directory,buckets.trans held.buckets,held.allocated⟩
      cases position : (state.locals id).pc with
      | outside =>
        have early := timely rfl rfl position
        simp only [execute,position,Barrier.attach] at second unspilled
        rcases early with early | early
        · omega
        · rw [early] at unspilled
          contradiction
      | bind =>
        simp only [execute,position] at second unspilled ⊢
        exact ⟨rfl,rfl,(protocol_settled protocol second).buckets unspilled⟩
      | arrive case =>
        have phase := placed.home case (by rw [position]; rfl)
        have barrier : (execute config id state.shared (state.locals id)).1 =
            {state.shared with barrier := state.shared.barrier.arrive.1} := by simp only [execute,position]
        match case with
        | 0 =>
          have low : state.shared.barrier.arrive.1.phase ≤ 1 := by
            unfold Barrier.arrive
            split <;> simp only <;> omega
          rw [barrier] at second
          simp only at second
          omega
        | 1 =>
          simp only [execute,position] at bound second
          cases released : state.shared.barrier.arrive.2 with
          | true => simp [released,afterBarrier,Pc.unbound] at bound
          | false =>
            rw [phase] at bound
            simp only [Barrier.arrive] at released second
            split at released
            · contradiction
            · rename_i last
              simp only [last,if_false] at second
              omega
        | case + 2 =>
          exact kept barrier (by rw [position]; simp) (by omega) (by rw [position]; rfl)
      | wait case start =>
        have same := placed.case_ case start position
        have barrier : ∃ barrier, (execute config id state.shared (state.locals id)).1 =
            {state.shared with barrier := barrier} :=
          execute_meets config id state.shared (state.locals id) (by rw [position]; rfl)
        obtain ⟨barrier,unchanged⟩ := barrier
        have phases : (execute config id state.shared (state.locals id)).1.barrier.phase =
            state.shared.barrier.phase := by
          simp only [execute,position]
          split
          · exact (wake_fields _ _).1
          · rfl
        rw [phases] at second
        match case with
        | 0 =>
          have behind := protocol.barrier.behind id start (by rw [position]; rfl)
          omega
        | 1 =>
          subst same
          simp only [execute,position] at bound
          split at bound
          · simp [afterBarrier,Pc.unbound] at bound
          · simp [position,Pc.unbound] at bound
        | case + 2 =>
          exact kept unchanged (by rw [position]; simp) second (by rw [position]; rfl)
      | detached =>
        simp [execute,position,Pc.unbound] at bound
      | _ =>
        have quiet := execute_quiet config id state.shared (state.locals id) (by rw [position]; rfl)
        have elsewhere : (state.locals id).pc ≠ .bind := by rw [position]; simp
        rw [quiet.barrier] at second
        have decided := quiet.decided fun home => by
          have := placed.home 0 home
          omega
        have arrays := quiet.arrays fun setup => by
          have := placed.home 1 (by rw [setup]; rfl)
          omega
        have held := binding.bound second (decided ▸ unspilled) (by rw [position]; rfl)
        obtain ⟨directory,buckets⟩ := pointers elsewhere
        exact ⟨directory.trans (held.directory.trans arrays.1.symm),
          buckets.trans (held.buckets.trans arrays.2.2.symm),arrays.2.2 ▸ held.allocated⟩
  · rw [act_other config state action same]
    exact binding_interferes (protocol.placed id) binding (act_interferes config protocol action same)

/-- One key column, room in memory, no spilling planned. -/
def smallConfig : Config :=
  ⟨1,[0],firstColumn_ne_nil,4,four_power,1,1000000,2000000⟩

/-- One row with the key 7. -/
def smallBatch : Batch Unit :=
  ⟨1,by decide,1#64,fun _ _ => some 7#32,fun _ => ()⟩

def smallInputs (id : Fin 2) : List (Batch Unit) :=
  if id = 0 then [smallBatch] else []

/-- Participant 0 builds alone and leaves; participant 1 then attaches, leaves
as well, and looks up a bucket. -/
def lateRun : List (Action (Fin 2)) :=
  List.replicate 31 (.run 0) ++ List.replicate 5 (.run 1)

end PgBatch.Parallel
