import PgBatch.Nodes.ParallelJoinFiles

/-! Runs of a parallel join that spills. Until the probe side is in its files nobody has begun
to join; from then on the files stay, and each pair of the join is published, in the hands of
one participant or in a partition that nobody has claimed. -/
namespace PgBatch.ParallelJoin
open Words Columnar Spill HashJoin Joining Barriers
variable {n : Nat} {ι : Type} {config : Config}

/-- What a participant has divided of its outer batches, and the files it has exported. -/
structure Dividing (config : Config) (n : Nat) (built : Nat → List (Row ι)) (outer : List (Batch ι)) (files : Nat → List (Store ι))
    (own : Member ι) : Prop where
  given : own.taken ++ own.outer = outer
  writes : own.partitioned = false →
    ProbeWrites config n built own.probeWriter (own.taken.flatMap (outerRows config)) ∧ files = fun _ => []
  exported : own.partitioned = true → own.outer = [] ∧ ∀ partition, (files partition).flatMap (Store.rows config.nouterColumns) =
    routedRows config n built (own.taken.flatMap (outerRows config)) partition

/-- How far it is with that, told by its position in `parallel_hash_join_prepare`. -/
structure Positioned (shared : Parallel.Shared (Fin n) ι) (pc : Parallel.Pc ι) (own : Member ι) : Prop where
  early : shared.barrier.phase < 3 → own.taken = [] ∧ own.probeWriter = none ∧ own.partitioned = false
  idle : own.partitioned = false → pc ≠ .probe → own.taken = []
  met : pc.meeting = some 3 → own.partitioned = true
  gone : pc = .detached → 3 ≤ shared.barrier.phase ∧ (shared.barrier.phase = 3 → shared.spilled = false)

/-- What holds in every run of the files and of what has been read. -/
structure Accounted (inners outers : Fin n → List (Batch ι)) (state : JoinState config n ι) : Prop where
  ledger : Parallel.Ledger (sharedConfig config n) (innerInput config inners) state.build
  inner : Exported config.ninnerColumns state.build.shared.buildSpill
  outer : Exported config.nouterColumns state.probeSpill
  dividing : ∀ id, Dividing config n state.built (outers id) (state.probeSpill.files id) (state.members id)
  positioned : ∀ id, Positioned state.build.shared (state.build.locals id).pc (state.members id)
  spilled : 4 ≤ state.build.shared.barrier.phase → state.build.shared.spilled = true

section Accounted
variable {inners outers : Fin n → List (Batch ι)} {state : JoinState config n ι}

theorem initial_accounted [Inhabited ι] (config : Config) (inners outers : Fin n → List (Batch ι)) :
    Accounted inners outers (JoinState.initial config inners outers) :=
  ⟨Parallel.initial_ledger _ _,initialize_exported _,initialize_exported _,
    fun _ => ⟨rfl,fun _ => ⟨start_writes config n _,rfl⟩,fun done => Bool.noConfusion done⟩,
    fun _ => ⟨fun _ => ⟨rfl,rfl,rfl⟩,fun _ _ => rfl,(by rintro ⟨⟩),by rintro ⟨⟩⟩,
    fun late => by cases late⟩

/-- Once all participants are behind the phase in which outer batches are divided, the files have the rows of all of them. -/
theorem Accounted.routed (accounted : Accounted inners outers state) (late : 4 ≤ state.build.shared.barrier.phase) (partition : Nat) :
    state.probed partition = routedRows config n state.built state.outerStored partition := by
  refine probed_routed (fun id partition => ?_) partition
  cases done : (state.members id).partitioned with
  | true => exact ((accounted.dividing id).exported done).2 partition
  | false =>
    have elsewhere : (state.build.locals id).pc ≠ .probe := by
      intro here
      have phase := (accounted.ledger.protocol.placed id).home 3 (by rw [here]; rfl)
      omega
    rw [((accounted.dividing id).writes done).2,(accounted.positioned id).idle done elsewhere,routedRows]
    split <;> rfl

theorem Accounted.hold (accounted : Accounted inners outers state) (late : 4 ≤ state.build.shared.barrier.phase) (missing : String)
    [Inhabited ι] : FilesHold config (state.files missing) state.built state.probed :=
  files_hold accounted.ledger (Nat.le_of_succ_le late) (accounted.spilled late) (accounted.routed late) accounted.inner accounted.outer missing

theorem Accounted.pairs (accounted : Accounted inners outers state) (late : 4 ≤ state.build.shared.barrier.phase) :
    (stockPairs config state.built state.probed 0 (sharedConfig config n).npartitions).Perm
      (equiJoin config state.outerTaken (state.innerTaken inners)) :=
  partitions_join accounted.ledger (Nat.le_of_succ_le late) (accounted.spilled late) (accounted.routed late)

end Accounted

/-! A step of the build. -/

section Build
variable {τ : Type} [Inhabited τ]

/-- Only the one that has divided its batches comes to the barrier of phase 3. -/
theorem execute_meeting (shared : Parallel.Config) (id : Fin n) (before : Parallel.Shared (Fin n) τ) (own : Parallel.Local τ)
    (meets : (Parallel.execute shared id before own).2.pc.meeting = some 3) : own.pc = .probe ∨ own.pc.meeting = some 3 := by
  obtain ⟨pc,input,taken,chunk,directory,buckets,writer⟩ := own
  cases pc with
  | probe => exact .inl rfl
  | arrive case =>
    simp only [Parallel.execute] at meets
    split at meets
    · unfold Parallel.afterBarrier at meets
      (repeat' split at meets) <;> cases meets
    · exact .inr meets
  | wait case start =>
    simp only [Parallel.execute] at meets
    split at meets
    · unfold Parallel.afterBarrier at meets
      (repeat' split at meets) <;> cases meets
    · exact .inr meets
  | publish resume | count _ resume =>
    cases resume <;> simp only [Parallel.execute,Parallel.Resume.pc] at meets <;> (repeat' split at meets) <;> cases meets
  | stuck case fault => cases meets
  | _ =>
    simp only [Parallel.execute] at meets
    (repeat' split at meets) <;> cases meets

theorem execute_detached (shared : Parallel.Config) (id : Fin n) (before : Parallel.Shared (Fin n) τ) (own : Parallel.Local τ)
    (gone : (Parallel.execute shared id before own).2.pc = .detached) : own.pc = .detached := by
  obtain ⟨pc,input,taken,chunk,directory,buckets,writer⟩ := own
  cases pc with
  | detached => rfl
  | arrive case | wait case _ =>
    simp only [Parallel.execute] at gone
    split at gone
    · unfold Parallel.afterBarrier at gone
      (repeat' split at gone) <;> cases gone
    · cases gone
  | publish resume | count _ resume =>
    cases resume <;> simp only [Parallel.execute,Parallel.Resume.pc] at gone <;> (repeat' split at gone) <;> cases gone
  | stuck case fault => cases gone
  | _ =>
    simp only [Parallel.execute] at gone
    (repeat' split at gone) <;> cases gone

end Build

section Steps
variable {inners outers : Fin n → List (Batch ι)} {state : JoinState config n ι} [Inhabited ι]

omit [Inhabited ι] in
theorem partitioned_of_probe {id : Fin n} (free : state.partitioning id = false) (here : (state.build.locals id).pc = .probe) :
    (state.members id).partitioned = true := by
  rw [JoinState.partitioning,here] at free
  simpa using free

/-- Before phase 3 nothing has been divided, and behind it the build files stay. -/
theorem Accounted.build_dividing (accounted : Accounted inners outers state) (action : Parallel.Action (Fin n)) (id : Fin n) :
    Dividing config n ((state.build.act (sharedConfig config n) action).shared.buildSpill.exportedRows config.ninnerColumns)
      (outers id) (state.probeSpill.files id) (state.members id) := by
  have dividing := accounted.dividing id
  by_cases late : 3 ≤ state.build.shared.barrier.phase
  · rw [Parallel.act_files accounted.ledger late action]
    exact dividing
  · obtain ⟨taken,writer,open_⟩ := (accounted.positioned id).early (Nat.not_le.mp late)
    refine ⟨dividing.given,fun _ => ⟨?_,(dividing.writes open_).2⟩,fun done => ?_⟩
    · rw [taken,writer]
      exact start_writes config n _
    · rw [open_] at done
      cases done

theorem Accounted.build_positioned (accounted : Accounted inners outers state) {action : Parallel.Action (Fin n)}
    (free : state.partitioning action.id = false) (id : Fin n) :
    Positioned (state.build.act (sharedConfig config n) action).shared
      ((state.build.act (sharedConfig config n) action).locals id).pc (state.members id) := by
  have positioned := accounted.positioned id
  have later := Parallel.act_later accounted.ledger action
  -- Whoever has shut down stays away, and phase 3 goes on as it was decided.
  have stays (behind : 3 ≤ state.build.shared.barrier.phase ∧
      (state.build.shared.barrier.phase = 3 → state.build.shared.spilled = false)) :
      3 ≤ (state.build.act (sharedConfig config n) action).shared.barrier.phase ∧
        ((state.build.act (sharedConfig config n) action).shared.barrier.phase = 3 →
          (state.build.act (sharedConfig config n) action).shared.spilled = false) := by
    refine ⟨Nat.le_trans behind.1 later,fun third => ?_⟩
    rw [Parallel.act_decided accounted.ledger (by omega)]
    exact behind.2 (by omega)
  by_cases own : id = action.id
  · subst own
    refine ⟨fun early => positioned.early (Nat.lt_of_le_of_lt later early),fun open_ _ => ?_,fun meets => ?_,fun gone => ?_⟩
    · by_cases here : (state.build.locals action.id).pc = .probe
      · rw [partitioned_of_probe free here] at open_
        cases open_
      · exact positioned.idle open_ here
    · cases action with
      | run actor =>
        simp only [Parallel.State.act,Parallel.Action.id,Function.update_self] at meets
        rcases execute_meeting (sharedConfig config n) actor state.build.shared _ meets with here | met
        · exact partitioned_of_probe free here
        · exact positioned.met met
      | shutdown actor =>
        simp only [Parallel.State.act,Parallel.Action.id] at meets
        split at meets
        · simp only [Function.update_self] at meets
          cases meets
        · exact positioned.met meets
    · cases action with
      | run actor =>
        simp only [Parallel.State.act,Parallel.Action.id,Function.update_self] at gone
        exact stays (positioned.gone (execute_detached (sharedConfig config n) actor state.build.shared _ gone))
      | shutdown actor =>
        by_cases late : (state.build.locals actor).pc.late = true
        · exact stays ((accounted.ledger.protocol.placed actor).late late)
        · simp only [Parallel.State.act,Parallel.Action.id] at gone
          split at gone
          · rename_i left_
            rw [left_] at late
            exact absurd rfl late
          · exact stays (positioned.gone gone)
  · rw [Parallel.act_other (sharedConfig config n) state.build action own]
    exact ⟨fun early => positioned.early (Nat.lt_of_le_of_lt later early),positioned.idle,positioned.met,
      fun gone => stays (positioned.gone gone)⟩

theorem Accounted.build (accounted : Accounted inners outers state) {action : Parallel.Action (Fin n)}
    (free : state.partitioning action.id = false) :
    Accounted inners outers {state with build := state.build.act (sharedConfig config n) action} := by
  refine ⟨Parallel.act_ledger _ accounted.ledger action,Parallel.act_exported accounted.ledger accounted.inner action,accounted.outer,
    accounted.build_dividing action,accounted.build_positioned free,fun late => ?_⟩
  have begun : state.build.shared.barrier.phase ≠ 0 := by
    rcases Parallel.act_phase (sharedConfig config n) accounted.ledger.protocol action with same | ⟨next,_⟩ <;>
      (change 4 ≤ (state.build.act (sharedConfig config n) action).shared.barrier.phase at late; omega)
  change (state.build.act (sharedConfig config n) action).shared.spilled = true
  rw [Parallel.act_decided accounted.ledger begun]
  rcases Parallel.act_phase (sharedConfig config n) accounted.ledger.protocol action with same | ⟨next,arrives,_⟩
  · exact accounted.spilled (same ▸ late)
  · by_cases before : 4 ≤ state.build.shared.barrier.phase
    · exact accounted.spilled before
    · have third : state.build.shared.barrier.phase = 3 := by
        change 4 ≤ (state.build.act (sharedConfig config n) action).shared.barrier.phase at late
        omega
      rw [third] at arrives
      exact ((accounted.ledger.protocol.placed action.id).meeting 3 (by rw [arrives]; rfl)).2 rfl

/-! A turn of `partition_probe`. -/

/-- A turn of it cannot fail, and what the others have exported stays. -/
theorem Accounted.turn (accounted : Accounted inners outers state) {id : Fin n} (open_ : (state.members id).partitioned = false) :
    ∃ spill own, state.partitionTurn id (state.members id) = .ok (spill,own) ∧ Exported config.nouterColumns spill ∧
      (∀ other, other ≠ id → spill.files other = state.probeSpill.files other) ∧
      Dividing config n state.built (outers id) (spill.files id) own := by
  have dividing := accounted.dividing id
  obtain ⟨writes,files⟩ := dividing.writes open_
  unfold JoinState.partitionTurn
  cases input : (state.members id).outer with
  | nil =>
    obtain ⟨spill,writer,ran,exported,others,contents⟩ :=
      accounted.outer.finish id writes.writable.valid writes.writable.ncolumns writes.writable.unfinished
    refine ⟨spill,{state.members id with outer := [], probeWriter := some writer, partitioned := true},
      by simp only [bind,Except.bind,ran],exported,others,?_,fun unfinished => Bool.noConfusion unfinished,fun _ => ⟨rfl,?_⟩⟩
    · rw [← dividing.given,input]
    · intro partition
      rw [contents,writes.contents]
  | cons batch rest =>
    obtain ⟨writer,ran,writes'⟩ := partitionProbeBatch_ok (accounted.inner.holds _) writes batch
    refine ⟨state.probeSpill,_,by simp only [bind,Except.bind,ran]; rfl,accounted.outer,fun _ _ => rfl,?_,fun _ => ⟨?_,files⟩,
      fun done => ?_⟩
    · change (state.members id).taken ++ [batch] ++ rest = _
      rw [← dividing.given,input,List.append_assoc]
      rfl
    · change ProbeWrites config n state.built writer (((state.members id).taken ++ [batch]).flatMap (outerRows config))
      rw [List.flatMap_append,List.flatMap_singleton]
      exact writes'
    · change (state.members id).partitioned = true at done
      rw [open_] at done
      cases done

omit [Inhabited ι] in
theorem partitioning_probe {id : Fin n} (busy : state.partitioning id = true) :
    (state.build.locals id).pc = .probe ∧ (state.members id).partitioned = false := by
  unfold JoinState.partitioning at busy
  split at busy
  · rename_i here
    exact ⟨here,by simpa using busy⟩
  · cases busy

theorem Accounted.partition (accounted : Accounted inners outers state) {id : Fin n} (busy : state.partitioning id = true)
    (running : (state.outputs id).status = .running) :
    Accounted inners outers (state.partition id) ∧ (state.partition id).outputs = state.outputs ∧
      (state.partition id).nextPartition = state.nextPartition ∧ (state.partition id).build = state.build := by
  obtain ⟨here,open_⟩ := partitioning_probe busy
  obtain ⟨spill,own,ran,exported,others,dividing⟩ := accounted.turn open_
  have phase := (accounted.ledger.protocol.placed id).home 3 (by rw [here]; rfl)
  have turned : state.partition id = {state with probeSpill := spill, members := Function.update state.members id own} := by
    rw [JoinState.partition,running]
    simp only [ran]
  rw [turned]
  refine ⟨⟨accounted.ledger,accounted.inner,exported,fun other => ?_,fun other => ?_,accounted.spilled⟩,rfl,rfl,rfl⟩
  · by_cases same : other = id
    · subst same
      simp only [Function.update_self]
      exact dividing
    · simp only [Function.update_of_ne same,others other same]
      exact accounted.dividing other
  · by_cases same : other = id
    · subst same
      refine ⟨fun early => ?_,fun _ away => absurd here away,fun meets => ?_,fun gone => ?_⟩
      · change state.build.shared.barrier.phase < 3 at early
        omega
      · rw [here] at meets
        cases meets
      · rw [here] at gone
        cases gone
    · simp only [Function.update_of_ne same]
      exact accounted.positioned other

/-! Any step. -/

omit [Inhabited ι] in
/-- Output begins behind phase 3. -/
theorem Accounted.left_late (accounted : Accounted inners outers state) {id : Fin n}
    (here : (state.build.locals id).pc = .left true) : 4 ≤ state.build.shared.barrier.phase := by
  obtain ⟨behind,unspilled⟩ := (accounted.ledger.protocol.placed id).late (by rw [here]; rfl)
  obtain ⟨spilled,_⟩ := (accounted.ledger.protocol.placed id).saw true (by rw [here]; rfl)
  by_contra early
  have := unspilled (by omega)
  rw [spilled] at this
  cases this

omit [Inhabited ι] in
/-- Behind phase 3 nothing is left to be divided. -/
theorem Accounted.unpartitioning (accounted : Accounted inners outers state) (late : 4 ≤ state.build.shared.barrier.phase)
    (id : Fin n) : state.partitioning id = false := by
  rw [Bool.eq_false_iff]
  intro busy
  have phase := (accounted.ledger.protocol.placed id).home 3 (by rw [(partitioning_probe busy).1]; rfl)
  omega

variable {missing : String} {capacity : Nat}

theorem partition_build (state : JoinState config n ι) (id : Fin n) : (state.partition id).build = state.build := by
  unfold JoinState.partition
  (repeat' split) <;> rfl

theorem produce_frame (missing : String) (capacity : Nat) (state : JoinState config n ι) (id : Fin n) : (state.produce missing capacity id).build = state.build ∧
    (state.produce missing capacity id).probeSpill = state.probeSpill ∧
    (state.produce missing capacity id).members = state.members := by
  unfold JoinState.produce
  split <;> exact ⟨rfl,rfl,rfl⟩

/-- Only a step of the build moves the build. -/
theorem act_build (missing : String) (capacity : Nat) (state : JoinState config n ι) (action : JoinAction n) :
    (state.act missing capacity action).build = state.build ∨ ∃ step, action = .build step ∧ state.partitioning step.id = false := by
  cases action with
  | build step =>
    cases busy : state.partitioning step.id with
    | true =>
      left
      rw [JoinState.act,busy]
      rfl
    | false => exact .inr ⟨step,rfl,busy⟩
  | probe id =>
    left
    rw [JoinState.act]
    split
    · exact partition_build state id
    · rfl
  | output id => exact .inl (produce_frame missing capacity state id).1

theorem act_free {step : Parallel.Action (Fin n)} (free : state.partitioning step.id = false) :
    state.act missing capacity (.build step) = {state with build := state.build.act (sharedConfig config n) step} := by
  rw [JoinState.act,free]
  rfl

theorem Accounted.act (accounted : Accounted inners outers state) (action : JoinAction n) :
    Accounted inners outers (state.act missing capacity action) := by
  cases action with
  | build step =>
    cases free : state.partitioning step.id with
    | true =>
      rw [JoinState.act,free]
      exact accounted
    | false =>
      rw [act_free free]
      exact accounted.build free
  | probe id =>
    rw [JoinState.act]
    split
    · rename_i busy
      cases running : (state.outputs id).status with
      | running => exact (accounted.partition busy running).1
      | ended | failed _ =>
        rw [JoinState.partition,running]
        exact accounted
    · exact accounted
  | output id =>
    obtain ⟨build,spill,members⟩ := produce_frame missing capacity state id
    change Accounted inners outers (state.produce missing capacity id)
    generalize state.produce missing capacity id = next at build spill members
    obtain ⟨_,_,_,_,_⟩ := next
    subst build
    subst spill
    subst members
    exact ⟨accounted.ledger,accounted.inner,accounted.outer,accounted.dividing,accounted.positioned,accounted.spilled⟩

/-! Who has come in time reads all of its batches. -/

/-- A participant that came before phase 4. -/
def Entered (state : JoinState config n ι) (id : Fin n) : Prop :=
  if state.build.shared.barrier.phase < 4 then (state.build.locals id).pc ≠ .outside else (state.members id).partitioned = true

/-- When phase 3 is over, it has divided its outer batches. -/
theorem Accounted.entered_build (accounted : Accounted inners outers state) {action : Parallel.Action (Fin n)}
    (free : state.partitioning action.id = false) {id : Fin n} (early : state.build.shared.barrier.phase < 4)
    (entered : (state.build.locals id).pc ≠ .outside)
    (late : 4 ≤ (state.build.act (sharedConfig config n) action).shared.barrier.phase) : (state.members id).partitioned = true := by
  have positioned := accounted.positioned id
  rcases Parallel.act_phase (sharedConfig config n) accounted.ledger.protocol action with same | ⟨next,arrives,others⟩
  · omega
  have third : state.build.shared.barrier.phase = 3 := by omega
  rw [third] at arrives others
  by_cases own : id = action.id
  · subst own
    exact positioned.met (by rw [arrives]; rfl)
  rcases others id own with away | waits
  · cases position : (state.build.locals id).pc with
    | outside => exact absurd position entered
    | detached =>
      have unspilled := (positioned.gone position).2 third
      have spilled := (accounted.build free).spilled late
      change (state.build.act (sharedConfig config n) action).shared.spilled = true at spilled
      rw [Parallel.act_decided accounted.ledger (by omega),unspilled] at spilled
      cases spilled
    | _ => simp [position,Parallel.Pc.status] at away
  · cases position : (state.build.locals id).pc with
    | wait case start =>
      have start_ := (accounted.ledger.protocol.placed id).case_ case start position
      simp only [position,Parallel.Pc.status,Barriers.Party.waiting.injEq] at waits
      refine positioned.met ?_
      rw [position,start_,waits]
      rfl
    | _ => simp [position,Parallel.Pc.status] at waits

theorem Accounted.act_members (accounted : Accounted inners outers state) (late : 4 ≤ state.build.shared.barrier.phase)
    (action : JoinAction n) : (state.act missing capacity action).members = state.members := by
  cases action with
  | build step =>
    rw [JoinState.act]
    split <;> rfl
  | probe id => rw [JoinState.act,accounted.unpartitioning late id,if_neg Bool.false_ne_true]
  | output id => exact (produce_frame missing capacity state id).2.2

theorem Accounted.entered_act (accounted : Accounted inners outers state) (action : JoinAction n) {id : Fin n}
    (entered : Entered state id) : Entered (state.act missing capacity action) id := by
  unfold Entered at entered ⊢
  by_cases early : state.build.shared.barrier.phase < 4
  · rw [if_pos early] at entered
    rcases act_build missing capacity state action with same | ⟨step,rfl,free⟩
    · rw [same,if_pos early]
      exact entered
    · rw [act_free free]
      split
      · by_cases own : id = step.id
        · subst own
          cases step with
          | run actor =>
            simp only [Parallel.State.act,Parallel.Action.id,Function.update_self]
            exact Parallel.execute_inside (sharedConfig config n) actor state.build.shared _ entered
          | shutdown actor =>
            simp only [Parallel.State.act,Parallel.Action.id]
            split
            · simp
            · exact entered
        · rw [Parallel.act_other (sharedConfig config n) state.build step own]
          exact entered
      · rename_i late
        exact accounted.entered_build free early entered (Nat.not_lt.mp late)
  · rw [if_neg early] at entered
    have late := Nat.not_lt.mp early
    have later : ¬ (state.act missing capacity action).build.shared.barrier.phase < 4 := by
      rcases act_build missing capacity state action with same | ⟨step,rfl,free⟩
      · rw [same]
        exact early
      · rw [act_free free]
        exact Nat.not_lt.mpr (Nat.le_trans late (Parallel.act_later accounted.ledger step))
    rw [if_neg later,accounted.act_members late]
    exact entered

end Steps

end PgBatch.ParallelJoin
