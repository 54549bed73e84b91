import PgBatch.Nodes.ParallelBuildBudget
import PgBatch.Nodes.SharedChainsRun

/-! The table of a shared build that keeps all its rows in memory. Whatever else they do, the
participants of `parallel_hash_join_prepare` link the published chunks as in `SharedChains`: their
runs are simulated by runs of that system over the chunks that phase 0 left. -/
namespace PgBatch.Parallel
open Words Columnar Chains
open SharedChains (Table)
variable {ι τ : Type} [Inhabited τ]

/-- The memory that linking writes is that of the other system. -/
structure Views (table : Table τ) (shared : Shared ι τ) (chains : SharedChains.Shared) : Prop where
  heads : shared.bucketHeads = chains.heads
  links : ∀ place, table.Holds place → shared.links (rowId place.1 place.2) = chains.links place
  duplicates : shared.hasDuplicates = chains.hasDuplicates
  next : shared.nextChunk = chains.nextChunk

/-- A participant and what it is in the other system. One that failed over its bucket array has a chunk
for ever; one that has no chunk is either still to claim its first one or has met the end of the chunks. -/
inductive Follows (table : Table τ) (phase : Nat) : Pc τ → SharedChains.Pc → Prop
  | link (index row : Nat) : Follows table phase (.link index (table.chunk index) row) (.row index row)
  | swap (index row head : Nat) : Follows table phase (.swap index (table.chunk index) row head) (.store index row head)
  | inspect (index row : Nat) : Follows table phase (.inspect index (table.chunk index) row) (.inspect index row)
  | detect (index row link : Nat) : Follows table phase (.detect index (table.chunk index) row link) (.detect index row link)
  | stuck (fault : Fault) (other : SharedChains.Pc) : Follows table phase (.stuck 2 fault) other
  | idle (pc : Pc τ) (other : SharedChains.Pc) (elsewhere : pc.linking = false) (place : other.place = none)
      (fresh : phase ≤ 2 → pc.swept = false → other = .claim) : Follows table phase pc other

/-- What is settled about the table when the chunks are linked. -/
structure Settles (table : Table τ) (shared : Shared ι τ) : Prop where
  directory : 0 < shared.nchunks → shared.directory.isSome = true ∧ shared.directoryChunks = table.chunks
  counted : shared.nchunks = table.chunks.length
  nbuckets : shared.nbuckets = table.nbuckets

theorem Follows.later {table : Table τ} {phase phase' : Nat} {pc : Pc τ} {other : SharedChains.Pc} (grows : phase ≤ phase')
    (follows : Follows table phase pc other) : Follows table phase' pc other := by
  cases follows with
  | link index row => exact .link index row
  | swap index row head => exact .swap index row head
  | inspect index row => exact .inspect index row
  | detect index row link => exact .detect index row link
  | stuck fault => exact .stuck fault other
  | idle _ _ elsewhere place fresh => exact .idle pc other elsewhere place fun early => fresh (Nat.le_trans grows early)

omit [Inhabited τ] in
theorem rowId_apart {table : Table τ} [Inhabited τ] {left right : Nat × Nat} (one : table.Holds left) (two : table.Holds right)
    (same : rowId left.1 left.2 = rowId right.1 right.2) : left = right := by
  rw [← one.number,← two.number] at same
  have decoded := one.coded.2
  rw [same,two.coded.2] at decoded
  exact (Except.ok.inj decoded).symm

variable [DecidableEq ι]

/-- Some steps of the other system lead to where this participant is now. -/
def Simulates (table : Table τ) (id : ι) (chains : SharedChains.State ι) (after : Shared ι τ) (later : Pc τ) : Prop :=
  ∃ chains', SharedChains.Invariant table chains' ∧ Views table after chains'.shared ∧
    Follows table after.barrier.phase later (chains'.pcs id) ∧ ∀ other, other ≠ id → chains'.pcs other = chains.pcs other

section Step
variable {table : Table τ} {config : Config} {id : ι} {shared after : Shared ι τ} {own : Local τ} {later : Pc τ}
  {chains : SharedChains.State ι}

omit [DecidableEq ι] in
theorem Simulates.none (invariant : SharedChains.Invariant table chains) (views : Views table after chains.shared)
    (follows : Follows table after.barrier.phase later (chains.pcs id)) : Simulates table id chains after later :=
  ⟨chains,invariant,views,follows,fun _ _ => rfl⟩

/-- One step of the other system, and then some. -/
theorem Simulates.step {moved : SharedChains.Shared} {pc : SharedChains.Pc} (invariant : SharedChains.Invariant table chains)
    (goes : SharedChains.execute table chains.shared (chains.pcs id) = (moved,pc))
    (rest : SharedChains.Invariant table ⟨moved,Function.update chains.pcs id pc⟩ →
      Simulates table id ⟨moved,Function.update chains.pcs id pc⟩ after later) : Simulates table id chains after later := by
  have kept := SharedChains.act_invariant invariant id
  rw [SharedChains.State.act,goes] at kept
  obtain ⟨chains',invariant',views,follows,others⟩ := rest kept
  refine ⟨chains',invariant',views,follows,fun other apart => ?_⟩
  rw [others other apart]
  exact Function.update_of_ne apart ..

/-- The last step of them. -/
theorem Simulates.last {moved : SharedChains.Shared} {pc : SharedChains.Pc} (invariant : SharedChains.Invariant table chains)
    (goes : SharedChains.execute table chains.shared (chains.pcs id) = (moved,pc)) (views : Views table after moved)
    (follows : Follows table after.barrier.phase later pc) : Simulates table id chains after later := by
  refine .step invariant goes fun kept => .none kept views ?_
  simp only [Function.update_self]
  exact follows

omit [DecidableEq ι] in
/-- A participant without a chunk moves on outside the loop over the chunks. -/
theorem idle_simulates (invariant : SharedChains.Invariant table chains) (views : Views table shared chains.shared)
    {barrier : Barriers.Barrier} {pc : Pc τ} (place : (chains.pcs id).place = none)
    (fresh : shared.barrier.phase ≤ 2 → pc.swept = false → chains.pcs id = .claim)
    (elsewhere : later.linking = false) (grows : shared.barrier.phase ≤ barrier.phase)
    (swept : barrier.phase ≤ 2 → later.swept = false → pc.swept = false) :
    Simulates table id chains {shared with barrier := barrier} later :=
  .none invariant ⟨views.heads,views.links,views.duplicates,views.next⟩
    (.idle later _ elsewhere place fun early still => fresh (Nat.le_trans grows early) (swept early still))

theorem link_simulates (settles : Settles table shared) (invariant : SharedChains.Invariant table chains)
    (views : Views table shared chains.shared) {index row : Nat} (position : own.pc = .link index (table.chunk index) row)
    (here : chains.pcs id = .row index row) :
    Simulates table id chains (execute config id shared own).1 (execute config id shared own).2.pc := by
  simp only [execute,position]
  by_cases last : (table.chunk index).nrows ≤ row
  · rw [if_pos last]
    refine .last invariant (by rw [here,SharedChains.execute,if_pos last]) views ?_
    exact .idle _ _ rfl rfl fun _ _ => rfl
  · rw [if_neg last]
    cases own.buckets with
    | none => exact .none invariant views (.stuck ..)
    | some pointer =>
      have head : shared.bucketHeads (bucketOf shared ((table.chunk index).hashes row)) =
          chains.shared.heads (table.bucket (table.hash (index,row))) := by
        rw [views.heads,bucketOf,settles.nbuckets]
        rfl
      refine .last invariant (by rw [here,SharedChains.execute,if_neg last]) views ?_
      simp only [head]
      exact .swap ..

/-- The store of a link and the swap of the head behind it are two steps of the other system. -/
theorem swap_simulates (settles : Settles table shared) (invariant : SharedChains.Invariant table chains)
    (views : Views table shared chains.shared) {index row head : Nat}
    (position : own.pc = .swap index (table.chunk index) row head) (here : chains.pcs id = .store index row head) :
    Simulates table id chains (execute config id shared own).1 (execute config id shared own).2.pc := by
  have fits := invariant.fits id
  rw [here] at fits
  have bucket : bucketOf shared ((table.chunk index).hashes row) = table.bucket (table.hash (index,row)) := by
    rw [bucketOf,settles.nbuckets]
    rfl
  have links (place : Nat × Nat) (holds : table.Holds place) :
      Function.update shared.links (rowId index row) head (rowId place.1 place.2) =
        Function.update chains.shared.links (index,row) head place := by
    by_cases same : place = (index,row)
    · rw [same,Function.update_self,Function.update_self]
    · rw [Function.update_of_ne fun equal => same (rowId_apart holds fits.2 equal),Function.update_of_ne same]
      exact views.links place holds
  simp only [execute,position,bucket]
  refine .step invariant (by rw [here,SharedChains.execute]) fun stored => ?_
  by_cases current : shared.bucketHeads (table.bucket (table.hash (index,row))) = head
  · rw [if_pos current]
    refine .last stored (by
      simp only [Function.update_self,SharedChains.execute]
      rw [if_pos (by rw [← views.heads]; exact current)]) ?_ (.inspect ..)
    exact ⟨by simp only [views.heads]; rfl,links,views.duplicates,views.next⟩
  · rw [if_neg current]
    refine .last stored (by
      simp only [Function.update_self,SharedChains.execute]
      rw [if_neg (by rw [← views.heads]; exact current)]) ?_ ?_
    · exact ⟨views.heads,links,views.duplicates,views.next⟩
    · rw [views.heads]
      exact .swap ..

theorem inspect_simulates (invariant : SharedChains.Invariant table chains) (views : Views table shared chains.shared)
    {index row : Nat} (position : own.pc = .inspect index (table.chunk index) row) (here : chains.pcs id = .inspect index row) :
    Simulates table id chains (execute config id shared own).1 (execute config id shared own).2.pc := by
  have fits := invariant.fits id
  rw [here] at fits
  simp only [execute,position]
  refine .last invariant (by rw [here,SharedChains.execute]) views ?_
  rw [views.duplicates,views.links (index,row) fits.2.1]
  split
  · exact .link ..
  · exact .detect ..

/-- The link of a search leads to a row of the table. -/
theorem detect_simulates (same : table.config = config) (settles : Settles table shared)
    (invariant : SharedChains.Invariant table chains) (views : Views table shared chains.shared) {index row link : Nat}
    (position : own.pc = .detect index (table.chunk index) row link) (here : chains.pcs id = .detect index row link) :
    Simulates table id chains (execute config id shared own).1 (execute config id shared own).2.pc := by
  have fits := invariant.fits id
  rw [here] at fits
  obtain ⟨_,holds,later,before,passed,rest,pushed,split_,chain,_⟩ := fits
  simp only [execute,position]
  cases chain with
  | nil =>
    rw [if_pos rfl]
    exact .last invariant (by rw [here,SharedChains.execute,if_pos rfl]) views (.link ..)
  | cons other rest tail =>
    have member : other ∈ chains.shared.pushed := by
      rw [pushed]
      refine List.mem_append_right _ (List.mem_cons_of_mem _ ?_)
      have inside : other ∈ table.inBucket (table.bucket (table.hash (index,row))) before := by
        rw [split_]
        exact List.mem_append_right _ (List.mem_cons_self ..)
      exact (List.mem_filter.mp inside).1
    have held := invariant.pushed_holds member
    obtain ⟨nonzero,decoded⟩ := held.coded
    have number := held.number
    have inside : ¬ shared.nchunks ≤ (Table.code other - 1) / chunkRows := by
      rw [settles.counted]
      intro beyond
      rw [Table.rowChunk,if_pos beyond] at decoded
      cases decoded
    have found : other = ((Table.code other - 1) / chunkRows,(Table.code other - 1) % chunkRows) := by
      rw [Table.rowChunk,if_neg (by rw [← settles.counted]; exact inside)] at decoded
      exact (Except.ok.inj decoded).symm
    have index_ : (Table.code other - 1) / chunkRows = other.1 := congrArg Prod.fst found.symm
    have row_ : (Table.code other - 1) % chunkRows = other.2 := congrArg Prod.snd found.symm
    have entry : shared.directoryChunks[(Table.code other - 1) / chunkRows]? = some (table.chunk other.1) := by
      have below : other.1 < table.chunks.length := held.1
      have some_ : 0 < shared.nchunks := by
        rw [settles.counted]
        omega
      rw [(settles.directory some_).2,index_,List.getElem?_eq_getElem below,Table.chunk,
        List.getD_eq_getElem _ _ below]
    rw [if_neg nonzero,if_neg inside]
    cases own.directory with
    | none => exact .none invariant views (.stuck ..)
    | some pointer =>
      simp only [entry,row_]
      by_cases twins : table.duplicate (index,row) other = true
      · rw [if_pos (by rw [← same]; exact twins)]
        refine .last invariant (by
          rw [here,SharedChains.execute,if_neg nonzero]
          simp only [decoded]
          rw [if_pos twins]) ?_ (.link ..)
        exact ⟨views.heads,views.links,rfl,views.next⟩
      · rw [if_neg (by rw [← same]; exact twins)]
        refine .last invariant (by
          rw [here,SharedChains.execute,if_neg nonzero]
          simp only [decoded]
          rw [if_neg twins]) views ?_
        rw [number,views.links other held]
        exact .detect ..

omit [Inhabited τ] [DecidableEq ι] in
theorem afterBarrier_linking (case : Nat) (elected : Bool) : (afterBarrier case elected : Pc τ).linking = false := by
  unfold afterBarrier
  split
  · cases elected <;> rfl
  · rfl
  · rfl

theorem claim_simulates (settles : Settles table shared) (invariant : SharedChains.Invariant table chains)
    (views : Views table shared chains.shared) (position : own.pc = .claim false) (here : chains.pcs id = .claim) :
    Simulates table id chains (execute config id shared own).1 (execute config id shared own).2.pc := by
  simp only [execute,position]
  by_cases last : shared.nchunks ≤ shared.nextChunk
  · rw [if_pos last]
    have goes : SharedChains.execute table chains.shared (chains.pcs id) =
        ({chains.shared with nextChunk := chains.shared.nextChunk + 1},.done) := by
      rw [here,SharedChains.execute,if_pos (by rw [← settles.counted,← views.next]; exact last)]
    refine .last invariant goes ?_ ?_
    · exact ⟨views.heads,views.links,views.duplicates,congrArg (· + 1) views.next⟩
    · exact .idle _ _ rfl rfl fun _ unswept => by cases unswept
  · rw [if_neg last]
    obtain ⟨allocated,entries⟩ := settles.directory (by omega)
    obtain ⟨pointer,found⟩ := Option.isSome_iff_exists.mp allocated
    have below : shared.nextChunk < table.chunks.length := by
      rw [← settles.counted]
      omega
    have entry : shared.directoryChunks[shared.nextChunk]? = some (table.chunk shared.nextChunk) := by
      rw [entries,List.getElem?_eq_getElem below,Table.chunk,List.getD_eq_getElem _ _ below]
    simp only [found,entry]
    refine .last invariant (by
      rw [here,SharedChains.execute,if_neg (by rw [← settles.counted,← views.next]; exact last)]) ?_ ?_
    · exact ⟨views.heads,views.links,views.duplicates,congrArg (· + 1) views.next⟩
    · rw [← views.next]
      exact .link ..

/-- One access of a participant without a chunk. -/
theorem idle_execute (settles : Settles table shared) (placed : Placed shared own.pc) (second : 2 ≤ shared.barrier.phase)
    (unspilled : shared.spilled = false) (invariant : SharedChains.Invariant table chains)
    (views : Views table shared chains.shared) (elsewhere : own.pc.linking = false) (place : (chains.pcs id).place = none)
    (fresh : shared.barrier.phase ≤ 2 → own.pc.swept = false → chains.pcs id = .claim) :
    Simulates table id chains (execute config id shared own).1 (execute config id shared own).2.pc := by
  have home := placed.home
  have saw := placed.saw
  have stays {pc : Pc τ} (away : pc.linking = false)
      (swept : shared.barrier.phase ≤ 2 → pc.swept = false → own.pc.swept = false) : Simulates table id chains shared pc := by
    have idle : Simulates table id chains {shared with barrier := shared.barrier} pc :=
      idle_simulates invariant views place fresh away (Nat.le_refl _) swept
    exact idle
  obtain ⟨pc,input,taken,chunk,directory,buckets,writer⟩ := own
  cases pc with
  | next | decide | append | reserve | refuse | recheck | publish | count | spill | countSpilled =>
    have := home 0 rfl
    omega
  | setup =>
    have := home 1 rfl
    omega
  | link | swap | inspect | detect => cases elsewhere
  | drain chunk =>
    have := (saw true rfl).1
    rw [unspilled] at this
    cases this
  | outside => exact idle_simulates invariant views place fresh rfl (Nat.le_refl _) fun _ _ => rfl
  | loop =>
    simp only [execute]
    refine stays ?_ fun _ _ => rfl
    split <;> rfl
  | arrive case =>
    have phase := home case rfl
    simp only [execute]
    by_cases last : shared.barrier.arrived + 1 = shared.barrier.participants
    · rw [Barriers.Barrier.arrive,if_pos last]
      refine idle_simulates invariant views place fresh (afterBarrier_linking ..) (Nat.le_succ _) fun early => ?_
      dsimp only at early
      omega
    · rw [Barriers.Barrier.arrive,if_neg last]
      exact idle_simulates invariant views place fresh rfl (Nat.le_refl _) fun _ unswept => unswept
  | wait case start =>
    simp only [execute]
    split
    · rename_i released
      have same := Barriers.wake_fields shared.barrier start
      refine idle_simulates invariant views place fresh (afterBarrier_linking ..) (Nat.le_of_eq same.1.symm) fun early _ => ?_
      have := placed.case_ case start rfl
      simp only [Pc.swept,Pc.meeting,beq_eq_false_iff_ne,ne_eq,Option.some.injEq]
      omega
    · exact stays rfl fun _ unswept => unswept
  | bind => exact stays rfl fun _ _ => rfl
  | sweep => exact stays rfl fun _ _ => rfl
  | claim spilled =>
    obtain rfl := (saw spilled rfl).1.symm.trans unspilled
    exact claim_simulates settles invariant views rfl (fresh (Nat.le_of_eq (home 2 rfl)) rfl)
  | finishWriter spilled =>
    obtain rfl := (saw spilled rfl).1.symm.trans unspilled
    exact stays rfl fun _ unswept => by cases unswept
  | branch =>
    simp only [execute,unspilled]
    exact stays rfl fun _ _ => rfl
  | probe =>
    have := (saw true rfl).1
    rw [unspilled] at this
    cases this
  | ready => exact stays rfl fun _ _ => rfl
  | left spilled =>
    obtain rfl := (saw spilled rfl).1.symm.trans unspilled
    simp only [execute]
    split
    · exact stays rfl fun _ _ => rfl
    · exact stays rfl fun _ _ => rfl
  | detached => exact stays rfl fun _ _ => rfl
  | stuck case fault => exact stays rfl fun _ _ => rfl

/-- One access. -/
theorem execute_simulates (same : table.config = config) (settles : Settles table shared) (placed : Placed shared own.pc)
    (second : 2 ≤ shared.barrier.phase) (unspilled : shared.spilled = false)
    (invariant : SharedChains.Invariant table chains) (views : Views table shared chains.shared)
    (follows : Follows table shared.barrier.phase own.pc (chains.pcs id)) :
    Simulates table id chains (execute config id shared own).1 (execute config id shared own).2.pc := by
  generalize position : own.pc = pc at follows
  generalize here : chains.pcs id = other at follows
  cases follows with
  | link index row => exact link_simulates settles invariant views position here
  | swap index row head => exact swap_simulates settles invariant views position here
  | inspect index row => exact inspect_simulates invariant views position here
  | detect index row link => exact detect_simulates same settles invariant views position here
  | stuck fault =>
    simp only [execute,position]
    exact .none invariant views (.stuck ..)
  | idle _ _ elsewhere place fresh =>
    subst position
    subst here
    exact idle_execute settles placed second unspilled invariant views elsewhere place fresh

end Step

/-! Whole runs. -/

/-- Nothing is linked before phase 2; behind that the participants are simulated, with any table over
the chunks that were published. -/
structure Linking (config : Config) (state : State ι τ) : Prop where
  early : state.shared.barrier.phase < 2 →
    state.shared.bucketHeads = (fun _ => 0) ∧ state.shared.links = (fun _ => 0) ∧ state.shared.hasDuplicates = false
  simulated : 2 ≤ state.shared.barrier.phase → state.shared.spilled = false → ∀ table : Table τ, table.config = config →
    table.chunks = state.shared.chunks → ∃ chains : SharedChains.State ι, SharedChains.Invariant table chains ∧
      Views table state.shared chains.shared ∧ ∀ id, Follows table state.shared.barrier.phase (state.locals id).pc (chains.pcs id)

omit [DecidableEq ι] [Inhabited τ] in
theorem length_storedRows (config : Config) (chunks : List (Store τ)) :
    (storedRows config chunks).length = (chunks.map (·.nrows)).sum := by
  simp only [storedRows,List.length_flatMap,length_rows]

variable [Fintype ι] {config : Config} {inputs : ι → List (Batch τ)} {state : State ι τ}

omit [Inhabited τ] [DecidableEq ι] in
theorem budget_settles (budget : Budget config inputs state) (second : 2 ≤ state.shared.barrier.phase)
    (unspilled : state.shared.spilled = false) {table : Table τ} (chunks : table.chunks = state.shared.chunks) :
    Settles table state.shared := by
  have settled := protocol_settled budget.ledger.protocol second
  refine ⟨?_,?_,?_⟩
  · rw [chunks]
    exact settled.directory
  · rw [chunks]
    exact budget.ledger.protocol.counted
  · rw [budget.sized.buckets unspilled (settled.buckets unspilled),
      (ledger_counted budget.ledger (Nat.le_of_succ_le second) unspilled).2,length_storedRows,Table.nbuckets,chunks]

omit [Fintype ι] in
/-- A step of the first two phases. -/
theorem execute_unlinked (id : ι) {shared : Shared ι τ} {own : Local τ} (before : own.pc.home ≠ some 2)
    (zero : shared.bucketHeads = (fun _ => 0) ∧ shared.links = (fun _ => 0) ∧ shared.hasDuplicates = false) :
    (execute config id shared own).1.bucketHeads = (fun _ => 0) ∧ (execute config id shared own).1.links = (fun _ => 0) ∧
      (execute config id shared own).1.hasDuplicates = false := by
  obtain ⟨pc,input,taken,chunk,directory,buckets,writer⟩ := own
  cases pc with
  | setup =>
    simp only [execute,setupSharedHash]
    split <;> split <;> first | exact zero | exact ⟨rfl,zero.2⟩
  | bind | sweep | claim | drain | link | swap | inspect | detect | finishWriter => exact absurd rfl before
  | _ =>
    unfold execute
    dsimp only
    (repeat' split) <;> exact zero

omit [Fintype ι] in
/-- Outside phase 0 the chunks and the decision to spill stay as they are. -/
theorem execute_published (config : Config) (id : ι) {shared : Shared ι τ} {own : Local τ} (placed : Placed shared own.pc)
    (later : shared.barrier.phase ≠ 0) : (execute config id shared own).1.chunks = shared.chunks ∧
      (execute config id shared own).1.spilled = shared.spilled := by
  cases meets : own.pc.meets with
  | true =>
    obtain ⟨barrier,same⟩ := execute_meets config id shared own meets
    rw [same]
    exact ⟨rfl,rfl⟩
  | false =>
    have quiet := execute_quiet config id shared own meets
    have away : own.pc.home ≠ some 0 := fun home => later (placed.home 0 home)
    exact ⟨(quiet.chunks away).1,quiet.decided away⟩

omit [Inhabited τ] [DecidableEq ι] [Fintype ι] in
theorem linking_home {pc : Pc τ} (linking : pc.linking = true) : pc.home = some 2 := by
  cases pc <;> first | rfl | cases linking

omit [Fintype ι] in
/-- A shutdown detaches a participant that has left. -/
theorem shutdown_local (config : Config) (state : State ι τ) (id other : ι) :
    (state.act config (.shutdown id)).locals other = state.locals other ∨ ∃ spilled, (state.locals other).pc = .left spilled ∧
      (state.act config (.shutdown id)).locals other = {state.locals other with pc := .detached} := by
  by_cases mine : other = id
  · subst mine
    simp only [State.act]
    split
    · rename_i spilled left
      exact .inr ⟨spilled,left,by simp only [Function.update_self]⟩
    · exact .inl rfl
  · exact .inl (act_other config state (.shutdown id) mine)

theorem act_linking (budget : Budget config inputs state) (linking : Linking config state) (action : Action ι) :
    Linking config (state.act config action) := by
  have protocol := budget.ledger.protocol
  have phase := act_phase config protocol action
  by_cases first : state.shared.barrier.phase < 2
  · have zero := linking.early first
    have zero' : (state.act config action).shared.bucketHeads = (fun _ => 0) ∧
        (state.act config action).shared.links = (fun _ => 0) ∧ (state.act config action).shared.hasDuplicates = false := by
      cases action with
      | run id =>
        exact execute_unlinked id (fun home => by have := (protocol.placed id).home 2 home; omega) zero
      | shutdown id =>
        obtain ⟨barrier,same⟩ := shutdown_shared config state id
        rw [same]
        exact zero
    refine ⟨fun _ => zero',fun second unspilled table same chunks => ?_⟩
    -- The last one arrives in phase 1, with no chunk claimed and nothing linked.
    obtain ⟨_,arrives,_⟩ := phase.resolve_left (by omega)
    cases action with
    | shutdown id =>
      simp only [State.act,Action.id] at second arrives
      rw [arrives] at second
      dsimp only at second
      omega
    | run id =>
      obtain ⟨barrier,moved⟩ := execute_meets config id state.shared (state.locals id) (by
        simp only [Action.id] at arrives
        rw [arrives]
        rfl)
      refine ⟨.initial,SharedChains.initial_invariant table,⟨zero'.1,?_,zero'.2.2,?_⟩,fun other => ?_⟩
      · intro place _
        rw [zero'.2.1]
        rfl
      · simp only [State.act,moved]
        exact protocol.unclaimed first
      · refine .idle _ _ ?_ rfl fun _ _ => rfl
        by_cases mine : other = id
        · subst mine
          simp only [Action.id] at arrives
          simp only [State.act,Function.update_self,execute,arrives]
          split
          · exact afterBarrier_linking ..
          · rfl
        · rw [act_other config state (.run id) mine]
          by_contra links
          have := (protocol.placed other).home 2 (linking_home (by simpa using links))
          omega
  · refine ⟨fun early => absurd early (by omega),fun _ unspilled table same chunks => ?_⟩
    have second : 2 ≤ state.shared.barrier.phase := by omega
    cases action with
    | shutdown id =>
      obtain ⟨barrier,moved⟩ := shutdown_shared config state id
      rw [moved] at unspilled chunks phase ⊢
      obtain ⟨chains,invariant,views,follows⟩ := linking.simulated second unspilled table same chunks
      refine ⟨chains,invariant,⟨views.heads,views.links,views.duplicates,views.next⟩,fun other => ?_⟩
      have grows : state.shared.barrier.phase ≤ barrier.phase := by
        dsimp only at phase
        omega
      refine Follows.later grows ?_
      have own := follows other
      rcases shutdown_local config state id other with same | ⟨spilled,left,same⟩
      · rw [same]
        exact own
      · rw [same]
        rw [left] at own
        cases own with
        | idle _ _ elsewhere place fresh => exact .idle _ _ rfl place fresh
    | run id =>
      have placed := protocol.placed id
      obtain ⟨kept,decided⟩ := execute_published config id placed (by omega)
      have chunks' : table.chunks = state.shared.chunks := chunks.trans kept
      have unspilled' : state.shared.spilled = false := decided.symm.trans unspilled
      obtain ⟨chains,invariant,views,follows⟩ := linking.simulated second unspilled' table same chunks'
      obtain ⟨chains',invariant',views',follows',others⟩ :=
        execute_simulates same (budget_settles budget second unspilled' chunks') placed second unspilled' invariant views (follows id)
      refine ⟨chains',invariant',views',fun other => ?_⟩
      by_cases mine : other = id
      · subst mine
        simp only [State.act,Function.update_self]
        exact follows'
      · rw [others other mine,act_other config state (.run id) mine]
        refine (follows other).later ?_
        omega

omit [DecidableEq ι] [Inhabited τ] [Fintype ι] in
theorem initial_linking (config : Config) (inputs : ι → List (Batch τ)) [Inhabited τ] :
    Linking config (State.initial config inputs) :=
  ⟨fun _ => ⟨rfl,rfl,rfl⟩,fun second => absurd second (by simp [State.initial,Barriers.Barrier.init])⟩

omit [DecidableEq ι] in
/-- Behind the linking all chunks are linked. -/
theorem Linking.linked (budget : Budget config inputs state) (linking : Linking config state) (ended : 3 ≤ state.shared.barrier.phase)
    (unspilled : state.shared.spilled = false) {table : Table τ} (same : table.config = config)
    (chunks : table.chunks = state.shared.chunks) : ∃ chains : SharedChains.State ι, SharedChains.Invariant table chains ∧
      chains.Linked table ∧ Views table state.shared chains.shared := by
  obtain ⟨chains,invariant,views,follows⟩ := linking.simulated (by omega) unspilled table same chunks
  refine ⟨chains,invariant,⟨?_,fun id => ?_⟩,views⟩
  · rw [← views.next,chunks,← budget.ledger.protocol.counted]
    exact budget.ledger.swept ended
  · have placed := budget.ledger.protocol.placed id
    have own := follows id
    generalize (state.locals id).pc = pc at placed own
    generalize chains.pcs id = other at own ⊢
    have away : pc.home ≠ some 2 := fun home => by
      have := placed.home 2 home
      omega
    cases own with
    | idle _ _ elsewhere place fresh => exact place
    | link | swap | inspect | detect | stuck => exact absurd rfl away

/-- The invariant of whole runs. -/
theorem linking_after (size : config.sharedMemoryLimit < 2 ^ 64) (budget : Budget config inputs state) (linking : Linking config state)
    (run : List (Action ι)) : Linking config (state.after config run) := by
  induction run generalizing state with
  | nil => exact linking
  | cons action rest ih => exact ih (act_budget size budget action) (act_linking budget linking action)

end PgBatch.Parallel
