import PgBatch.Nodes.ParallelBuildProtocol
import Mathlib.Algebra.BigOperators.Group.Finset.Basic
import Mathlib.Algebra.BigOperators.Group.Multiset.Basic
import Mathlib.Tactic.Abel

/-! The shared build as a ledger of rows.
Every accepted row of a batch that has been fetched is held by one participant,
published in a chunk, or written to a spill file: a step moves rows between
these accounts, and what a participant still owes to `build_rows` with them. -/
namespace PgBatch.Parallel
open Words Columnar Spill Barriers

section Accounts
variable {ι Party A : Type} [Fintype ι] [DecidableEq ι] [AddCommMonoid A]

/-- One party settles with the common account; the books stay balanced. -/
theorem sum_settle [IsLeftCancelAdd A] (held due : Party → A) {parties : ι → Party} {id : ι} {party : Party}
    {common after : A} (balanced : common + ∑ i, held (parties i) = ∑ i, due (parties i))
    (settles : after + held party + due (parties id) = common + held (parties id) + due party) :
    after + ∑ i, held (Function.update parties id party i) = ∑ i, due (Function.update parties id party i) := by
  have split (account : Party → A) (value : Party) : ∑ i, account (Function.update parties id value i) =
      account value + ∑ i ∈ Finset.univ \ {id}, account (parties i) := by
    simp only [Function.apply_update (fun _ => account)]
    exact Finset.sum_update_of_mem (Finset.mem_univ id) _ _
  have whole (account : Party → A) :
      ∑ i, account (parties i) = account (parties id) + ∑ i ∈ Finset.univ \ {id}, account (parties i) := by
    rw [← split account (parties id),Function.update_eq_self]
  rw [whole held,whole due] at balanced
  rw [split,split]
  apply add_left_cancel (a := due (parties id))
  calc due (parties id) + (after + (held party + ∑ i ∈ Finset.univ \ {id}, held (parties i)))
      = (after + held party + due (parties id)) + ∑ i ∈ Finset.univ \ {id}, held (parties i) := by abel
    _ = due party + (common + (held (parties id) + ∑ i ∈ Finset.univ \ {id}, held (parties i))) := by
        rw [settles]
        abel
    _ = due (parties id) + (due party + ∑ i ∈ Finset.univ \ {id}, due (parties i)) := by
        rw [balanced]
        abel

end Accounts

variable {ι τ : Type}

/-- The rows of a batch that are still to be stored, at a position that works on it. -/
def Pc.pending (config : Config) : Pc τ → Option (Batch τ × BitVec 64)
  | .decide batch => some (batch,(hashBatch config.innerKeys batch).2)
  | .append batch rows | .reserve batch rows | .refuse batch rows | .recheck batch rows | .spill batch rows
  | .publish (.append batch rows) | .publish (.spill batch rows)
  | .count _ (.append batch rows) | .count _ (.spill batch rows) => some (batch,rows)
  | _ => none

def Pc.draining : Pc τ → Option (Store τ)
  | .drain chunk => some chunk
  | _ => none

/-- Rows that are stored and not yet added to `build_rows`. -/
def Pc.uncounted : Pc τ → Nat
  | .count nrows _ | .countSpilled nrows => nrows
  | _ => 0

def Pc.pendingRows (config : Config) (pc : Pc τ) : List (Row τ) :=
  (pc.pending config).elim [] fun work => Parallel.pendingRows config work.1 work.2

def Local.chunkRows (config : Config) (own : Local τ) : List (Row τ) :=
  own.chunk.elim [] (Store.rows config.ninnerColumns)

/-- The rows in the hands of a participant. -/
def Local.held (config : Config) (own : Local τ) : Multiset (Row τ) :=
  own.pc.pendingRows config + own.chunkRows config + own.pc.draining.elim [] (Store.rows config.ninnerColumns) +
    own.buildWriter.elim 0 (writerRows config)

/-- What it still has to add to `build_rows`. -/
def Local.owed (config : Config) (own : Local τ) : Nat :=
  (own.pc.pendingRows config).length + (own.chunkRows config).length + own.pc.uncounted

/-- The rows of the batches that a participant has fetched, those with a NULL key left out. -/
def Local.fetched (config : Config) (own : Local τ) : List (Row τ) :=
  own.taken.flatMap (Batch.accepted config.innerKeys config.ninnerColumns)

/-- The published chunks nobody has claimed for spilling. -/
def Shared.published (shared : Shared ι τ) : List (Store τ) :=
  if shared.spilled then shared.chunks.drop shared.nextChunk else shared.chunks

def storedRows (config : Config) (chunks : List (Store τ)) : List (Row τ) :=
  chunks.flatMap (Store.rows config.ninnerColumns)

/-- Positions that may own a private chunk. -/
def Pc.collecting : Pc τ → Bool
  | .next | .decide _ | .append _ _ | .recheck _ _ | .publish _ => true
  | _ => false

/-- Positions that only `spilled` leads to. -/
def Pc.spills : Pc τ → Bool
  | .recheck _ rows => rows != 0#64
  | .spill _ _ | .publish (.spill _ _) | .count _ (.spill _ _) => true
  | _ => false

/-- Positions behind the last chunk. -/
def Pc.swept : Pc τ → Bool
  | .finishWriter _ => true
  | pc => pc.meeting == some 2

/-- Positions behind the last batch. -/
def Pc.exhausted : Pc τ → Bool
  | .publish .done | .count _ .done => true
  | pc => pc.meeting == some 0

/-- Has this participant exported its spill files? -/
def Closed (shared : Shared ι τ) (pc : Pc τ) : Prop :=
  3 ≤ shared.barrier.phase ∨ pc.meeting = some 2

/-- What holds of every participant between two of its steps. -/
structure Orderly (config : Config) (shared : Shared ι τ) (id : ι) (own : Local τ) : Prop where
  hashed : ∀ batch rows, own.pc.pending config = some (batch,rows) → Hashed config batch rows
  collecting : ∀ chunk, own.chunk = some chunk → chunk.Clear config.ninnerColumns ∧ own.pc.collecting = true
  spills : own.pc.spills = true → shared.spilled = true
  swept : own.pc.swept = true → shared.nchunks ≤ shared.nextChunk
  exhausted : own.pc.exhausted = true → own.input = []
  away : own.pc.status = .away → own.pc = .outside ∧ own.buildWriter = none ∧ own.taken = [] ∨
    3 ≤ shared.barrier.phase
  writer : ∀ writer, own.buildWriter = some writer → shared.spilled = true ∧ writer.Valid ∧
    writer.ncolumns = config.ninnerColumns ∧ writer.npartitions = config.npartitions ∧ Partitioned config writer
  unfinished : ¬ Closed shared own.pc → shared.buildSpill.files id = (fun _ => []) ∧
    ∀ writer, own.buildWriter = some writer → writer.finished = false
  exported : Closed shared own.pc → shared.buildSpill.files id = own.buildWriter.elim (fun _ => []) Writers.files ∧
    ∀ writer, own.buildWriter = some writer → ∀ partition, writer.writers partition = none

/-- What a step of one participant leaves in order. -/
structure Keeps (config : Config) (id : ι) (before : Shared ι τ) (own : Local τ) (after : Shared ι τ)
    (then_ : Local τ) : Prop where
  rows : (storedRows config after.published + then_.held config + own.fetched config : Multiset (Row τ)) =
    storedRows config before.published + own.held config + then_.fetched config
  count : after.buildRows + then_.owed config + (own.fetched config).length =
    before.buildRows + own.owed config + (then_.fetched config).length
  orderly : Orderly config after id then_

/-- What `Keeps` looks at in the shared state. -/
structure Untouched (id : ι) (before after : Shared ι τ) : Prop where
  spilled : after.spilled = before.spilled
  nchunks : after.nchunks = before.nchunks
  claimed : before.nextChunk ≤ after.nextChunk
  published : after.published = before.published
  buildRows : after.buildRows = before.buildRows
  files : after.buildSpill.files id = before.buildSpill.files id

/-- A step that only moves on. -/
theorem keeps_move {config : Config} {id : ι} {before after : Shared ι τ} {own : Local τ} (later : Pc τ)
    (orderly : Orderly config before id own) (untouched : Untouched id before after)
    (closed : Closed after later ↔ Closed before own.pc) (pending : later.pending config = own.pc.pending config)
    (draining : later.draining = own.pc.draining) (uncounted : later.uncounted = own.pc.uncounted)
    (collecting : own.pc.collecting = true → own.chunk.isSome = true → later.collecting = true)
    (spills : later.spills = true → own.pc.spills = true ∨ before.spilled = true)
    (swept : later.swept = true → own.pc.swept = true ∨ after.nchunks ≤ after.nextChunk)
    (exhausted : later.exhausted = true → own.pc.exhausted = true ∨ own.input = [])
    (away : later.status = .away → 3 ≤ after.barrier.phase) :
    Keeps config id before own after {own with pc := later} := by
  have rows : later.pendingRows config = own.pc.pendingRows config := by
    simp only [Pc.pendingRows,pending]
  refine ⟨?_,?_,?_⟩
  · simp only [untouched.published,Local.held,Local.chunkRows,Local.fetched,rows,draining]
  · simp only [untouched.buildRows,Local.owed,Local.chunkRows,Local.fetched,rows,uncounted]
  · refine ⟨?_,?_,?_,?_,?_,fun status => .inr (away status),?_,?_,?_⟩
    · simp only [pending]
      exact orderly.hashed
    · intro chunk some
      obtain ⟨clear,here⟩ := orderly.collecting chunk some
      exact ⟨clear,collecting here (by rw [some]; rfl)⟩
    · intro here
      rw [untouched.spilled]
      exact (spills here).elim orderly.spills fun set => set
    · intro here
      rcases swept here with already | now
      · rw [untouched.nchunks]
        exact Nat.le_trans (orderly.swept already) untouched.claimed
      · exact now
    · intro here
      exact (exhausted here).elim orderly.exhausted fun empty => empty
    · rw [untouched.spilled]
      exact orderly.writer
    · rw [untouched.files,closed]
      exact orderly.unfinished
    · rw [untouched.files,closed]
      exact orderly.exported

theorem Orderly.chunk_none {config : Config} {shared : Shared ι τ} {id : ι} {own : Local τ}
    (orderly : Orderly config shared id own) (elsewhere : own.pc.collecting = false) : own.chunk = none := by
  cases held : own.chunk with
  | none => rfl
  | some chunk =>
    have := (orderly.collecting chunk held).2
    rw [elsewhere] at this
    contradiction

/-- A step of a participant that has not exported its files leaves it in order. -/
theorem orderly_open {config : Config} {id : ι} {after : Shared ι τ} {then_ : Local τ}
    (open_ : ¬ Closed after then_.pc) (inside : then_.pc.status = .inside)
    (hashed : ∀ batch rows, then_.pc.pending config = some (batch,rows) → Hashed config batch rows)
    (collecting : ∀ chunk, then_.chunk = some chunk →
      chunk.Clear config.ninnerColumns ∧ then_.pc.collecting = true)
    (spills : then_.pc.spills = true → after.spilled = true) (swept : then_.pc.swept = false)
    (exhausted : then_.pc.exhausted = true → then_.input = [])
    (files : after.buildSpill.files id = fun _ => [])
    (writer : ∀ writer, then_.buildWriter = some writer →
      after.spilled = true ∧ Writable config writer ∧ Partitioned config writer) :
    Orderly config after id then_ := by
  refine ⟨hashed,collecting,spills,by simp [swept],exhausted,by simp [inside],?_,?_,fun closed => absurd closed open_⟩
  · intro held found
    obtain ⟨set,writable,sorted⟩ := writer held found
    exact ⟨set,writable.valid,writable.ncolumns,writable.npartitions,sorted⟩
  · intro _
    exact ⟨files,fun held found => (writer held found).2.1.unfinished⟩

theorem open_collect {shared : Shared ι τ} (pc : Pc τ) (phase : shared.barrier.phase = 0) (home : pc.home = some 0) :
    ¬ Closed shared pc ∧ pc.swept = false := by
  have meeting : pc.meeting ≠ some 2 := by
    cases pc <;> simp_all [Pc.meeting,Pc.home]
  refine ⟨fun closed => closed.elim (by omega) meeting,?_⟩
  cases pc <;> simp_all [Pc.swept,Pc.home]

/-- A step of phase 0 leaves a participant in order. -/
theorem orderly_collect {config : Config} {id : ι} {after : Shared ι τ} {then_ : Local τ}
    (phase : after.barrier.phase = 0) (home : then_.pc.home = some 0)
    (hashed : ∀ batch rows, then_.pc.pending config = some (batch,rows) → Hashed config batch rows)
    (collecting : ∀ chunk, then_.chunk = some chunk →
      chunk.Clear config.ninnerColumns ∧ then_.pc.collecting = true)
    (spills : then_.pc.spills = true → after.spilled = true)
    (exhausted : then_.pc.exhausted = true → then_.input = [])
    (files : after.buildSpill.files id = fun _ => [])
    (writer : ∀ writer, then_.buildWriter = some writer →
      after.spilled = true ∧ Writable config writer ∧ Partitioned config writer) :
    Orderly config after id then_ :=
  orderly_open (open_collect _ phase home).1 (home_inside home) hashed collecting spills (open_collect _ phase home).2
    exhausted files writer

/-- The writer of a participant in phase 0, or before it has exported its files. -/
theorem Orderly.writable {config : Config} {shared : Shared ι τ} {id : ι} {own : Local τ}
    (orderly : Orderly config shared id own) (open_ : ¬ Closed shared own.pc) (writer : Writers τ)
    (found : own.buildWriter = some writer) :
    shared.spilled = true ∧ Writable config writer ∧ Partitioned config writer := by
  obtain ⟨set,valid,ncolumns,npartitions,sorted⟩ := orderly.writer writer found
  exact ⟨set,⟨valid,ncolumns,npartitions,(orderly.unfinished open_).2 writer found⟩,sorted⟩

/-- `get_writer` makes an empty writer, or finds the participant's own. -/
theorem getBuildWriter_spec {config : Config} {shared : Shared ι τ} {id : ι} {own : Local τ}
    (orderly : Orderly config shared id own) (open_ : ¬ Closed shared own.pc) :
    Writable config (getBuildWriter config own) ∧ Partitioned config (getBuildWriter config own) ∧
      writerRows config (getBuildWriter config own) = own.buildWriter.elim 0 (writerRows config) := by
  unfold getBuildWriter
  cases held : own.buildWriter with
  | none =>
    refine ⟨⟨create_valid _ _ _,rfl,rfl,rfl⟩,fun partition row member => ?_,?_⟩
    · simp [Writers.contents,create] at member
    · simp [writerRows,Writers.contents,create]
  | some writer =>
    obtain ⟨_,writable,sorted⟩ := orderly.writable open_ writer held
    exact ⟨writable,sorted,rfl⟩

theorem held_collect {config : Config} {own : Local τ} (draining : own.pc.draining = none) :
    own.held config =
      (own.pc.pendingRows config : Multiset (Row τ)) + (own.chunkRows config : Multiset (Row τ)) +
        own.buildWriter.elim 0 (writerRows config) := by
  simp [Local.held,draining]

theorem pending_rows {config : Config} (pc : Pc τ) {batch : Batch τ} {rows : BitVec 64}
    (pending : pc.pending config = some (batch,rows)) :
    pc.pendingRows config = Parallel.pendingRows config batch rows := by
  simp [Pc.pendingRows,pending]

theorem pending_none {config : Config} (pc : Pc τ) (pending : pc.pending config = none) :
    pc.pendingRows config = [] := by
  simp [Pc.pendingRows,pending]

variable [DecidableEq ι] [Inhabited τ]

section Collect
variable {config : Config} {id : ι} {shared : Shared ι τ} {own : Local τ}

/-- Appending one row to the private chunk. -/
private theorem append_keeps (orderly : Orderly config shared id own) (phase : shared.barrier.phase = 0)
    {batch : Batch τ} {rows : BitVec 64} {chunk : Store τ} (position : own.pc = .append batch rows)
    (some_ : rows ≠ 0#64) (held : own.chunk = some chunk) :
    Keeps config id shared own (execute config id shared own).1 (execute config id shared own).2 := by
  obtain ⟨pc,input,taken,_,directory,buckets,writer⟩ := own
  subst position
  cases held
  obtain ⟨clear,_⟩ := orderly.collecting chunk rfl
  have hashed := orderly.hashed batch rows rfl
  have open_ : ¬ Closed shared (.append batch rows) := by simp [Closed,phase,Pc.meeting]
  have writable := orderly.writable open_
  let cell (column : Nat) := inputValue (batch.column column (rightmost rows))
  let grown := chunk.append config.ninnerColumns (batch.tag (rightmost rows))
    ((hashBatch config.innerKeys batch).1 (rightmost rows)) cell
  let rest := rows &&& (rows - 1#64)
  have gained : grown.rows config.ninnerColumns =
      chunk.rows config.ninnerColumns ++ [hashedRow config batch (rightmost rows)] := rows_append clear _ _ _
  have taken_ : pendingRows config batch rows =
      hashedRow config batch (rightmost rows) :: pendingRows config batch rest := by
    rw [pendingRows,rows_cons some_]
    rfl
  have moved (later : Pc τ) (pending : later.pending config = some (batch,rest)) (home : later.home = some 0)
      (draining : later.draining = none) (uncounted : later.uncounted = 0) (collecting : later.collecting = true)
      (spills : later.spills = false) (exhausted : later.exhausted = false) :
      Keeps config id shared ⟨.append batch rows,input,taken,some chunk,directory,buckets,writer⟩ shared
        ⟨later,input,taken,some grown,directory,buckets,writer⟩ := by
    refine ⟨?_,?_,orderly_collect phase home ?_ ?_ (by simp [spills]) (by simp [exhausted])
      (orderly.unfinished open_).1 writable⟩
    · rw [held_collect draining,held_collect rfl]
      simp only [Local.fetched,Local.chunkRows,Option.elim_some,pending_rows _ pending,
        pending_rows (.append batch rows) rfl,gained,taken_,← Multiset.coe_add,← Multiset.cons_coe,
        ← Multiset.singleton_add,Multiset.coe_nil]
      abel
    · simp only [Local.owed,Local.fetched,Local.chunkRows,Option.elim_some,pending_rows _ pending,
        pending_rows (.append batch rows) rfl,uncounted,gained,taken_,List.length_append,List.length_cons,
        List.length_nil]
      simp only [Pc.uncounted]
      omega
    · intro other left same
      rw [pending] at same
      cases same
      intro row member
      exact hashed row (by rw [rows_cons some_]; exact List.mem_cons_of_mem _ member)
    · rintro _ ⟨⟩
      exact ⟨clear_append clear _ _ _,collecting⟩
  simp only [execute,if_neg some_]
  split
  · exact moved _ rfl rfl rfl rfl rfl rfl rfl
  · exact moved _ rfl rfl rfl rfl rfl rfl rfl

private theorem publish_keeps (orderly : Orderly config shared id own) (phase : shared.barrier.phase = 0)
    (unclaimed : shared.nextChunk = 0) {resume : Resume τ} (position : own.pc = .publish resume) :
    Keeps config id shared own (execute config id shared own).1 (execute config id shared own).2 := by
  obtain ⟨pc,input,taken,chunk,directory,buckets,writer⟩ := own
  subst position
  have open_ : ¬ Closed shared (.publish resume) := by simp [Closed,phase,Pc.meeting]
  have writable := orderly.writable open_
  have files := (orderly.unfinished open_).1
  have pending : resume.pc.pending config = (Pc.publish resume).pending config := by cases resume <;> rfl
  have on_ (nrows : Nat) : (Pc.count nrows resume).pending config = (Pc.publish resume).pending config := by
    cases resume <;> rfl
  have home : resume.pc.home = some 0 := by cases resume <;> rfl
  have spills : resume.pc.spills = (Pc.publish resume).spills := by cases resume <;> rfl
  have exhausted : resume.pc.exhausted = (Pc.publish resume).exhausted := by cases resume <;> rfl
  -- A chunk without rows is forgotten.
  have empty (none_ : chunk.elim [] (Store.rows config.ninnerColumns) = []) :
      Keeps config id shared ⟨.publish resume,input,taken,chunk,directory,buckets,writer⟩ shared
        ⟨resume.pc,input,taken,none,directory,buckets,writer⟩ := by
    have rows : resume.pc.pendingRows config = (Pc.publish resume).pendingRows config := by
      simp only [Pc.pendingRows,pending]
    refine ⟨?_,?_,orderly_collect phase home ?_ (by rintro _ ⟨⟩) ?_ ?_ files writable⟩
    · rw [held_collect (by cases resume <;> rfl),held_collect rfl]
      simp only [Local.fetched,Local.chunkRows,none_,Option.elim_none,rows]
    · have counted : resume.pc.uncounted = 0 := by cases resume <;> rfl
      simp only [Local.owed,Local.fetched,Local.chunkRows,none_,Option.elim_none,rows,counted]
      rfl
    · simp only [pending]
      exact orderly.hashed
    · simp only [spills]
      exact orderly.spills
    · simp only [exhausted]
      exact orderly.exhausted
  cases chunk with
  | none => exact empty rfl
  | some chunk =>
    simp only [execute]
    split
    · rename_i none_
      refine empty ?_
      rw [Option.elim_some,← List.length_eq_zero_iff,length_rows]
      exact none_
    · have rows : (Pc.count chunk.nrows resume).pendingRows config = (Pc.publish resume).pendingRows config := by
        simp only [Pc.pendingRows,on_]
      refine ⟨?_,?_,orderly_collect phase rfl ?_ (by rintro _ ⟨⟩) ?_ ?_ files writable⟩
      · rw [held_collect rfl,held_collect rfl]
        simp only [Local.fetched,Local.chunkRows,Option.elim_some,Option.elim_none,rows,Shared.published,unclaimed,
          List.drop_zero,ite_self,storedRows,List.flatMap_cons,← Multiset.coe_add,Multiset.coe_nil]
        abel
      · simp only [Local.owed,Local.fetched,Local.chunkRows,Option.elim_some,Option.elim_none,rows,length_rows,
          List.length_nil,Pc.uncounted]
        omega
      · simp only [on_]
        exact orderly.hashed
      · have same : (Pc.count chunk.nrows resume).spills = (Pc.publish resume).spills := by cases resume <;> rfl
        simp only [same]
        exact orderly.spills
      · have same : (Pc.count chunk.nrows resume).exhausted = (Pc.publish resume).exhausted := by
          cases resume <;> rfl
        simp only [same]
        exact orderly.exhausted

private theorem count_keeps (orderly : Orderly config shared id own) (phase : shared.barrier.phase = 0)
    {nrows : Nat} {resume : Resume τ} (position : own.pc = .count nrows resume) :
    Keeps config id shared own (execute config id shared own).1 (execute config id shared own).2 := by
  obtain ⟨pc,input,taken,chunk,directory,buckets,writer⟩ := own
  subst position
  have open_ : ¬ Closed shared (.count nrows resume) := by simp [Closed,phase,Pc.meeting]
  have none_ : chunk = none := orderly.chunk_none rfl
  subst none_
  have pending : resume.pc.pending config = (Pc.count nrows resume).pending config := by cases resume <;> rfl
  have rows : resume.pc.pendingRows config = (Pc.count nrows resume).pendingRows config := by
    simp only [Pc.pendingRows,pending]
  refine ⟨?_,?_,orderly_collect phase ?_ ?_ (by rintro _ ⟨⟩) ?_ ?_ (orderly.unfinished open_).1
    (orderly.writable open_)⟩
  · rw [held_collect (by cases resume <;> rfl),held_collect rfl]
    simp only [execute,rows]
    rfl
  · have counted : resume.pc.uncounted = 0 := by cases resume <;> rfl
    simp only [execute,Local.owed,rows,counted,Local.chunkRows,Local.fetched]
    simp only [Pc.uncounted]
    omega
  · cases resume <;> rfl
  · simp only [execute,pending]
    exact orderly.hashed
  · intro here
    refine orderly.spills ?_
    cases resume <;> exact here
  · intro here
    refine orderly.exhausted ?_
    cases resume <;> exact here

private theorem spill_keeps (orderly : Orderly config shared id own) (phase : shared.barrier.phase = 0)
    {batch : Batch τ} {rows : BitVec 64} (position : own.pc = .spill batch rows) :
    Keeps config id shared own (execute config id shared own).1 (execute config id shared own).2 := by
  obtain ⟨pc,input,taken,chunk,directory,buckets,writer⟩ := own
  subst position
  have open_ : ¬ Closed shared (.spill batch rows) := by simp [Closed,phase,Pc.meeting]
  have none_ : chunk = none := orderly.chunk_none rfl
  subst none_
  obtain ⟨writable,sorted,total⟩ := getBuildWriter_spec orderly open_
  obtain ⟨after,ran,stores⟩ := spillVectors_stores config writable batch (orderly.hashed batch rows rfl)
  simp only [execute,ran]
  refine ⟨?_,?_,orderly_collect phase rfl (by rintro _ _ ⟨⟩) (by rintro _ ⟨⟩)
    (by rintro ⟨⟩) (by rintro ⟨⟩) (orderly.unfinished open_).1 ?_⟩
  · rw [held_collect rfl,held_collect rfl,pending_none _ rfl,pending_rows _ rfl]
    simp only [Local.fetched,Local.chunkRows,Option.elim_some,Option.elim_none,stores.total,total,Multiset.coe_nil]
    abel
  · simp only [Local.owed,Local.fetched,pending_none (.countSpilled (popcount rows)) rfl,
      pending_rows (.spill batch rows) rfl,pendingRows,List.length_map,List.length_nil]
    simp only [Pc.uncounted,Local.chunkRows,popcount,Option.elim_none,List.length_nil]
    omega
  · rintro _ ⟨⟩
    exact ⟨orderly.spills rfl,stores.writable,stores.partitioned sorted⟩

private theorem next_keeps (orderly : Orderly config shared id own) (phase : shared.barrier.phase = 0)
    (position : own.pc = .next) :
    Keeps config id shared own (execute config id shared own).1 (execute config id shared own).2 := by
  obtain ⟨pc,input,taken,chunk,directory,buckets,writer⟩ := own
  subst position
  have open_ := (open_collect (.next : Pc τ) phase rfl).1
  cases input with
  | nil =>
    exact ⟨rfl,rfl,orderly_collect phase rfl (by rintro _ _ ⟨⟩) orderly.collecting (by rintro ⟨⟩) (fun _ => rfl)
      (orderly.unfinished open_).1 (orderly.writable open_)⟩
  | cons batch rest =>
    have fresh : pendingRows config batch (hashBatch config.innerKeys batch).2 =
        batch.accepted config.innerKeys config.ninnerColumns := pendingRows_accepted config batch
    simp only [execute]
    refine ⟨?_,?_,orderly_collect phase rfl ?_ ?_ (by rintro ⟨⟩) (by rintro ⟨⟩) (orderly.unfinished open_).1
      (orderly.writable open_)⟩
    · rw [held_collect rfl,held_collect rfl,pending_none .next rfl,pending_rows _ rfl,fresh]
      simp only [Local.fetched,Local.chunkRows,List.flatMap_append,List.flatMap_cons,List.flatMap_nil,List.append_nil,
        ← Multiset.coe_add,Multiset.coe_nil]
      abel
    · simp only [Local.owed,Local.fetched,Local.chunkRows,pending_none .next rfl,
        pending_rows (.decide batch) rfl,fresh,Pc.uncounted,List.flatMap_append,List.flatMap_cons,
        List.flatMap_nil,List.append_nil,List.length_append,List.length_nil]
      omega
    · rintro _ _ ⟨⟩
      exact fun row member => member
    · exact fun chunk found => ⟨(orderly.collecting chunk found).1,rfl⟩

omit [DecidableEq ι] [Inhabited τ] in
/-- A step of phase 0 that only moves on. -/
private theorem collect_move (orderly : Orderly config shared id own) (phase : shared.barrier.phase = 0)
    (home : own.pc.home = some 0) {after : Shared ι τ} {later : Pc τ} (stays : later.home = some 0)
    (barrier : after.barrier = shared.barrier) (published : after.published = shared.published)
    (buildRows : after.buildRows = shared.buildRows) (files : after.buildSpill = shared.buildSpill)
    (raised : shared.spilled = true → after.spilled = true)
    (rows : later.pendingRows config = own.pc.pendingRows config)
    (hashed : ∀ batch rows, later.pending config = some (batch,rows) → Hashed config batch rows)
    (uncounted : later.uncounted = own.pc.uncounted)
    (collecting : own.pc.collecting = true → own.chunk.isSome = true → later.collecting = true)
    (spills : later.spills = true → after.spilled = true)
    (exhausted : later.exhausted = true → own.input = []) :
    Keeps config id shared own after {own with pc := later} := by
  have draining {pc : Pc τ} (home : pc.home = some 0) : pc.draining = none := by
    cases pc <;> simp_all [Pc.home,Pc.draining]
  have open_ := (open_collect _ phase home).1
  refine ⟨?_,?_,orderly_collect (barrier ▸ phase) stays hashed ?_ spills exhausted
    (files ▸ (orderly.unfinished open_).1) fun writer found => ?_⟩
  · rw [held_collect (draining home),held_collect (draining stays)]
    simp only [rows,published]
    rfl
  · simp only [Local.owed,rows,uncounted,buildRows]
    rfl
  · intro chunk found
    obtain ⟨clear,here⟩ := orderly.collecting chunk found
    exact ⟨clear,collecting here (by rw [found]; rfl)⟩
  · obtain ⟨set,writable,sorted⟩ := orderly.writable open_ writer found
    exact ⟨raised set,writable,sorted⟩

/-- The steps of phase 0. -/
theorem collect_keeps (orderly : Orderly config shared id own) (phase : shared.barrier.phase = 0)
    (unclaimed : shared.nextChunk = 0) (home : own.pc.home = some 0) (gathers : own.pc.meeting = none)
    (sound : ∀ case fault, own.pc ≠ .stuck case fault) :
    Keeps config id shared own (execute config id shared own).1 (execute config id shared own).2 := by
  cases position : own.pc with
  | next => exact next_keeps orderly phase position
  | publish resume => exact publish_keeps orderly phase unclaimed position
  | count nrows resume => exact count_keeps orderly phase position
  | spill batch rows => exact spill_keeps orderly phase position
  | arrive case => simp [position,Pc.meeting] at gathers
  | stuck case fault => exact absurd position (sound case fault)
  | decide batch =>
    obtain ⟨pc,input,taken,chunk,directory,buckets,writer⟩ := own
    subst position
    simp only [execute]
    split
    · rename_i set
      exact collect_move orderly phase rfl rfl rfl rfl rfl rfl (fun set => set) rfl orderly.hashed rfl
        (fun _ _ => rfl) (fun _ => set) (by rintro ⟨⟩)
    · exact collect_move orderly phase rfl rfl rfl rfl rfl rfl (fun set => set) rfl orderly.hashed rfl
        (fun _ _ => rfl) (by rintro ⟨⟩) (by rintro ⟨⟩)
  | append batch rows =>
    by_cases none_ : rows = 0#64
    · obtain ⟨pc,input,taken,chunk,directory,buckets,writer⟩ := own
      subst position
      simp only [execute,if_pos none_]
      exact collect_move orderly phase rfl rfl rfl rfl rfl rfl (fun set => set) rfl orderly.hashed rfl
        (fun _ _ => rfl) (by simp [Pc.spills,none_]) (by rintro ⟨⟩)
    · cases held : own.chunk with
      | some chunk => exact append_keeps orderly phase position none_ held
      | none =>
        obtain ⟨pc,input,taken,chunk,directory,buckets,writer⟩ := own
        subst position
        cases held
        simp only [execute,if_neg none_]
        split
        · rename_i set
          exact collect_move orderly phase rfl rfl rfl rfl rfl rfl (fun set => set) rfl orderly.hashed rfl
            (fun _ _ => rfl) (fun _ => set) (by rintro ⟨⟩)
        · exact collect_move orderly phase rfl rfl rfl rfl rfl rfl (fun set => set) rfl orderly.hashed rfl
            (by rintro _ ⟨⟩) (by rintro ⟨⟩) (by rintro ⟨⟩)
  | reserve batch rows =>
    obtain ⟨pc,input,taken,chunk,directory,buckets,writer⟩ := own
    subst position
    have none_ : chunk = none := orderly.chunk_none rfl
    subst none_
    have open_ := (open_collect (.reserve batch rows) phase rfl).1
    simp only [execute]
    generalize (shared.allocatedBytes + reservation config.ninnerColumns) % 2 ^ 64 = allocated
    split
    · exact collect_move orderly phase rfl rfl rfl rfl rfl rfl (fun set => set) rfl orderly.hashed rfl
        (by rintro ⟨⟩) (by rintro ⟨⟩) (by rintro ⟨⟩)
    · refine ⟨?_,rfl,orderly_collect phase rfl orderly.hashed ?_ (by rintro ⟨⟩) (by rintro ⟨⟩)
        (orderly.unfinished open_).1 (orderly.writable open_)⟩
      · rw [held_collect rfl,held_collect rfl]
        rfl
      · rintro _ ⟨⟩
        exact ⟨clear_zero _,rfl⟩
  | refuse batch rows =>
    obtain ⟨pc,input,taken,chunk,directory,buckets,writer⟩ := own
    subst position
    have none_ : chunk = none := orderly.chunk_none rfl
    subst none_
    exact collect_move orderly phase rfl rfl rfl (by simp [execute,Shared.published,unclaimed]) rfl rfl (fun _ => rfl)
      rfl orderly.hashed rfl (by rintro ⟨⟩) (fun _ => rfl) (by rintro ⟨⟩)
  | recheck batch rows =>
    obtain ⟨pc,input,taken,chunk,directory,buckets,writer⟩ := own
    subst position
    simp only [execute]
    split
    · rename_i both
      exact collect_move orderly phase rfl rfl rfl rfl rfl rfl (fun set => set) rfl orderly.hashed rfl
        (fun _ _ => rfl) (fun _ => both.2) (by rintro ⟨⟩)
    · rename_i neither
      have none_ : rows = 0#64 := by
        by_contra some_
        exact neither ⟨some_,orderly.spills (by simpa [Pc.spills] using some_)⟩
      refine collect_move orderly phase rfl rfl rfl rfl rfl rfl (fun set => set) ?_ (by rintro _ _ ⟨⟩) rfl
        (fun _ _ => rfl) (by rintro ⟨⟩) (by rintro ⟨⟩)
      rw [pending_none _ rfl,pending_rows _ rfl,none_]
      simp [pendingRows]
  | countSpilled nrows =>
    obtain ⟨pc,input,taken,chunk,directory,buckets,writer⟩ := own
    subst position
    have open_ := (open_collect (.countSpilled nrows : Pc τ) phase rfl).1
    refine ⟨rfl,?_,orderly_collect phase rfl (by rintro _ _ ⟨⟩) ?_ (by rintro ⟨⟩) (by rintro ⟨⟩)
      (orderly.unfinished open_).1 (orderly.writable open_)⟩
    · simp only [execute,Local.owed,Pc.uncounted,Local.chunkRows,Local.fetched,pending_none .next rfl,
        pending_none (.countSpilled nrows) rfl]
      omega
    · exact fun chunk found => ⟨(orderly.collecting chunk found).1,rfl⟩
  | _ => simp [position,Pc.home] at home

end Collect

omit [DecidableEq ι] [Inhabited τ] in
theorem Untouched.refl (id : ι) (shared : Shared ι τ) : Untouched id shared shared :=
  ⟨rfl,rfl,Nat.le_refl _,rfl,rfl,rfl⟩

section Sweep
variable {config : Config} {id : ι} {shared : Shared ι τ} {own : Local τ}

private theorem drain_keeps (orderly : Orderly config shared id own) (phase : shared.barrier.phase = 2)
    (set : shared.spilled = true) {chunk : Store τ} (position : own.pc = .drain chunk) :
    Keeps config id shared own (execute config id shared own).1 (execute config id shared own).2 := by
  obtain ⟨pc,input,taken,held,directory,buckets,writer⟩ := own
  subst position
  have open_ (pc : Pc τ) (away : pc.meeting = none) : ¬ Closed shared pc := by simp [Closed,phase,away]
  have none_ : held = none := orderly.chunk_none rfl
  subst none_
  obtain ⟨writable,sorted,total⟩ := getBuildWriter_spec orderly (open_ _ rfl)
  obtain ⟨after,ran,stores⟩ := spillChunk_stores config chunk writable
  simp only [execute,ran]
  refine ⟨?_,rfl,orderly_open (open_ _ rfl) rfl (by rintro _ _ ⟨⟩) (by rintro _ ⟨⟩) (by rintro ⟨⟩) rfl (by rintro ⟨⟩)
    (orderly.unfinished (open_ _ rfl)).1 ?_⟩
  · simp only [Local.held,Local.fetched,Local.chunkRows,Option.elim_some,Option.elim_none,stores.total,total,
      Pc.draining,pending_none (.claim true) rfl,pending_none (.drain chunk) rfl,Multiset.coe_nil]
    abel
  · rintro _ ⟨⟩
    exact ⟨set,stores.writable,stores.partitioned sorted⟩

private theorem finishWriter_keeps (orderly : Orderly config shared id own) (phase : shared.barrier.phase = 2)
    {spilled : Bool} (saw : shared.spilled = spilled) (position : own.pc = .finishWriter spilled) :
    Keeps config id shared own (execute config id shared own).1 (execute config id shared own).2 := by
  obtain ⟨pc,input,taken,held,directory,buckets,writer⟩ := own
  subst position
  have open_ : ¬ Closed shared (.finishWriter spilled) := by simp [Closed,phase,Pc.meeting]
  have closed (shared : Shared ι τ) : Closed shared (.arrive 2) := .inr rfl
  have none_ : held = none := orderly.chunk_none rfl
  subst none_
  have swept := orderly.swept rfl
  cases spilled with
  | false =>
    have unwritten : writer = none := by
      cases held : writer with
      | none => rfl
      | some writer =>
        have := (orderly.writer writer held).1
        rw [saw] at this
        contradiction
    subst unwritten
    refine ⟨rfl,rfl,by rintro _ _ ⟨⟩,by rintro _ ⟨⟩,by rintro ⟨⟩,fun _ => swept,by rintro ⟨⟩,by rintro ⟨⟩,
      by rintro _ ⟨⟩,fun away => absurd (closed _) away,fun _ => ⟨(orderly.unfinished open_).1,by rintro _ ⟨⟩⟩⟩
  | true =>
    obtain ⟨writable,sorted,total⟩ := getBuildWriter_spec orderly open_
    obtain ⟨after,ran,valid,_,ncolumns,npartitions,contents,written⟩ :=
      sharedSpillWriterFinish_moves shared.buildSpill id writable.valid
        writable.unfinished
    have kept : writerRows config after =
        (Option.elim writer 0 (writerRows config)) := by
      rw [← total]
      simp only [writerRows,contents]
    simp only [execute,if_true,ran]
    refine ⟨?_,rfl,by rintro _ _ ⟨⟩,by rintro _ ⟨⟩,by rintro ⟨⟩,fun _ => swept,by rintro ⟨⟩,by rintro ⟨⟩,?_,
      fun away => absurd (closed _) away,fun _ => ⟨?_,?_⟩⟩
    · rw [held_collect rfl,held_collect rfl]
      simp only [Local.fetched,Option.elim_some,kept,pending_none (.arrive 2) rfl,
        pending_none (.finishWriter true) rfl]
      rfl
    · rintro _ ⟨⟩
      refine ⟨saw,valid,ncolumns.trans writable.ncolumns,npartitions.trans writable.npartitions,?_⟩
      intro partition row member
      rw [contents] at member
      exact sorted partition row member
    · simp
    · rintro _ ⟨⟩
      exact written

omit [DecidableEq ι] [Inhabited τ] in
/-- In phase 2 a claimed index names a published chunk. -/
theorem claimed_chunk {shared : Shared ι τ} (settled : Settled shared) (counted : shared.nchunks = shared.chunks.length)
    (more : shared.nextChunk < shared.nchunks) :
    ∃ pointer chunk, shared.directory = some pointer ∧ shared.directoryChunks[shared.nextChunk]? = some chunk ∧
      shared.chunks.drop shared.nextChunk = chunk :: shared.chunks.drop (shared.nextChunk + 1) := by
  obtain ⟨allocated,entries⟩ := settled.directory (by omega)
  obtain ⟨pointer,found⟩ := Option.isSome_iff_exists.mp allocated
  rw [counted] at more
  refine ⟨pointer,shared.chunks[shared.nextChunk],found,?_,List.drop_eq_getElem_cons more⟩
  rw [entries]
  exact List.getElem?_eq_getElem more

private theorem claim_keeps (orderly : Orderly config shared id own) (phase : shared.barrier.phase = 2)
    (settled : Settled shared) (counted : shared.nchunks = shared.chunks.length)
    {spilled : Bool} (saw : shared.spilled = spilled) (position : own.pc = .claim spilled) :
    Keeps config id shared own (execute config id shared own).1 (execute config id shared own).2 := by
  obtain ⟨pc,input,taken,held,directory,buckets,writer⟩ := own
  subst position
  have closed (nextChunk : Nat) {later : Pc τ} (meeting : later.meeting = none) :
      Closed {shared with nextChunk := nextChunk} later ↔ Closed shared (.claim spilled) := by
    unfold Closed
    rw [meeting]
    rfl
  have advanced (published : Shared.published {shared with nextChunk := shared.nextChunk + 1} = shared.published) :
      Untouched id shared {shared with nextChunk := shared.nextChunk + 1} :=
    ⟨rfl,rfl,Nat.le_succ _,published,rfl,rfl⟩
  simp only [execute]
  split
  · rename_i all
    have gone (index : Nat) (beyond : shared.nextChunk ≤ index) : shared.chunks.drop index = [] :=
      List.drop_eq_nil_of_le (by omega)
    refine keeps_move _ orderly (advanced ?_) (closed _ rfl) rfl rfl rfl (by rintro ⟨⟩) (by rintro ⟨⟩)
      (fun _ => .inr (by simp only; omega)) (by rintro ⟨⟩) (by rintro ⟨⟩)
    simp only [Shared.published]
    rw [gone _ (Nat.le_refl _),gone _ (Nat.le_succ _)]
  · rename_i more
    obtain ⟨pointer,chunk,found,entry,dropped⟩ := claimed_chunk settled counted (by omega)
    split
    · rename_i other found_ same
      cases entry.symm.trans same
      cases spilled with
      | false =>
        have unspilled := saw
        refine keeps_move _ orderly (advanced ?_) (closed _ rfl) rfl rfl rfl (by rintro ⟨⟩) (by rintro ⟨⟩)
          (by rintro ⟨⟩) (by rintro ⟨⟩) (by rintro ⟨⟩)
        simp [Shared.published,unspilled]
      | true =>
        have none_ : held = none := orderly.chunk_none rfl
        subst none_
        have open_ (pc : Pc τ) (meeting : pc.meeting = none) : ¬ Closed shared pc := by
          simp [Closed,phase,meeting]
        refine ⟨?_,rfl,orderly_open (open_ (.drain chunk) rfl) rfl (by rintro _ _ ⟨⟩) (by rintro _ ⟨⟩) (by rintro ⟨⟩)
          rfl (by rintro ⟨⟩) (orderly.unfinished (open_ _ rfl)).1 (orderly.writable (open_ _ rfl))⟩
        simp only [Local.held,Local.fetched,Local.chunkRows,Shared.published,saw,if_true,dropped,storedRows,
          List.flatMap_cons,Pc.draining,pending_none (.drain chunk) rfl,pending_none (.claim true) rfl,
          Option.elim_some,Option.elim_none,← Multiset.coe_add,Multiset.coe_nil]
        abel
    · rename_i neither
      exact (neither pointer chunk found entry).elim

end Sweep

omit [DecidableEq ι] [Inhabited τ] in
theorem setup_untouched (id : ι) (shared : Shared ι τ) :
    Untouched id shared (setupSharedHash shared) ∧ (setupSharedHash shared).barrier = shared.barrier := by
  unfold setupSharedHash
  dsimp only
  split <;> split <;> exact ⟨⟨rfl,rfl,Nat.le_refl _,rfl,rfl,rfl⟩,rfl⟩

/-- The steps at the barrier. -/
theorem meets_keeps {config : Config} {id : ι} {shared : Shared ι τ} {own : Local τ} (placed : Placed shared own.pc)
    (orderly : Orderly config shared id own) (meets : own.pc.meets = true) :
    Keeps config id shared own (execute config id shared own).1 (execute config id shared own).2 := by
  have untouched (barrier : Barrier) : Untouched id shared {shared with barrier := barrier} :=
    ⟨rfl,rfl,Nat.le_refl _,rfl,rfl,rfl⟩
  have behind (case : Nat) (elected : Bool) : (afterBarrier case elected : Pc τ).meeting = none ∧
      (afterBarrier case elected : Pc τ).pending config = none ∧ (afterBarrier case elected : Pc τ).draining = none ∧
      (afterBarrier case elected : Pc τ).uncounted = 0 ∧ (afterBarrier case elected : Pc τ).spills = false ∧
      (afterBarrier case elected : Pc τ).swept = false ∧ (afterBarrier case elected : Pc τ).exhausted = false ∧
      (afterBarrier case elected : Pc τ).status = .inside := by
    unfold afterBarrier
    split
    · split <;> exact ⟨rfl,rfl,rfl,rfl,rfl,rfl,rfl,rfl⟩
    · exact ⟨rfl,rfl,rfl,rfl,rfl,rfl,rfl,rfl⟩
    · exact ⟨rfl,rfl,rfl,rfl,rfl,rfl,rfl,rfl⟩
  obtain ⟨pc,input,taken,chunk,directory,buckets,writer⟩ := own
  -- A participant that passes the barrier leaves phase `case`.
  have passes (case : Nat) (elected : Bool) (barrier : Barrier) (phase : barrier.phase = case + 1)
      (from_ : pc.meeting = some case) (low : shared.barrier.phase = case ∨ shared.barrier.phase = case + 1)
      (pending : pc.pending config = none) (draining : pc.draining = none) (uncounted : pc.uncounted = 0)
      (collecting : pc.collecting = false) :
      Keeps config id shared ⟨pc,input,taken,chunk,directory,buckets,writer⟩ {shared with barrier := barrier}
        ⟨afterBarrier case elected,input,taken,chunk,directory,buckets,writer⟩ := by
    obtain ⟨meeting,work,drains,counts,spills,swept,exhausted,status⟩ := behind case elected
    refine keeps_move _ orderly (untouched barrier) ?_ (work.trans pending.symm) (drains.trans draining.symm)
      (counts.trans uncounted.symm) (by simp [collecting]) (by simp [spills]) (by simp [swept]) (by simp [exhausted])
      (by simp [status])
    simp only [Closed,meeting,from_,phase,reduceCtorEq,or_false,Option.some.injEq]
    omega
  cases pc with
  | outside =>
    exact keeps_move _ orderly (untouched _) Iff.rfl rfl rfl rfl (by rintro ⟨⟩) (by rintro ⟨⟩) (by rintro ⟨⟩)
      (by rintro ⟨⟩) (by rintro ⟨⟩)
  | arrive case =>
    have phase := placed.home case rfl
    simp only [execute]
    cases released : shared.barrier.arrive.2 with
    | true =>
      refine passes case true _ ?_ rfl (.inl phase) rfl rfl rfl rfl
      unfold Barrier.arrive at released ⊢
      split at released
      · rename_i last
        simp only [last,if_true,phase]
      · contradiction
    | false =>
      have same : shared.barrier.arrive.1.phase = shared.barrier.phase := by
        unfold Barrier.arrive at released ⊢
        split at released
        · contradiction
        · rename_i last
          simp only [last,if_false]
      refine keeps_move _ orderly (untouched _) ?_ rfl rfl rfl (by rintro ⟨⟩) (by rintro ⟨⟩) (fun here => .inl here)
        (fun here => .inl here) (by rintro ⟨⟩)
      simp only [Closed,same]
      rfl
  | wait case start =>
    have start_ := placed.case_ case start rfl
    simp only [execute]
    split
    · rename_i released
      refine passes case _ _ ?_ rfl (.inr (by omega)) rfl rfl rfl rfl
      rw [(wake_fields shared.barrier start).1]
      omega
    · exact ⟨rfl,rfl,orderly⟩
  | _ => contradiction

theorem execute_keeps (config : Config) {state : State ι τ} [Fintype ι] (protocol : Protocol state) {id : ι}
    (orderly : Orderly config state.shared id (state.locals id)) :
    Keeps config id state.shared (state.locals id) (execute config id state.shared (state.locals id)).1
      (execute config id state.shared (state.locals id)).2 := by
  have placed := protocol.placed id
  have collect (home : (state.locals id).pc.home = some 0) (gathers : (state.locals id).pc.meeting = none)
      (sound : ∀ case fault, (state.locals id).pc ≠ .stuck case fault) :
      Keeps config id state.shared (state.locals id) (execute config id state.shared (state.locals id)).1
        (execute config id state.shared (state.locals id)).2 :=
    have phase := placed.home 0 home
    collect_keeps orderly phase (protocol.unclaimed (by omega)) home gathers sound
  revert placed orderly collect
  generalize state.locals id = own
  intro orderly placed collect
  cases position : own.pc with
  | outside | arrive _ | wait _ _ => exact meets_keeps placed orderly (by rw [position]; rfl)
  | next | decide _ | append _ _ | reserve _ _ | refuse _ _ | recheck _ _ | publish _ | count _ _ | spill _ _
  | countSpilled _ =>
    exact collect (by rw [position]; rfl) (by rw [position]; rfl) (by rw [position]; simp)
  | drain chunk =>
    rw [position] at placed
    exact drain_keeps orderly (placed.home 2 rfl) (placed.saw true rfl).1 position
  | finishWriter spilled =>
    rw [position] at placed
    exact finishWriter_keeps orderly (placed.home 2 rfl) (placed.saw spilled rfl).1 position
  | claim spilled =>
    rw [position] at placed
    have phase := placed.home 2 rfl
    exact claim_keeps orderly phase (protocol_settled protocol (by omega)) protocol.counted (placed.saw spilled rfl).1
      position
  | detached | stuck _ _ =>
    simp only [execute,position]
    exact ⟨rfl,rfl,orderly⟩
  | setup =>
    obtain ⟨pc,input,taken,chunk,directory,buckets,writer⟩ := own
    subst position
    obtain ⟨untouched,barrier⟩ := setup_untouched id state.shared
    refine keeps_move _ orderly untouched ?_ rfl rfl rfl (by rintro ⟨⟩) (by rintro ⟨⟩) (by rintro ⟨⟩) (by rintro ⟨⟩)
      (by rintro ⟨⟩)
    simp only [execute,Closed,barrier]
    rfl
  | loop =>
    obtain ⟨pc,input,taken,chunk,directory,buckets,writer⟩ := own
    subst position
    simp only [execute]
    refine keeps_move _ orderly (.refl id state.shared) ?_ ?_ ?_ ?_ (by rintro ⟨⟩) ?_ ?_ ?_ ?_
    · split <;> simp [Closed,Pc.meeting]
    all_goals split <;> first | rfl | rintro ⟨⟩
  | bind =>
    obtain ⟨pc,input,taken,chunk,directory,buckets,writer⟩ := own
    subst position
    have moved := keeps_move .loop orderly (.refl id state.shared) Iff.rfl rfl rfl rfl (by rintro ⟨⟩)
      (by rintro ⟨⟩) (by rintro ⟨⟩) (by rintro ⟨⟩) (by rintro ⟨⟩)
    exact ⟨moved.rows,moved.count,⟨moved.orderly.hashed,moved.orderly.collecting,moved.orderly.spills,
      moved.orderly.swept,moved.orderly.exhausted,moved.orderly.away,moved.orderly.writer,moved.orderly.unfinished,
      moved.orderly.exported⟩⟩
  | _ =>
    -- Every other step only moves on, and may write what the ledger does not look at.
    obtain ⟨pc,input,taken,chunk,directory,buckets,writer⟩ := own
    subst position
    simp only [execute]
    (repeat' split) <;>
      exact keeps_move _ orderly ⟨rfl,rfl,Nat.le_refl _,rfl,rfl,rfl⟩ (by simp [Closed,Pc.meeting]) rfl rfl rfl
        (by rintro ⟨⟩) (by rintro ⟨⟩) (by rintro ⟨⟩) (by rintro ⟨⟩) (by rintro ⟨⟩)

/-! The books of the whole build. -/

variable [Fintype ι]

omit [DecidableEq ι] [Inhabited τ] in
theorem orderly_interferes {config : Config} {state : State ι τ} {after : Shared ι τ} {other : ι} {own : Local τ}
    (protocol : Protocol state) (same : state.locals other = own)
    (orderly : Orderly config state.shared other own)
    (interferes : Interferes state.shared after other own.pc.status) : Orderly config after other own := by
  have grows : state.shared.barrier.phase ≤ after.barrier.phase := by
    rcases interferes.phase with same | ⟨next,_⟩ <;> omega
  have placed := protocol.placed other
  have waiting := protocol.barrier.behind other
  rw [same] at placed
  simp only [same] at waiting
  have closes (closed : Closed after own.pc) : Closed state.shared own.pc ∨
      own.buildWriter = none ∧ state.shared.buildSpill.files other = fun _ => [] := by
    by_cases before : Closed state.shared own.pc
    · exact .inl before
    have phase : ¬ 3 ≤ state.shared.barrier.phase := fun late => before (.inl late)
    have away : own.pc.meeting ≠ some 2 := fun meeting => before (.inr meeting)
    rcases interferes.phase with stays | ⟨next,idle⟩
    · rcases closed with late | meeting
      · exact absurd (stays ▸ late) phase
      · exact absurd meeting away
    · rcases closed with late | meeting
      · have second : state.shared.barrier.phase = 2 := by omega
        rcases idle with away_ | waits
        · exact .inr ⟨(orderly.away away_).elim (fun new => new.2.1) fun late => absurd late phase,(orderly.unfinished before).1⟩
        · cases position : own.pc with
          | wait case start =>
            rw [position] at waits away placed
            have start_ := placed.case_ case start rfl
            simp only [Pc.status,Party.waiting.injEq] at waits
            refine absurd ?_ away
            rw [Pc.meeting,start_,waits,second]
          | _ => simp [position,Pc.status] at waits
      · exact absurd meeting away
  refine ⟨orderly.hashed,orderly.collecting,fun here => interferes.spilled (orderly.spills here),?_,orderly.exhausted,
    ?_,?_,?_,?_⟩
  · intro here
    have started : state.shared.barrier.phase ≠ 0 := by
      cases position : own.pc with
      | finishWriter spilled =>
        have := placed.home 2 (by rw [position]; rfl)
        omega
      | arrive case =>
        have home := placed.home case (by rw [position]; rfl)
        have : case = 2 := by simpa [position,Pc.swept,Pc.meeting] using here
        omega
      | wait case start =>
        have same := placed.case_ case start position
        have behind := waiting start (by rw [position]; rfl)
        have : case = 2 := by simpa [position,Pc.swept,Pc.meeting] using here
        omega
      | _ => simp [position,Pc.swept,Pc.meeting] at here
    rw [(interferes.chunks started).2]
    exact Nat.le_trans (orderly.swept here) interferes.claimed
  · exact fun status => (orderly.away status).imp_right fun late => Nat.le_trans late grows
  · intro writer found
    obtain ⟨set,rest⟩ := orderly.writer writer found
    exact ⟨interferes.spilled set,rest⟩
  · intro open_
    rw [interferes.files]
    exact orderly.unfinished fun closed => open_ (closed.imp_left fun late => Nat.le_trans late grows)
  · intro closed
    rw [interferes.files]
    rcases closes closed with before | ⟨none_,files⟩
    · exact orderly.exported before
    · rw [none_]
      exact ⟨files,by rintro _ ⟨⟩⟩

/-- The invariant of the shared build: the ledger of rows and of `build_rows` is
balanced, and every participant is in order. -/
structure Ledger (config : Config) (inputs : ι → List (Batch τ)) (state : State ι τ) : Prop where
  protocol : Protocol state
  orderly : ∀ id, Orderly config state.shared id (state.locals id)
  rows : (storedRows config state.shared.published : Multiset (Row τ)) + ∑ id, (state.locals id).held config =
    ∑ id, ((state.locals id).fetched config : Multiset (Row τ))
  count : state.shared.buildRows + ∑ id, (state.locals id).owed config =
    ∑ id, ((state.locals id).fetched config).length
  swept : 3 ≤ state.shared.barrier.phase → state.shared.nchunks ≤ state.shared.nextChunk
  assigned : ∀ id, (state.locals id).taken ++ (state.locals id).input = inputs id
  read : 1 ≤ state.shared.barrier.phase → ∀ id, (state.locals id).input = [] ∨ (state.locals id).taken = []

omit [Fintype ι] in
theorem act_locals (config : Config) (state : State ι τ) (action : Action ι) :
    (state.act config action).locals =
      Function.update state.locals action.id ((state.act config action).locals action.id) := by
  funext other
  by_cases same : other = action.id
  · subst same
    rw [Function.update_self]
  · rw [Function.update_of_ne same,act_other config state action same]

omit [DecidableEq ι] [Inhabited τ] [Fintype ι] in
theorem detach_phase (barrier : Barrier) : barrier.phase ≤ barrier.detach.phase := by
  unfold Barrier.detach
  split
  · exact Nat.le_succ _
  · exact Nat.le_refl _

theorem act_keeps (config : Config) {state : State ι τ} (protocol : Protocol state) (action : Action ι)
    (orderly : Orderly config state.shared action.id (state.locals action.id)) :
    Keeps config action.id state.shared (state.locals action.id) (state.act config action).shared
      ((state.act config action).locals action.id) := by
  cases action with
  | run id =>
    simp only [State.act,Action.id,Function.update_self]
    exact execute_keeps config protocol orderly
  | shutdown id =>
    simp only [State.act,Action.id]
    split
    · rename_i spilled left
      have late := ((protocol.placed id).late (by rw [left]; rfl)).1
      have later := Nat.le_trans late (detach_phase state.shared.barrier)
      simp only [Action.id] at orderly
      revert orderly left
      generalize state.locals id = own
      intro orderly left
      obtain ⟨pc,input,taken,chunk,directory,buckets,writer⟩ := own
      subst left
      simp only [Function.update_self]
      refine keeps_move _ orderly ⟨rfl,rfl,Nat.le_refl _,rfl,rfl,rfl⟩ ?_ rfl rfl rfl (by rintro ⟨⟩) (by rintro ⟨⟩)
        (by rintro ⟨⟩) (by rintro ⟨⟩) (fun _ => later)
      exact ⟨fun _ => .inl late,fun _ => .inl later⟩
    · exact ⟨rfl,rfl,orderly⟩

omit [Fintype ι] in
/-- Batches are fetched in phase 0 only, each once. -/
theorem execute_input (config : Config) (id : ι) (shared : Shared ι τ) (own : Local τ) :
    (execute config id shared own).2.taken ++ (execute config id shared own).2.input = own.taken ++ own.input ∧
      (own.pc ≠ .next → (execute config id shared own).2.taken = own.taken ∧
        (execute config id shared own).2.input = own.input) := by
  obtain ⟨pc,input,taken,chunk,directory,buckets,writer⟩ := own
  cases pc with
  | next =>
    refine ⟨?_,fun away => absurd rfl away⟩
    cases input with
    | nil => rfl
    | cons batch rest => simp [execute]
  | _ =>
    unfold execute
    dsimp only
    (repeat' split) <;> exact ⟨rfl,fun _ => ⟨rfl,rfl⟩⟩

omit [Fintype ι] in
theorem act_input (config : Config) (state : State ι τ) (action : Action ι) (id : ι) :
    ((state.act config action).locals id).taken ++ ((state.act config action).locals id).input =
        (state.locals id).taken ++ (state.locals id).input ∧
      ((state.locals id).pc ≠ .next → ((state.act config action).locals id).taken = (state.locals id).taken ∧
        ((state.act config action).locals id).input = (state.locals id).input) := by
  by_cases same : id = action.id
  · cases action with
    | run actor =>
      simp only [Action.id] at same
      subst same
      simp only [State.act,Function.update_self]
      exact execute_input config id state.shared (state.locals id)
    | shutdown actor =>
      simp only [Action.id] at same
      subst same
      simp only [State.act]
      split
      · simp only [Function.update_self]
        exact ⟨trivial,fun _ => ⟨trivial,trivial⟩⟩
      · exact ⟨rfl,fun _ => ⟨rfl,rfl⟩⟩
  · rw [act_other config state action same]
    exact ⟨rfl,fun _ => ⟨rfl,rfl⟩⟩

/-- Outside phase 0 no chunk is published, and no claim is taken back. -/
theorem act_chunks (config : Config) {state : State ι τ} (protocol : Protocol state) (action : Action ι)
    (later : state.shared.barrier.phase ≠ 0) :
    (state.act config action).shared.nchunks = state.shared.nchunks ∧
      state.shared.nextChunk ≤ (state.act config action).shared.nextChunk := by
  cases action with
  | shutdown id =>
    obtain ⟨barrier,same⟩ := shutdown_shared config state id
    rw [same]
    exact ⟨rfl,Nat.le_refl _⟩
  | run id =>
    simp only [State.act]
    cases meets : (state.locals id).pc.meets with
    | true =>
      obtain ⟨barrier,same⟩ := execute_meets config id state.shared (state.locals id) meets
      rw [same]
      exact ⟨rfl,Nat.le_refl _⟩
    | false =>
      have quiet := execute_quiet config id state.shared (state.locals id) meets
      exact ⟨(quiet.chunks fun home => later ((protocol.placed id).home 0 home)).2,quiet.claimed⟩

/-- Whoever is inside phase 0 has read its share when the phase ends. -/
theorem phase_read (config : Config) {inputs : ι → List (Batch τ)} {state : State ι τ}
    (ledger : Ledger config inputs state) (action : Action ι) (first : state.shared.barrier.phase = 0)
    (ends : (state.act config action).shared.barrier.phase ≠ 0) (id : ι) (attached : (state.locals id).pc ≠ .outside) :
    (state.locals id).input = [] ∧ (state.locals id).pc ≠ .next := by
  rcases act_phase config ledger.protocol action with same | ⟨_,arrives,others⟩
  · exact absurd (same.trans first) ends
  · rw [first] at arrives others
    by_cases same : id = action.id
    · rw [same,arrives]
      exact ⟨(ledger.orderly action.id).exhausted (by rw [arrives]; rfl),by simp⟩
    · rcases others id same with away | waits
      · cases position : (state.locals id).pc with
        | outside => exact absurd position attached
        | detached =>
          rcases (ledger.orderly id).away away with ⟨outside,_⟩ | late
          · exact absurd outside attached
          · omega
        | _ => simp [position,Pc.status] at away
      · cases position : (state.locals id).pc with
        | wait case start =>
          have start_ := (ledger.protocol.placed id).case_ case start position
          simp only [position,Pc.status,Party.waiting.injEq] at waits
          refine ⟨(ledger.orderly id).exhausted ?_,by simp⟩
          rw [position,start_,waits]
          rfl
        | _ => simp [position,Pc.status] at waits

theorem act_ledger (config : Config) {inputs : ι → List (Batch τ)} {state : State ι τ}
    (ledger : Ledger config inputs state) (action : Action ι) : Ledger config inputs (state.act config action) := by
  have protocol := ledger.protocol
  have keeps := act_keeps config protocol action (ledger.orderly action.id)
  have moves := act_phase config protocol action
  have input := act_input config state action
  refine ⟨act_protocol config protocol action,fun id => ?_,?_,?_,fun late => ?_,fun id => ?_,fun later id => ?_⟩
  · by_cases same : id = action.id
    · subst same
      exact keeps.orderly
    · rw [act_other config state action same]
      exact orderly_interferes protocol rfl (ledger.orderly id) (act_interferes config protocol action same)
  · rw [act_locals config state action]
    exact sum_settle (Local.held config) (fun own => (own.fetched config : Multiset (Row τ))) ledger.rows keeps.rows
  · rw [act_locals config state action]
    exact sum_settle (Local.owed config) (fun own => (own.fetched config).length) ledger.count keeps.count
  · obtain ⟨nchunks,claimed⟩ := act_chunks config protocol action (by
      rcases moves with same | ⟨next,_⟩ <;> omega)
    rw [nchunks]
    refine Nat.le_trans ?_ claimed
    by_cases already : 3 ≤ state.shared.barrier.phase
    · exact ledger.swept already
    · rcases moves with same | ⟨next,arrives,_⟩
      · omega
      · have second : state.shared.barrier.phase = 2 := by omega
        refine (ledger.orderly action.id).swept ?_
        rw [arrives,second]
        rfl
  · rw [(input id).1]
    exact ledger.assigned id
  · by_cases started : state.shared.barrier.phase = 0
    · by_cases outside : (state.locals id).pc = .outside
      · rcases (ledger.orderly id).away (by rw [outside]; rfl) with ⟨_,_,taken⟩ | late
        · rw [((input id).2 (by rw [outside]; simp)).1]
          exact .inr taken
        · omega
      · obtain ⟨read,away⟩ := phase_read config ledger action started (by omega) id outside
        rw [((input id).2 away).2]
        exact .inl read
    · have away : (state.locals id).pc ≠ .next := fun position =>
        started ((protocol.placed id).home 0 (by rw [position]; rfl))
      rw [((input id).2 away).1,((input id).2 away).2]
      exact ledger.read (by omega) id

omit [DecidableEq ι] [Inhabited τ] in
theorem initial_ledger (config : Config) (inputs : ι → List (Batch τ)) :
    Ledger config inputs (State.initial config inputs) := by
  refine ⟨initial_protocol config inputs,fun id => ?_,?_,?_,by simp [State.initial,Barrier.init],fun id => rfl,
    by simp [State.initial,Barrier.init]⟩
  · refine ⟨by rintro _ _ ⟨⟩,by rintro _ ⟨⟩,by rintro ⟨⟩,by rintro ⟨⟩,by rintro ⟨⟩,fun _ => .inl ⟨rfl,rfl,rfl⟩,
      by rintro _ ⟨⟩,fun _ => ⟨rfl,by rintro _ ⟨⟩⟩,fun _ => ⟨rfl,by rintro _ ⟨⟩⟩⟩
  · simp [State.initial,storedRows,Shared.published,Local.held,Local.chunkRows,Local.fetched,Pc.pendingRows,Pc.pending,
      Pc.draining]
  · simp [State.initial,Local.owed,Local.chunkRows,Local.fetched,Pc.pendingRows,Pc.pending,Pc.uncounted]

theorem ledger_after (config : Config) {inputs : ι → List (Batch τ)} {state : State ι τ}
    (ledger : Ledger config inputs state) (run : List (Action ι)) : Ledger config inputs (state.after config run) := by
  induction run generalizing state with
  | nil => exact ledger
  | cons action rest ih => exact ih (act_ledger config ledger action)

/-- A participant that was inside phase 0. -/
def Attending (state : State ι τ) (id : ι) : Prop :=
  if state.shared.barrier.phase = 0 then (state.locals id).pc ≠ .outside else (state.locals id).input = []

omit [Fintype ι] in
theorem execute_inside (config : Config) (id : ι) (shared : Shared ι τ) (own : Local τ) (inside : own.pc ≠ .outside) :
    (execute config id shared own).2.pc ≠ .outside := by
  obtain ⟨pc,input,taken,chunk,directory,buckets,writer⟩ := own
  cases pc with
  | outside => contradiction
  | publish resume | count _ resume =>
    cases resume <;> simp only [execute,Resume.pc] <;> (repeat' split) <;> simp
  | arrive case | wait case _ =>
    simp only [execute]
    split
    · unfold afterBarrier
      (repeat' split) <;> simp
    · simp
  | _ =>
    simp only [execute]
    (repeat' split) <;> simp

theorem act_attending (config : Config) {inputs : ι → List (Batch τ)} {state : State ι τ}
    (ledger : Ledger config inputs state) (action : Action ι) (id : ι) (attending : Attending state id) :
    Attending (state.act config action) id := by
  unfold Attending at attending ⊢
  have input := (act_input config state action id).2
  by_cases first : state.shared.barrier.phase = 0
  · rw [if_pos first] at attending
    split
    · by_cases same : id = action.id
      · cases action with
        | run actor =>
          simp only [Action.id] at same
          subst same
          simp only [State.act,Function.update_self]
          exact execute_inside config id state.shared (state.locals id) attending
        | shutdown actor =>
          simp only [Action.id] at same
          subst same
          simp only [State.act]
          split
          · simp
          · exact attending
      · rw [act_other config state action same]
        exact attending
    · rename_i ends
      obtain ⟨read,away⟩ := phase_read config ledger action first ends id attending
      exact (input away).2.trans read
  · rw [if_neg first] at attending
    have away : (state.locals id).pc ≠ .next := fun position =>
      first ((ledger.protocol.placed id).home 0 (by rw [position]; rfl))
    have later : (state.act config action).shared.barrier.phase ≠ 0 := by
      rcases act_phase config ledger.protocol action with same | ⟨next,_⟩ <;> omega
    rw [if_neg later]
    exact (input away).2.trans attending

theorem after_attending (config : Config) {inputs : ι → List (Batch τ)} {state : State ι τ}
    (ledger : Ledger config inputs state) (run : List (Action ι)) (id : ι) (attending : Attending state id) :
    Attending (state.after config run) id := by
  induction run generalizing state with
  | nil => exact attending
  | cons action rest ih => exact ih (act_ledger config ledger action) (act_attending config ledger action id attending)

/-- The rows in one participant's build spill file of a partition. -/
def fileRows (config : Config) (shared : Shared ι τ) (id : ι) (partition : Nat) : List (Row τ) :=
  storedRows config (shared.buildSpill.files id partition)

omit [DecidableEq ι] [Inhabited τ] in
/-- Behind phase 2 a participant holds rows in its files only. -/
theorem held_files {config : Config} {inputs : ι → List (Batch τ)} {state : State ι τ}
    (ledger : Ledger config inputs state) (ended : 3 ≤ state.shared.barrier.phase) (id : ι) :
    (state.locals id).held config = ∑ partition ∈ Finset.range config.npartitions,
        (fileRows config state.shared id partition : Multiset (Row τ)) ∧
      (state.locals id).owed config = 0 ∧
      (∀ partition, ∀ row ∈ fileRows config state.shared id partition, rowPartition config row = partition) ∧
      (state.shared.spilled = false → ∀ partition, fileRows config state.shared id partition = []) := by
  have placed := ledger.protocol.placed id
  have orderly := ledger.orderly id
  have past (phase : Nat) (early : phase < 3) : (state.locals id).pc.home ≠ some phase := fun home => by
    have := placed.home phase home
    omega
  have idle : (state.locals id).pc.pendingRows config = [] ∧ (state.locals id).pc.draining = none ∧
      (state.locals id).pc.uncounted = 0 ∧ (state.locals id).pc.collecting = false := by
    have zero := past 0 (by omega)
    have two := past 2 (by omega)
    revert zero two
    cases (state.locals id).pc with
    | publish resume | count _ resume => cases resume <;> simp [Pc.home]
    | _ => simp [Pc.home,Pc.pendingRows,Pc.pending,Pc.draining,Pc.uncounted,Pc.collecting]
  obtain ⟨pending,draining,uncounted,collecting⟩ := idle
  have chunk := orderly.chunk_none collecting
  obtain ⟨files,written⟩ := orderly.exported (.inl ended)
  refine ⟨?_,?_,?_,?_⟩
  · rw [held_collect draining,pending,Local.chunkRows,chunk]
    simp only [Option.elim_none,Multiset.coe_nil,zero_add,fileRows,files]
    cases found : (state.locals id).buildWriter with
    | none => simp [storedRows]
    | some writer =>
      simp only [Option.elim_some,writerRows]
      refine Finset.sum_congr rfl fun partition _ => ?_
      simp [Writers.contents,written writer found partition,(orderly.writer writer found).2.2.1,storedRows]
  · simp [Local.owed,pending,uncounted,Local.chunkRows,chunk]
  · intro partition row member
    rw [fileRows,files] at member
    cases found : (state.locals id).buildWriter with
    | none => simp [found,storedRows] at member
    | some writer =>
      obtain ⟨_,_,ncolumns,_,sorted⟩ := orderly.writer writer found
      refine sorted partition row ?_
      simpa [Writers.contents,written writer found partition,ncolumns,found,storedRows] using member
  · intro unspilled partition
    rw [fileRows,files]
    cases found : (state.locals id).buildWriter with
    | none => rfl
    | some writer =>
      have := (orderly.writer writer found).1
      rw [unspilled] at this
      contradiction

/-- What the shared build has stored, once phase 2 is over. -/
structure Stored (config : Config) (state : State ι τ) : Prop where
  resident : state.shared.spilled = false →
    (storedRows config state.shared.chunks : Multiset (Row τ)) =
        ∑ id, ((state.locals id).fetched config : Multiset (Row τ)) ∧
      ∀ id partition, fileRows config state.shared id partition = []
  spilled : state.shared.spilled = true →
    ∑ id, ∑ partition ∈ Finset.range config.npartitions,
        (fileRows config state.shared id partition : Multiset (Row τ)) =
      ∑ id, ((state.locals id).fetched config : Multiset (Row τ))
  partitioned : ∀ id partition, ∀ row ∈ fileRows config state.shared id partition,
    row.hash.toNat &&& (config.npartitions - 1) = partition
  counted : state.shared.buildRows = ∑ id, ((state.locals id).fetched config).length

omit [DecidableEq ι] [Inhabited τ] in
theorem ledger_stored {config : Config} {inputs : ι → List (Batch τ)} {state : State ι τ}
    (ledger : Ledger config inputs state) (ended : 3 ≤ state.shared.barrier.phase) : Stored config state := by
  have held := held_files ledger ended
  have rows := ledger.rows
  have count := ledger.count
  simp only [(held _).1] at rows
  simp only [(held _).2.1,Finset.sum_const_zero,Nat.add_zero] at count
  refine ⟨fun unspilled => ⟨?_,fun id => (held id).2.2.2 unspilled⟩,fun spilled => ?_,
    fun id => (held id).2.2.1,count⟩
  · simp only [(held _).2.2.2 unspilled,Multiset.coe_nil,Finset.sum_const_zero,add_zero] at rows
    simpa only [Shared.published,unspilled,Bool.false_eq_true,if_false] using rows
  · have drained : state.shared.published = [] := by
      rw [Shared.published,if_pos spilled]
      refine List.drop_eq_nil_of_le ?_
      rw [← ledger.protocol.counted]
      exact ledger.swept ended
    simpa only [drained,storedRows,List.flatMap_nil,Multiset.coe_nil,zero_add] using rows

/-- Room for one chunk: the second participant to ask for one is refused. -/
def tightConfig : Config :=
  ⟨1,[0],firstColumn_ne_nil,4,four_power,1,1000000,30000⟩

/-- Two participants with a batch each, taking turns until both are behind phase 2. -/
def turns : List (Action (Fin 2)) :=
  (List.range 30).flatMap fun _ => [.run ⟨0,Nat.zero_lt_two⟩,.run ⟨1,Nat.one_lt_two⟩]

end PgBatch.Parallel
