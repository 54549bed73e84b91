import PgBatch.Spill.Set
import PgBatch.Spill.SharedRead
import Mathlib.Algebra.Order.BigOperators.Group.Finset

/-! The bookkeeping of the block writers: which partitions have a buffer, how many
buffers there may be, and where the rows of a partition are, after every write,
eviction and flush of both services. -/
namespace PgBatch.Spill
open Columnar
variable {τ : Type}

/-- The partitions that have a writer buffer. -/
def Writers.live (set : Writers τ) : Finset Nat :=
  (Finset.range set.npartitions).filter fun partition => (set.writers partition).isSome

/-- The bytes of all buffers. -/
def Writers.heldBytes (set : Writers τ) : Nat :=
  set.live.sum fun _ => writerBytes set.ncolumns

/-- The writer that the loop of `get_writer` evicts. -/
def Writers.victim (set : Writers τ) : Option Nat :=
  ((List.range set.npartitions).map fun offset => (set.evictionCursor + offset) % set.npartitions).find?
    fun victim => (set.writers victim).isSome

/-- What the counters and the buffers of a set say about each other. -/
structure Kept (bufferLimit : Nat) (set : Writers τ) : Prop where
  counted : set.activeWriters = set.live.card
  within : set.activeWriters ≤ set.maxWriters
  bytes : set.heldBytes ≤ max bufferLimit (writerBytes set.ncolumns)
  pending : ∀ partition writer, set.writers partition = some writer → writer.nrows < blockRows
  rows : ∀ partition, set.partitionRows partition =
    ((set.files partition).map Store.nrows).sum + (set.writers partition).elim 0 Store.nrows

/-- With the facts from which a step keeps it. -/
structure Books (bufferLimit : Nat) (set : Writers τ) : Prop where
  valid : set.Valid
  counted : set.activeWriters = set.live.card
  within : set.activeWriters ≤ set.maxWriters
  limit : set.maxWriters = min set.npartitions (max 1 (bufferLimit / writerBytes set.ncolumns))

theorem mem_live {set : Writers τ} {partition : Nat} :
    partition ∈ set.live ↔ partition < set.npartitions ∧ (set.writers partition).isSome = true := by
  simp [Writers.live]

/-- Storing into a buffer that exists changes no count. -/
theorem live_store {set after : Writers τ} {partition : Nat} {writer : Store τ}
    (present : (set.writers partition).isSome = true) (parts : after.npartitions = set.npartitions)
    (stored : after.writers = Function.update set.writers partition (some writer)) : after.live = set.live := by
  ext other
  rw [mem_live,mem_live,parts,stored]
  by_cases same : other = partition
  · subst same
    simp [present]
  · rw [Function.update_of_ne same]

theorem flushWriter_live (set : Writers τ) (partition : Nat) :
    (flushWriter set partition).live = set.live ∧ (flushWriter set partition).activeWriters = set.activeWriters := by
  unfold flushWriter
  cases found : set.writers partition with
  | none => exact ⟨rfl,rfl⟩
  | some writer =>
    dsimp only
    split
    · exact ⟨rfl,rfl⟩
    · exact ⟨live_store (by rw [found]; rfl) rfl rfl,rfl⟩

theorem freeWriter_live {set : Writers τ} (valid : set.Valid) (counted : set.activeWriters = set.live.card)
    (partition : Nat) :
    (freeWriter set partition).live = set.live.erase partition ∧
      (freeWriter set partition).activeWriters = (freeWriter set partition).live.card := by
  unfold freeWriter
  cases found : set.writers partition with
  | none =>
    have absent : partition ∉ set.live := by
      rw [mem_live,found]
      simp
    exact ⟨(Finset.erase_eq_of_notMem absent).symm,counted⟩
  | some writer =>
    have member : partition ∈ set.live := mem_live.mpr ⟨(valid.open_ partition writer found).1,by rw [found]; rfl⟩
    have erased : ({set with
        writers := Function.update set.writers partition none
        activeWriters := set.activeWriters - 1} : Writers τ).live = set.live.erase partition := by
      ext other
      rw [Finset.mem_erase,mem_live,mem_live]
      by_cases same : other = partition
      · subst same
        simp
      · simp [same]
    refine ⟨erased,?_⟩
    dsimp only at erased ⊢
    rw [erased,Finset.card_erase_of_mem member,counted]

theorem flushFree_live {set : Writers τ} (valid : set.Valid) (counted : set.activeWriters = set.live.card)
    (partition : Nat) :
    (freeWriter (flushWriter set partition) partition).live = set.live.erase partition ∧
      (freeWriter (flushWriter set partition) partition).activeWriters =
        (freeWriter (flushWriter set partition) partition).live.card := by
  obtain ⟨same,active⟩ := flushWriter_live set partition
  have flushed := freeWriter_live (flushWriter_moves valid partition).valid (by rw [same,active,counted]) partition
  rw [same] at flushed
  exact flushed

/-- The loop of `get_writer` finds a victim if there is one. -/
theorem victim_found {set : Writers τ} (alive : set.live.Nonempty) :
    ∃ victim, set.victim = some victim ∧ victim ∈ set.live := by
  obtain ⟨partition,member⟩ := alive
  obtain ⟨inside,present⟩ := mem_live.mp member
  have positive : 0 < set.npartitions := Nat.zero_lt_of_lt inside
  cases found : set.victim with
  | none =>
    rw [Writers.victim,List.find?_eq_none] at found
    -- The offset at which the loop comes to this partition.
    have start : set.evictionCursor % set.npartitions < set.npartitions := Nat.mod_lt _ positive
    have offset : (set.evictionCursor +
        (partition + (set.npartitions - set.evictionCursor % set.npartitions)) % set.npartitions) % set.npartitions =
          partition := by
      rw [Nat.add_mod,Nat.mod_mod,← Nat.add_mod]
      have whole := Nat.div_add_mod set.evictionCursor set.npartitions
      have apart : set.evictionCursor + (partition + (set.npartitions - set.evictionCursor % set.npartitions)) =
          partition + set.npartitions * (set.evictionCursor / set.npartitions + 1) := by
        rw [Nat.mul_add_one]
        omega
      rw [apart,Nat.add_mul_mod_self_left,Nat.mod_eq_of_lt inside]
    have listed := found partition
      (List.mem_map.mpr ⟨_,List.mem_range.mpr (Nat.mod_lt _ positive),offset⟩)
    exact absurd present listed
  | some victim =>
    refine ⟨victim,rfl,mem_live.mpr ⟨?_,by simpa using List.find?_some found⟩⟩
    obtain ⟨_,_,rfl⟩ := List.mem_map.mp (List.mem_of_find?_eq_some found)
    exact Nat.mod_lt _ positive

theorem evictWriter_eq (set : Writers τ) : evictWriter set =
    set.victim.elim set fun victim => {freeWriter (flushWriter set victim) victim with
      evictionCursor := (victim + 1) % set.npartitions} := by
  unfold evictWriter Writers.victim
  dsimp only
  split <;> rename_i found <;> rw [found] <;> rfl

theorem evictWriter_live {set : Writers τ} (valid : set.Valid) (counted : set.activeWriters = set.live.card)
    {victim : Nat} (found : set.victim = some victim) :
    (evictWriter set).live = set.live.erase victim ∧ (evictWriter set).activeWriters = (evictWriter set).live.card := by
  rw [evictWriter_eq,found]
  exact flushFree_live valid counted victim

namespace Books
variable {bufferLimit : Nat} {set : Writers τ}

/-- A step that moves rows and gives up no count. -/
theorem moved {after : Writers τ} (books : Books bufferLimit set) (moves : Moves set after)
    (counted : after.activeWriters = after.live.card) (fewer : after.live ⊆ set.live) : Books bufferLimit after := by
  refine ⟨moves.valid,counted,?_,?_⟩
  · rw [counted,moves.same.maxWriters]
    exact (Finset.card_le_card fewer).trans (books.counted ▸ books.within)
  · rw [moves.same.maxWriters,moves.same.npartitions,moves.same.ncolumns,books.limit]

theorem flush (books : Books bufferLimit set) (partition : Nat) : Books bufferLimit (flushWriter set partition) := by
  obtain ⟨same,active⟩ := flushWriter_live set partition
  exact books.moved (flushWriter_moves books.valid partition) (by rw [same,active,books.counted]) (by rw [same])

theorem free (books : Books bufferLimit set) (partition : Nat) :
    Books bufferLimit (freeWriter (flushWriter set partition) partition) := by
  obtain ⟨same,counted⟩ := flushFree_live books.valid books.counted partition
  refine books.moved (flushFree_moves books.valid partition).1 counted ?_
  rw [same]
  exact Finset.erase_subset ..

theorem evict (books : Books bufferLimit set) : Books bufferLimit (evictWriter set) := by
  cases found : set.victim with
  | none =>
    rw [evictWriter_eq,found]
    exact books
  | some victim =>
    obtain ⟨same,counted⟩ := evictWriter_live books.valid books.counted found
    refine books.moved (evictWriter_moves books.valid) counted ?_
    rw [same]
    exact Finset.erase_subset ..

/-- A full set with a partition has a writer to evict. -/
theorem full_victim (books : Books bufferLimit set) (full : set.activeWriters = set.maxWriters) {partition : Nat}
    (inside : partition < set.npartitions) : ∃ victim, set.victim = some victim ∧ victim ∈ set.live := by
  apply victim_found
  rw [← Finset.card_pos,← books.counted,full,books.limit]
  omega

theorem get [Inhabited τ] (books : Books bufferLimit set) {partition : Nat} (inside : partition < set.npartitions) :
    Books bufferLimit (getWriter set partition) := by
  obtain ⟨⟨same,held,_⟩,_⟩ := getWriter_moves books.valid inside
  have limit : (getWriter set partition).maxWriters = min (getWriter set partition).npartitions
      (max 1 (bufferLimit / writerBytes (getWriter set partition).ncolumns)) := by
    rw [same.maxWriters,same.npartitions,same.ncolumns,books.limit]
  cases absent : set.writers partition with
  | some writer =>
    have kept : getWriter set partition = set := by rw [getWriter,absent]
    rw [kept]
    exact books
  | none =>
    let room := if set.activeWriters = set.maxWriters then evictWriter set else set
    -- There is room for one more, made by the eviction or there before.
    obtain ⟨books',less,unused,shape⟩ : Books bufferLimit room ∧ room.activeWriters < room.maxWriters ∧
        room.writers partition = none ∧ Same set room := by
      unfold room
      by_cases full : set.activeWriters = set.maxWriters
      · rw [if_pos full]
        obtain ⟨victim,found,member⟩ := books.full_victim full inside
        obtain ⟨erased,counted⟩ := evictWriter_live books.valid books.counted found
        have shape := (evictWriter_moves books.valid).same
        refine ⟨books.evict,?_,writers_evict absent,shape⟩
        rw [counted,erased,shape.maxWriters,← full,books.counted]
        exact Finset.card_erase_lt_of_mem member
      · rw [if_neg full]
        exact ⟨books,Nat.lt_of_le_of_ne books.within full,absent,.refl set⟩
    have got : getWriter set partition = {room with
        writers := Function.update room.writers partition (some .zero)
        activeWriters := room.activeWriters + 1} := by
      rw [getWriter,absent]
    have opened : (getWriter set partition).live = insert partition room.live := by
      rw [got]
      ext other
      rw [Finset.mem_insert,mem_live,mem_live]
      by_cases here : other = partition
      · subst here
        simp [shape.npartitions,inside]
      · simp [here]
    have fresh : partition ∉ room.live := by
      rw [mem_live,unused]
      simp
    have active : (getWriter set partition).activeWriters = room.activeWriters + 1 := by rw [got]
    refine ⟨held,?_,?_,limit⟩
    · rw [opened,Finset.card_insert_of_notMem fresh,active,books'.counted]
    · rw [active,same.maxWriters,← shape.maxWriters]
      exact less

theorem row (books : Books bufferLimit set) {partition : Nat} {row : Row τ} (width : row.cells.length = set.ncolumns)
    (present : (set.writers partition).isSome = true) : Books bufferLimit (appendRow set partition row) := by
  obtain ⟨⟨same,held,_⟩,_⟩ := appendRow_adds books.valid width present
  obtain ⟨writer,found⟩ := Option.isSome_iff_exists.mp present
  have counts : (appendRow set partition row).live = set.live ∧
      (appendRow set partition row).activeWriters = set.activeWriters := by
    unfold appendRow
    simp only [found]
    split
    · obtain ⟨flushed,active⟩ := flushWriter_live ({set with
        writers := Function.update set.writers partition (some (writer.append set.ncolumns row.tag row.hash row.cell))
        partitionRows := Function.update set.partitionRows partition (set.partitionRows partition + 1)
        stats := {set.stats with rowsWritten := set.stats.rowsWritten + 1}} : Writers τ) partition
      exact ⟨flushed.trans (live_store present rfl rfl),active⟩
    · exact ⟨live_store present rfl rfl,rfl⟩
  refine ⟨held,?_,?_,?_⟩
  · rw [counts.1,counts.2,books.counted]
  · rw [counts.2,same.maxWriters]
    exact books.within
  · rw [same.maxWriters,same.npartitions,same.ncolumns,books.limit]

theorem kept (books : Books bufferLimit set) : Kept bufferLimit set where
  counted := books.counted
  within := books.within
  bytes := by
    have few : set.live.card ≤ max 1 (bufferLimit / writerBytes set.ncolumns) := by
      rw [← books.counted]
      exact books.within.trans (books.limit ▸ Nat.min_le_right ..)
    have held : set.heldBytes = set.live.card * writerBytes set.ncolumns := Finset.sum_const_nat fun _ _ => rfl
    rw [held]
    rcases Nat.le_total (bufferLimit / writerBytes set.ncolumns) 1 with one | more
    · rw [Nat.max_eq_left one] at few
      exact (Nat.mul_le_mul_right _ few).trans (by rw [Nat.one_mul]; exact Nat.le_max_right ..)
    · rw [Nat.max_eq_right more] at few
      exact (Nat.mul_le_mul_right _ few).trans ((Nat.div_mul_le_self ..).trans (Nat.le_max_left ..))
  pending := fun partition writer found => (books.valid.open_ partition writer found).2.1
  rows := by
    intro partition
    rw [books.valid.counted,Writers.contents,List.length_append,List.length_flatMap]
    congr 1
    · congr 1
      exact List.map_congr_left fun block _ => length_rows ..
    · cases set.writers partition with
      | none => rfl
      | some writer => exact length_rows ..

end Books

/-- A new set, or the new writer of a participant. -/
inductive Created (bufferLimit : Nat) : Writers Unit → Prop
  | set {desc : List Attribute} {ncolumns npartitions : Nat} {set : SpillSet Unit}
      (created : spillCreate desc ncolumns npartitions bufferLimit = .ok set) : Created bufferLimit set.toWriters
  | writer {shape : SharedShape} {participant : Nat} {desc : List Attribute} {writer : Writers Unit}
      (created : sharedSpillWriterCreate shape participant desc bufferLimit = .ok writer) : Created bufferLimit writer

/-- The calls of a service, and between their ends each eviction, each buffer that is got, each row and each
flush that a call makes. -/
inductive Passes : Writers Unit → Writers Unit → Prop
  | call {set after : Writers Unit} (service : Service) (call : Call) (ran : call.apply service set = .ok after) :
      Passes set after
  | finish {set : Writers Unit} : Passes set {finishWriters set with finished := true}
  | evict {set : Writers Unit} : Passes set (evictWriter set)
  | get {set : Writers Unit} {partition : Nat} (inside : partition < set.npartitions) :
      Passes set (getWriter set partition)
  | row {set : Writers Unit} {partition : Nat} {row : Row Unit} (width : row.cells.length = set.ncolumns)
      (present : (set.writers partition).isSome = true) : Passes set (appendRow set partition row)
  | flush {set : Writers Unit} (partition : Nat) : Passes set (flushWriter set partition)
  | free {set : Writers Unit} (partition : Nat) : Passes set (freeWriter (flushWriter set partition) partition)

namespace Books
variable {bufferLimit : Nat} {set : Writers Unit}

theorem rows (books : Books bufferLimit set) {partition : Nat} (inside : partition < set.npartitions)
    {added : List (Row Unit)} (width : ∀ row ∈ added, row.cells.length = set.ncolumns) :
    Books bufferLimit (appendRows set partition added) := by
  obtain ⟨⟨same,_,_⟩,present⟩ := getWriter_moves books.valid inside
  have got := books.get inside
  rw [← same.ncolumns] at width
  unfold appendRows
  generalize getWriter set partition = start at got present width
  clear same inside books
  induction added generalizing start with
  | nil => exact got
  | cons row rest ih =>
    have fits := width row (List.mem_cons_self ..)
    obtain ⟨⟨same,_,_⟩,present'⟩ := appendRow_adds got.valid fits present
    refine ih _ (got.row fits present) present' fun row member => ?_
    rw [same.ncolumns]
    exact width row (List.mem_cons_of_mem _ member)

theorem call {after : Writers Unit} (books : Books bufferLimit set) {service : Service} {call : Call}
    (ran : call.apply service set = .ok after) : Books bufferLimit after := by
  obtain ⟨fits,unfinished⟩ := apply_fits ran
  cases call with
  | write target nrows nwords words columns hashes =>
    obtain ⟨inside,small,one⟩ := fits
    have accepted : ¬ (set.finished = true ∨ blockRows < nrows) := by
      simp only [unfinished,Bool.false_eq_true,false_or]
      omega
    have wrote : Call.apply service set (.write target nrows nwords words columns hashes) =
        .ok (writeSelected set target nrows (words 0) (writtenRow set.ncolumns columns hashes)) := by
      simp only [Call.apply,Service.write,validatePartition_ok inside,one]
      exact if_neg accepted
    rw [wrote] at ran
    cases ran
    unfold writeSelected
    dsimp only
    split
    · exact books
    · refine books.rows inside fun row member => ?_
      obtain ⟨index,_,rfl⟩ := List.mem_map.mp member
      simp [writtenRow]
  | writeDense target nrows hashes values valueStride validity =>
    obtain ⟨inside,nonempty,small,wide⟩ := fits
    have accepted : ¬ (set.finished = true ∨ nrows = 0 ∨ blockRows < nrows) := by
      simp only [unfinished,Bool.false_eq_true,false_or]
      omega
    have wrote : Call.apply service set (.writeDense target nrows hashes values valueStride validity) =
        .ok (appendRows set target ((denseBlock nrows hashes values valueStride validity).rows set.ncolumns)) := by
      have strided : ¬ valueStride < nrows := by omega
      simp only [Call.apply,Service.writeDense,validatePartition_ok inside]
      exact (if_neg strided).trans (if_neg accepted)
    rw [wrote] at ran
    cases ran
    refine books.rows inside fun row member => ?_
    obtain ⟨index,_,rfl⟩ := List.mem_map.mp member
    simp [Store.row]

theorem finish (books : Books bufferLimit set) : Books bufferLimit (finishWriters set) := by
  unfold finishWriters
  generalize List.range set.npartitions = partitions
  induction partitions generalizing set with
  | nil => exact books
  | cons partition rest ih => exact ih (books.free partition)

theorem passes {after : Writers Unit} (books : Books bufferLimit set) (step : Passes set after) :
    Books bufferLimit after := by
  cases step with
  | call service call ran => exact books.call ran
  | finish =>
    obtain ⟨held,counted,within,limit⟩ := books.finish
    exact ⟨⟨held.open_,held.flushed,held.counted⟩,counted,within,limit⟩
  | evict => exact books.evict
  | get inside => exact books.get inside
  | row width present => exact books.row width present
  | flush partition => exact books.flush partition
  | free partition => exact books.free partition

end Books

theorem create_books (ncolumns npartitions bufferLimit : Nat) :
    Books bufferLimit (create ncolumns npartitions bufferLimit : Writers Unit) := by
  have empty : (create ncolumns npartitions bufferLimit : Writers Unit).live = ∅ := by
    simp [Writers.live,create]
  exact ⟨create_valid ncolumns npartitions bufferLimit,by rw [empty]; rfl,Nat.zero_le _,rfl⟩

theorem created_books {bufferLimit : Nat} {set : Writers Unit} (created : Created bufferLimit set) :
    Books bufferLimit set := by
  cases created with
  | set created =>
    unfold spillCreate at created
    split at created
    · cases created
    · split at created
      · cases created
      · cases created
        exact create_books ..
  | writer created =>
    unfold sharedSpillWriterCreate at created
    split at created
    · cases created
    · split at created
      · cases created
      · cases created
        exact create_books ..

/-- In every state that a set or a shared writer passes, the counters are those of its buffers and its rows; and
where a buffer is got by an eviction, it is not the one of the evicted writer, which is gone. -/
theorem writers_kept {bufferLimit : Nat} {start set : Writers Unit} (created : Created bufferLimit start)
    (run : Relation.ReflTransGen Passes start set) :
    Kept bufferLimit set ∧
      ∀ partition, partition < set.npartitions → set.writers partition = none → set.activeWriters = set.maxWriters →
        ∃ victim, set.victim = some victim ∧ (set.writers victim).isSome = true ∧ victim ≠ partition ∧
          (getWriter set partition).writers victim = none ∧
          ((getWriter set partition).writers partition).isSome = true := by
  have books : Books bufferLimit set := by
    induction run with
    | refl => exact created_books created
    | tail _ step ih => exact ih.passes step
  refine ⟨books.kept,fun partition inside absent full => ?_⟩
  obtain ⟨victim,found,member⟩ := books.full_victim full inside
  have present := (mem_live.mp member).2
  have apart : victim ≠ partition := by
    intro same
    rw [same,absent] at present
    cases present
  refine ⟨victim,found,present,apart,?_,(getWriter_moves books.valid inside).2⟩
  have gone : (evictWriter set).writers victim = none := by
    rw [evictWriter_eq,found]
    exact (flushFree_moves books.valid victim).2
  rw [getWriter,absent]
  dsimp only
  rw [if_pos full,Function.update_of_ne apart,gone]

/-- Two partitions and a limit under the size of one buffer. -/
def narrowSet : SpillSet Unit := {create 1 2 0 with frozen := false, position := fun _ => 0}

def narrowCall : Call := .writeDense 0 1 (fun _ => 5#32) (fun _ => 7#32) 1 fun _ => 1#64

theorem narrow_kept : ∃ set, narrowCall.apply spillService narrowSet.toWriters = .ok set ∧ Kept 0 set ∧
    ∃ victim, set.victim = some victim ∧ (set.writers victim).isSome = true ∧ victim ≠ 1 ∧
      (getWriter set 1).writers victim = none ∧ ((getWriter set 1).writers 1).isSome = true := by
  have created : Created 0 narrowSet.toWriters := @Created.set 0 [⟨false,true⟩] 1 2 narrowSet rfl
  have wrote : narrowCall.apply spillService narrowSet.toWriters = .ok _ := rfl
  have kept := writers_kept created (.single (.call spillService narrowCall wrote))
  exact ⟨_,wrote,kept.1,kept.2 1 (by decide) rfl rfl⟩

end PgBatch.Spill
