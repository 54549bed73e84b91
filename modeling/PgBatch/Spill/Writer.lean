import PgBatch.Kernels.Hash

/-! The block writers of `spill/spill.c`.
The private and the shared spill service buffer rows in the same way: a block of
64 rows for each partition, of which only so many exist at a time. -/
namespace PgBatch.Spill
open Words Columnar
variable {τ : Type}

/-- `PG_BATCH_SPILL_BLOCK_ROWS`. -/
def blockRows : Nat := 64

structure Stats where
  rowsWritten : Nat
  rowsRead : Nat
  blocksWritten : Nat
  blocksRead : Nat
  bytesWritten : Nat
  bytesRead : Nat
deriving DecidableEq, Repr

/-- The fields that `PgBatchSpillSet` and `PgBatchSharedSpillWriter` have in common.
A partition's tape or file is the list of its flushed blocks. -/
structure Writers (τ : Type) where
  ncolumns : Nat
  npartitions : Nat
  files : Nat → List (Store τ)
  writers : Nat → Option (Store τ)
  partitionRows : Nat → Nat
  activeWriters : Nat
  maxWriters : Nat
  evictionCursor : Nat
  finished : Bool
  stats : Stats

def blockBytes (ncolumns nrows : Nat) : Nat :=
  8 + 4 * nrows + 8 * ncolumns + 4 * ncolumns * nrows

/-- `writer_bytes`: a `SpillWriter`, its values and its validity bytes. -/
def writerBytes (ncolumns : Nat) : Nat :=
  280 + (4 * blockRows * ncolumns + 8 * ncolumns)

def create (ncolumns npartitions bufferLimit : Nat) : Writers τ where
  ncolumns := ncolumns
  npartitions := npartitions
  files := fun _ => []
  writers := fun _ => none
  partitionRows := fun _ => 0
  activeWriters := 0
  maxWriters := min npartitions (max 1 (bufferLimit / writerBytes ncolumns))
  evictionCursor := 0
  finished := false
  stats := ⟨0,0,0,0,0,0⟩

def flushWriter (set : Writers τ) (partition : Nat) : Writers τ :=
  match set.writers partition with
  | none => set
  | some writer =>
    if writer.nrows = 0 then set
    else {set with
      files := Function.update set.files partition (set.files partition ++ [writer])
      writers := Function.update set.writers partition (some writer.wipe)
      stats := {set.stats with
        blocksWritten := set.stats.blocksWritten + 1
        bytesWritten := set.stats.bytesWritten + blockBytes set.ncolumns writer.nrows}}

def freeWriter (set : Writers τ) (partition : Nat) : Writers τ :=
  match set.writers partition with
  | none => set
  | some _ => {set with
      writers := Function.update set.writers partition none
      activeWriters := set.activeWriters - 1}

/-- The victim loop of `get_writer`. -/
def evictWriter (set : Writers τ) : Writers τ :=
  let victims := (List.range set.npartitions).map (fun offset => (set.evictionCursor + offset) % set.npartitions)
  match victims.find? (fun victim => (set.writers victim).isSome) with
  | none => set
  | some victim => {freeWriter (flushWriter set victim) victim with
      evictionCursor := (victim + 1) % set.npartitions}

def getWriter [Inhabited τ] (set : Writers τ) (partition : Nat) : Writers τ :=
  match set.writers partition with
  | some _ => set
  | none =>
    let set := if set.activeWriters = set.maxWriters then evictWriter set else set
    {set with
      writers := Function.update set.writers partition (some .zero)
      activeWriters := set.activeWriters + 1}

/-- The body of the row loops of `pg_batch_spill_write` and `pg_batch_spill_write_dense`. -/
def appendRow (set : Writers τ) (partition : Nat) (row : Row τ) : Writers τ :=
  match set.writers partition with
  | none => set
  | some writer =>
    let writer := writer.append set.ncolumns row.tag row.hash row.cell
    let set := {set with
      writers := Function.update set.writers partition (some writer)
      partitionRows := Function.update set.partitionRows partition (set.partitionRows partition + 1)
      stats := {set.stats with rowsWritten := set.stats.rowsWritten + 1}}
    if writer.nrows = blockRows then flushWriter set partition else set

def appendRows [Inhabited τ] (set : Writers τ) (partition : Nat) (rows : List (Row τ)) : Writers τ :=
  rows.foldl (fun set row => appendRow set partition row) (getWriter set partition)

/-- The rows a write call may store, `(1 << nrows) - 1` being all ones for 64 rows. -/
def writeMask (nrows : Nat) : BitVec 64 :=
  if nrows = 64 then BitVec.allOnes 64 else bit 64 nrows - 1#64

/-- The part of `pg_batch_spill_write` behind its argument checks. -/
def writeSelected [Inhabited τ] (set : Writers τ) (partition nrows : Nat) (selection : BitVec 64) (row : Nat → Row τ) :
    Writers τ :=
  let selected := selection &&& writeMask nrows
  if selected = 0#64 then set else appendRows set partition ((rows selected).map row)

/-- The loop of `pg_batch_spill_finish`. -/
def finishWriters (set : Writers τ) : Writers τ :=
  (List.range set.npartitions).foldl (fun set partition => freeWriter (flushWriter set partition) partition) set

/-- The two services check a write in the same way; their error texts differ. -/
structure Service where
  outOfRange : Nat → String
  invalidWrite : String
  invalidDenseWrite : String

namespace Service

def validatePartition (service : Service) (set : Writers τ) (partition : Nat) : Except String Unit :=
  if set.npartitions ≤ partition then .error (service.outOfRange partition) else .ok ()

def write [Inhabited τ] (service : Service) (set : Writers τ) (partition nrows : Nat) (selection : BitVec 64)
    (row : Nat → Row τ) : Except String (Writers τ) := do
  service.validatePartition set partition
  if set.finished ∨ blockRows < nrows then .error service.invalidWrite
  else .ok (writeSelected set partition nrows selection row)

def writeDense [Inhabited τ] (service : Service) (set : Writers τ) (partition : Nat) (block : Store τ) :
    Except String (Writers τ) := do
  service.validatePartition set partition
  if set.finished ∨ block.nrows = 0 ∨ blockRows < block.nrows then .error service.invalidDenseWrite
  else .ok (appendRows set partition (block.rows set.ncolumns))

end Service

/-! What a set holds is the rows written to it, wherever they are. -/

/-- The rows written to a partition: flushed blocks first, then the open block. -/
def Writers.contents (set : Writers τ) (partition : Nat) : List (Row τ) :=
  (set.files partition).flatMap (Store.rows set.ncolumns) ++
    (set.writers partition).elim [] (Store.rows set.ncolumns)

structure Writers.Valid (set : Writers τ) : Prop where
  open_ : ∀ partition writer, set.writers partition = some writer →
    partition < set.npartitions ∧ writer.nrows < blockRows ∧ writer.Clear set.ncolumns
  flushed : ∀ partition, ∀ block ∈ set.files partition, 0 < block.nrows ∧ block.nrows ≤ blockRows
  counted : ∀ partition, set.partitionRows partition = (set.contents partition).length

/-- What no writer operation changes. -/
structure Same (before after : Writers τ) : Prop where
  ncolumns : after.ncolumns = before.ncolumns
  npartitions : after.npartitions = before.npartitions
  maxWriters : after.maxWriters = before.maxWriters
  finished : after.finished = before.finished

theorem Same.refl (set : Writers τ) : Same set set := ⟨rfl,rfl,rfl,rfl⟩

theorem Same.trans {first second third : Writers τ} (left : Same first second) (right : Same second third) :
    Same first third :=
  ⟨right.ncolumns.trans left.ncolumns,right.npartitions.trans left.npartitions,
    right.maxWriters.trans left.maxWriters,right.finished.trans left.finished⟩

/-- An operation that moves rows about without adding or losing any. -/
structure Moves (before after : Writers τ) : Prop where
  same : Same before after
  valid : after.Valid
  contents : after.contents = before.contents

theorem Moves.trans {first second third : Writers τ} (left : Moves first second) (right : Moves second third) :
    Moves first third :=
  ⟨left.same.trans right.same,right.valid,right.contents.trans left.contents⟩

theorem create_valid (ncolumns npartitions bufferLimit : Nat) :
    (create ncolumns npartitions bufferLimit : Writers τ).Valid :=
  ⟨by simp [create],by simp [create],fun _ => rfl⟩

theorem flushWriter_moves {set : Writers τ} (valid : set.Valid) (partition : Nat) :
    Moves set (flushWriter set partition) := by
  unfold flushWriter
  cases found : set.writers partition with
  | none => exact ⟨.refl set,valid,rfl⟩
  | some writer =>
    by_cases empty : writer.nrows = 0
    · simp only [empty,if_true]
      exact ⟨.refl set,valid,rfl⟩
    · simp only [empty,if_false]
      obtain ⟨inside,room,clear⟩ := valid.open_ partition writer found
      have contents (other : Nat) :
          (Function.update set.files partition (set.files partition ++ [writer]) other).flatMap
              (Store.rows set.ncolumns) ++
            (Function.update set.writers partition (some writer.wipe) other).elim [] (Store.rows set.ncolumns) =
          set.contents other := by
        by_cases same : other = partition
        · subst same
          simp [Writers.contents,found]
        · simp [Writers.contents,same]
      refine ⟨⟨rfl,rfl,rfl,rfl⟩,⟨?_,?_,?_⟩,funext contents⟩
      · intro other block held
        by_cases same : other = partition
        · subst same
          simp only [Function.update_self,Option.some.injEq] at held
          subst held
          exact ⟨inside,by simp [Store.wipe,blockRows],clear_wipe _ _⟩
        · simp only [ne_eq,same,not_false_eq_true,Function.update_of_ne] at held
          exact valid.open_ other block held
      · intro other block member
        by_cases same : other = partition
        · subst same
          simp only [Function.update_self,List.mem_append,List.mem_singleton] at member
          rcases member with old | rfl
          · exact valid.flushed other block old
          · exact ⟨Nat.pos_of_ne_zero empty,Nat.le_of_lt room⟩
        · simp only [ne_eq,same,not_false_eq_true,Function.update_of_ne] at member
          exact valid.flushed other block member
      · intro other
        rw [valid.counted other,← contents other]
        rfl

theorem flushWriter_empty (set : Writers τ) (partition : Nat) {writer : Store τ}
    (held : (flushWriter set partition).writers partition = some writer) : writer.nrows = 0 := by
  unfold flushWriter at held
  cases found : set.writers partition with
  | none => simp [found] at held
  | some block =>
    simp only [found] at held
    split at held
    · rename_i empty
      rw [found] at held
      cases held
      exact empty
    · simp only [Function.update_self,Option.some.injEq] at held
      subst held
      rfl

/-- Freeing a writer that has just been flushed loses nothing. -/
theorem freeWriter_moves {set : Writers τ} (valid : set.Valid) (partition : Nat)
    (empty : ∀ writer, set.writers partition = some writer → writer.nrows = 0) :
    Moves set (freeWriter set partition) ∧ (freeWriter set partition).writers partition = none := by
  unfold freeWriter
  cases found : set.writers partition with
  | none => exact ⟨⟨.refl set,valid,rfl⟩,found⟩
  | some writer =>
    have contents (other : Nat) : (set.files other).flatMap (Store.rows set.ncolumns) ++
        (Function.update set.writers partition none other).elim [] (Store.rows set.ncolumns) =
        set.contents other := by
      by_cases same : other = partition
      · subst same
        have none : writer.rows set.ncolumns = [] := by simp [Store.rows,empty writer found]
        simp [Writers.contents,found,none]
      · simp [Writers.contents,same]
    dsimp only
    refine ⟨⟨⟨rfl,rfl,rfl,rfl⟩,⟨?_,valid.flushed,?_⟩,funext contents⟩,Function.update_self ..⟩
    · intro other block held
      by_cases same : other = partition
      · subst same
        simp at held
      · simp only [ne_eq,same,not_false_eq_true,Function.update_of_ne] at held
        exact valid.open_ other block held
    · intro other
      rw [valid.counted other,← contents other]
      rfl

theorem flushFree_moves {set : Writers τ} (valid : set.Valid) (partition : Nat) :
    Moves set (freeWriter (flushWriter set partition) partition) ∧
      (freeWriter (flushWriter set partition) partition).writers partition = none := by
  have flushed := flushWriter_moves valid partition
  have freed := freeWriter_moves flushed.valid partition (fun _ => flushWriter_empty set partition)
  exact ⟨flushed.trans freed.1,freed.2⟩

theorem evictWriter_moves {set : Writers τ} (valid : set.Valid) : Moves set (evictWriter set) := by
  unfold evictWriter
  dsimp only
  split
  · exact ⟨.refl set,valid,rfl⟩
  · rename_i victim _
    obtain ⟨⟨same,held,contents⟩,_⟩ := flushFree_moves valid victim
    exact ⟨⟨same.ncolumns,same.npartitions,same.maxWriters,same.finished⟩,
      ⟨held.open_,held.flushed,held.counted⟩,contents⟩

theorem writers_evict {set : Writers τ} {partition : Nat} (none : set.writers partition = none) :
    (evictWriter set).writers partition = .none := by
  have flush (victim : Nat) : (flushWriter set victim).writers partition = .none := by
    unfold flushWriter
    split
    · exact none
    · rename_i found
      split
      · exact none
      · have other : partition ≠ victim := by
          rintro rfl
          rw [none] at found
          contradiction
        simpa [other] using none
  unfold evictWriter
  dsimp only
  split
  · exact none
  · rename_i victim _
    simp only [freeWriter]
    split
    · exact flush victim
    · by_cases same : partition = victim
      · subst same
        simp
      · simpa [same] using flush victim

theorem getWriter_moves [Inhabited τ] {set : Writers τ} (valid : set.Valid) {partition : Nat}
    (inside : partition < set.npartitions) :
    Moves set (getWriter set partition) ∧ ((getWriter set partition).writers partition).isSome = true := by
  unfold getWriter
  cases found : set.writers partition with
  | some writer => exact ⟨⟨.refl set,valid,rfl⟩,by simp [found]⟩
  | none =>
    -- Making room first keeps the partition's writer absent, so nothing is overwritten.
    let room := if set.activeWriters = set.maxWriters then evictWriter set else set
    have moved : Moves set room ∧ room.writers partition = none := by
      unfold room
      split
      · exact ⟨evictWriter_moves valid,writers_evict found⟩
      · exact ⟨⟨.refl set,valid,rfl⟩,found⟩
    obtain ⟨⟨same,held,contents⟩,absent⟩ := moved
    have fresh (other : Nat) : (room.files other).flatMap (Store.rows room.ncolumns) ++
        (Function.update room.writers partition (some .zero) other).elim [] (Store.rows room.ncolumns) =
        room.contents other := by
      by_cases this : other = partition
      · subst this
        simp [Writers.contents,absent]
      · simp [Writers.contents,this]
    refine ⟨⟨⟨same.ncolumns,same.npartitions,same.maxWriters,same.finished⟩,⟨?_,held.flushed,?_⟩,?_⟩,?_⟩
    · intro other block kept
      by_cases this : other = partition
      · subst this
        simp only [Function.update_self,Option.some.injEq] at kept
        subst kept
        exact ⟨same.npartitions ▸ inside,by simp [Store.zero,blockRows],clear_zero _⟩
      · simp only [ne_eq,this,not_false_eq_true,Function.update_of_ne] at kept
        exact held.open_ other block kept
    · intro other
      exact (held.counted other).trans (congrArg List.length (fresh other).symm)
    · rw [← contents]
      exact funext fresh
    · simp

/-- What adding rows to one partition does. -/
structure Adds (before after : Writers τ) (partition : Nat) (added : List (Row τ)) : Prop where
  same : Same before after
  valid : after.Valid
  contents : after.contents = Function.update before.contents partition (before.contents partition ++ added)

theorem appendRow_adds {set : Writers τ} (valid : set.Valid) {partition : Nat} {row : Row τ}
    (width : row.cells.length = set.ncolumns) (present : (set.writers partition).isSome = true) :
    Adds set (appendRow set partition row) partition [row] ∧
      ((appendRow set partition row).writers partition).isSome = true := by
  obtain ⟨writer,found⟩ := Option.isSome_iff_exists.mp present
  obtain ⟨inside,room,clear⟩ := valid.open_ partition writer found
  let grown := writer.append set.ncolumns row.tag row.hash row.cell
  let stored : Writers τ := {set with
    writers := Function.update set.writers partition (some grown)
    partitionRows := Function.update set.partitionRows partition (set.partitionRows partition + 1)
    stats := {set.stats with rowsWritten := set.stats.rowsWritten + 1}}
  have rows : grown.rows set.ncolumns = writer.rows set.ncolumns ++ [row] := by
    rw [rows_append clear,cells_eq width]
  have contents : stored.contents =
      Function.update set.contents partition (set.contents partition ++ [row]) := by
    funext other
    by_cases same : other = partition
    · subst same
      simp [Writers.contents,stored,found,rows]
    · simp [Writers.contents,stored,same]
  have counted (other : Nat) : stored.partitionRows other = (stored.contents other).length := by
    rw [contents]
    by_cases same : other = partition
    · subst same
      simp [stored,valid.counted]
    · simp [stored,same,valid.counted]
  unfold appendRow
  simp only [found]
  by_cases full : grown.nrows = blockRows
  · -- The full block is flushed here rather than by `flushWriter_moves`: it is no valid open block.
    have full' : (writer.append set.ncolumns row.tag row.hash row.cell).nrows = blockRows := full
    have nonzero : ¬ blockRows = 0 := by decide
    simp only [full',if_true]
    have flush : flushWriter stored partition = {stored with
        files := Function.update set.files partition (set.files partition ++ [grown])
        writers := Function.update stored.writers partition (some grown.wipe)
        stats := {stored.stats with
          blocksWritten := set.stats.blocksWritten + 1
          bytesWritten := set.stats.bytesWritten + blockBytes set.ncolumns grown.nrows}} := by
      simp [flushWriter,stored,full,nonzero]
    have moved (other : Nat) : (flushWriter stored partition).contents other = stored.contents other := by
      rw [flush]
      by_cases same : other = partition
      · subst same
        simp [Writers.contents,stored]
      · simp [Writers.contents,stored,same]
    refine ⟨⟨?_,⟨?_,?_,?_⟩,?_⟩,?_⟩
    · change Same set (flushWriter stored partition)
      rw [flush]
      exact ⟨rfl,rfl,rfl,rfl⟩
    · change ∀ other block, (flushWriter stored partition).writers other = some block → _
      rw [flush]
      intro other block held
      by_cases same : other = partition
      · subst same
        simp only [Function.update_self,Option.some.injEq] at held
        subst held
        exact ⟨inside,by simp [Store.wipe,blockRows],clear_wipe _ _⟩
      · simp only [stored,ne_eq,same,not_false_eq_true,Function.update_of_ne] at held
        exact valid.open_ other block held
    · change ∀ other, ∀ block ∈ (flushWriter stored partition).files other, _
      rw [flush]
      intro other block member
      by_cases same : other = partition
      · subst same
        simp only [Function.update_self,List.mem_append,List.mem_singleton] at member
        rcases member with old | rfl
        · exact valid.flushed other block old
        · exact ⟨by rw [full]; decide,Nat.le_of_eq full⟩
      · simp only [ne_eq,same,not_false_eq_true,Function.update_of_ne] at member
        exact valid.flushed other block member
    · intro other
      change (flushWriter stored partition).partitionRows other = _
      rw [flush]
      exact (counted other).trans (congrArg List.length ((moved other).symm.trans (by rw [flush])))
    · rw [← contents]
      exact funext moved
    · change ((flushWriter stored partition).writers partition).isSome = true
      rw [flush]
      simp
  · have open' : ¬ (writer.append set.ncolumns row.tag row.hash row.cell).nrows = blockRows := full
    simp only [open',if_false]
    refine ⟨⟨⟨rfl,rfl,rfl,rfl⟩,⟨?_,valid.flushed,counted⟩,contents⟩,by simp⟩
    intro other block held
    by_cases same : other = partition
    · subst same
      simp only [Function.update_self,Option.some.injEq] at held
      subst held
      refine ⟨inside,?_,clear_append clear _ _ _⟩
      simp only [append_nrows] at open' ⊢
      omega
    · simp only [ne_eq,same,not_false_eq_true,Function.update_of_ne] at held
      exact valid.open_ other block held

/-- Writing rows to a partition appends them to what it holds. -/
theorem appendRows_adds [Inhabited τ] {set : Writers τ} (valid : set.Valid) {partition : Nat} {added : List (Row τ)}
    (inside : partition < set.npartitions) (width : ∀ row ∈ added, row.cells.length = set.ncolumns) :
    Adds set (appendRows set partition added) partition added := by
  obtain ⟨moved,present⟩ := getWriter_moves valid inside
  suffices loop : ∀ start : Writers τ, start.Valid → (start.writers partition).isSome = true →
      start.ncolumns = set.ncolumns →
      Adds start (added.foldl (fun set row => appendRow set partition row) start) partition added by
    obtain ⟨same,held,contents⟩ := loop (getWriter set partition) moved.valid present moved.same.ncolumns
    exact ⟨moved.same.trans same,held,moved.contents ▸ contents⟩
  clear present moved
  induction added with
  | nil =>
    intro start held _ _
    exact ⟨.refl start,held,by simp⟩
  | cons row rest ih =>
    intro start held present size
    obtain ⟨⟨same,held',contents⟩,present'⟩ :=
      appendRow_adds held (size ▸ width row (List.mem_cons_self ..)) present
    obtain ⟨same',held'',contents'⟩ := ih (fun row member => width row (List.mem_cons_of_mem _ member))
      (appendRow start partition row) held' present' (same.ncolumns.trans size)
    refine ⟨same.trans same',held'',?_⟩
    rw [List.foldl_cons,contents',contents]
    simp

theorem getLsbD_writeMask {nrows : Nat} (small : nrows ≤ 64) : writeMask nrows = wordMask nrows := by
  apply BitVec.eq_of_getLsbD_eq
  intro row inside
  rw [getLsbD_wordMask]
  unfold writeMask
  by_cases full : nrows = 64
  · rw [if_pos full,BitVec.getLsbD_allOnes,decide_eq_decide]
    omega
  · have power : (bit 64 nrows).toNat = 2 ^ nrows := by
      simp only [bit,BitVec.toNat_shiftLeft,BitVec.toNat_ofNat]
      rw [Nat.shiftLeft_eq,Nat.mod_eq_of_lt (by decide : 1 < 2 ^ 64),Nat.one_mul]
      exact Nat.mod_eq_of_lt (Nat.pow_lt_pow_right (by decide) (by omega))
    have less : (bit 64 nrows - 1#64).toNat = 2 ^ nrows - 1 := by
      rw [BitVec.toNat_sub_of_le (by rw [BitVec.le_def,power]; exact Nat.one_le_two_pow),power]
      rfl
    rw [if_neg full,← BitVec.testBit_toNat,less,Nat.testBit_two_pow_sub_one,decide_eq_decide]
    omega

theorem writeSelected_adds [Inhabited τ] {set : Writers τ} (valid : set.Valid) {partition nrows : Nat}
    {selection : BitVec 64} {row : Nat → Row τ} (inside : partition < set.npartitions) (small : nrows ≤ 64)
    (width : ∀ index, (row index).cells.length = set.ncolumns) :
    Adds set (writeSelected set partition nrows selection row) partition
      ((rows (selection &&& wordMask nrows)).map row) := by
  unfold writeSelected
  rw [getLsbD_writeMask small]
  dsimp only
  split
  · rename_i none
    rw [none]
    exact ⟨.refl set,valid,by simp⟩
  · refine appendRows_adds valid inside ?_
    intro stored member
    obtain ⟨index,_,rfl⟩ := List.mem_map.mp member
    exact width index

/-- Finishing empties every writer into its file. -/
theorem finishWriters_moves {set : Writers τ} (valid : set.Valid) :
    Moves set (finishWriters set) ∧ ∀ partition, (finishWriters set).writers partition = none := by
  suffices loop : ∀ count, count ≤ set.npartitions →
      let result := (List.range count).foldl
        (fun set partition => freeWriter (flushWriter set partition) partition) set
      Moves set result ∧ ∀ partition, partition < count → result.writers partition = none by
    obtain ⟨moved,empty⟩ := loop set.npartitions (Nat.le_refl _)
    refine ⟨moved,fun partition => ?_⟩
    cases found : (finishWriters set).writers partition with
    | none => rfl
    | some writer =>
      have inside := (moved.valid.open_ partition writer found).1
      rw [moved.same.npartitions] at inside
      rw [← found]
      exact empty partition inside
  intro count
  induction count with
  | zero => exact fun _ => ⟨⟨.refl set,valid,rfl⟩,fun _ below => absurd below (Nat.not_lt_zero _)⟩
  | succ count ih =>
    intro bound
    obtain ⟨moved,empty⟩ := ih (by omega)
    simp only [List.range_succ,List.foldl_append,List.foldl_cons,List.foldl_nil]
    obtain ⟨last,gone⟩ := flushFree_moves moved.valid count
    refine ⟨moved.trans last,fun partition below => ?_⟩
    by_cases same : partition = count
    · rw [same]
      exact gone
    · have before := empty partition (by omega)
      revert before
      generalize (List.range count).foldl
        (fun set partition => freeWriter (flushWriter set partition) partition) set = middle
      intro before
      have flush : (flushWriter middle count).writers partition = none := by
        unfold flushWriter
        split
        · exact before
        · split
          · exact before
          · simpa [same] using before
      unfold freeWriter
      split
      · exact flush
      · simpa [same] using flush

theorem validatePartition_ok {service : Service} {set : Writers τ} {partition : Nat}
    (inside : partition < set.npartitions) : service.validatePartition set partition = .ok () := by
  rw [Service.validatePartition,if_neg (by omega)]

theorem write_adds [Inhabited τ] {service : Service} {set : Writers τ} (valid : set.Valid) {partition nrows : Nat}
    {selection : BitVec 64} (row : Nat → Row τ) (inside : partition < set.npartitions)
    (unfinished : set.finished = false) (small : nrows ≤ 64)
    (width : ∀ index, (row index).cells.length = set.ncolumns) :
    ∃ after, service.write set partition nrows selection row = .ok after ∧
      Adds set after partition ((rows (selection &&& wordMask nrows)).map row) := by
  refine ⟨_,?_,writeSelected_adds valid inside small width⟩
  have fits : ¬ (set.finished = true ∨ blockRows < nrows) := by
    simp only [unfinished,Bool.false_eq_true,false_or,blockRows]
    omega
  simp only [Service.write,validatePartition_ok inside]
  exact if_neg fits

theorem writeDense_adds [Inhabited τ] {service : Service} {set : Writers τ} (valid : set.Valid) {partition : Nat}
    {block : Store τ} (inside : partition < set.npartitions) (unfinished : set.finished = false)
    (nonempty : 0 < block.nrows) (small : block.nrows ≤ blockRows) :
    ∃ after, service.writeDense set partition block = .ok after ∧
      Adds set after partition (block.rows set.ncolumns) := by
  refine ⟨_,?_,appendRows_adds valid inside ?_⟩
  · have fits : ¬ (set.finished = true ∨ block.nrows = 0 ∨ blockRows < block.nrows) := by
      simp only [unfinished,Bool.false_eq_true,false_or]
      omega
    simp only [Service.writeDense,validatePartition_ok inside]
    exact if_neg fits
  · intro row member
    obtain ⟨index,_,rfl⟩ := List.mem_map.mp member
    simp [Store.row]

/-- A pass over the partitions in which every step adds rows to its own partition. -/
theorem foldlM_adds (step : Writers τ → Nat → Except String (Writers τ)) (added : Nat → List (Row τ))
    {writer : Writers τ} (valid : writer.Valid) (count : Nat)
    (each : ∀ middle : Writers τ, middle.Valid → Same writer middle → ∀ partition, partition < count →
      ∃ after, step middle partition = .ok after ∧ Adds middle after partition (added partition)) :
    ∃ after, (List.range count).foldlM step writer = .ok after ∧ Same writer after ∧ after.Valid ∧
      ∀ partition, after.contents partition =
        writer.contents partition ++ if partition < count then added partition else [] := by
  induction count with
  | zero => exact ⟨writer,rfl,.refl writer,valid,by simp⟩
  | succ count ih =>
    obtain ⟨middle,ran,same,held,contents⟩ :=
      ih (fun middle held same partition below => each middle held same partition (by omega))
    obtain ⟨after,last,⟨same',held',contents'⟩⟩ := each middle held same count (by omega)
    refine ⟨after,?_,same.trans same',held',?_⟩
    · rw [List.range_succ,List.foldlM_append,ran]
      change (List.foldlM step middle [count]) = _
      rw [List.foldlM_cons,last]
      rfl
    · intro partition
      rw [contents']
      by_cases this : partition = count
      · subst this
        simp [contents]
      · rw [Function.update_of_ne this,contents]
        simp only [show (partition < count + 1) = (partition < count) by
          rw [eq_iff_iff]
          omega]

end PgBatch.Spill
