import PgBatch.Spill.Writer

/-! The private spill service: a set is written, finished, and then read one
partition at a time. The tapes of a frozen set can be read again from their
start; the others lose what has been read. -/
namespace PgBatch.Spill
open Words Columnar
variable {τ : Type}

/-- `PgBatchSpillSet`; `position` is the block at which each tape is read next. -/
structure SpillSet (τ : Type) extends Writers τ where
  frozen : Bool
  position : Nat → Nat

/-- What `pg_batch_spill_create` looks at in an attribute of its descriptor. -/
structure Attribute where
  isDropped : Bool
  isInt4 : Bool

def spillService : Service where
  outOfRange := fun partition => s!"pg_batch spill partition {partition} is out of range"
  invalidWrite := "invalid pg_batch spill write"
  invalidDenseWrite := "invalid dense pg_batch spill write"

def spillCreate (desc : List Attribute) (ncolumns npartitions bufferLimit : Nat) : Except String (SpillSet τ) :=
  if ncolumns = 0 ∨ desc.length < ncolumns ∨ npartitions = 0 then .error "invalid pg_batch spill configuration"
  else match (desc.take ncolumns).findIdx? fun attr => attr.isDropped || !attr.isInt4 with
    | some column => .error s!"pg_batch spill column {column + 1} must be int4"
    | none => .ok {create ncolumns npartitions bufferLimit with frozen := false, position := fun _ => 0}

/-- `pg_batch_spill_write`; it only changes what a set shares with a shared writer. -/
def spillWrite [Inhabited τ] (writers : Writers τ) (partition nrows : Nat) (selection : BitVec 64)
    (row : Nat → Row τ) : Except String (Writers τ) :=
  spillService.write writers partition nrows selection row

def spillWriteDense [Inhabited τ] (writers : Writers τ) (partition : Nat) (block : Store τ) :
    Except String (Writers τ) :=
  spillService.writeDense writers partition block

def spillFinish (set : SpillSet τ) (frozen : Bool) : Except String (SpillSet τ) :=
  if set.finished then .error "pg_batch spill set is already finished"
  else .ok {finishWriters set.toWriters with finished := true, frozen := frozen, position := fun _ => 0}

def spillPartitionRows (set : SpillSet τ) (partition : Nat) : Except String Nat := do
  spillService.validatePartition set.toWriters partition
  .ok (set.partitionRows partition)

def spillPartitionEmpty (set : SpillSet τ) (partition : Nat) : Except String Bool := do
  spillService.validatePartition set.toWriters partition
  .ok (set.partitionRows partition == 0)

structure Reader where
  partition : Nat
  eof : Bool
deriving DecidableEq, Repr

/-- Move a frozen tape back to its start, unless it is empty. -/
def rewindTape (set : SpillSet τ) (partition : Nat) : SpillSet τ :=
  if set.partitionRows partition ≠ 0 then {set with position := Function.update set.position partition 0} else set

def readerOpen (set : SpillSet τ) (partition : Nat) : Except String (SpillSet τ × Reader) := do
  spillService.validatePartition set.toWriters partition
  if set.finished then
    let eof ← spillPartitionEmpty set partition
    .ok (if set.frozen then rewindTape set partition else set,⟨partition,eof⟩)
  else .error "pg_batch spill set is not ready for reading"

def readerNext (set : SpillSet τ) (reader : Reader) : Except String (SpillSet τ × Reader × Option (Store τ)) :=
  if reader.eof then .ok (set,reader,none)
  else match (set.files reader.partition)[set.position reader.partition]? with
    | none => .ok (set,{reader with eof := true},none)
    | some block =>
      if block.nrows = 0 ∨ blockRows < block.nrows then .error "invalid pg_batch spill block"
      else .ok ({set with
          position := Function.update set.position reader.partition (set.position reader.partition + 1)
          stats := {set.stats with
            rowsRead := set.stats.rowsRead + block.nrows
            blocksRead := set.stats.blocksRead + 1
            bytesRead := set.stats.bytesRead + blockBytes set.ncolumns block.nrows}},reader,some block)

def readerRewind (set : SpillSet τ) (reader : Reader) : Except String (SpillSet τ × Reader) :=
  if set.frozen then do
    let eof ← spillPartitionEmpty set reader.partition
    .ok (rewindTape set reader.partition,{reader with eof := eof})
  else .error "cannot rewind a destructive pg_batch spill reader"

/-- `PgBatchSpillBlock.selection`: every row of the block. -/
def blockSelection (block : Store τ) : BitVec 64 :=
  writeMask block.nrows

/-- The blocks that a reader has still to deliver. -/
def remaining (set : SpillSet τ) (reader : Reader) : List (Store τ) :=
  if reader.eof then [] else (set.files reader.partition).drop (set.position reader.partition)

theorem rows_blockSelection {block : Store τ} (small : block.nrows ≤ blockRows) :
    rows (blockSelection block) = List.range block.nrows := by
  have bound : block.nrows ≤ 64 := small
  rw [blockSelection,getLsbD_writeMask bound]
  apply List.Perm.eq_of_pairwise' (rows_sorted _) List.pairwise_lt_range
  apply (List.perm_ext_iff_of_nodup (rows_nodup _) List.nodup_range).mpr
  intro row
  rw [mem_rows,getLsbD_wordMask,decide_eq_true_eq,List.mem_range]
  omega

theorem readerNext_shorter {set set' : SpillSet τ} {reader reader' : Reader} {block : Store τ}
    (next : readerNext set reader = .ok (set',reader',some block)) :
    (remaining set' reader').length < (remaining set reader).length := by
  unfold readerNext at next
  split at next
  · cases next
  · rename_i open_
    split at next
    · cases next
    · rename_i found
      split at next
      · cases next
      · cases next
        have inside := (List.getElem?_eq_some_iff.mp found).1
        simp only [remaining,open_,Function.update_self]
        simp only [Bool.false_eq_true,if_false,List.length_drop]
        omega

/-- `while (pg_batch_spill_reader_next (reader, &block))`, with a body that may
leave the loop early. -/
def readLoop {σ : Type} (body : σ → Store τ → Except String (σ × Bool)) (set : SpillSet τ) (reader : Reader)
    (state : σ) : Except String (SpillSet τ × σ × Bool) :=
  match _ : readerNext set reader with
  | .error message => .error message
  | .ok (set,_,none) => .ok (set,state,true)
  | .ok (set',reader',some block) => match body state block with
    | .error message => .error message
    | .ok (state,false) => .ok (set',state,false)
    | .ok (state,true) => readLoop body set' reader' state
termination_by (remaining set reader).length
decreasing_by exact readerNext_shorter ‹_›

/-- Reading moves the tapes of a set and counts what was read. -/
def Reads (before after : SpillSet τ) : Prop :=
  ∃ position stats, after = {before with position := position, stats := stats}

theorem Reads.refl (set : SpillSet τ) : Reads set set := ⟨_,_,rfl⟩

theorem Reads.trans {first second third : SpillSet τ} (left : Reads first second) (right : Reads second third) :
    Reads first third := by
  obtain ⟨_,_,rfl⟩ := left
  obtain ⟨_,_,rfl⟩ := right
  exact ⟨_,_,rfl⟩

/-- A finished set from which `rows` can be read, whatever its tapes stand at. -/
structure Holds (set : SpillSet τ) (rows : Nat → List (Row τ)) : Prop where
  finished : set.finished = true
  blocks : ∀ partition, ∀ block ∈ set.files partition, 0 < block.nrows ∧ block.nrows ≤ blockRows
  contents : ∀ partition, (set.files partition).flatMap (Store.rows set.ncolumns) = rows partition
  counted : ∀ partition, set.partitionRows partition = (rows partition).length

theorem Holds.reads {before after : SpillSet τ} {rows : Nat → List (Row τ)} (holds : Holds before rows)
    (reads : Reads before after) : Holds after rows := by
  obtain ⟨_,_,rfl⟩ := reads
  exact ⟨holds.finished,holds.blocks,holds.contents,holds.counted⟩

theorem spillCreate_ok (desc : List Attribute) (ncolumns npartitions bufferLimit : Nat) (some : 0 < ncolumns)
    (wide : ncolumns ≤ desc.length) (parts : 0 < npartitions)
    (int4 : ∀ attr ∈ desc, attr.isDropped = false ∧ attr.isInt4 = true) :
    (spillCreate desc ncolumns npartitions bufferLimit : Except String (SpillSet τ)) =
      .ok {create ncolumns npartitions bufferLimit with frozen := false, position := fun _ => 0} := by
  unfold spillCreate
  rw [if_neg (by omega)]
  have fine : (desc.take ncolumns).findIdx? (fun attr => attr.isDropped || !attr.isInt4) = none := by
    rw [List.findIdx?_eq_none_iff]
    intro attr member
    simp [int4 attr (List.mem_of_mem_take member)]
  rw [fine]

theorem spillFinish_holds (set : SpillSet τ) (valid : set.toWriters.Valid) (unfinished : set.finished = false)
    (frozen : Bool) :
    ∃ after, spillFinish set frozen = .ok after ∧ Holds after set.toWriters.contents ∧ after.frozen = frozen ∧
      after.ncolumns = set.ncolumns ∧ after.npartitions = set.npartitions ∧ after.position = fun _ => 0 := by
  obtain ⟨⟨same,held,contents⟩,empty⟩ := finishWriters_moves valid
  refine ⟨_,by rw [spillFinish,if_neg (by simp [unfinished])],⟨rfl,held.flushed,?_,?_⟩,rfl,same.ncolumns,
    same.npartitions,rfl⟩
  · intro partition
    rw [← contents]
    simp [Writers.contents,empty]
  · intro partition
    rw [← contents]
    exact held.counted partition

theorem spillPartitionEmpty_ok {set : SpillSet τ} {rows : Nat → List (Row τ)} (holds : Holds set rows)
    {partition : Nat} (inside : partition < set.npartitions) :
    spillPartitionEmpty set partition = .ok (rows partition).isEmpty := by
  simp only [spillPartitionEmpty,validatePartition_ok inside,holds.counted]
  cases rows partition <;> rfl

/-- An empty partition has no blocks. -/
theorem Holds.none {set : SpillSet τ} {rows : Nat → List (Row τ)} (holds : Holds set rows) {partition : Nat}
    (empty : rows partition = []) : set.files partition = [] := by
  rw [List.eq_nil_iff_forall_not_mem]
  intro block member
  have size := (holds.blocks partition block member).1
  have within : block.rows set.ncolumns = [] := by
    have flat := holds.contents partition
    rw [empty,List.flatMap_eq_nil_iff] at flat
    exact flat block member
  rw [← length_rows set.ncolumns block,within] at size
  exact absurd size (by simp)

/-- Opened on a frozen set, a reader delivers the whole partition again. -/
theorem readerOpen_frozen {set : SpillSet τ} {rows : Nat → List (Row τ)} (holds : Holds set rows)
    (frozen : set.frozen = true) {partition : Nat} (inside : partition < set.npartitions) :
    ∃ after reader, readerOpen set partition = .ok (after,reader) ∧ Reads set after ∧
      remaining after reader = set.files partition := by
  have opened : readerOpen set partition = .ok (rewindTape set partition,⟨partition,(rows partition).isEmpty⟩) := by
    simp only [readerOpen,validatePartition_ok inside,holds.finished,spillPartitionEmpty_ok holds inside,frozen]
    rfl
  refine ⟨_,_,opened,?_,?_⟩
  · unfold rewindTape
    split
    · exact ⟨_,_,rfl⟩
    · exact .refl set
  · cases cells : rows partition with
    | nil => simp [remaining,holds.none cells]
    | cons first rest =>
      have some : set.partitionRows partition ≠ 0 := by simp [holds.counted,cells]
      simp [remaining,rewindTape,some]

theorem readerNext_none {set : SpillSet τ} {reader : Reader} (empty : remaining set reader = []) :
    ∃ reader', readerNext set reader = .ok (set,reader',none) ∧ reader'.partition = reader.partition := by
  unfold readerNext
  split
  · exact ⟨_,rfl,rfl⟩
  · rename_i open_
    simp only [remaining,open_,Bool.false_eq_true,if_false,List.drop_eq_nil_iff] at empty
    rw [List.getElem?_eq_none empty]
    exact ⟨_,rfl,rfl⟩

theorem readerNext_some {set : SpillSet τ} {rows : Nat → List (Row τ)} (holds : Holds set rows) {reader : Reader}
    {block : Store τ} {rest : List (Store τ)} (more : remaining set reader = block :: rest) :
    ∃ after, readerNext set reader = .ok (after,reader,some block) ∧ Reads set after ∧
      remaining after reader = rest := by
  unfold remaining at more
  unfold readerNext
  split at more
  · cases more
  · rename_i open_
    have found : (set.files reader.partition)[set.position reader.partition]? = some block := by
      rw [← List.head?_drop,more]
      rfl
    have size := holds.blocks reader.partition block (List.mem_of_getElem? found)
    rw [if_neg open_,found]
    dsimp only
    rw [if_neg (by omega)]
    refine ⟨_,rfl,⟨_,_,rfl⟩,?_⟩
    simp only [remaining,open_,Bool.false_eq_true,if_false,Function.update_self]
    rw [← List.tail_drop,more]
    rfl

/-- The rule of the read loop: a body that keeps the invariant over the blocks
read so far keeps it to the end, unless it leaves the loop. -/
theorem readLoop_rule {σ : Type} (body : σ → Store τ → Except String (σ × Bool)) (Inv : List (Store τ) → σ → Prop)
    (Left : σ → Prop) (all before : List (Store τ)) {set : SpillSet τ} {rows : Nat → List (Row τ)}
    (holds : Holds set rows) {reader : Reader} {state : σ}
    (split : all = before ++ remaining set reader) (start : Inv before state)
    (each : ∀ before block rest state, all = before ++ block :: rest → Inv before state →
      ∃ state' more, body state block = .ok (state',more) ∧
        if more then Inv (before ++ [block]) state' else Left state') :
    ∃ after state' more, readLoop body set reader state = .ok (after,state',more) ∧ Reads set after ∧
      if more then Inv all state' else Left state' := by
  generalize ahead : remaining set reader = blocks at split
  induction blocks generalizing set reader state before with
  | nil =>
    obtain ⟨reader',next,_⟩ := readerNext_none ahead
    refine ⟨set,state,true,?_,.refl set,?_⟩
    · unfold readLoop
      split <;> rename_i result
      · rw [next] at result
        cases result
      · rw [next] at result
        cases result
        rfl
      · rw [next] at result
        cases result
    · rw [split,List.append_nil]
      exact start
  | cons block rest ih =>
    obtain ⟨after,next,reads,left⟩ := readerNext_some holds ahead
    obtain ⟨state',more,ran,kept⟩ := each before block rest state split start
    have unfolded : readLoop body set reader state =
        match body state block with
        | .error message => .error message
        | .ok (state,false) => .ok (after,state,false)
        | .ok (state,true) => readLoop body after reader state := by
      rw [readLoop]
      split <;> rename_i result
      · rw [next] at result
        cases result
      · rw [next] at result
        cases result
      · rw [next] at result
        cases result
        rfl
    rw [unfolded,ran]
    cases more with
    | false => exact ⟨after,state',false,rfl,reads,kept⟩
    | true =>
      obtain ⟨last,result,more,ran',reads',kept'⟩ :=
        ih (before ++ [block]) (holds.reads reads) kept left (by rw [split]; simp)
      exact ⟨last,result,more,ran',reads.trans reads',kept'⟩

end PgBatch.Spill
