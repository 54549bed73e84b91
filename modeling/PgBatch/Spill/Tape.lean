import PgBatch.Spill.Format

/-! The private service on its logical tapes. A tape is a FIFO stream of bytes;
a set whose tapes hold blocks is read through them as `Spill.Set` reads it. -/
namespace PgBatch.Spill
open Words Columnar Bytes
variable {τ : Type}

/-- A set with the bytes that are still to be read from each tape. -/
structure TapeSet (τ : Type) extends Writers τ where
  frozen : Bool
  unread : Nat → List Byte

/-- What has been written to a tape. -/
def tape (set : Writers τ) (partition : Nat) : List Byte :=
  (set.files partition).flatMap (writeBlock set.ncolumns)

/-- `LogicalTapeFreeze` and `LogicalTapeRewindForRead`. -/
def tapeFinish (set : TapeSet τ) (frozen : Bool) : Except String (TapeSet τ) :=
  if set.finished then .error "pg_batch spill set is already finished"
  else
    let writers := finishWriters set.toWriters
    .ok {writers with
      finished := true
      frozen := frozen
      unread := fun partition => if writers.partitionRows partition ≠ 0 then tape writers partition else []}

/-- `LogicalTapeRewindForRead` on a frozen tape, unless it is empty. -/
def rewindBytes (set : TapeSet τ) (partition : Nat) : TapeSet τ :=
  if set.partitionRows partition ≠ 0 then
    {set with unread := Function.update set.unread partition (tape set.toWriters partition)}
  else set

def partitionRows (set : Writers τ) (partition : Nat) : Except String Nat := do
  spillService.validatePartition set partition
  .ok (set.partitionRows partition)

def partitionEmpty (set : Writers τ) (partition : Nat) : Except String Bool := do
  spillService.validatePartition set partition
  .ok (set.partitionRows partition == 0)

def tapeReaderOpen (set : TapeSet τ) (partition : Nat) : Except String (TapeSet τ × Reader) := do
  spillService.validatePartition set.toWriters partition
  if set.finished then
    let eof ← partitionEmpty set.toWriters partition
    .ok (if set.frozen then rewindBytes set partition else set,⟨partition,eof⟩)
  else .error "pg_batch spill set is not ready for reading"

def tapeReaderNext (set : TapeSet τ) (reader : Reader) :
    Except String (TapeSet τ × Reader × Option SpillBlock) :=
  if reader.eof then .ok (set,reader,none)
  else do
    let read ← readBlock "invalid pg_batch spill block" "unexpected end of pg_batch spill file" set.ncolumns
      (set.unread reader.partition)
    match read with
    | none => .ok (set,{reader with eof := true},none)
    | some (block,rest) => .ok ({set with
        unread := Function.update set.unread reader.partition rest
        stats := {set.stats with
          rowsRead := set.stats.rowsRead + block.nrows
          blocksRead := set.stats.blocksRead + 1
          bytesRead := set.stats.bytesRead + blockBytes set.ncolumns block.nrows}},reader,some block)

def tapeReaderRewind (set : TapeSet τ) (reader : Reader) : Except String (TapeSet τ × Reader) :=
  if set.frozen then do
    let eof ← partitionEmpty set.toWriters reader.partition
    .ok (rewindBytes set reader.partition,{reader with eof := eof})
  else .error "cannot rewind a destructive pg_batch spill reader"

theorem tapeReaderNext_shorter {set set' : TapeSet τ} {reader reader' : Reader} {block : SpillBlock}
    (next : tapeReaderNext set reader = .ok (set',reader',some block)) :
    reader' = reader ∧ (set'.unread reader.partition).length < (set.unread reader.partition).length := by
  unfold tapeReaderNext at next
  split at next
  · cases next
  · obtain ⟨read,found,next⟩ := Results.bind_ok.mp next
    cases read with
    | none => cases next
    | some result =>
      cases next
      simp only [Function.update_self,true_and]
      exact readBlock_shorter found

/-- Call `pg_batch_spill_reader_next` until it returns false. -/
def readAll (set : TapeSet τ) (reader : Reader) : Except String (TapeSet τ × Reader × List SpillBlock) :=
  match _ : tapeReaderNext set reader with
  | .error message => .error message
  | .ok (set,reader,none) => .ok (set,reader,[])
  | .ok (set',reader',some block) =>
    match readAll set' reader' with
    | .error message => .error message
    | .ok (set,reader,blocks) => .ok (set,reader,block :: blocks)
termination_by (set.unread reader.partition).length
decreasing_by
  obtain ⟨same,shorter⟩ := tapeReaderNext_shorter ‹_›
  rw [same]
  exact shorter

/-- The tapes hold the blocks of a set and stand where the set stands. -/
structure OnTape (set : SpillSet τ) (tapes : TapeSet τ) : Prop where
  writers : tapes.toWriters = set.toWriters
  frozen : tapes.frozen = set.frozen
  unread : ∀ partition, tapes.unread partition =
    ((set.files partition).drop (set.position partition)).flatMap (writeBlock set.ncolumns)

theorem tape_flushWriter {set : Writers τ} {partition : Nat} {writer : Store τ}
    (found : set.writers partition = some writer) (pending : writer.nrows ≠ 0) :
    tape (flushWriter set partition) =
      Function.update (tape set) partition (tape set partition ++ writeBlock set.ncolumns writer) := by
  funext other
  by_cases same : other = partition
  · subst same
    simp [tape,flushWriter,found,pending]
  · simp [tape,flushWriter,found,pending,same]

theorem tapeFinish_onTape {set : SpillSet τ} {tapes : TapeSet τ} (valid : set.toWriters.Valid)
    (unfinished : set.finished = false) (same : tapes.toWriters = set.toWriters) (frozen : Bool) :
    ∃ after finished, spillFinish set frozen = .ok after ∧ tapeFinish tapes frozen = .ok finished ∧
      Holds after set.toWriters.contents ∧ OnTape after finished ∧ after.frozen = frozen ∧
      after.ncolumns = set.ncolumns ∧ after.npartitions = set.npartitions ∧ after.position = fun _ => 0 := by
  obtain ⟨after,ended,holds,froze,ncolumns,count,start⟩ := spillFinish_holds set valid unfinished frozen
  have closed : tapes.finished = false := same ▸ unfinished
  refine ⟨after,_,ended,by rw [tapeFinish,if_neg (by simp [closed])],holds,?_,froze,ncolumns,count,start⟩
  rw [spillFinish,if_neg (by simp [unfinished])] at ended
  cases ended
  refine ⟨by rw [same],rfl,?_⟩
  intro partition
  simp only [same,List.drop_zero,ite_not]
  split
  · rename_i empty
    have none : (finishWriters set.toWriters).files partition = [] := by
      apply holds.none
      rw [← List.length_eq_zero_iff,← holds.counted partition]
      exact empty
    rw [none,List.flatMap_nil]
  · rfl

section Reading
variable {set : SpillSet τ} {tapes : TapeSet τ} {rows : Nat → List (Row τ)}

theorem rewind_onTape (onTape : OnTape set tapes) (partition : Nat) :
    OnTape (rewindTape set partition) (rewindBytes tapes partition) := by
  unfold rewindTape rewindBytes
  rw [onTape.writers]
  split
  · refine ⟨rfl,onTape.frozen,?_⟩
    intro other
    by_cases same : other = partition
    · subst same
      simp [tape]
    · simpa [same] using onTape.unread other
  · exact onTape

/-- Opening and rewinding do on the tapes what they do on the blocks. -/
theorem tapeReaderOpen_onTape (onTape : OnTape set tapes) {partition : Nat} {after : SpillSet τ} {reader : Reader}
    (opened : readerOpen set partition = .ok (after,reader)) :
    ∃ after', tapeReaderOpen tapes partition = .ok (after',reader) ∧ OnTape after after' := by
  obtain ⟨_,inside,opened⟩ := Results.bind_ok.mp opened
  split at opened
  · rename_i finished
    obtain ⟨eof,empty,opened⟩ := Results.bind_ok.mp opened
    cases opened
    have same : partitionEmpty tapes.toWriters partition = .ok eof := onTape.writers ▸ empty
    refine ⟨if tapes.frozen then rewindBytes tapes partition else tapes,?_,?_⟩
    · unfold tapeReaderOpen
      rw [same,onTape.writers,inside]
      exact if_pos finished
    · rw [onTape.frozen]
      split
      · exact rewind_onTape onTape partition
      · exact onTape
  · cases opened

theorem tapeReaderRewind_onTape (onTape : OnTape set tapes) {after : SpillSet τ} {reader reader' : Reader}
    (rewound : readerRewind set reader = .ok (after,reader')) :
    ∃ after', tapeReaderRewind tapes reader = .ok (after',reader') ∧ OnTape after after' := by
  unfold readerRewind at rewound
  split at rewound
  · rename_i frozen
    obtain ⟨eof,empty,rewound⟩ := Results.bind_ok.mp rewound
    cases rewound
    have same : partitionEmpty tapes.toWriters reader.partition = .ok eof := onTape.writers ▸ empty
    refine ⟨_,?_,rewind_onTape onTape _⟩
    rw [tapeReaderRewind,if_pos (onTape.frozen.trans frozen),same]
    rfl
  · cases rewound

/-- A reader of the tapes delivers the blocks that a reader of the set delivers. -/
theorem tapeReaderNext_onTape (onTape : OnTape set tapes) (few : set.ncolumns < 2 ^ 16) (holds : Holds set rows)
    {after : SpillSet τ} {reader reader' : Reader} {result : Option (Store τ)}
    (next : readerNext set reader = .ok (after,reader',result)) :
    ∃ after', tapeReaderNext tapes reader = .ok (after',reader',result.map (blockOf set.ncolumns)) ∧
      OnTape after after' := by
  unfold readerNext at next
  unfold tapeReaderNext
  split at next
  · rename_i ended
    cases next
    exact ⟨_,if_pos ended,onTape⟩
  · rename_i open_
    rw [if_neg open_]
    have ncolumns : tapes.ncolumns = set.ncolumns := by rw [onTape.writers]
    rw [onTape.unread,ncolumns]
    split at next
    · rename_i none
      cases next
      rw [List.drop_eq_nil_of_le (List.getElem?_eq_none_iff.mp none)]
      exact ⟨tapes,rfl,onTape⟩
    · rename_i block found
      have size := holds.blocks reader.partition block (List.mem_of_getElem? found)
      split at next
      · omega
      · cases next
        have ahead : (set.files reader.partition).drop (set.position reader.partition) =
            block :: (set.files reader.partition).drop (set.position reader.partition + 1) := by
          obtain ⟨inside,here⟩ := List.getElem?_eq_some_iff.mp found
          rw [List.drop_eq_getElem_cons inside,here]
        rw [ahead,List.flatMap_cons,readBlock_writeBlock few size.1 size.2]
        refine ⟨_,rfl,?_,onTape.frozen,?_⟩
        · simp [onTape.writers,blockOf]
        · intro other
          by_cases same : other = reader.partition
          · subst same
            simp
          · simpa [same] using onTape.unread other

end Reading

theorem readAll_eof {set : TapeSet τ} {reader : Reader} (ended : reader.eof = true) :
    readAll set reader = .ok (set,reader,[]) := by
  rw [readAll]
  split <;> rename_i result <;> rw [tapeReaderNext,if_pos ended] at result <;> cases result
  rfl

/-- Read to its end, a tape gives the blocks that were still to come. -/
theorem readAll_blocks {set : TapeSet τ} {reader : Reader} (few : set.ncolumns < 2 ^ 16) (open_ : reader.eof = false)
    {blocks : List (Store τ)} (sizes : ∀ block ∈ blocks, 0 < block.nrows ∧ block.nrows ≤ blockRows)
    (unread : set.unread reader.partition = blocks.flatMap (writeBlock set.ncolumns)) :
    ∃ after reader', readAll set reader = .ok (after,reader',blocks.map (blockOf set.ncolumns)) := by
  have more : ¬ reader.eof = true := by simp [open_]
  induction blocks generalizing set with
  | nil =>
    have next : tapeReaderNext set reader = .ok (set,{reader with eof := true},none) := by
      rw [tapeReaderNext,if_neg more,unread]
      rfl
    refine ⟨set,{reader with eof := true},?_⟩
    rw [readAll]
    split <;> rename_i result <;> rw [next] at result <;> cases result
    rfl
  | cons block rest ih =>
    obtain ⟨some_,small⟩ := sizes block (List.mem_cons_self ..)
    let after : TapeSet τ := {set with
      unread := Function.update set.unread reader.partition (rest.flatMap (writeBlock set.ncolumns))
      stats := {set.stats with
        rowsRead := set.stats.rowsRead + block.nrows
        blocksRead := set.stats.blocksRead + 1
        bytesRead := set.stats.bytesRead + blockBytes set.ncolumns block.nrows}}
    have next : tapeReaderNext set reader = .ok (after,reader,some (blockOf set.ncolumns block)) := by
      rw [tapeReaderNext,if_neg more,unread,List.flatMap_cons,readBlock_writeBlock few some_ small]
      rfl
    obtain ⟨last,reader',ran⟩ := @ih after few (fun other member => sizes other (List.mem_cons_of_mem _ member))
      (Function.update_self ..)
    refine ⟨last,reader',?_⟩
    rw [readAll]
    split <;> rename_i result <;> rw [next] at result <;> cases result
    rw [ran]
    rfl

end PgBatch.Spill
