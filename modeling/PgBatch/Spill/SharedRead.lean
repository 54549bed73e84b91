import PgBatch.Spill.Calls
import PgBatch.Spill.Shared
import Mathlib.Logic.Relation

/-! Many participants write a shared spill, each its own files, and one reader of a
partition then walks the files of all of them. -/
namespace PgBatch.Spill
open Words Columnar Bytes

/-- The dimensions of a `PgBatchSharedSpill`. -/
structure SharedShape where
  participants : Nat
  partitions : Nat
  ncolumns : Nat

def sharedSpillWriterCreate (shape : SharedShape) (participant : Nat) (desc : List Attribute) (bufferLimit : Nat) :
    Except String (Writers Unit) :=
  if shape.participants ≤ participant ∨ desc.length < shape.ncolumns then
    .error "invalid shared pg_batch spill writer configuration"
  else match (desc.take shape.ncolumns).findIdx? fun attr => attr.isDropped || !attr.isInt4 with
    | some column => .error s!"pg_batch shared spill column {column + 1} must be int4"
    | none => .ok (create shape.ncolumns shape.partitions bufferLimit)

/-- The shared object, the writers that were created, and the calls made on each. -/
structure SharedState where
  shared : SharedSpill Nat Unit
  writers : Nat → Option (Writers Unit)
  given : Nat → List Call

def sharedStart : SharedState :=
  ⟨sharedSpillInitialize,fun _ => none,fun _ => []⟩

/-- One step of one participant; a participant has one writer. -/
inductive SharedStep (shape : SharedShape) (state : SharedState) : SharedState → Prop
  | create {participant bufferLimit : Nat} {desc : TupleDesc} {writer : Writers Unit}
      (absent : state.writers participant = none)
      (created : sharedSpillWriterCreate shape participant desc.attrs bufferLimit = .ok writer) :
      SharedStep shape state {state with writers := Function.update state.writers participant (some writer)}
  | call {participant : Nat} {writer after : Writers Unit} (call : Call)
      (owned : state.writers participant = some writer) (ran : call.apply sharedService writer = .ok after) :
      SharedStep shape state {state with
        writers := Function.update state.writers participant (some after)
        given := Function.update state.given participant (state.given participant ++ [call])}
  | finish {participant : Nat} {writer after : Writers Unit} {shared : SharedSpill Nat Unit}
      (owned : state.writers participant = some writer)
      (ran : sharedSpillWriterFinish state.shared participant writer = .ok (shared,after)) :
      SharedStep shape state {state with
        shared := shared
        writers := Function.update state.writers participant (some after)}

abbrev SharedReached (shape : SharedShape) : SharedState → Prop :=
  Relation.ReflTransGen (SharedStep shape) sharedStart

/-! The reader. What a buffered file does when it cannot be opened or is too short
is PostgreSQL's; `missing` and `short` are its messages. -/

/-- `PgBatchSharedSpillReader`: `passed` is `participant + 1`, and `file` the unread
bytes of the open file. -/
structure SharedReader where
  partition : Nat
  passed : Nat
  file : Option (List Byte)
  rowsRead : Nat
  blocksRead : Nat
  bytesRead : Nat
deriving DecidableEq, Repr

def sharedPartitionRows (shape : SharedShape) (shared : SharedSpill Nat Unit) (partition : Nat) : Except String Nat :=
  if shape.partitions ≤ partition then .error (sharedService.outOfRange partition)
  else .ok ((List.range shape.participants).foldl (fun result participant => result + shared.rows participant partition) 0)

def sharedReaderOpen (shape : SharedShape) (partition : Nat) : Except String SharedReader :=
  if shape.partitions ≤ partition then .error (sharedService.outOfRange partition)
  else .ok ⟨partition,0,none,0,0,0⟩

section Reader
variable (missing short : String) (shape : SharedShape) (shared : SharedSpill Nat Unit)

def sharedReaderOpenNext (reader : SharedReader) : Except String (SharedReader × Bool) :=
  if _ : reader.passed < shape.participants then
    let participant := reader.passed
    let reader' := {reader with passed := participant + 1, file := none}
    if shared.rows participant reader.partition = 0 then sharedReaderOpenNext reader'
    else if shared.finished participant then
      let blocks := shared.files participant reader.partition
      if blocks.isEmpty then .error missing
      else .ok ({reader' with file := some (blocks.flatMap (writeBlock shape.ncolumns))},true)
    else .error "pg_batch shared spill participant is still writing"
  else .ok ({reader with passed := reader.passed + 1, file := none},false)
termination_by shape.participants - reader.passed

/-- `reader->file != NULL || shared_reader_open_next(reader)`. -/
def sharedReaderFile (reader : SharedReader) : Except String (SharedReader × Option (List Byte)) :=
  match reader.file with
  | some stream => .ok (reader,some stream)
  | none => do
    let (reader,opened) ← sharedReaderOpenNext missing shape shared reader
    .ok (reader,if opened then reader.file else none)

/-- What is left to be walked; an open file counts, so that closing it is progress. -/
def SharedReader.ahead (reader : SharedReader) : Nat :=
  2 * (shape.participants - reader.passed) + if reader.file.isSome then 1 else 0

theorem sharedReaderOpenNext_passed {reader after : SharedReader}
    (opened : sharedReaderOpenNext missing shape shared reader = .ok (after,true)) :
    reader.passed < after.passed ∧ reader.passed < shape.participants := by
  fun_induction sharedReaderOpenNext missing shape shared reader with
  | case1 reader inside participant reader' empty ih =>
    have here : reader'.passed = reader.passed + 1 := rfl
    have later := ih opened
    omega
  | case2 => cases opened
  | case3 reader inside =>
    cases opened
    exact ⟨Nat.lt_succ_self _,inside⟩
  | case4 => cases opened
  | case5 => cases opened

theorem sharedReaderFile_ahead {reader after : SharedReader} {stream : List Byte}
    (found : sharedReaderFile missing shape shared reader = .ok (after,some stream)) :
    2 * (shape.participants - after.passed) < reader.ahead shape := by
  unfold sharedReaderFile at found
  unfold SharedReader.ahead
  split at found
  · rename_i open_
    cases found
    simp [open_]
  · rename_i closed
    obtain ⟨⟨next,opened⟩,ran,found⟩ := Results.bind_ok.mp found
    cases opened with
    | false => cases found
    | true =>
      have passed := sharedReaderOpenNext_passed missing shape shared ran
      obtain ⟨rfl,_⟩ := Prod.mk.inj (Except.ok.inj found)
      simp only [closed,Option.isSome_none,Bool.false_eq_true,if_false]
      omega

def sharedReaderNext (reader : SharedReader) : Except String (SharedReader × Option SpillBlock) :=
  match _ : sharedReaderFile missing shape shared reader with
  | .error message => .error message
  | .ok (reader,none) => .ok (reader,none)
  | .ok (reader',some stream) =>
    match readBlock "invalid shared pg_batch spill block" short shape.ncolumns stream with
    | .error message => .error message
    | .ok none => sharedReaderNext {reader' with file := none}
    | .ok (some (block,rest)) => .ok ({reader' with
        file := some rest
        rowsRead := reader'.rowsRead + block.nrows
        blocksRead := reader'.blocksRead + 1
        bytesRead := reader'.bytesRead + blockBytes shape.ncolumns block.nrows},some block)
termination_by reader.ahead shape
decreasing_by
  have less := sharedReaderFile_ahead missing shape shared ‹_›
  simpa [SharedReader.ahead] using less

def sharedReaderRewind (reader : SharedReader) : SharedReader :=
  {reader with passed := 0, file := none}

/-- The blocks that a reader returns until it returns false. -/
inductive SharedReads : SharedReader → List SpillBlock → Prop
  | done {reader after : SharedReader} (next : sharedReaderNext missing short shape shared reader = .ok (after,none)) :
      SharedReads reader []
  | more {reader after : SharedReader} {block : SpillBlock} {blocks : List SpillBlock}
      (next : sharedReaderNext missing short shape shared reader = .ok (after,some block))
      (rest : SharedReads after blocks) : SharedReads reader (block :: blocks)

end Reader

end PgBatch.Spill
