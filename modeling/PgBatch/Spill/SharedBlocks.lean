import PgBatch.Spill.SharedRoundTrip
import Mathlib.Data.List.FinRange

/-! The reader of a shared spill a block at a time: what it returns are the blocks that the
bytes of the files stand for, with the tags of their rows. -/
namespace PgBatch.Spill
open Words Columnar Bytes
variable {τ : Type}

/-- `PgBatchSharedSpillReader` over blocks: `file` has the unread ones of the open file. -/
structure BlockReader (τ : Type) where
  partition : Nat
  passed : Nat
  file : Option (List (Store τ))

/-- The first block of the open file, and the reader behind it. -/
def BlockReader.take (reader : BlockReader τ) : Option (Store τ × BlockReader τ) :=
  match reader.file with
  | some (block :: rest) => some (block,{reader with file := some rest})
  | some [] | none => none

section Reader
variable (missing : String) (shape : SharedShape) (shared : SharedSpill Nat τ)

/-- `pg_batch_shared_spill_reader_open`. -/
def blockReaderOpen (partition : Nat) : Except String (BlockReader τ) :=
  if shape.partitions ≤ partition then .error (sharedService.outOfRange partition) else .ok ⟨partition,0,none⟩

/-- `shared_reader_open_next`. -/
def blockReaderOpenNext (reader : BlockReader τ) : Except String (BlockReader τ) :=
  if _ : reader.passed < shape.participants then
    let next : BlockReader τ := ⟨reader.partition,reader.passed + 1,none⟩
    if shared.rows reader.passed reader.partition = 0 then blockReaderOpenNext next
    else if shared.finished reader.passed then
      let blocks := shared.files reader.passed reader.partition
      if blocks.isEmpty then .error missing else .ok {next with file := some blocks}
    else .error "pg_batch shared spill participant is still writing"
  else .ok ⟨reader.partition,reader.passed + 1,none⟩
termination_by shape.participants - reader.passed

def checkBlock (block : Store τ) : Except String (Store τ) :=
  if block.nrows = 0 ∨ blockRows < block.nrows then .error "invalid shared pg_batch spill block" else .ok block

/-- `pg_batch_shared_spill_reader_next`. -/
def blockReaderNext (reader : BlockReader τ) : Except String (BlockReader τ × Option (Store τ)) :=
  match reader.take with
  | some (block,rest) => do
    let block ← checkBlock block
    .ok (rest,some block)
  | none => do
    let opened ← blockReaderOpenNext missing shape shared reader
    match opened.take with
    | some (block,rest) => do
      let block ← checkBlock block
      .ok (rest,some block)
    | none => .ok (opened,none)

end Reader

/-- `pg_batch_shared_spill_reader_rewind`. -/
def blockReaderRewind (reader : BlockReader τ) : BlockReader τ :=
  ⟨reader.partition,0,none⟩

/-- The blocks of a partition, those of one participant behind those of another. -/
def SharedSpill.blocks (shared : SharedSpill Nat τ) (participants partition : Nat) : List (Store τ) :=
  (List.range participants).flatMap fun participant => shared.files participant partition

/-- The blocks that a reader has still to return. -/
def BlockReader.ahead (reader : BlockReader τ) (participants : Nat) (shared : SharedSpill Nat τ) : List (Store τ) :=
  reader.file.getD [] ++ (List.range' reader.passed (participants - reader.passed)).flatMap fun participant =>
    shared.files participant reader.partition

/-- A shared spill to which nothing more is written, with these rows. -/
structure SharedHolds (shape : SharedShape) (shared : SharedSpill Nat τ) (rows : Nat → List (Row τ)) : Prop where
  sizes : ∀ participant partition, ∀ block ∈ shared.files participant partition, 0 < block.nrows ∧ block.nrows ≤ blockRows
  counted : ∀ participant partition, shared.rows participant partition =
    ((shared.files participant partition).flatMap (Store.rows shape.ncolumns)).length
  finished : ∀ participant partition, shared.files participant partition ≠ [] → shared.finished participant = true
  contents : ∀ partition, (shared.blocks shape.participants partition).flatMap (Store.rows shape.ncolumns) = rows partition

section Holding
variable {missing : String} {shape : SharedShape} {shared : SharedSpill Nat τ} {rows : Nat → List (Row τ)}
  {reader : BlockReader τ}

theorem SharedHolds.uncounted (holds : SharedHolds shape shared rows) {participant partition : Nat} :
    shared.rows participant partition = 0 ↔ shared.files participant partition = [] := by
  rw [holds.counted,List.length_eq_zero_iff,List.flatMap_eq_nil_iff]
  constructor
  · intro none
    rw [List.eq_nil_iff_forall_not_mem]
    intro block member
    have some_ := (holds.sizes participant partition block member).1
    rw [← length_rows shape.ncolumns block,none block member] at some_
    exact absurd some_ (Nat.lt_irrefl 0)
  · intro none block member
    rw [none] at member
    cases member

/-- The files are opened one after another, if they have rows. -/
theorem blockReaderOpenNext_ok (holds : SharedHolds shape shared rows) (closed : reader.take = none) :
    ∃ after, blockReaderOpenNext missing shape shared reader = .ok after ∧ after.partition = reader.partition ∧
      after.ahead shape.participants shared = reader.ahead shape.participants shared ∧
      (after.take = none → after.ahead shape.participants shared = []) := by
  have unread (reader : BlockReader τ) (closed : reader.take = none) : reader.file.getD [] = [] := by
    unfold BlockReader.take at closed
    split at closed
    · cases closed
    · rename_i file
      rw [file]
      rfl
    · rename_i file
      rw [file]
      rfl
  fun_induction blockReaderOpenNext missing shape shared reader with
  | case1 reader inside next none ih =>
    obtain ⟨after,ran,own,same,empty⟩ := ih rfl
    refine ⟨after,ran,own,same.trans ?_,empty⟩
    have more : shape.participants - reader.passed = shape.participants - (reader.passed + 1) + 1 := by omega
    rw [BlockReader.ahead,BlockReader.ahead,unread reader closed,more,List.range'_succ,List.flatMap_cons,
      holds.uncounted.mp none]
    rfl
  | case2 reader inside some_ finished blocks none =>
    exact absurd (holds.uncounted.mpr (List.isEmpty_iff.mp none)) some_
  | case3 reader inside next some_ finished blocks more =>
    refine ⟨_,rfl,rfl,?_,?_⟩
    · have more : shape.participants - reader.passed = shape.participants - (reader.passed + 1) + 1 := by omega
      rw [BlockReader.ahead,BlockReader.ahead,unread reader closed,more,List.range'_succ,List.flatMap_cons]
      rfl
    · intro none
      have empty : blocks = [] := unread _ none
      exact absurd (List.isEmpty_iff.mpr empty) more
  | case4 reader inside some_ unfinished =>
    have files : shared.files reader.passed reader.partition ≠ [] := fun none => some_ (holds.uncounted.mpr none)
    exact absurd (holds.finished _ _ files) unfinished
  | case5 reader behind =>
    have none : shape.participants - reader.passed = 0 := by omega
    have none' : shape.participants - (reader.passed + 1) = 0 := by omega
    refine ⟨_,rfl,rfl,?_,fun _ => ?_⟩
    · rw [BlockReader.ahead,BlockReader.ahead,unread reader closed,none,none']
      rfl
    · rw [BlockReader.ahead,none']
      rfl

theorem take_some {block : Store τ} {rest : BlockReader τ} (taken : reader.take = some (block,rest)) :
    rest.partition = reader.partition ∧
      reader.ahead shape.participants shared = block :: rest.ahead shape.participants shared := by
  unfold BlockReader.take at taken
  split at taken
  · rename_i block' blocks file
    cases taken
    rw [BlockReader.ahead,BlockReader.ahead,file]
    exact ⟨rfl,rfl⟩
  · cases taken
  · cases taken

theorem checkBlock_ok {block : Store τ} (sizes : 0 < block.nrows ∧ block.nrows ≤ blockRows) : checkBlock block = .ok block := by
  unfold checkBlock
  exact if_neg (by omega)

/-- The next block of the partition. -/
theorem blockReaderNext_some (holds : SharedHolds shape shared rows) {block : Store τ} {rest : List (Store τ)}
    (ahead : reader.ahead shape.participants shared = block :: rest) (sizes : 0 < block.nrows ∧ block.nrows ≤ blockRows) :
    ∃ after, blockReaderNext missing shape shared reader = .ok (after,some block) ∧
      after.partition = reader.partition ∧ after.ahead shape.participants shared = rest := by
  unfold blockReaderNext
  cases taken : reader.take with
  | some found =>
    obtain ⟨own,here⟩ := @take_some _ shape shared _ _ _ taken
    obtain ⟨first,others⟩ := found
    rw [ahead,List.cons.injEq] at here
    obtain ⟨rfl,rest⟩ := here
    exact ⟨others,by simp only [bind,Except.bind,checkBlock_ok sizes],own,rest.symm⟩
  | none =>
    obtain ⟨opened,ran,own,same,empty⟩ := @blockReaderOpenNext_ok _ missing _ _ _ _ holds taken
    simp only [bind,Except.bind,ran]
    cases taken' : opened.take with
    | none =>
      rw [← same,empty taken'] at ahead
      cases ahead
    | some found =>
      obtain ⟨own',here⟩ := @take_some _ shape shared _ _ _ taken'
      obtain ⟨first,others⟩ := found
      rw [same,ahead,List.cons.injEq] at here
      obtain ⟨rfl,rest⟩ := here
      exact ⟨others,by simp only [checkBlock_ok sizes],own'.trans own,rest.symm⟩

/-- The partition is at its end. -/
theorem blockReaderNext_none (holds : SharedHolds shape shared rows) (ahead : reader.ahead shape.participants shared = []) :
    ∃ after, blockReaderNext missing shape shared reader = .ok (after,none) ∧ after.partition = reader.partition ∧
      after.ahead shape.participants shared = [] := by
  unfold blockReaderNext
  cases taken : reader.take with
  | some found =>
    obtain ⟨_,here⟩ := @take_some _ shape shared _ _ _ taken
    rw [ahead] at here
    cases here
  | none =>
    obtain ⟨opened,ran,own,same,empty⟩ := @blockReaderOpenNext_ok _ missing _ _ _ _ holds taken
    simp only [bind,Except.bind,ran]
    cases taken' : opened.take with
    | none => exact ⟨opened,rfl,own,empty taken'⟩
    | some found =>
      obtain ⟨_,here⟩ := @take_some _ shape shared _ _ _ taken'
      rw [same,ahead] at here
      cases here

theorem rewind_ahead (reader : BlockReader τ) (participants : Nat) (shared : SharedSpill Nat τ) :
    (blockReaderRewind reader).ahead participants shared = shared.blocks participants reader.partition := by
  rw [BlockReader.ahead,SharedSpill.blocks,List.range_eq_range']
  rfl

theorem SharedHolds.sized (holds : SharedHolds shape shared rows) {partition : Nat} :
    ∀ block ∈ shared.blocks shape.participants partition, 0 < block.nrows ∧ block.nrows ≤ blockRows := by
  intro block member
  obtain ⟨participant,_,there⟩ := List.mem_flatMap.mp member
  exact holds.sizes participant partition block there

end Holding

/-! Reading a partition to its end. -/

section Loop
variable (missing : String) (shape : SharedShape) (shared : SharedSpill Nat τ)

/-- Files that are passed are no longer ahead. -/
theorem blockReaderOpenNext_ahead {reader after : BlockReader τ}
    (opened : blockReaderOpenNext missing shape shared reader = .ok after) :
    (after.ahead shape.participants shared).length ≤ (reader.ahead shape.participants shared).length := by
  fun_induction blockReaderOpenNext missing shape shared reader with
  | case1 reader inside next none ih =>
    refine (ih opened).trans ?_
    have more : shape.participants - reader.passed = shape.participants - (reader.passed + 1) + 1 := by omega
    simp only [BlockReader.ahead,next,more,List.range'_succ,List.flatMap_cons,List.length_append,Option.getD_none,
      List.length_nil]
    omega
  | case2 => cases opened
  | case3 reader inside next some_ finished blocks more =>
    cases opened
    have more : shape.participants - reader.passed = shape.participants - (reader.passed + 1) + 1 := by omega
    simp only [BlockReader.ahead,next,blocks,more,List.range'_succ,List.flatMap_cons,List.length_append,
      Option.getD_some]
    omega
  | case4 => cases opened
  | case5 reader behind =>
    cases opened
    have none : shape.participants - (reader.passed + 1) = 0 := by omega
    simp [BlockReader.ahead,none]

theorem blockReaderNext_shorter {reader after : BlockReader τ} {block : Store τ}
    (next : blockReaderNext missing shape shared reader = .ok (after,some block)) :
    (after.ahead shape.participants shared).length < (reader.ahead shape.participants shared).length := by
  have shorter {reader rest : BlockReader τ} {first : Store τ} (taken : reader.take = some (first,rest)) :
      (rest.ahead shape.participants shared).length < (reader.ahead shape.participants shared).length := by
    rw [(@take_some _ shape shared _ _ _ taken).2,List.length_cons]
    exact Nat.lt_succ_self _
  unfold blockReaderNext at next
  split at next
  · rename_i taken
    obtain ⟨_,_,next⟩ := Results.bind_ok.mp next
    cases next
    exact shorter taken
  · obtain ⟨opened,ran,next⟩ := Results.bind_ok.mp next
    split at next
    · rename_i taken
      obtain ⟨_,_,next⟩ := Results.bind_ok.mp next
      cases next
      exact Nat.lt_of_lt_of_le (shorter taken) (blockReaderOpenNext_ahead missing shape shared ran)
    · cases next

/-- `while (pg_batch_shared_spill_reader_next (reader, &block))`. -/
def sharedReadLoop {σ : Type} (body : σ → Store τ → Except String σ) (reader : BlockReader τ) (state : σ) : Except String σ :=
  match _ : blockReaderNext missing shape shared reader with
  | .error message => .error message
  | .ok (_,none) => .ok state
  | .ok (reader',some block) => match body state block with
    | .error message => .error message
    | .ok state => sharedReadLoop body reader' state
termination_by (reader.ahead shape.participants shared).length
decreasing_by exact blockReaderNext_shorter missing shape shared ‹_›

/-- The loop goes over the blocks that are ahead. -/
theorem sharedReadLoop_eq {σ : Type} {rows : Nat → List (Row τ)} (body : σ → Store τ → Except String σ)
    (holds : SharedHolds shape shared rows) {reader : BlockReader τ} (state : σ)
    (sizes : ∀ block ∈ reader.ahead shape.participants shared, 0 < block.nrows ∧ block.nrows ≤ blockRows) :
    sharedReadLoop missing shape shared body reader state = (reader.ahead shape.participants shared).foldlM body state := by
  generalize left : reader.ahead shape.participants shared = blocks at sizes
  induction blocks generalizing reader state with
  | nil =>
    obtain ⟨after,next,_⟩ := @blockReaderNext_none _ missing _ _ _ _ holds left
    rw [sharedReadLoop]
    split <;> rename_i result
    · rw [next] at result
      cases result
    · rfl
    · rw [next] at result
      cases result
  | cons block rest ih =>
    obtain ⟨after,next,_,left'⟩ := @blockReaderNext_some _ missing _ _ _ _ holds _ _ left (sizes block (List.mem_cons_self ..))
    rw [sharedReadLoop,List.foldlM_cons]
    split <;> rename_i result
    · rw [next] at result
      cases result
    · rw [next] at result
      cases result
    · rw [next] at result
      cases result
      cases body state block with
      | error message => rfl
      | ok state => exact ih state left' fun other member => sizes other (List.mem_cons_of_mem _ member)

end Loop

/-! The bytes of the files. -/

def untag (block : Store τ) : Store Unit :=
  ⟨block.nrows,fun _ => (),block.hashes,block.values,block.valid⟩

def SharedSpill.untagged (shared : SharedSpill Nat τ) : SharedSpill Nat Unit :=
  ⟨shared.rows,fun participant partition => (shared.files participant partition).map untag,shared.finished⟩

/-- As many rows as the participants have counted. -/
theorem SharedHolds.partitionRows {shape : SharedShape} {shared : SharedSpill Nat τ} {rows : Nat → List (Row τ)}
    (holds : SharedHolds shape shared rows) {partition : Nat} (inside : partition < shape.partitions) :
    sharedPartitionRows shape shared.untagged partition = .ok (rows partition).length := by
  have total (count : Nat) : (List.range count).foldl (fun result participant => result + shared.rows participant partition) 0 =
      (((List.range count).flatMap fun participant => shared.files participant partition).flatMap
        (Store.rows shape.ncolumns)).length := by
    induction count with
    | zero => rfl
    | succ count ih =>
      rw [List.range_succ,List.foldl_append,ih,List.flatMap_append,List.flatMap_append,List.length_append,
        List.flatMap_singleton,← holds.counted]
      rfl
  rw [sharedPartitionRows,if_neg (Nat.not_le.mpr inside),← holds.contents]
  exact congrArg Except.ok (total shape.participants)

/-- Both readers stand at the same place, one in the blocks and one in their bytes. -/
structure OnBytes (ncolumns : Nat) (reader : BlockReader τ) (bytes : SharedReader) : Prop where
  partition : bytes.partition = reader.partition
  passed : bytes.passed = reader.passed
  file : bytes.file = reader.file.map fun blocks => blocks.flatMap (writeBlock ncolumns)

section Bytes
variable {missing short : String} {shape : SharedShape} {shared : SharedSpill Nat τ} {reader : BlockReader τ}
  {bytes : SharedReader}

/-- A block of an open file is read from its bytes. -/
theorem take_bytes (few : shape.ncolumns < 2 ^ 16) (on : OnBytes shape.ncolumns reader bytes) {block : Store τ}
    {rest : BlockReader τ} (taken : reader.take = some (block,rest)) (sizes : 0 < block.nrows ∧ block.nrows ≤ blockRows) :
    ∃ after, sharedReaderNext missing short shape shared.untagged bytes = .ok (after,some (blockOf shape.ncolumns block)) ∧
      OnBytes shape.ncolumns rest after := by
  unfold BlockReader.take at taken
  split at taken
  · rename_i block' blocks file
    cases taken
    have stream : bytes.file = some (writeBlock shape.ncolumns block ++ blocks.flatMap (writeBlock shape.ncolumns)) := by
      rw [on.file,file]
      rfl
    rw [sharedReaderNext_eq,sharedReaderFile,stream]
    dsimp only
    rw [readBlock_writeBlock few sizes.1 sizes.2]
    exact ⟨_,rfl,on.partition,on.passed,rfl⟩
  · cases taken
  · cases taken

theorem openNext_bytes (on : OnBytes shape.ncolumns reader bytes) {opened : BlockReader τ}
    (ran : blockReaderOpenNext missing shape shared reader = .ok opened) :
    ∃ after, sharedReaderOpenNext missing shape shared.untagged bytes = .ok (after,opened.file.isSome) ∧
      OnBytes shape.ncolumns opened after := by
  fun_induction blockReaderOpenNext missing shape shared reader generalizing bytes with
  | case1 reader inside next empty =>
    rename_i ih
    have passed : bytes.passed + 1 = reader.passed + 1 := congrArg (· + 1) on.passed
    obtain ⟨after,ran',on'⟩ := @ih {bytes with passed := bytes.passed + 1, file := none} ⟨on.partition,passed,rfl⟩ ran
    refine ⟨after,?_,on'⟩
    rw [sharedReaderOpenNext,dif_pos (on.passed ▸ inside)]
    dsimp only
    rw [if_pos (by rw [on.partition,on.passed]; exact empty)]
    exact ran'
  | case2 => cases ran
  | case3 reader inside next some_ finished blocks =>
    rename_i more
    cases ran
    have files : ¬ (shared.untagged.files reader.passed reader.partition).isEmpty = true := by
      simpa [SharedSpill.untagged,blocks] using more
    refine ⟨{bytes with passed := bytes.passed + 1, file := some (blocks.flatMap (writeBlock shape.ncolumns))},?_,
      on.partition,congrArg (· + 1) on.passed,rfl⟩
    rw [sharedReaderOpenNext,dif_pos (on.passed ▸ inside)]
    dsimp only
    rw [on.partition,on.passed]
    refine (if_neg some_).trans ((if_pos finished).trans ((if_neg files).trans ?_))
    simp only [SharedSpill.untagged,List.flatMap_map]
    rfl
  | case4 => cases ran
  | case5 reader behind =>
    cases ran
    refine ⟨{bytes with passed := bytes.passed + 1, file := none},?_,on.partition,congrArg (· + 1) on.passed,rfl⟩
    rw [sharedReaderOpenNext,dif_neg (on.passed ▸ behind)]
    rfl

/-- A file that is opened has blocks. -/
theorem blockReaderOpenNext_file {opened : BlockReader τ} (ran : blockReaderOpenNext missing shape shared reader = .ok opened)
    (taken : opened.take = none) : opened.file = none := by
  fun_induction blockReaderOpenNext missing shape shared reader with
  | case1 reader inside next empty ih => exact ih ran
  | case2 => cases ran
  | case3 reader inside next some_ finished blocks more =>
    cases ran
    unfold BlockReader.take at taken
    split at taken
    · cases taken
    · rename_i file
      exact absurd (List.isEmpty_iff.mpr (Option.some.inj file)) more
    · rename_i file
      exact file
  | case4 => cases ran
  | case5 =>
    cases ran
    rfl

/-- Without an open file the bytes of the next one are read. -/
theorem sharedReaderNext_closed {after : SharedReader} {opened : Bool} (closed : bytes.file = none)
    (ran : sharedReaderOpenNext missing shape shared.untagged bytes = .ok (after,opened)) (file : after.file.isSome = opened) :
    sharedReaderNext missing short shape shared.untagged bytes =
      if opened then sharedReaderNext missing short shape shared.untagged after else .ok (after,none) := by
  rw [sharedReaderNext_eq,sharedReaderFile,closed]
  simp only [bind,Except.bind,ran]
  cases opened with
  | false => rfl
  | true =>
    obtain ⟨stream,found⟩ := Option.isSome_iff_exists.mp file
    rw [if_pos rfl,if_pos rfl,sharedReaderNext_eq,sharedReaderFile,found]

/-- A file at its end is closed. -/
theorem sharedReaderNext_ended (ended : bytes.file = some []) : sharedReaderNext missing short shape shared.untagged bytes =
    sharedReaderNext missing short shape shared.untagged {bytes with file := none} := by
  rw [sharedReaderNext_eq,sharedReaderFile,ended]
  rfl

theorem take_none (on : OnBytes shape.ncolumns reader bytes) (taken : reader.take = none) :
    bytes.file = none ∨ bytes.file = some [] := by
  rw [on.file]
  unfold BlockReader.take at taken
  split at taken
  · cases taken
  · rename_i file
    rw [file]
    exact .inr rfl
  · rename_i file
    rw [file]
    exact .inl rfl

/-- The reader of blocks returns what the reader of the bytes does. -/
theorem blockReaderNext_bytes (few : shape.ncolumns < 2 ^ 16) (on : OnBytes shape.ncolumns reader bytes)
    {after : BlockReader τ} {block : Option (Store τ)} (ran : blockReaderNext missing shape shared reader = .ok (after,block)) :
    ∃ after', sharedReaderNext missing short shape shared.untagged bytes =
      .ok (after',block.map (blockOf shape.ncolumns)) ∧ OnBytes shape.ncolumns after after' := by
  have checked {block block' : Store τ} (ran : checkBlock block = .ok block') :
      block = block' ∧ 0 < block.nrows ∧ block.nrows ≤ blockRows := by
    unfold checkBlock at ran
    split at ran
    · cases ran
    · rename_i fine
      cases ran
      exact ⟨rfl,by omega,by omega⟩
  unfold blockReaderNext at ran
  cases taken : reader.take with
  | some found =>
    obtain ⟨first,rest⟩ := found
    rw [taken] at ran
    obtain ⟨here,good,same⟩ := Results.bind_ok.mp ran
    cases same
    obtain ⟨rfl,sizes⟩ := checked good
    exact take_bytes few on taken sizes
  | none =>
    rw [taken] at ran
    obtain ⟨opened,open_,more⟩ := Results.bind_ok.mp ran
    let shut : BlockReader τ := ⟨reader.partition,reader.passed,none⟩
    have open' : blockReaderOpenNext missing shape shared shut = .ok opened := by
      rw [← open_,blockReaderOpenNext,blockReaderOpenNext]
    obtain ⟨bytes',on',closed,same⟩ : ∃ bytes', OnBytes shape.ncolumns shut bytes' ∧ bytes'.file = none ∧
        sharedReaderNext missing short shape shared.untagged bytes =
          sharedReaderNext missing short shape shared.untagged bytes' := by
      rcases take_none on taken with none | ended
      · exact ⟨bytes,⟨on.partition,on.passed,none⟩,none,rfl⟩
      · exact ⟨{bytes with file := none},⟨on.partition,on.passed,rfl⟩,rfl,sharedReaderNext_ended ended⟩
    obtain ⟨last,ran',on''⟩ := openNext_bytes on' open'
    have file : last.file.isSome = opened.file.isSome := by
      rw [on''.file,Option.isSome_map]
    rw [same,sharedReaderNext_closed closed ran' file]
    cases taken' : opened.take with
    | some found =>
      obtain ⟨first,rest⟩ := found
      rw [taken'] at more
      obtain ⟨here,good,same⟩ := Results.bind_ok.mp more
      cases same
      obtain ⟨rfl,sizes⟩ := checked good
      have open_ : opened.file.isSome = true := by
        unfold BlockReader.take at taken'
        split at taken'
        · rename_i file
          rw [file]
          rfl
        · cases taken'
        · cases taken'
      rw [if_pos open_]
      exact take_bytes few on'' taken' sizes
    | none =>
      rw [taken'] at more
      cases more
      rw [if_neg (by simp [blockReaderOpenNext_file open' taken'])]
      exact ⟨last,rfl,on''⟩

end Bytes

/-! What the participants export. -/

section Exports
variable {ι : Type}

/-- The files that have been exported, and their counts. -/
structure Exported (ncolumns : Nat) (shared : SharedSpill ι τ) : Prop where
  sizes : ∀ participant partition, ∀ block ∈ shared.files participant partition, 0 < block.nrows ∧ block.nrows ≤ blockRows
  counted : ∀ participant partition, shared.rows participant partition =
    ((shared.files participant partition).flatMap (Store.rows ncolumns)).length
  finished : ∀ participant partition, shared.files participant partition ≠ [] → shared.finished participant = true

theorem initialize_exported (ncolumns : Nat) : Exported ncolumns (sharedSpillInitialize : SharedSpill ι τ) :=
  ⟨fun _ _ _ none => absurd none List.not_mem_nil,fun _ _ => rfl,fun _ _ some_ => absurd rfl some_⟩

/-- A participant that finishes exports what it has written, and the files of the others stay. -/
theorem Exported.finish [DecidableEq ι] {ncolumns : Nat} {shared : SharedSpill ι τ} (exported : Exported ncolumns shared)
    (participant : ι) {writer : Writers τ} (valid : writer.Valid) (columns : writer.ncolumns = ncolumns)
    (unfinished : writer.finished = false) :
    ∃ shared' after, sharedSpillWriterFinish shared participant writer = .ok (shared',after) ∧ Exported ncolumns shared' ∧
      (∀ other, other ≠ participant → shared'.files other = shared.files other) ∧
      ∀ partition, (shared'.files participant partition).flatMap (Store.rows ncolumns) = writer.contents partition := by
  obtain ⟨after,ran,held,_,same,_,contents,empty⟩ := sharedSpillWriterFinish_moves shared participant valid unfinished
  have files (partition : Nat) : (after.files partition).flatMap (Store.rows ncolumns) = after.contents partition := by
    rw [Writers.contents,empty partition,same,columns]
    simp
  refine ⟨_,after,ran,⟨?_,?_,?_⟩,fun other apart => Function.update_of_ne apart ..,fun partition => ?_⟩
  · intro other partition
    by_cases here : other = participant
    · subst here
      simp only [Function.update_self]
      exact held.flushed partition
    · simp only [Function.update_of_ne here]
      exact exported.sizes other partition
  · intro other partition
    by_cases here : other = participant
    · subst here
      simp only [Function.update_self]
      rw [held.counted,files]
    · simp only [Function.update_of_ne here]
      exact exported.counted other partition
  · intro other partition
    by_cases here : other = participant
    · subst here
      simp only [Function.update_self,implies_true]
    · simp only [Function.update_of_ne here]
      exact exported.finished other partition
  · simp only [Function.update_self]
    rw [files,contents]

variable {n : Nat}

/-- What a participant below the bound has at its number; nobody else has anything. -/
def byNumber {α : Type} (default : α) (value : Fin n → α) (participant : Nat) : α :=
  if inside : participant < n then value ⟨participant,inside⟩ else default

theorem byNumber_val {α : Type} (default : α) (value : Fin n → α) (participant : Fin n) :
    byNumber default value participant = value participant :=
  dif_pos participant.isLt

/-- The participants by their numbers. -/
def SharedSpill.numbered (shared : SharedSpill (Fin n) τ) : SharedSpill Nat τ :=
  ⟨byNumber (fun _ => 0) shared.rows,byNumber (fun _ => []) shared.files,byNumber false shared.finished⟩

/-- The rows of a partition, those of one participant behind those of another. -/
def SharedSpill.exportedRows (ncolumns : Nat) (shared : SharedSpill (Fin n) τ) (partition : Nat) : List (Row τ) :=
  (List.finRange n).flatMap fun participant => (shared.files participant partition).flatMap (Store.rows ncolumns)

theorem byNumber_above {α : Type} (default : α) (value : Fin n → α) {participant : Nat} (above : n ≤ participant) :
    byNumber default value participant = default :=
  dif_neg (Nat.not_lt.mpr above)

theorem Exported.holds {ncolumns : Nat} {shared : SharedSpill (Fin n) τ} (exported : Exported ncolumns shared) (partitions : Nat) :
    SharedHolds ⟨n,partitions,ncolumns⟩ shared.numbered (shared.exportedRows ncolumns) := by
  have every {P : Nat → Prop} (below : ∀ participant : Fin n, P participant) (above : ∀ participant, n ≤ participant → P participant)
      (participant : Nat) : P participant := by
    by_cases inside : participant < n
    · exact below ⟨participant,inside⟩
    · exact above participant (Nat.not_lt.mp inside)
  refine ⟨every (fun participant => ?_) fun participant above => ?_,every (fun participant => ?_) fun participant above => ?_,
    every (fun participant => ?_) fun participant above => ?_,fun partition => ?_⟩
  · simp only [SharedSpill.numbered,byNumber_val]
    exact exported.sizes participant
  · simp [SharedSpill.numbered,byNumber_above _ _ above]
  · simp only [SharedSpill.numbered,byNumber_val]
    exact exported.counted participant
  · simp [SharedSpill.numbered,byNumber_above _ _ above]
  · simp only [SharedSpill.numbered,byNumber_val]
    exact exported.finished participant
  · simp [SharedSpill.numbered,byNumber_above _ _ above]
  · rw [SharedSpill.blocks,SharedSpill.exportedRows,← List.map_coe_finRange_eq_range,List.flatMap_map,List.flatMap_assoc]
    simp only [SharedSpill.numbered,byNumber_val]

end Exports

end PgBatch.Spill
