import PgBatch.Nodes.HashJoinPartitions

/-! What reading the files of the spilled partitions does: a file delivers its blocks in
their order, again from the start when it is rewound, and no other file is touched. -/
namespace PgBatch.HashJoin
open Words Columnar Spill
variable {ι : Type}

/-- Whatever is read of the file of a partition, those of the others stay as they are. -/
structure Touches (partition : Nat) (before after : SpillFiles ι) : Prop where
  reads : Reads before.set after.set
  files : ∀ other, other ≠ partition → after.files other = before.files other
  position : ∀ other, other ≠ partition → after.set.position other = before.set.position other

theorem Touches.refl (partition : Nat) (files : SpillFiles ι) : Touches partition files files :=
  ⟨.refl _,fun _ _ => rfl,fun _ _ => rfl⟩

theorem Touches.trans {partition : Nat} {first second third : SpillFiles ι} (one : Touches partition first second)
    (two : Touches partition second third) : Touches partition first third :=
  ⟨one.reads.trans two.reads,fun other apart => (two.files other apart).trans (one.files other apart),
    fun other apart => (two.position other apart).trans (one.position other apart)⟩

theorem touches_keep {partition : Nat} {files : SpillFiles ι} {set : SpillSet ι} (reads : Reads files.set set)
    (position : ∀ other, other ≠ partition → set.position other = files.set.position other) (reader : Option Reader) :
    Touches partition files (files.keep partition set reader) :=
  ⟨reads,fun _ apart => Function.update_of_ne apart ..,position⟩

/-- The blocks that are read next of a file. -/
def SpillFiles.ahead (files : SpillFiles ι) (partition : Nat) : List (Store ι) :=
  match (files.file partition).reader with
  | some reader => remaining files.set reader
  | none =>
    if files.set.frozen then files.set.files partition
    else (files.set.files partition).drop (files.set.position partition)

/-- The file of a partition can be read. -/
structure Readable (rows : Nat → List (Row ι)) (partition : Nat) (files : SpillFiles ι) : Prop where
  holds : Holds files.set rows
  inside : partition < files.set.npartitions
  own : (files.file partition).partition = partition
  reader : ∀ reader, (files.file partition).reader = some reader → reader.partition = partition

@[simp] theorem file_keep (files : SpillFiles ι) (partition : Nat) (set : SpillSet ι) (reader : Option Reader) :
    (files.keep partition set reader).file partition = ⟨(files.file partition).partition,reader⟩ := by
  simp [SpillFiles.file,SpillFiles.keep]

section Reading
variable {rows : Nat → List (Row ι)} {partition : Nat} {files : SpillFiles ι}

theorem Readable.keep (readable : Readable rows partition files) {set : SpillSet ι} (reads : Reads files.set set)
    {reader : Reader} (own : reader.partition = partition) : Readable rows partition (files.keep partition set (some reader)) := by
  obtain ⟨_,_,rfl⟩ := reads
  refine ⟨readable.holds.reads ⟨_,_,rfl⟩,readable.inside,?_,?_⟩
  · rw [file_keep]
    exact readable.own
  · rw [file_keep]
    rintro _ ⟨⟩
    exact own

theorem rewindTape_position (set : SpillSet ι) (partition : Nat) : Reads set (rewindTape set partition) ∧
    ∀ other, other ≠ partition → (rewindTape set partition).position other = set.position other := by
  unfold rewindTape
  split
  · exact ⟨⟨_,_,rfl⟩,fun other apart => Function.update_of_ne apart ..⟩
  · exact ⟨.refl set,fun _ _ => rfl⟩

/-- At the start of its tape a reader has the whole partition ahead. -/
theorem remaining_start {set : SpillSet ι} (holds : Holds set rows) {reader : Reader}
    (eof : reader.eof = (rows reader.partition).isEmpty) (start : rows reader.partition ≠ [] → set.position reader.partition = 0) :
    remaining set reader = set.files reader.partition := by
  unfold remaining
  cases cells : rows reader.partition with
  | nil => simp [eof,cells,holds.none cells]
  | cons first rest => simp [eof,cells,start (by simp [cells])]

theorem remaining_rewound {set : SpillSet ι} (holds : Holds set rows) (partition : Nat) :
    remaining (rewindTape set partition) ⟨partition,(rows partition).isEmpty⟩ = set.files partition := by
  have reads := (rewindTape_position set partition).1
  have same : (rewindTape set partition).files = set.files := by
    obtain ⟨_,_,same⟩ := reads
    rw [same]
  rw [remaining_start (holds.reads reads) rfl,same]
  intro some
  have counted : set.partitionRows partition ≠ 0 := by
    rw [holds.counted]
    exact fun none => some (List.length_eq_zero_iff.mp none)
  simp [rewindTape,counted]

/-- A file without a reader gets one. -/
theorem fileReader_ok (readable : Readable rows partition files) : ∃ set reader,
    fileReader files partition = .ok (set,reader) ∧ reader.partition = partition ∧ Reads files.set set ∧
      (∀ other, other ≠ partition → set.position other = files.set.position other) ∧
      remaining set reader = files.ahead partition := by
  unfold fileReader SpillFiles.ahead
  cases found : (files.file partition).reader with
  | some reader => exact ⟨_,_,rfl,readable.reader reader found,.refl _,fun _ _ => rfl,rfl⟩
  | none =>
    dsimp only
    rw [readable.own]
    have valid : spillService.validatePartition files.set.toWriters partition = .ok () := validatePartition_ok readable.inside
    have opened : readerOpen files.set partition =
        .ok (if files.set.frozen then rewindTape files.set partition else files.set,⟨partition,(rows partition).isEmpty⟩) := by
      simp only [readerOpen,valid,readable.holds.finished,spillPartitionEmpty_ok readable.holds readable.inside]
      rfl
    refine ⟨_,_,opened,rfl,?_⟩
    cases files.set.frozen with
    | true =>
      exact ⟨(rewindTape_position files.set partition).1,(rewindTape_position files.set partition).2,
        remaining_rewound readable.holds partition⟩
    | false =>
      refine ⟨.refl _,fun _ _ => rfl,?_⟩
      cases cells : rows partition with
      | nil => simp [remaining,readable.holds.none cells]
      | cons first rest => simp [remaining]

theorem readerNext_position {set after : SpillSet ι} {reader reader' : Reader} {block : Option (Store ι)}
    (next : readerNext set reader = .ok (after,reader',block)) : reader'.partition = reader.partition ∧ Reads set after ∧
      (∀ other, other ≠ reader.partition → after.position other = set.position other) ∧
      (block = none → remaining after reader' = []) := by
  unfold readerNext at next
  split at next
  · rename_i ended
    cases next
    exact ⟨rfl,.refl set,fun _ _ => rfl,fun _ => if_pos ended⟩
  · split at next
    · cases next
      exact ⟨rfl,.refl set,fun _ _ => rfl,fun _ => rfl⟩
    · split at next
      · cases next
      · cases next
        exact ⟨rfl,⟨_,_,rfl⟩,fun other apart => Function.update_of_ne apart ..,by simp⟩

/-- What reading a block of the file may leave. -/
structure ReadOn (rows : Nat → List (Row ι)) (partition : Nat) (before after : SpillFiles ι)
    (ahead : List (Store ι)) : Prop where
  touches : Touches partition before after
  readable : Readable rows partition after
  ahead : after.ahead partition = ahead

theorem readOn_keep (readable : Readable rows partition files) {set : SpillSet ι} (reads : Reads files.set set)
    (position : ∀ other, other ≠ partition → set.position other = files.set.position other) {reader : Reader}
    (own : reader.partition = partition) :
    ReadOn rows partition files (files.keep partition set (some reader)) (remaining set reader) :=
  ⟨touches_keep reads position _,readable.keep reads own,by rw [SpillFiles.ahead,file_keep]; rfl⟩

theorem readSpillBlock_none (readable : Readable rows partition files) (ncolumns : Nat) (ended : files.ahead partition = []) :
    ∃ after, readSpillBlock ncolumns files partition = .ok (after,none) ∧ ReadOn rows partition files after [] := by
  obtain ⟨set,reader,opened,own,reads,position,left⟩ := fileReader_ok readable
  rw [ended] at left
  obtain ⟨reader',next,_⟩ := readerNext_none left
  obtain ⟨own',_,_,empty⟩ := readerNext_position next
  refine ⟨_,?_,empty rfl ▸ readOn_keep readable reads position (own'.trans own)⟩
  rw [readSpillBlock,opened]
  simp only [bind,Except.bind,next]
  rfl

theorem readSpillBlock_some (readable : Readable rows partition files) {ncolumns : Nat}
    (width : files.set.ncolumns = ncolumns) {block : Store ι} {rest : List (Store ι)}
    (more : files.ahead partition = block :: rest) :
    ∃ after, readSpillBlock ncolumns files partition = .ok (after,some block) ∧ ReadOn rows partition files after rest := by
  obtain ⟨set,reader,opened,own,reads,position,left⟩ := fileReader_ok readable
  obtain ⟨after,next,_,later⟩ := readerNext_some (readable.holds.reads reads) (left.trans more)
  obtain ⟨_,reads',position',_⟩ := readerNext_position next
  have apart (other : Nat) (apart : other ≠ partition) : after.position other = files.set.position other :=
    (position' other (own ▸ apart)).trans (position other apart)
  have columns : after.ncolumns = ncolumns := by
    obtain ⟨_,_,same⟩ := reads.trans reads'
    rw [same]
    exact width
  refine ⟨_,?_,later ▸ readOn_keep readable (reads.trans reads') apart own⟩
  have used : useSpillBlock ncolumns after (some block) = .ok (some block) := if_neg (by simp [columns])
  rw [readSpillBlock,opened]
  simp only [bind,Except.bind,next,used]

/-- A frozen file is read again from its start. -/
theorem rewindSpillFile_frozen (readable : Readable rows partition files) (frozen : files.set.frozen = true) :
    ∃ after, rewindSpillFile files partition = .ok after ∧ ReadOn rows partition files after (files.set.files partition) := by
  unfold rewindSpillFile
  cases found : (files.file partition).reader with
  | none =>
    refine ⟨files,rfl,.refl ..,readable,?_⟩
    rw [SpillFiles.ahead,found]
    exact if_pos frozen
  | some reader =>
    have own := readable.reader reader found
    have empty := spillPartitionEmpty_ok readable.holds readable.inside
    rw [← own] at empty
    have position := rewindTape_position files.set partition
    have rewound : readerRewind files.set reader = .ok (rewindTape files.set partition,⟨partition,(rows partition).isEmpty⟩) := by
      rw [readerRewind,if_pos frozen,empty,own]
      obtain ⟨number,eof⟩ := reader
      cases own
      rfl
    refine ⟨_,by dsimp only; rw [rewound]; rfl,?_⟩
    rw [← remaining_rewound readable.holds partition]
    exact readOn_keep readable position.1 position.2 rfl

/-- A file that no one has read yet stays as it is. -/
theorem rewindSpillFile_unread (unread : (files.file partition).reader = none) : rewindSpillFile files partition = .ok files := by
  rw [rewindSpillFile,unread]

end Reading

end PgBatch.HashJoin
