import PgBatch.Spill.SharedRead

/-! The round trip of the shared spill service, over every interleaving of its
writers and from every position of a reader. -/
namespace PgBatch.Spill
open Words Columnar Bytes

section Walk
variable {missing short : String} {shape : SharedShape} {shared : SharedSpill Nat Unit}

theorem sharedReaderNext_eq (reader : SharedReader) :
    sharedReaderNext missing short shape shared reader =
      match sharedReaderFile missing shape shared reader with
      | .error message => .error message
      | .ok (reader,none) => .ok (reader,none)
      | .ok (reader',some stream) =>
        match readBlock "invalid shared pg_batch spill block" short shape.ncolumns stream with
        | .error message => .error message
        | .ok none => sharedReaderNext missing short shape shared {reader' with file := none}
        | .ok (some (block,rest)) => .ok ({reader' with
            file := some rest
            rowsRead := reader'.rowsRead + block.nrows
            blocksRead := reader'.blocksRead + 1
            bytesRead := reader'.bytesRead + blockBytes shape.ncolumns block.nrows},some block) := by
  rw [sharedReaderNext]
  split <;> rename_i result <;> rw [result] <;> rfl

theorem sharedReads_of_next {reader other : SharedReader} {blocks : List SpillBlock}
    (same : sharedReaderNext missing short shape shared reader = sharedReaderNext missing short shape shared other)
    (reads : SharedReads missing short shape shared other blocks) :
    SharedReads missing short shape shared reader blocks := by
  cases reads with
  | done next => exact .done (same.trans next)
  | more next rest => exact .more (same.trans next) rest

/-- The blocks of an open file are read before the reader moves on. -/
theorem sharedReads_file {partition passed : Nat} {tail : List SpillBlock}
    (after : ∀ reader : SharedReader, reader.partition = partition → reader.passed = passed → reader.file = none →
      SharedReads missing short shape shared reader tail)
    (few : shape.ncolumns < 2 ^ 16) {blocks : List (Store Unit)}
    (sizes : ∀ block ∈ blocks, 0 < block.nrows ∧ block.nrows ≤ blockRows) {reader : SharedReader}
    (own : reader.partition = partition) (here : reader.passed = passed)
    (file : reader.file = some (blocks.flatMap (writeBlock shape.ncolumns))) :
    SharedReads missing short shape shared reader (blocks.map (blockOf shape.ncolumns) ++ tail) := by
  induction blocks generalizing reader with
  | nil =>
    refine sharedReads_of_next ?_ (after {reader with file := none} own here rfl)
    rw [sharedReaderNext_eq,sharedReaderFile,file]
    rfl
  | cons block rest ih =>
    obtain ⟨some_,small⟩ := sizes block (List.mem_cons_self ..)
    let next : SharedReader := {reader with
      file := some (rest.flatMap (writeBlock shape.ncolumns))
      rowsRead := reader.rowsRead + block.nrows
      blocksRead := reader.blocksRead + 1
      bytesRead := reader.bytesRead + blockBytes shape.ncolumns block.nrows}
    have read : sharedReaderNext missing short shape shared reader =
        .ok (next,some (blockOf shape.ncolumns block)) := by
      rw [sharedReaderNext_eq,sharedReaderFile,file,List.flatMap_cons]
      dsimp only
      rw [readBlock_writeBlock few some_ small]
      rfl
    have others := fun other member => sizes other (List.mem_cons_of_mem block member)
    exact .more read (@ih others next own here rfl)

/-- What the files of a partition must be like to be walked. -/
structure Walkable (shape : SharedShape) (shared : SharedSpill Nat Unit) (partition : Nat) : Prop where
  sizes : ∀ participant, ∀ block ∈ shared.files participant partition, 0 < block.nrows ∧ block.nrows ≤ blockRows
  counted : ∀ participant, shared.rows participant partition = 0 ↔ shared.files participant partition = []
  finished : ∀ participant, shared.files participant partition ≠ [] →
    shared.finished participant = true ∧ shape.ncolumns < 2 ^ 16

/-- From between two files a reader walks those of the participants still ahead. -/
theorem sharedReads_walk {partition : Nat} (walkable : Walkable shape shared partition) (count : Nat)
    {reader : SharedReader} (own : reader.partition = partition) (file : reader.file = none)
    (left : shape.participants - reader.passed = count) :
    SharedReads missing short shape shared reader
      ((List.range' reader.passed count).flatMap fun participant =>
        (shared.files participant partition).map (blockOf shape.ncolumns)) := by
  induction count generalizing reader with
  | zero =>
    have next : sharedReaderNext missing short shape shared reader =
        .ok ({reader with passed := reader.passed + 1, file := none},none) := by
      rw [sharedReaderNext_eq,sharedReaderFile,file,sharedReaderOpenNext,dif_neg (by omega)]
      rfl
    exact .done next
  | succ count ih =>
    have inside : reader.passed < shape.participants := by omega
    rw [List.range'_succ,List.flatMap_cons]
    by_cases empty : shared.files reader.passed partition = []
    · let skipped : SharedReader := {reader with passed := reader.passed + 1, file := none}
      have none : shared.rows reader.passed reader.partition = 0 := own ▸ (walkable.counted _).mpr empty
      have same : sharedReaderOpenNext missing shape shared reader =
          sharedReaderOpenNext missing shape shared skipped := by
        rw [sharedReaderOpenNext,dif_pos inside]
        exact if_pos none
      have walked := @ih skipped own rfl (by
        change shape.participants - (reader.passed + 1) = count
        omega)
      rw [empty,List.map_nil,List.nil_append]
      refine sharedReads_of_next ?_ walked
      rw [sharedReaderNext_eq,sharedReaderNext_eq,sharedReaderFile,sharedReaderFile,file,same]
    · let opened : SharedReader := {reader with
        passed := reader.passed + 1
        file := some ((shared.files reader.passed partition).flatMap (writeBlock shape.ncolumns))}
      obtain ⟨finished,few⟩ := walkable.finished _ empty
      have some_ : shared.rows reader.passed reader.partition ≠ 0 :=
        own ▸ fun none => empty ((walkable.counted _).mp none)
      have more : ¬ (shared.files reader.passed reader.partition).isEmpty = true := by
        rw [own,List.isEmpty_iff]
        exact empty
      have same : sharedReaderOpenNext missing shape shared reader = .ok (opened,true) := by
        rw [sharedReaderOpenNext,dif_pos inside]
        dsimp only
        rw [if_neg some_,if_pos finished,if_neg more]
        simp only [opened,own]
      have read : SharedReads missing short shape shared opened _ :=
        sharedReads_file (fun later own' here closed => by
          have here' : later.passed = reader.passed + 1 := here
          have walked := ih own' closed (by omega)
          rwa [here'] at walked) few (walkable.sizes reader.passed) own rfl rfl
      refine sharedReads_of_next ?_ read
      rw [sharedReaderNext_eq,sharedReaderNext_eq,sharedReaderFile,sharedReaderFile,file,same]
      rfl

end Walk

/-! What a participant has done so far, in any interleaving with the others. -/

/-- Nothing of a participant has been published. -/
def Unpublished (shared : SharedSpill Nat Unit) (participant : Nat) : Prop :=
  shared.rows participant = (fun _ => 0) ∧ shared.files participant = fun _ => []

/-- What a finished writer has published. -/
structure Published (shared : SharedSpill Nat Unit) (participant : Nat) (writer : Writers Unit) : Prop where
  rows : shared.rows participant = writer.partitionRows
  files : shared.files participant = writer.files
  finished : shared.finished participant = true
  flushed : ∀ partition, writer.writers partition = none

/-- A writer has taken exactly the rows it was given. -/
structure Given (shape : SharedShape) (writer : Writers Unit) (calls : List Call) : Prop where
  few : shape.ncolumns < 2 ^ 16
  valid : writer.Valid
  ncolumns : writer.ncolumns = shape.ncolumns
  npartitions : writer.npartitions = shape.partitions
  fits : ∀ call ∈ calls, call.Fits shape.partitions
  contents : ∀ partition, (writer.contents partition).map spilled =
    calls.flatMap (Call.taken shape.ncolumns partition)

inductive Owns (shape : SharedShape) (state : SharedState) (participant : Nat) : Prop
  | absent (none : state.writers participant = none) (silent : state.given participant = [])
      (unpublished : Unpublished state.shared participant)
  | writing {writer : Writers Unit} (owned : state.writers participant = some writer)
      (inside : participant < shape.participants) (given : Given shape writer (state.given participant))
      (unfinished : writer.finished = false) (unpublished : Unpublished state.shared participant)
  | finished {writer : Writers Unit} (owned : state.writers participant = some writer)
      (inside : participant < shape.participants) (given : Given shape writer (state.given participant))
      (finished : writer.finished = true) (published : Published state.shared participant writer)

theorem Owns.frame {shape : SharedShape} {before after : SharedState} {participant : Nat}
    (owns : Owns shape before participant) (writers : after.writers participant = before.writers participant)
    (given : after.given participant = before.given participant)
    (rows : after.shared.rows participant = before.shared.rows participant)
    (files : after.shared.files participant = before.shared.files participant)
    (finished : after.shared.finished participant = before.shared.finished participant) :
    Owns shape after participant := by
  cases owns with
  | absent none silent unpublished =>
    exact .absent (writers.trans none) (given.trans silent)
      ⟨rows.trans unpublished.1,files.trans unpublished.2⟩
  | writing owned inside taken unfinished unpublished =>
    exact .writing (writers.trans owned) inside (given ▸ taken) unfinished
      ⟨rows.trans unpublished.1,files.trans unpublished.2⟩
  | finished owned inside taken done published =>
    exact .finished (writers.trans owned) inside (given ▸ taken) done
      ⟨rows.trans published.rows,files.trans published.files,finished.trans published.finished,published.flushed⟩

theorem sharedSpillWriterCreate_inv {shape : SharedShape} {participant bufferLimit : Nat} {desc : List Attribute}
    {writer : Writers Unit} (created : sharedSpillWriterCreate shape participant desc bufferLimit = .ok writer) :
    participant < shape.participants ∧ shape.ncolumns ≤ desc.length ∧
      writer = create shape.ncolumns shape.partitions bufferLimit := by
  unfold sharedSpillWriterCreate at created
  split at created
  · cases created
  · split at created
    · cases created
    · cases created
      exact ⟨by omega,by omega,rfl⟩

/-- A step of one participant keeps what all of them own. -/
theorem sharedStep_owns {shape : SharedShape} {before after : SharedState} (step : SharedStep shape before after)
    (owns : ∀ participant, Owns shape before participant) (participant : Nat) : Owns shape after participant := by
  cases step with
  | @create acting bufferLimit desc writer absent created =>
    by_cases same : participant = acting
    · subst same
      obtain ⟨inside,wide,rfl⟩ := sharedSpillWriterCreate_inv created
      have numbered := desc.numbered
      cases owns participant with
      | absent none silent unpublished =>
        refine .writing (Function.update_self ..) inside ?_ rfl unpublished
        rw [silent]
        exact ⟨by omega,create_valid _ _ _,rfl,rfl,by simp,fun _ => rfl⟩
      | writing owned => exact absurd (absent.symm.trans owned) (by simp)
      | finished owned => exact absurd (absent.symm.trans owned) (by simp)
    · exact (owns participant).frame (Function.update_of_ne same ..) rfl rfl rfl rfl
  | @call acting writer grown call owned ran =>
    by_cases same : participant = acting
    · subst same
      obtain ⟨fits,unfinished⟩ := apply_fits ran
      cases owns participant with
      | absent none => exact absurd (none.symm.trans owned) (by simp)
      | @writing _ here inside given _ unpublished =>
        obtain rfl := Option.some.inj (here.symm.trans owned)
        obtain ⟨_,ran',kept,valid,contents⟩ := apply_adds sharedService given.valid unfinished fits
        obtain rfl := Except.ok.inj (ran.symm.trans ran')
        refine .writing (Function.update_self ..) inside ?_ (kept.finished.trans unfinished) unpublished
        refine ⟨given.few,valid,kept.ncolumns.trans given.ncolumns,kept.npartitions.trans given.npartitions,?_,?_⟩
        · dsimp only
          rw [Function.update_self]
          intro other member
          rcases List.mem_append.mp member with old | new
          · exact given.fits other old
          · rw [List.mem_singleton.mp new]
            exact given.npartitions ▸ fits
        · intro partition
          dsimp only
          rw [Function.update_self,contents,given.contents,given.ncolumns]
          simp
      | @finished _ here _ _ done =>
        obtain rfl := Option.some.inj (here.symm.trans owned)
        exact absurd (done.symm.trans unfinished) (by simp)
    · exact (owns participant).frame (Function.update_of_ne same ..) (Function.update_of_ne same ..) rfl rfl rfl
  | @finish acting writer closed shared owned ran =>
    by_cases same : participant = acting
    · subst same
      cases owns participant with
      | absent none => exact absurd (none.symm.trans owned) (by simp)
      | @writing _ here inside given unfinished _ =>
        obtain rfl := Option.some.inj (here.symm.trans owned)
        obtain ⟨_,ran',valid,done,ncolumns,npartitions,contents,flushed⟩ :=
          sharedSpillWriterFinish_moves before.shared participant given.valid unfinished
        obtain ⟨rfl,rfl⟩ := Prod.mk.inj (Except.ok.inj (ran.symm.trans ran'))
        refine .finished (Function.update_self ..) inside ?_ done
          ⟨Function.update_self ..,Function.update_self ..,Function.update_self ..,flushed⟩
        exact ⟨given.few,valid,ncolumns.trans given.ncolumns,npartitions.trans given.npartitions,given.fits,
          fun partition => by rw [contents,given.contents]⟩
      | @finished _ here _ _ done =>
        obtain rfl := Option.some.inj (here.symm.trans owned)
        rw [sharedSpillWriterFinish,if_pos done] at ran
        cases ran
    · have others : shared.rows participant = before.shared.rows participant ∧
          shared.files participant = before.shared.files participant ∧
          shared.finished participant = before.shared.finished participant := by
        unfold sharedSpillWriterFinish at ran
        split at ran
        · cases ran
        · cases ran
          exact ⟨Function.update_of_ne same ..,Function.update_of_ne same ..,Function.update_of_ne same ..⟩
      exact (owns participant).frame (Function.update_of_ne same ..) rfl others.1 others.2.1 others.2.2

theorem sharedReached_owns {shape : SharedShape} {state : SharedState} (reached : SharedReached shape state)
    (participant : Nat) : Owns shape state participant := by
  induction reached generalizing participant with
  | refl => exact .absent rfl rfl ⟨rfl,rfl⟩
  | tail _ step ih => exact sharedStep_owns step ih participant

/-! What is read once every writer has finished. -/

section Read
variable (missing short : String)

/-- From here on, a reader returns these rows before it returns false. -/
def SharedDelivers (shape : SharedShape) (shared : SharedSpill Nat Unit) (reader : SharedReader)
    (rows : List Spilled) : Prop :=
  ∃ blocks, SharedReads missing short shape shared reader blocks ∧ blocks.flatMap SpillBlock.rows = rows

/-- A partition holds these rows: they are counted, a fresh reader delivers them,
and so does every reader of the partition that is rewound, wherever it stood. -/
structure SharedFaithful (shape : SharedShape) (shared : SharedSpill Nat Unit) (partition : Nat)
    (rows : List Spilled) : Prop where
  counted : sharedPartitionRows shape shared partition = .ok rows.length
  opened : ∃ reader, sharedReaderOpen shape partition = .ok reader ∧ SharedDelivers missing short shape shared reader rows
  rewound : ∀ reader : SharedReader, reader.partition = partition →
    SharedDelivers missing short shape shared (sharedReaderRewind reader) rows

/-- Every partition holds the rows that all participants have handed over for it. -/
def SharedRoundTrip (shape : SharedShape) (state : SharedState) : Prop :=
  ∀ partition, partition < shape.partitions →
    SharedFaithful missing short shape state.shared partition
      ((List.range shape.participants).flatMap fun participant =>
        (state.given participant).flatMap (Call.rows shape.ncolumns partition))

variable {missing short} {shape : SharedShape}

theorem SharedReads.unique {shared : SharedSpill Nat Unit} {reader : SharedReader} {left right : List SpillBlock}
    (one : SharedReads missing short shape shared reader left)
    (two : SharedReads missing short shape shared reader right) : left = right := by
  induction one generalizing right with
  | done next =>
    cases two with
    | done => rfl
    | more next' =>
      rw [next] at next'
      cases next'
  | more next _ ih =>
    cases two with
    | done next' =>
      rw [next] at next'
      cases next'
    | more next' rest =>
      rw [next] at next'
      cases next'
      rw [ih rest]

theorem SharedFaithful.unique {shared : SharedSpill Nat Unit} {partition : Nat} {left right : List Spilled}
    (one : SharedFaithful missing short shape shared partition left)
    (two : SharedFaithful missing short shape shared partition right) : left = right := by
  obtain ⟨reader,open_,blocks,reads,rfl⟩ := one.opened
  obtain ⟨_,open_',blocks',reads',rfl⟩ := two.opened
  obtain rfl := Except.ok.inj (open_.symm.trans open_')
  rw [reads.unique reads']

/-- What the files of a participant hold. -/
structure Filed (shape : SharedShape) (state : SharedState) (participant partition : Nat) : Prop where
  sizes : ∀ block ∈ state.shared.files participant partition, 0 < block.nrows ∧ block.nrows ≤ blockRows
  contents : ((state.shared.files participant partition).flatMap (Store.rows shape.ncolumns)).map spilled =
    (state.given participant).flatMap (Call.taken shape.ncolumns partition)
  counted : state.shared.rows participant partition =
    ((state.given participant).flatMap (Call.taken shape.ncolumns partition)).length
  finished : state.shared.files participant partition ≠ [] →
    state.shared.finished participant = true ∧ shape.ncolumns < 2 ^ 16

theorem Owns.filed {state : SharedState} {participant : Nat} (owns : Owns shape state participant)
    (ended : ∀ writer, state.writers participant = some writer → writer.finished = true) (partition : Nat) :
    Filed shape state participant partition := by
  cases owns with
  | absent _ silent unpublished =>
    obtain ⟨rows,files⟩ := unpublished
    have none : state.shared.files participant partition = [] := by rw [files]
    exact ⟨by simp [none],by simp [none,silent],by simp [rows,silent],fun some => absurd none some⟩
  | writing owned _ _ unfinished => exact absurd ((ended _ owned).symm.trans unfinished) (by simp)
  | @finished writer owned _ given done published =>
    have files : state.shared.files participant partition = writer.files partition := by rw [published.files]
    have held : (writer.files partition).flatMap (Store.rows shape.ncolumns) = writer.contents partition := by
      simp [Writers.contents,published.flushed,given.ncolumns]
    refine ⟨by rw [files]; exact given.valid.flushed partition,?_,?_,fun _ => ⟨published.finished,given.few⟩⟩
    · rw [files,held,given.contents]
    · rw [published.rows,given.valid.counted,← given.contents,List.length_map]

/-- Whatever was called, the partitions hold what the accessors have read. -/
theorem faithful_taken {state : SharedState} (reached : SharedReached shape state)
    (ended : ∀ participant writer, state.writers participant = some writer → writer.finished = true) {partition : Nat}
    (inside : partition < shape.partitions) :
    SharedFaithful missing short shape state.shared partition
      ((List.range shape.participants).flatMap fun participant =>
        (state.given participant).flatMap (Call.taken shape.ncolumns partition)) := by
  have filed (participant : Nat) : Filed shape state participant partition :=
    (sharedReached_owns reached participant).filed (ended participant) partition
  have walkable : Walkable shape state.shared partition := by
    refine ⟨fun participant => (filed participant).sizes,fun participant => ?_,fun participant =>
      (filed participant).finished⟩
    rw [(filed participant).counted,List.length_eq_zero_iff,← (filed participant).contents,List.map_eq_nil_iff]
    constructor
    · intro empty
      rw [List.eq_nil_iff_forall_not_mem]
      intro block member
      have size := ((filed participant).sizes block member).1
      rw [← length_rows shape.ncolumns block,List.flatMap_eq_nil_iff.mp empty block member] at size
      exact absurd size (Nat.lt_irrefl 0)
    · intro empty
      rw [empty,List.flatMap_nil]
  have delivers (reader : SharedReader) (own : reader.partition = partition) (file : reader.file = none)
      (start : reader.passed = 0) : SharedDelivers missing short shape state.shared reader
        ((List.range shape.participants).flatMap fun participant =>
          (state.given participant).flatMap (Call.taken shape.ncolumns partition)) := by
    have reads : SharedReads missing short shape state.shared reader _ :=
      sharedReads_walk walkable shape.participants own file (by omega)
    refine ⟨_,reads,?_⟩
    rw [start,← List.range_eq_range',List.flatMap_assoc]
    apply List.flatMap_congr
    intro participant _
    rw [List.flatMap_map,← (filed participant).contents,List.map_flatMap]
    apply List.flatMap_congr
    intro block member
    exact rows_blockOf ((filed participant).sizes block member).2
  refine ⟨?_,?_,fun reader own => delivers (sharedReaderRewind reader) own rfl rfl⟩
  · have total (count : Nat) : (List.range count).foldl
        (fun result participant => result + state.shared.rows participant partition) 0 =
        ((List.range count).flatMap fun participant =>
          (state.given participant).flatMap (Call.taken shape.ncolumns partition)).length := by
      induction count with
      | zero => rfl
      | succ count ih =>
        rw [List.range_succ,List.foldl_append,ih,List.flatMap_append,List.length_append,List.flatMap_singleton,
          ← (filed count).counted]
        rfl
    rw [sharedPartitionRows,if_neg (by omega),total]
  · exact ⟨_,if_neg (by omega),delivers _ rfl rfl rfl⟩

theorem sharedRoundTrip_iff_same {state : SharedState} (reached : SharedReached shape state)
    (ended : ∀ participant writer, state.writers participant = some writer → writer.finished = true) :
    SharedRoundTrip missing short shape state ↔ ∀ partition, partition < shape.partitions →
      ((List.range shape.participants).flatMap fun participant =>
        (state.given participant).flatMap (Call.taken shape.ncolumns partition)) =
      (List.range shape.participants).flatMap fun participant =>
        (state.given participant).flatMap (Call.rows shape.ncolumns partition) := by
  constructor
  · intro holds partition inside
    exact (faithful_taken reached ended inside).unique (holds partition inside)
  · intro same partition inside
    rw [← same partition inside]
    exact faithful_taken reached ended inside

/-- Once all created writers have finished, a shared spill is faithful to the vectors
it was given just when every selected row of a packed vector finds its own validity
bit. -/
theorem shared_round_trip_iff {state : SharedState} (reached : SharedReached shape state)
    (ended : ∀ participant writer, state.writers participant = some writer → writer.finished = true) :
    SharedRoundTrip missing short shape state ↔
      ∀ participant, participant < shape.participants → ∀ call ∈ state.given participant,
        call.Addressed shape.ncolumns := by
  have fits (participant : Nat) : ∀ call ∈ state.given participant, call.Fits shape.partitions := by
    cases sharedReached_owns reached participant with
    | absent _ silent => simp [silent]
    | writing _ _ given => exact given.fits
    | finished _ _ given => exact given.fits
  rw [sharedRoundTrip_iff_same reached ended]
  constructor
  · intro same participant inside
    rw [← calls_taken_eq_rows (fits participant)]
    intro partition below
    refine flatMap_inj ?_ (same partition below) participant (List.mem_range.mpr inside)
    intro other _
    rw [List.length_flatMap,List.length_flatMap]
    congr 1
    apply List.map_congr_left
    intro call _
    exact length_taken _ _ call
  · intro addressed partition below
    apply List.flatMap_congr
    intro participant member
    have inside := List.mem_range.mp member
    exact (calls_taken_eq_rows (fits participant)).mpr (addressed participant inside) partition below

end Read

/-- Of two participants one writes a row of a packed vector and finishes; the other
never creates a writer. -/
theorem packed_reached (offset : Nat) : ∃ state, SharedReached ⟨2,1,1⟩ state ∧
    (∀ participant writer, state.writers participant = some writer → writer.finished = true) ∧
    state.given = Function.update (fun _ => []) 0 [packedCall offset] := by
  have made : sharedSpillWriterCreate ⟨2,1,1⟩ 0 oneColumn.attrs 1024 = .ok (create 1 1 1024) := rfl
  obtain ⟨grown,ran,same,valid,_⟩ := apply_adds sharedService (create_valid 1 1 1024) rfl
    (packedCall_fits offset _ (List.mem_singleton_self _))
  obtain ⟨closed,ended,_,done,_⟩ :=
    sharedSpillWriterFinish_moves (sharedSpillInitialize : SharedSpill Nat Unit) 0 valid (same.finished.trans rfl)
  refine ⟨_,((Relation.ReflTransGen.single (.create rfl made)).tail
    (.call (packedCall offset) (Function.update_self ..) ran)).tail (.finish (Function.update_self ..) ended),?_,?_⟩
  · intro participant writer owned
    by_cases first : participant = 0
    · subst first
      dsimp only at owned
      rw [Function.update_self] at owned
      rw [← Option.some.inj owned]
      exact done
    · simp [first,sharedStart] at owned
  · simp [sharedStart]

theorem near_row_shared : ∃ state, SharedReached ⟨2,1,1⟩ state ∧
    SharedRoundTrip "missing" "short" ⟨2,1,1⟩ state := by
  obtain ⟨state,reached,ended,given⟩ := packed_reached 3
  refine ⟨state,reached,(shared_round_trip_iff reached ended).mpr ?_⟩
  intro participant _ call member
  by_cases first : participant = 0
  · subst first
    rw [given,Function.update_self,List.mem_singleton] at member
    rw [member]
    exact packedCall_addressed
  · simp [given,first] at member

/-- The bit of a row at offset `2 ^ 32` is looked up at index `0`. -/
theorem far_row_not_shared : ∃ state, SharedReached ⟨2,1,1⟩ state ∧
    (∀ participant writer, state.writers participant = some writer → writer.finished = true) ∧
    ¬ SharedRoundTrip "missing" "short" ⟨2,1,1⟩ state := by
  obtain ⟨state,reached,ended,given⟩ := packed_reached (2 ^ 32)
  refine ⟨state,reached,ended,?_⟩
  rw [sharedRoundTrip_iff_same reached ended,given]
  intro same
  exact absurd (same 0 (by decide)) (by decide)

end PgBatch.Spill
