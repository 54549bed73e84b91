import PgBatch.Nodes.ParallelChunks
import PgBatch.Nodes.ParallelDivide

/-! Starting a claimed partition and going on with it: the table of a participant has its
pairs with the probe blocks ahead, and what the readers have beyond comes up later. -/
namespace PgBatch.ParallelJoin
open Words Columnar Spill HashJoin
variable {ι : Type}

/-! Opening. -/

/-- A reader that is opened at the start of its tape has the whole partition ahead. -/
theorem readerOpen_start {set : SpillSet ι} {rows : Nat → List (Row ι)} (holds : Holds set rows) {partition : Nat}
    (inside : partition < set.npartitions) (start : set.frozen = false → set.position partition = 0) :
    ∃ after reader, readerOpen set partition = .ok (after,reader) ∧ reader.partition = partition ∧ Reads set after ∧
      (∀ other, other ≠ partition → after.position other = set.position other) ∧
      remaining after reader = set.files partition := by
  have opened : readerOpen set partition =
      .ok (if set.frozen then rewindTape set partition else set,⟨partition,(rows partition).isEmpty⟩) := by
    simp only [readerOpen,validatePartition_ok inside,holds.finished,spillPartitionEmpty_ok holds inside]
    rfl
  refine ⟨_,_,opened,rfl,?_⟩
  cases frozen : set.frozen with
  | true =>
    exact ⟨(rewindTape_position set partition).1,(rewindTape_position set partition).2,remaining_rewound holds partition⟩
  | false =>
    exact ⟨.refl _,fun _ _ => rfl,remaining_start holds rfl fun _ => start frozen⟩

/-- All probe rows of the readers. -/
def Opened.probeRows (config : Config) (shared : SharedFiles ι) (opened : Opened ι) : List (Row ι) :=
  (opened.probeBlocks shared).flatMap (Store.rows config.nouterColumns)

/-- Readers that have just been opened, with these rows. -/
structure Fresh (config : Config) (shared : SharedFiles ι) (opened : Opened ι) (build probe : List (Row ι))
    (later : List (ι × ι)) : Prop where
  sound : Sound config shared opened later
  ahead : opened.probeAhead shared = opened.probeBlocks shared
  builds : opened.rowsAhead config shared = build
  probes : opened.probeRows config shared = probe

section Opening
variable {config : Config} {shared : SharedFiles ι} {inner outer build probe : Nat → List (Row ι)}

theorem openPartition_ok (files : FilesHold config shared inner outer) {partition : Nat}
    (inside : partition < shared.buildShape.partitions) :
    ∃ opened, openPartition shared partition = .ok opened ∧ opened.left = 0 ∧
      Fresh config shared opened (inner partition) (outer partition) [] := by
  obtain ⟨one,ahead⟩ := @open_ahead _ _ shared.buildShape shared.build inside
  obtain ⟨two,ahead'⟩ := @open_ahead _ _ shared.probeShape shared.probe (files.partitions.symm ▸ inside)
  refine ⟨.whole ⟨partition,0,none⟩ ⟨partition,0,none⟩,by rw [openPartition,one,two]; rfl,rfl,?_,ahead',?_,?_⟩
  · refine .whole ?_ ?_
    · rw [ahead]
      exact fun _ member => member
    · rw [ahead']
      exact fun _ member => member
  · rw [Opened.rowsAhead,Opened.buildAhead,ahead,← files.innerColumns,files.inner.contents]
  · rw [Opened.probeRows,Opened.probeBlocks,← files.outerColumns,files.outer.contents]

theorem Parts.later {parts : Repartition ι} (sets : Parts config build probe parts) :
    Parts config build probe {parts with next := parts.next + 1} :=
  ⟨sets.inner,sets.outer,sets.innerColumns,sets.outerColumns,sets.innerParts,sets.outerParts,sets.destructive,sets.frozen,
    fun part behind => sets.start part (Nat.le_of_succ_le behind),sets.builds,sets.probes⟩

/-- A part without rows on either side is left out, any other is opened. -/
theorem openRepartition_ok (shared : SharedFiles ι) {parts : Repartition ι} (sets : Parts config build probe parts)
    (inside : parts.next < parts.nrepartitions) :
    (openRepartition {parts with next := parts.next + 1} parts.next = .ok none ∧
      partitionPairs config build probe parts.next = []) ∨
    ∃ opened, openRepartition {parts with next := parts.next + 1} parts.next = .ok (some opened) ∧
      opened.left = parts.nrepartitions - (parts.next + 1) ∧ build parts.next ≠ [] ∧
      Fresh config shared opened (build parts.next) (probe parts.next)
        (stockPairs config build probe (parts.next + 1) parts.nrepartitions) := by
  have noBuild := spillPartitionEmpty_ok sets.inner (sets.innerParts.symm ▸ inside)
  have noProbe := spillPartitionEmpty_ok sets.outer (sets.outerParts.symm ▸ inside)
  unfold openRepartition
  simp only [bind,Except.bind,noBuild,noProbe]
  by_cases none : build parts.next = [] ∨ probe parts.next = []
  · refine .inl ⟨if_pos (by simpa using none),?_⟩
    rcases none with none | none
    · rw [partitionPairs,none]
      exact matchPairs_nil_right
    · rw [partitionPairs,none]
      rfl
  · rw [if_neg (by simpa using none)]
    rw [not_or] at none
    obtain ⟨set,reader,opened,own,reads,position,ahead⟩ :=
      readerOpen_start sets.inner (sets.innerParts.symm ▸ inside) fun _ => sets.start parts.next (Nat.le_refl _)
    obtain ⟨set',reader',opened',own',reads',_,ahead'⟩ :=
      readerOpen_start sets.outer (sets.outerParts.symm ▸ inside) fun thawed => by rw [sets.frozen] at thawed; cases thawed
    have sets' := sets.later.reads reads reads' fun part behind => position part (Nat.ne_of_gt behind)
    have front : reader.partition < parts.next + 1 := Nat.lt_succ_of_le (Nat.le_of_eq own)
    have behind : reader'.partition < parts.nrepartitions := own'.symm ▸ inside
    refine .inr ⟨_,by rw [opened,opened'],rfl,none.1,.divided sets' front behind,?_,?_,?_⟩
    · obtain ⟨_,_,rfl⟩ := reads'
      rw [Opened.probeAhead,Opened.probeBlocks,ahead',own']
    · rw [Opened.rowsAhead,Opened.buildAhead,ahead,← sets.innerColumns,sets.inner.contents]
    · obtain ⟨_,_,rfl⟩ := reads'
      rw [Opened.probeRows,Opened.probeBlocks,own',← sets.outerColumns,sets.outer.contents]

end Opening

/-! The partition that is worked on. -/

/-- The pairs of the probe blocks ahead with the table, and those of all probe rows with the build rows ahead. -/
def openedPairs (config : Config) (shared : SharedFiles ι) (own : Participant config ι) (opened : Opened ι) : List (ι × ι) :=
  (opened.probeAhead shared).flatMap (fun block => blockPairs config block own.build) ++
    matchPairs ((opened.probeRows config shared).map (entry config.outerKeys))
      ((opened.rowsAhead config shared).map (entry config.innerKeys))

/-- A participant that has readers, and a table for some of their build rows. -/
structure Working (config : Config) (shared : SharedFiles ι) (own : Participant config ι) (opened : Opened ι)
    (later : List (ι × ι)) : Prop where
  started : own.claimed = none
  here : own.opened = some opened
  sound : Sound config shared opened later
  tabled : Tabled config own.build
  shift : own.build.hashShift = 0
  last : own.buildMaybeMore = false → opened.rowsAhead config shared = []

/-- A participant that has no partition. -/
structure Free {config : Config} (own : Participant config ι) : Prop where
  started : own.claimed = none
  opened : own.opened = none
  shift : own.build.hashShift = 0

/-- How starting a partition may end: with readers and a table, behind which fewer parts are left, or without pairs to find. -/
inductive Started (config : Config) (shared : SharedFiles ι) (total : List (ι × ι)) (bound : Nat) :
    Except String (Participant config ι) → Prop
  | refused {message : String} (may : GrowError message) : Started config shared total bound (.error message)
  | nothing {own : Participant config ι} (free : Free own) (none : total = []) : Started config shared total bound (.ok own)
  | working {own : Participant config ι} {opened : Opened ι} {later : List (ι × ι)}
      (working : Working config shared own opened later) (pairs : (openedPairs config shared own opened ++ later).Perm total)
      (fewer : opened.left < bound) : Started config shared total bound (.ok own)

section Starting
variable {config : Config} {shared : SharedFiles ι} {inner outer build probe : Nat → List (Row ι)} {own : Participant config ι}
  {opened after : Opened ι} {later total total' : List (ι × ι)} {more rows : List (Row ι)} {bound bound' : Nat}
  {result : Except String (Participant config ι)}

theorem Started.weaken (started : Started config shared total bound result) (perm : total.Perm total') (less : bound ≤ bound') :
    Started config shared total' bound' result := by
  cases started with
  | refused may => exact .refused may
  | nothing free none => exact .nothing free (List.Perm.eq_nil (none ▸ perm.symm))
  | working working pairs fewer => exact .working working (pairs.trans perm) (Nat.lt_of_lt_of_le fewer less)

/-- With all probe blocks ahead the table and the rows ahead have the pairs of both. -/
theorem fresh_pairs (ahead : opened.probeAhead shared = opened.probeBlocks shared)
    (split : rows = more ++ opened.rowsAhead config shared)
    (entries : tableEntries config own.build.toStore = more.map (entry config.innerKeys)) :
    (openedPairs config shared own opened).Perm
      (matchPairs ((opened.probeRows config shared).map (entry config.outerKeys)) (rows.map (entry config.innerKeys))) := by
  rw [openedPairs,ahead,flatMap_blockPairs,entries,split,List.map_append]
  exact matchPairs_append_right.symm

/-- The first chunk of readers that have been opened. -/
theorem Fresh.start (files : FilesHold config shared inner outer) {builds probes : List (Row ι)}
    (fresh : Fresh config shared opened builds probes later) (some_ : builds ≠ []) (unclaimed : own.claimed = none)
    (shift : own.build.hashShift = 0) (fewer : opened.left < bound) : (∃ message, GrowError message ∧ loadLocalBuildChunk config shared own opened = .error message) ∨
      ∃ own' after, loadLocalBuildChunk config shared own opened = .ok (own',after,true) ∧
        Started config shared (matchPairs (probes.map (entry config.outerKeys)) (builds.map (entry config.innerKeys)) ++ later)
          bound (.ok {own' with opened := some after}) := by
  have loaded := loadLocalBuildChunk_result files fresh.sound shift
  cases result : loadLocalBuildChunk config shared own opened with
  | error message =>
    rw [result] at loaded
    cases loaded with
    | refused may => exact .inl ⟨message,may,rfl⟩
  | ok chunk =>
    rw [result] at loaded
    cases loaded with
    | nothing none => exact absurd (fresh.builds.symm.trans none) some_
    | @table table after flag more _ split reads tabled shift' entries last =>
      refine .inr ⟨_,after,rfl,
        .working ⟨unclaimed,rfl,reads.sound,tabled,shift',last⟩ (List.Perm.append_right _ ?_) (reads.left ▸ fewer)⟩
      have ahead : after.probeAhead shared = after.probeBlocks shared :=
        reads.probeAhead.trans (fresh.ahead.trans reads.probeBlocks.symm)
      have same : after.probeRows config shared = probes := by
        rw [← fresh.probes,Opened.probeRows,reads.probeBlocks]
        rfl
      rw [← same,← fresh.builds]
      exact fresh_pairs ahead split entries

/-- The parts are gone through up to one with a table. -/
theorem startRepartitions_result (files : FilesHold config shared inner outer) {left : Nat} {parts : Repartition ι}
    (sets : Parts config build probe parts) (count : left = parts.nrepartitions - parts.next) (unclaimed : own.claimed = none)
    (shift : own.build.hashShift = 0) :
    Started config shared (stockPairs config build probe parts.next parts.nrepartitions) left
      (startRepartitions config shared left own parts) := by
  induction left generalizing parts with
  | zero => exact .nothing ⟨unclaimed,rfl,shift⟩ (stockPairs_end (by omega))
  | succ left ih =>
    have inside : parts.next < parts.nrepartitions := by omega
    have fewer : left = parts.nrepartitions - (parts.next + 1) := by omega
    rw [stockPairs_step inside]
    unfold startRepartitions
    rcases openRepartition_ok shared sets inside with ⟨ran,none⟩ | ⟨opened,ran,behind,some_,fresh⟩
    · simp only [bind,Except.bind,ran]
      rw [none,List.nil_append]
      exact (ih sets.later fewer).weaken (.refl _) (Nat.le_succ left)
    · simp only [bind,Except.bind,ran]
      have less : opened.left < left + 1 := by omega
      rcases fresh.start files some_ unclaimed shift less with ⟨message,may,failed⟩ | ⟨own',after,loaded,started⟩
      · rw [failed]
        exact .refused may
      · rw [loaded]
        exact started

theorem startNextRepartition_result (files : FilesHold config shared inner outer) {parts : Repartition ι}
    (sets : Parts config build probe parts) (unclaimed : own.claimed = none) (shift : own.build.hashShift = 0) :
    Started config shared (stockPairs config build probe parts.next parts.nrepartitions) (parts.nrepartitions - parts.next)
      (startNextRepartition config shared own parts) :=
  startRepartitions_result files sets rfl unclaimed shift

/-- A partition with rows on both sides is started, as a whole or by its first part with a table. -/
theorem startPartition_result [Inhabited ι] (files : FilesHold config shared inner outer) {partition : Nat}
    (inside : partition < shared.buildShape.partitions) (free : Free own) :
    ∃ bound, Started config shared (partitionPairs config inner outer partition) bound (startPartition config shared own partition) := by
  have buildRows : sharedPartitionRows shared.buildShape shared.build.untagged partition = .ok (inner partition).length :=
    files.inner.partitionRows inside
  have probeRows : sharedPartitionRows shared.probeShape shared.probe.untagged partition = .ok (outer partition).length :=
    files.outer.partitionRows (files.partitions.symm ▸ inside)
  unfold startPartition
  simp only [bind,Except.bind,buildRows,probeRows]
  split
  · rename_i none
    refine ⟨0,.nothing free ?_⟩
    rw [List.length_eq_zero_iff,List.length_eq_zero_iff] at none
    rcases none with none | none
    · rw [partitionPairs,none]
      exact matchPairs_nil_right
    · rw [partitionPairs,none]
      rfl
  · rename_i both
    split
    · obtain ⟨parts,build,probe,divided,sets,first,pairs⟩ := repartitionSharedPartition_ok files inside (inner partition).length
      have started := @startNextRepartition_result _ _ _ _ _ _ _ own files _ sets free.started free.shift
      rw [divided]
      rw [first] at started
      exact ⟨_,started.weaken pairs (Nat.le_refl _)⟩
    · obtain ⟨opened,ran,behind,fresh⟩ := openPartition_ok files inside
      have some_ : inner partition ≠ [] := fun none => both (.inl (by rw [none]; rfl))
      have less : opened.left < 1 := by omega
      refine ⟨1,?_⟩
      simp only [ran]
      rcases fresh.start files some_ free.started free.shift less with ⟨message,may,failed⟩ | ⟨own',after,loaded,started⟩
      · rw [failed]
        exact .refused may
      · rw [List.append_nil] at started
        rw [loaded]
        exact started

/-! Going on. -/

/-- How the end of the probe rows may go on. -/
inductive NextChunk (config : Config) (shared : SharedFiles ι) (opened : Opened ι) (later : List (ι × ι)) :
    Except String (Participant config ι) → Prop
  | refused {message : String} (may : GrowError message) : NextChunk config shared opened later (.error message)
  | chunk {own : Participant config ι} {after : Opened ι} (working : Working config shared own after later)
      (pairs : (openedPairs config shared own after).Perm (matchPairs ((opened.probeRows config shared).map (entry config.outerKeys))
        ((opened.rowsAhead config shared).map (entry config.innerKeys))))
      (left : after.left = opened.left)
      (fewer : (after.rowsAhead config shared).length < (opened.rowsAhead config shared).length) :
      NextChunk config shared opened later (.ok own)
  | finished {result : Except String (Participant config ι)} (none : opened.rowsAhead config shared = [])
      (started : Started config shared later opened.left result) : NextChunk config shared opened later result

theorem finishOpened_result (files : FilesHold config shared inner outer) (sound : Sound config shared opened later)
    (unclaimed : own.claimed = none) (shift : own.build.hashShift = 0) : Started config shared later opened.left (finishOpened config shared own opened) := by
  cases sound with
  | whole => exact .nothing ⟨unclaimed,rfl,shift⟩ rfl
  | divided sets front inside => exact startNextRepartition_result files sets unclaimed shift

/-- The next chunk is loaded and the probe rows are read again, or the next part is started. -/
theorem chunkTurn_result (files : FilesHold config shared inner outer) (sound : Sound config shared opened later)
    (unclaimed : own.claimed = none) (shift : own.build.hashShift = 0) (last : own.buildMaybeMore = false → opened.rowsAhead config shared = []) :
    NextChunk config shared opened later (chunkTurn config shared own opened) := by
  unfold chunkTurn
  cases more : own.buildMaybeMore with
  | false => exact .finished (last more) (finishOpened_result files sound unclaimed shift)
  | true =>
    rw [if_pos rfl]
    have loaded := loadLocalBuildChunk_result files sound shift
    cases result : loadLocalBuildChunk config shared own opened with
    | error message =>
      rw [result] at loaded
      cases loaded with
      | refused may => exact .refused may
    | ok chunk =>
      rw [result] at loaded
      cases loaded with
      | @nothing store after none reads shift' =>
        have finished := @finishOpened_result _ _ _ _ _ {own with build := store} _ _ files reads.sound unclaimed shift'
        rw [reads.left] at finished
        exact .finished none finished
      | @table table middle flag taken some_ split reads tabled shift' entries last' =>
        obtain ⟨after,rewound,reads',ahead⟩ := rewindProbe_ok reads.sound
        have same : after.rowsAhead config shared = middle.rowsAhead config shared := by
          rw [Opened.rowsAhead,reads'.buildAhead]
          rfl
        have probes : after.probeRows config shared = opened.probeRows config shared := by
          rw [Opened.probeRows,reads'.probeBlocks,reads.probeBlocks]
          rfl
        rw [← same] at split
        simp only [bind,Except.bind,if_true,rewound]
        refine .chunk ⟨unclaimed,rfl,reads'.sound,tabled,shift',fun final => same.trans (last' final)⟩ ?_ (reads'.left.trans reads.left) ?_
        · rw [← probes]
          exact fresh_pairs (ahead.trans reads'.probeBlocks.symm) split entries
        · have := List.length_pos_of_ne_nil some_
          rw [split,List.length_append]
          omega

end Starting

end PgBatch.ParallelJoin
