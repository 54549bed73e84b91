import PgBatch.Nodes.ParallelPartitions

/-! What the readers of a claimed partition have ahead: blocks of the shared files, or of the
private ones that the partition was divided into, with the parts that are left behind them. -/
namespace PgBatch.ParallelJoin
open Words Columnar Spill HashJoin
variable {ι : Type}

/-- A build row of a shared file: none of its keys is NULL. -/
structure SharedBuildRow (config : Config) (row : Row ι) : Prop extends BuildRow config row where
  valid : ∀ key ∈ config.innerKeys, (row.cell key).valid = true

/-- Both sides are in the shared files, each row in its partition. -/
structure FilesHold (config : Config) (shared : SharedFiles ι) (build probe : Nat → List (Row ι)) : Prop where
  inner : SharedHolds shared.buildShape shared.build build
  outer : SharedHolds shared.probeShape shared.probe probe
  innerColumns : shared.buildShape.ncolumns = config.ninnerColumns
  outerColumns : shared.probeShape.ncolumns = config.nouterColumns
  partitions : shared.probeShape.partitions = shared.buildShape.partitions
  builds : ∀ partition, ∀ row ∈ build partition, SharedBuildRow config row
  probes : ∀ partition, ∀ row ∈ probe partition, ProbeRow config row

/-- The sets of a divided partition, whose parts from `next` on nobody has read. -/
structure Parts (config : Config) (build probe : Nat → List (Row ι)) (parts : Repartition ι) : Prop where
  inner : Holds parts.build build
  outer : Holds parts.probe probe
  innerColumns : parts.build.ncolumns = config.ninnerColumns
  outerColumns : parts.probe.ncolumns = config.nouterColumns
  innerParts : parts.build.npartitions = parts.nrepartitions
  outerParts : parts.probe.npartitions = parts.nrepartitions
  destructive : parts.build.frozen = false
  frozen : parts.probe.frozen = true
  start : ∀ part, parts.next ≤ part → parts.build.position part = 0
  builds : ∀ part, ∀ row ∈ build part, BuildRow config row
  probes : ∀ part, ∀ row ∈ probe part, ProbeRow config row

namespace Opened
variable (shared : SharedFiles ι)

def buildAhead : Opened ι → List (Store ι)
  | whole build _ => build.ahead shared.buildShape.participants shared.build
  | divided parts build _ => remaining parts.build build

def probeAhead : Opened ι → List (Store ι)
  | whole _ probe => probe.ahead shared.probeShape.participants shared.probe
  | divided parts _ probe => remaining parts.probe probe

/-- All blocks of the probe side. -/
def probeBlocks : Opened ι → List (Store ι)
  | whole _ probe => shared.probe.blocks shared.probeShape.participants probe.partition
  | divided parts _ probe => parts.probe.files probe.partition

/-- How many parts are left behind the one that is read. -/
def left : Opened ι → Nat
  | whole _ _ => 0
  | divided parts _ _ => parts.nrepartitions - parts.next

end Opened

/-- Readers that can be read on; `later` are the pairs of the parts behind theirs. -/
inductive Sound (config : Config) (shared : SharedFiles ι) : Opened ι → List (ι × ι) → Prop
  | whole {build probe : BlockReader ι}
      (inner : ∀ block ∈ build.ahead shared.buildShape.participants shared.build,
        block ∈ shared.build.blocks shared.buildShape.participants build.partition)
      (outer : ∀ block ∈ probe.ahead shared.probeShape.participants shared.probe,
        block ∈ shared.probe.blocks shared.probeShape.participants probe.partition) :
      Sound config shared (.whole build probe) []
  | divided {inner outer : Nat → List (Row ι)} {parts : Repartition ι} {build probe : Reader}
      (sets : Parts config inner outer parts) (front : build.partition < parts.next)
      (inside : probe.partition < parts.nrepartitions) :
      Sound config shared (.divided parts build probe) (stockPairs config inner outer parts.next parts.nrepartitions)

/-- Reading on one side leaves the other side and the parts to follow. -/
structure ReadsBuild (config : Config) (shared : SharedFiles ι) (before after : Opened ι) (later : List (ι × ι)) : Prop where
  sound : Sound config shared after later
  probeAhead : after.probeAhead shared = before.probeAhead shared
  probeBlocks : after.probeBlocks shared = before.probeBlocks shared
  left : after.left = before.left

structure ReadsProbe (config : Config) (shared : SharedFiles ι) (before after : Opened ι) (later : List (ι × ι)) : Prop where
  sound : Sound config shared after later
  buildAhead : after.buildAhead shared = before.buildAhead shared
  probeBlocks : after.probeBlocks shared = before.probeBlocks shared
  left : after.left = before.left

section Reading
variable {config : Config} {shared : SharedFiles ι} {inner outer : Nat → List (Row ι)} {opened : Opened ι}
  {later : List (ι × ι)} {first second third : Opened ι}

theorem ReadsBuild.trans (one : ReadsBuild config shared first second later) (two : ReadsBuild config shared second third later) :
    ReadsBuild config shared first third later :=
  ⟨two.sound,two.probeAhead.trans one.probeAhead,two.probeBlocks.trans one.probeBlocks,two.left.trans one.left⟩

/-- Reading moves the tapes of a set, and those of the parts to follow stand still. -/
theorem Parts.reads {build probe : Nat → List (Row ι)} {parts : Repartition ι} (sets : Parts config build probe parts)
    {buildSet probeSet : SpillSet ι} (inner : Reads parts.build buildSet) (outer : Reads parts.probe probeSet)
    (position : ∀ part, parts.next ≤ part → buildSet.position part = parts.build.position part) :
    Parts config build probe {parts with build := buildSet, probe := probeSet} := by
  have one := sets.inner.reads inner
  have two := sets.outer.reads outer
  obtain ⟨moved,counts,rfl⟩ := inner
  obtain ⟨moved',counts',rfl⟩ := outer
  exact ⟨one,two,sets.innerColumns,sets.outerColumns,sets.innerParts,sets.outerParts,sets.destructive,sets.frozen,
    fun part behind => (position part behind).trans (sets.start part behind),sets.builds,sets.probes⟩

theorem mem_remaining {set : SpillSet ι} {reader : Reader} {block : Store ι} (member : block ∈ remaining set reader) :
    block ∈ set.files reader.partition := by
  unfold remaining at member
  split at member
  · cases member
  · exact List.mem_of_mem_drop member

/-- A block ahead is one of the build side, with rows of it. -/
theorem Sound.buildBlock (sound : Sound config shared opened later) (files : FilesHold config shared inner outer)
    {block : Store ι} (member : block ∈ opened.buildAhead shared) : 0 < block.nrows ∧ block.nrows ≤ blockRows ∧
      ∀ row ∈ block.rows config.ninnerColumns, BuildRow config row := by
  cases sound with
  | @whole build probe among _ =>
    have there := among block member
    obtain ⟨some_,few⟩ := files.inner.sized block there
    refine ⟨some_,few,fun row stored => (files.builds build.partition row ?_).toBuildRow⟩
    rw [← files.inner.contents build.partition,files.innerColumns]
    exact List.mem_flatMap.mpr ⟨block,there,stored⟩
  | @divided _ _ parts build probe sets _ _ =>
    have there := mem_remaining member
    obtain ⟨some_,few⟩ := sets.inner.blocks build.partition block there
    refine ⟨some_,few,fun row stored => sets.builds build.partition row ?_⟩
    rw [← sets.inner.contents build.partition,sets.innerColumns]
    exact List.mem_flatMap.mpr ⟨block,there,stored⟩

theorem Sound.probeBlock (sound : Sound config shared opened later) (files : FilesHold config shared inner outer)
    {block : Store ι} (member : block ∈ opened.probeBlocks shared) : 0 < block.nrows ∧ block.nrows ≤ blockRows ∧
      ∀ row ∈ block.rows config.nouterColumns, ProbeRow config row := by
  cases sound with
  | @whole build probe _ _ =>
    obtain ⟨some_,few⟩ := files.outer.sized block member
    refine ⟨some_,few,fun row stored => files.probes probe.partition row ?_⟩
    rw [← files.outer.contents probe.partition,files.outerColumns]
    exact List.mem_flatMap.mpr ⟨block,member,stored⟩
  | @divided _ _ parts build probe sets _ _ =>
    obtain ⟨some_,few⟩ := sets.outer.blocks probe.partition block member
    refine ⟨some_,few,fun row stored => sets.probes probe.partition row ?_⟩
    rw [← sets.outer.contents probe.partition,sets.outerColumns]
    exact List.mem_flatMap.mpr ⟨block,member,stored⟩

theorem Sound.probeAmong (sound : Sound config shared opened later) : ∀ block ∈ opened.probeAhead shared,
    block ∈ opened.probeBlocks shared := by
  cases sound with
  | whole _ among => exact among
  | divided _ _ _ => exact fun block member => mem_remaining member

theorem nextBuildBlock_some (sound : Sound config shared opened later) (files : FilesHold config shared inner outer)
    {block : Store ι} {rest : List (Store ι)} (more : opened.buildAhead shared = block :: rest) :
    ∃ after, nextBuildBlock shared opened = .ok (after,config.ninnerColumns,some block) ∧
      ReadsBuild config shared opened after later ∧ after.buildAhead shared = rest := by
  have sizes := sound.buildBlock files (more ▸ List.mem_cons_self ..)
  cases sound with
  | @whole build probe among outer =>
    obtain ⟨after,ran,own,ahead⟩ := @blockReaderNext_some _ shared.missing _ _ _ _ files.inner _ _ more ⟨sizes.1,sizes.2.1⟩
    refine ⟨.whole after probe,?_,⟨.whole ?_ outer,rfl,rfl,rfl⟩,ahead⟩
    · rw [nextBuildBlock,ran,files.innerColumns]
      rfl
    · intro other member
      rw [ahead] at member
      rw [own]
      refine among other ?_
      change other ∈ Opened.buildAhead shared (.whole build probe)
      rw [more]
      exact List.mem_cons_of_mem _ member
  | @divided _ _ parts build probe sets front inside =>
    obtain ⟨after,next,_,ahead⟩ := readerNext_some sets.inner more
    obtain ⟨_,reads,position,_⟩ := readerNext_position next
    have sets' := sets.reads reads (.refl _) fun part behind => position part (by omega)
    refine ⟨.divided {parts with build := after} build probe,?_,⟨.divided sets' front inside,rfl,rfl,rfl⟩,ahead⟩
    have columns := sets'.innerColumns
    rw [nextBuildBlock,next]
    exact congrArg (fun width => Except.ok (_,width,_)) columns

theorem nextBuildBlock_none (sound : Sound config shared opened later) (files : FilesHold config shared inner outer)
    (ended : opened.buildAhead shared = []) :
    ∃ after width, nextBuildBlock shared opened = .ok (after,width,none) ∧ ReadsBuild config shared opened after later ∧
      after.buildAhead shared = [] := by
  cases sound with
  | @whole build probe among outer =>
    obtain ⟨after,ran,own,ahead⟩ := @blockReaderNext_none _ shared.missing _ _ _ _ files.inner ended
    refine ⟨.whole after probe,_,by rw [nextBuildBlock,ran]; rfl,⟨.whole ?_ outer,rfl,rfl,rfl⟩,ahead⟩
    intro block member
    rw [ahead] at member
    cases member
  | @divided _ _ parts build probe sets front inside =>
    obtain ⟨reader,next,own⟩ := readerNext_none ended
    obtain ⟨_,_,_,empty⟩ := readerNext_position next
    exact ⟨.divided parts reader probe,_,by rw [nextBuildBlock,next]; rfl,
      ⟨.divided sets (own ▸ front) inside,rfl,rfl,rfl⟩,empty rfl⟩

theorem nextProbeBlock_some (sound : Sound config shared opened later) (files : FilesHold config shared inner outer)
    {block : Store ι} {rest : List (Store ι)} (more : opened.probeAhead shared = block :: rest) :
    ∃ after, nextProbeBlock shared opened = .ok (after,config.nouterColumns,some block) ∧
      ReadsProbe config shared opened after later ∧ after.probeAhead shared = rest := by
  have sizes := sound.probeBlock files (sound.probeAmong block (more ▸ List.mem_cons_self ..))
  cases sound with
  | @whole build probe inner among =>
    obtain ⟨after,ran,own,ahead⟩ := @blockReaderNext_some _ shared.missing _ _ _ _ files.outer _ _ more ⟨sizes.1,sizes.2.1⟩
    refine ⟨.whole build after,?_,⟨.whole inner ?_,rfl,by simp only [Opened.probeBlocks,own],rfl⟩,ahead⟩
    · rw [nextProbeBlock,ran,files.outerColumns]
      rfl
    · intro other member
      rw [ahead] at member
      rw [own]
      refine among other ?_
      change other ∈ Opened.probeAhead shared (.whole build probe)
      rw [more]
      exact List.mem_cons_of_mem _ member
  | @divided _ _ parts build probe sets front inside =>
    obtain ⟨after,next,_,ahead⟩ := readerNext_some sets.outer more
    obtain ⟨_,reads,_,_⟩ := readerNext_position next
    have sets' := sets.reads (.refl _) reads fun _ _ => rfl
    refine ⟨.divided {parts with probe := after} build probe,?_,⟨.divided sets' front inside,rfl,?_,rfl⟩,ahead⟩
    · have columns := sets'.outerColumns
      rw [nextProbeBlock,next]
      exact congrArg (fun width => Except.ok (_,width,_)) columns
    · obtain ⟨_,_,rfl⟩ := reads
      rfl

theorem nextProbeBlock_none (sound : Sound config shared opened later) (files : FilesHold config shared inner outer)
    (ended : opened.probeAhead shared = []) :
    ∃ after width, nextProbeBlock shared opened = .ok (after,width,none) ∧ ReadsProbe config shared opened after later := by
  cases sound with
  | @whole build probe inner among =>
    obtain ⟨after,ran,own,ahead⟩ := @blockReaderNext_none _ shared.missing _ _ _ _ files.outer ended
    refine ⟨.whole build after,_,by rw [nextProbeBlock,ran]; rfl,⟨.whole inner ?_,rfl,by simp only [Opened.probeBlocks,own],rfl⟩⟩
    intro block member
    rw [ahead] at member
    cases member
  | @divided _ _ parts build probe sets front inside =>
    obtain ⟨reader,next,own⟩ := readerNext_none ended
    exact ⟨.divided parts build reader,_,by rw [nextProbeBlock,next]; rfl,
      ⟨.divided sets front (own ▸ inside),rfl,by simp only [Opened.probeBlocks,own],rfl⟩⟩

/-- The probe rows are read again from their start. -/
theorem rewindProbe_ok (sound : Sound config shared opened later) :
    ∃ after, rewindProbe opened = .ok after ∧ ReadsProbe config shared opened after later ∧
      after.probeAhead shared = opened.probeBlocks shared := by
  cases sound with
  | @whole build probe inner among =>
    have ahead := rewind_ahead probe shared.probeShape.participants shared.probe
    refine ⟨_,rfl,⟨.whole inner ?_,rfl,rfl,rfl⟩,ahead⟩
    intro block member
    rwa [ahead] at member
  | @divided _ outer parts build probe sets front inside =>
    have empty := spillPartitionEmpty_ok sets.outer (sets.outerParts.symm ▸ inside)
    have ran : readerRewind parts.probe probe = .ok (rewindTape parts.probe probe.partition,
        {probe with eof := (outer probe.partition).isEmpty}) := by
      rw [readerRewind,if_pos sets.frozen,empty]
      rfl
    have reads := (rewindTape_position parts.probe probe.partition).1
    refine ⟨.divided {parts with probe := rewindTape parts.probe probe.partition} build
      {probe with eof := (outer probe.partition).isEmpty},by rw [rewindProbe,ran]; rfl,
      ⟨.divided (sets.reads (.refl _) reads fun _ _ => rfl) front inside,rfl,?_,rfl⟩,remaining_rewound sets.outer probe.partition⟩
    obtain ⟨_,_,same⟩ := reads
    simp only [Opened.probeBlocks,same]

end Reading

end PgBatch.ParallelJoin
