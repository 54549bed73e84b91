import PgBatch.Nodes.ParallelPartitionsRun

/-! A participant of a spilled parallel join as the source of its probe batches. Once it has
claimed a partition it works by itself: block after block and chunk after chunk it delivers
the pairs of the partition, and then it is free to claim the next one. -/
namespace PgBatch.ParallelJoin
open Words Columnar Spill HashJoin
variable {ι : Type}

namespace Participant
variable {config : Config}

/-- `load_probe_hash` for the block of a partition. -/
def loadProbeHash (own : Participant config ι) (row : Nat) : Option (BitVec 32) :=
  some (own.side.probeBlock.hashes row)

/-- `parallel_hash_join_find_head`; a table has an empty bucket, so that no search is longer than its buckets. -/
def findHead (own : Participant config ι) (hash : BitVec 32) (row : Nat) : Nat :=
  (findLocalHead config own.build.nbuckets own.build (own.side.cells row) hash).getD 0

/-- The rows of an output row. -/
def pairTags (own : Participant config ι) (pair : Nat × Nat) : ι × ι :=
  (own.side.tag pair.1,own.build.tags pair.2)

end Participant

section Probing
variable (config : Config) (shared : SharedFiles ι)

/-- What `produce_output` makes use of; `finish_probe` lets go of a block, and without conditions all rows qualify. -/
def parallelProbes [Inhabited ι] : Probes (Participant config ι × Nat) where
  fetch := fetchProbe config shared
  finish := id
  selection := fun state => state.1.side.rowSelection
  probeHash := fun state => state.1.loadProbeHash
  findHead := fun state => state.1.findHead
  next := fun state build _ => state.1.build.next build
  hasDuplicates := fun state => state.1.build.hasDuplicates
  qualify := fun state _ output => .ok (state,output)

/-- A participant that claims no partitions any more. -/
def ownProbes [Inhabited ι] : Probes (Participant config ι) where
  fetch := fetchOwn config shared
  finish := id
  selection := fun own => own.side.rowSelection
  probeHash := Participant.loadProbeHash
  findHead := Participant.findHead
  next := fun own build _ => own.build.next build
  hasDuplicates := fun own => own.build.hasDuplicates
  qualify := fun own _ output => .ok (own,output)

end Probing

/-! The block that is held. -/

namespace Participant
variable {config : Config} {shared : SharedFiles ι} {own : Participant config ι}

def content (own : Participant config ι) : Content (ι × ι) :=
  tableContent config own.build own.side.rowSelection own.side.keys own.side.tag

/-- The block that is held is bound, and the table is there. -/
structure Ready (own : Participant config ι) : Prop where
  tabled : Tabled config own.build
  shift : own.build.hashShift = 0
  bound : own.side.Bound own.loadProbeHash

/-- As long as it is held, the block serves its pairs with the table. -/
theorem Ready.held [Inhabited ι] (ready : own.Ready) : BatchHeld (ownProbes config shared) pairTags (· = own) own.content := by
  constructor
  · rintro own rfl
    refine ready.tabled.serves rfl rfl rfl rfl ?_ ?_
    · intro row member none
      change own.loadProbeHash row = _
      rw [ready.bound.hashes row member,none]
      rfl
    · intro row member values found
      obtain ⟨hash,given⟩ := ready.bound.looks member found
      exact ⟨hash,own.side.cells row,given,congrArg (Option.getD · 0) (findLocalHead_eq ready.shift given _ _)⟩
  · rintro own rfl first output _ _ _
    have all : (output.drop first).filter own.content.passes = output.drop first :=
      List.filter_eq_self.mpr fun _ _ => rfl
    exact ⟨own,by rw [all,List.take_append_drop]; rfl,rfl⟩

end Participant

/-! From the first chunk of a partition to its end. -/

/-- The parts behind the one that is read, its build rows ahead and its probe blocks ahead. -/
def toDo (config : Config) (shared : SharedFiles ι) (opened : Opened ι) : ℕ ×ₗ ℕ ×ₗ ℕ :=
  toLex (opened.left,toLex ((opened.rowsAhead config shared).length,(opened.probeAhead shared).length))

section Feeding
variable [Inhabited ι] {config : Config} {shared : SharedFiles ι} {inner outer : Nat → List (Row ι)} {own : Participant config ι}
  {opened after : Opened ι} {later total : List (ι × ι)}

omit [Inhabited ι] in
theorem toDo_parts (fewer : after.left < opened.left) : toDo config shared after < toDo config shared opened := by
  rw [toDo,toDo,Prod.Lex.toLex_lt_toLex]
  exact .inl fewer

omit [Inhabited ι] in
theorem toDo_rows (left : after.left = opened.left)
    (fewer : (after.rowsAhead config shared).length < (opened.rowsAhead config shared).length) :
    toDo config shared after < toDo config shared opened := by
  rw [toDo,toDo,Prod.Lex.toLex_lt_toLex,Prod.Lex.toLex_lt_toLex]
  exact .inr ⟨left,.inl fewer⟩

omit [Inhabited ι] in
theorem toDo_blocks (left : after.left = opened.left)
    (rows : (after.rowsAhead config shared).length = (opened.rowsAhead config shared).length)
    (fewer : (after.probeAhead shared).length < (opened.probeAhead shared).length) :
    toDo config shared after < toDo config shared opened := by
  rw [toDo,toDo,Prod.Lex.toLex_lt_toLex,Prod.Lex.toLex_lt_toLex]
  exact .inr ⟨left,.inr ⟨rows,fewer⟩⟩

/-- It delivers these pairs, and is free then. -/
abbrev Supplies (shared : SharedFiles ι) : Participant config ι → List (ι × ι) → Prop :=
  FeedsTo (ownProbes config shared) Participant.pairTags GrowError Free

theorem Free.supplies (free : Free own) : Supplies shared own [] := by
  have ran : fetchOwn config shared own = .ok (own,.ended) := by
    rw [fetchOwn,free.started,free.opened]
  exact .ended ran free rfl

theorem Working.turn (working : Working config shared own opened later) :
    fetchOwn config shared own = openedTurn config shared own opened := by
  unfold fetchOwn
  split
  · rename_i found
    rw [working.started] at found
    cases found
  · rename_i other _ here
    rw [working.here] at here
    cases here
    rfl
  · rename_i none
    rw [working.here] at none
    cases none

/-- A turn that finds a block. -/
theorem Working.block (files : FilesHold config shared inner outer) (working : Working config shared own opened later)
    {block : Store ι} {rest : List (Store ι)} (ahead : opened.probeAhead shared = block :: rest) :
    ∃ own' after, fetchOwn config shared own = .ok (own',.found) ∧ own'.Ready ∧ Working config shared own' after later ∧
      toDo config shared after < toDo config shared opened ∧
      (own'.content.emits ++ openedPairs config shared own' after).Perm (openedPairs config shared own opened) := by
  obtain ⟨after,next,reads,left⟩ := nextProbeBlock_some working.sound files ahead
  obtain ⟨_,small,probes⟩ := working.sound.probeBlock files (working.sound.probeAmong block (ahead ▸ List.mem_cons_self ..))
  obtain ⟨bound,prepared,cells⟩ := prepareProbeKeys_bound (own.side.ofSpilled block)
  obtain ⟨ready,entries⟩ := ofSpilled_ready own.side small probes cells
  have rows : after.rowsAhead config shared = opened.rowsAhead config shared := by
    rw [Opened.rowsAhead,reads.buildAhead]
    rfl
  have all : after.probeRows config shared = opened.probeRows config shared := by
    rw [Opened.probeRows,reads.probeBlocks]
    rfl
  refine ⟨{own with opened := some after, side := {own.side.ofSpilled block with columns := bound}},after,?_,
    ⟨working.tabled,working.shift,ready⟩,⟨working.started,rfl,reads.sound,working.tabled,working.shift,fun last => rows.trans (working.last last)⟩,
    toDo_blocks reads.left (congrArg List.length rows) ?_,?_⟩
  · rw [working.turn]
    simp only [openedTurn,bind,Except.bind,next,prepared]
    exact if_neg (not_not_intro rfl)
  · rw [left,ahead]
    exact Nat.lt_succ_self _
  · refine (List.Perm.append_right _ (tableContent_emits ..)).trans (.of_eq ?_)
    have split : openedPairs config shared own opened = blockPairs config block own.build ++
        ((rest.flatMap fun block => blockPairs config block own.build) ++
          matchPairs ((opened.probeRows config shared).map (entry config.outerKeys))
            ((opened.rowsAhead config shared).map (entry config.innerKeys))) := by
      rw [openedPairs,ahead,List.flatMap_cons,List.append_assoc]
    rw [split,openedPairs,left,all,rows]
    exact congrArg (matchPairs · (tableEntries config own.build.toStore) ++ _) entries

/-- The turn at the end of the probe rows. -/
theorem Working.chunk (files : FilesHold config shared inner outer) (working : Working config shared own opened later)
    (ended : opened.probeAhead shared = []) : ∃ after result, fetchOwn config shared own = (do
        let own ← result
        .ok (own,.again)) ∧ ReadsProbe config shared opened after later ∧ NextChunk config shared after later result := by
  obtain ⟨after,width,next,reads⟩ := nextProbeBlock_none working.sound files ended
  have rows : after.rowsAhead config shared = opened.rowsAhead config shared := by
    rw [Opened.rowsAhead,reads.buildAhead]
    rfl
  refine ⟨after,chunkTurn config shared own after,?_,reads,
    chunkTurn_result files reads.sound working.started working.shift fun last => rows.trans (working.last last)⟩
  rw [working.turn]
  simp only [openedTurn,bind,Except.bind,next]

/-- A partition that has been started is delivered to its end. -/
theorem Working.supplies (files : FilesHold config shared inner outer) (working : Working config shared own opened later) :
    Supplies shared own (openedPairs config shared own opened ++ later) := by
  generalize left : toDo config shared opened = bound
  induction bound using WellFoundedLT.induction generalizing own opened later with
  | _ bound ih =>
    cases ahead : opened.probeAhead shared with
    | cons block rest =>
      obtain ⟨own',after,ran,ready,working',less,pairs⟩ := working.block files ahead
      refine .found own'.content (· = own') ran rfl ready.held (fun last same => ?_)
        (by rw [← List.append_assoc]; exact pairs.append_right later)
      rw [same]
      exact ih _ (left ▸ less) working' rfl
    | nil =>
      obtain ⟨after,result,turn,reads,next⟩ := working.chunk files ahead
      have rows : after.rowsAhead config shared = opened.rowsAhead config shared := by
        rw [Opened.rowsAhead,reads.buildAhead]
        rfl
      have all : after.probeRows config shared = opened.probeRows config shared := by
        rw [Opened.probeRows,reads.probeBlocks]
        rfl
      have total : openedPairs config shared own opened = matchPairs ((opened.probeRows config shared).map (entry config.outerKeys))
          ((opened.rowsAhead config shared).map (entry config.innerKeys)) := by
        rw [openedPairs,ahead]
        rfl
      cases next with
      | refused may => exact .refused turn may
      | chunk working' pairs behind fewer =>
        have less := toDo_rows (behind.trans reads.left) (rows ▸ fewer)
        rw [all,rows,← total] at pairs
        exact .again turn ((ih _ (left ▸ less) working' rfl).perm (pairs.append_right later))
      | finished none started =>
        rw [total,← rows,none,List.map_nil,matchPairs_nil_right,List.nil_append]
        cases started with
        | refused may => exact .refused turn may
        | nothing free nothing => exact .again turn (nothing ▸ free.supplies)
        | working working' pairs fewer =>
          have less : toDo config shared _ < toDo config shared opened := toDo_parts (reads.left ▸ fewer)
          exact .again turn ((ih _ (left ▸ less) working' rfl).perm pairs)

/-- What a participant delivers of a partition it has claimed. -/
theorem Started.supplies (files : FilesHold config shared inner outer) {bound : Nat}
    (started : Started config shared total bound (.ok own)) : Supplies shared own total := by
  cases started with
  | nothing free none => exact none ▸ free.supplies
  | working working pairs _ => exact (working.supplies files).perm pairs

/-- So is a partition that has been claimed. -/
theorem claimed_supplies (files : FilesHold config shared inner outer) {partition : Nat}
    (inside : partition < shared.buildShape.partitions) (claimed : own.claimed = some partition)
    (free : Free {own with claimed := none}) : Supplies shared own (partitionPairs config inner outer partition) := by
  obtain ⟨bound,started⟩ := startPartition_result files inside free
  cases result : startPartition config shared {own with claimed := none} partition with
  | error message =>
    rw [result] at started
    cases started with
    | refused may =>
      have ran : fetchOwn config shared own = .error message := by
        rw [fetchOwn,claimed]
        dsimp only
        rw [result]
        rfl
      exact .refused ran may
  | ok after =>
    rw [result] at started
    have ran : fetchOwn config shared own = .ok (after,.again) := by
      rw [fetchOwn,claimed]
      dsimp only
      rw [result]
      rfl
    exact .again ran (started.supplies files)

end Feeding

end PgBatch.ParallelJoin
