import PgBatch.Nodes.HashJoinFiles

/-! The files of the partitions, from the first row that is written to the last block
that is read: each partition with rows has a file, and only such a partition has. -/
namespace PgBatch.HashJoin
open Words Columnar Spill Joining
variable {ι : Type}

/-- A spill set that is written to, with a file for each partition with rows. -/
structure Filed (ncolumns npartitions : Nat) (files : Nat → Option HashSpillFile) (writers : Writers ι) : Prop where
  valid : writers.Valid
  ncolumns : writers.ncolumns = ncolumns
  npartitions : writers.npartitions = npartitions
  unfinished : writers.finished = false
  file : ∀ partition, files partition = if writers.contents partition = [] then none else some ⟨partition,none⟩

/-- The partitions from `first` on are as they were written. -/
structure Shelf (ncolumns npartitions : Nat) (frozen : Bool) (rows : Nat → List (Row ι)) (first : Nat)
    (files : SpillFiles ι) : Prop where
  holds : Holds files.set rows
  ncolumns : files.set.ncolumns = ncolumns
  npartitions : files.set.npartitions = npartitions
  frozen : files.set.frozen = frozen
  file : ∀ partition, first ≤ partition → files.files partition = if rows partition = [] then none else some ⟨partition,none⟩
  start : ∀ partition, first ≤ partition → files.set.position partition = 0

section Writing
variable {ncolumns npartitions : Nat} {files : Nat → Option HashSpillFile} {writers after : Writers ι}

theorem filed_create {bufferLimit : Nat} : Filed ncolumns npartitions (fun _ => none)
    (create ncolumns npartitions bufferLimit : Writers ι) :=
  ⟨create_valid ..,rfl,rfl,rfl,fun _ => rfl⟩

/-- Rows were added to a partition, which has a file now. -/
theorem Filed.adds (filed : Filed ncolumns npartitions files writers) {partition : Nat} {added : List (Row ι)}
    (some_ : added ≠ []) (adds : Adds writers after partition added) :
    Filed ncolumns npartitions (spillFile files partition) after := by
  refine ⟨adds.valid,adds.same.ncolumns.trans filed.ncolumns,adds.same.npartitions.trans filed.npartitions,
    adds.same.finished.trans filed.unfinished,fun other => ?_⟩
  have here := filed.file partition
  have there := filed.file other
  rw [adds.contents]
  by_cases same : other = partition
  · subst same
    rw [Function.update_self,if_neg (by simp [some_])]
    split at here
    · simp only [spillFile,here,Function.update_self]
    · simp only [spillFile,here]
  · rw [Function.update_of_ne same,← there]
    cases found : files partition with
    | some file => simp only [spillFile,found]
    | none => simp only [spillFile,found,Function.update_of_ne same]

/-- When the writing is over, all partitions can be read from their start. -/
theorem Filed.finish {set : SpillSet ι} (filed : Filed ncolumns npartitions files set.toWriters) (frozen : Bool) :
    ∃ after, spillFinish set frozen = .ok after ∧
      Shelf ncolumns npartitions frozen set.toWriters.contents 0 ⟨files,after⟩ := by
  obtain ⟨after,finished,holds,froze,wide,many,start⟩ := spillFinish_holds set filed.valid filed.unfinished frozen
  exact ⟨after,finished,holds,wide.trans filed.ncolumns,many.trans filed.npartitions,froze,fun partition _ => filed.file partition,
    fun partition _ => congrFun start partition⟩

end Writing

/-! Reading. -/

section Reading
variable {ncolumns npartitions first : Nat} {frozen : Bool} {rows : Nat → List (Row ι)} {files after : SpillFiles ι}

theorem Shelf.later (shelf : Shelf ncolumns npartitions frozen rows first files) {next : Nat} (behind : first ≤ next) :
    Shelf ncolumns npartitions frozen rows next files :=
  ⟨shelf.holds,shelf.ncolumns,shelf.npartitions,shelf.frozen,fun partition from_ => shelf.file partition (Nat.le_trans behind from_),
    fun partition from_ => shelf.start partition (Nat.le_trans behind from_)⟩

/-- Work on a partition in front of them leaves the others as they are. -/
theorem Shelf.touched (shelf : Shelf ncolumns npartitions frozen rows first files) {partition : Nat}
    (before : partition < first) (touches : Touches partition files after) :
    Shelf ncolumns npartitions frozen rows first after := by
  have files_ := touches.files
  have position := touches.position
  obtain ⟨moved,counts,same⟩ := touches.reads
  obtain ⟨pointers,set⟩ := after
  dsimp only at same files_ position
  subst same
  refine ⟨shelf.holds.reads ⟨moved,counts,rfl⟩,shelf.ncolumns,shelf.npartitions,shelf.frozen,fun other from_ => ?_,fun other from_ => ?_⟩
  · exact (files_ other (by omega)).trans (shelf.file other from_)
  · exact (position other (by omega)).trans (shelf.start other from_)

theorem touches_drop (files : SpillFiles ι) (partition : Nat) : Touches partition files (files.drop partition) :=
  ⟨.refl _,fun _ apart => Function.update_of_ne apart ..,fun _ _ => rfl⟩

theorem Shelf.has (shelf : Shelf ncolumns npartitions frozen rows first files) {partition : Nat} (from_ : first ≤ partition) :
    files.has partition = !(rows partition).isEmpty := by
  rw [SpillFiles.has,shelf.file partition from_]
  cases rows partition <;> rfl

/-- A partition that nobody has read is read from its start. -/
theorem Shelf.readable (shelf : Shelf ncolumns npartitions frozen rows first files) {partition : Nat} (from_ : first ≤ partition)
    (inside : partition < npartitions) : Readable rows partition files ∧ (files.file partition).reader = none ∧
      files.ahead partition = files.set.files partition := by
  have file : files.file partition = ⟨partition,none⟩ := by
    rw [SpillFiles.file,shelf.file partition from_]
    split <;> rfl
  have ahead : files.ahead partition = files.set.files partition := by
    rw [SpillFiles.ahead,file]
    simp [shelf.start partition from_]
  refine ⟨⟨shelf.holds,shelf.npartitions ▸ inside,by rw [file],?_⟩,by rw [file],ahead⟩
  intro reader found
  rw [file] at found
  cases found

end Reading

/-! Dividing rows among partitions. -/

/-- The visited rows are linked by their partitions, but for partitions that are not kept. -/
structure Linking (of : Nat → Nat) (keep : Nat → Bool) (visits : List Nat) (links : Links) : Prop where
  linked : ∀ partition, links.linked partition = if keep partition then part of visits partition else []
  used : ∀ partition, partition ∈ links.used ↔ links.linked partition ≠ []
  distinct : links.used.Nodup

section Linking
variable {of : Nat → Nat} {keep : Nat → Bool} {visits : List Nat} {links : Links}

theorem linking_empty (of : Nat → Nat) (keep : Nat → Bool) : Linking of keep [] Links.empty :=
  ⟨fun _ => by simp [Links.empty],fun _ => by simp [Links.empty],List.nodup_nil⟩

theorem Linking.skip (linking : Linking of keep visits links) {row : Nat} (left : keep (of row) = false) :
    Linking of keep (visits ++ [row]) links := by
  refine ⟨fun partition => ?_,linking.used,linking.distinct⟩
  rw [linking.linked,part_append]
  by_cases here : of row = partition
  · rw [← here,left]
    simp
  · simp [part,here]

theorem Linking.add (linking : Linking of keep visits links) {row : Nat} (kept : keep (of row) = true) :
    Linking of keep (visits ++ [row]) (links.add (of row) row) := by
  refine ⟨fun partition => ?_,fun partition => ?_,?_⟩
  · dsimp only [Links.add]
    by_cases same : partition = of row
    · subst same
      rw [Function.update_self,linking.linked,if_pos kept,if_pos kept,part_append]
      simp [part]
    · rw [Function.update_of_ne same,linking.linked,part_append]
      simp [part,Ne.symm same]
  · dsimp only [Links.add]
    by_cases same : partition = of row
    · subst same
      rw [Function.update_self]
      split
      · simp
      · rename_i more
        simp [(linking.used _).mpr more]
    · rw [Function.update_of_ne same]
      split
      · rw [List.mem_append,List.mem_singleton,or_iff_left same]
        exact linking.used partition
      · exact linking.used partition
  · dsimp only [Links.add]
    split
    · rename_i first
      have fresh : of row ∉ links.used := fun member => (linking.used _).mp member first
      exact List.nodup_append.mpr ⟨linking.distinct,List.nodup_singleton _,by
        rintro other member _ single rfl
        exact fresh (List.mem_singleton.mp single ▸ member)⟩
    · exact linking.distinct

/-- What is linked to a partition is among the visited rows. -/
theorem Linking.sublist (linking : Linking of keep visits links) (partition : Nat) : (links.linked partition).Sublist visits := by
  rw [linking.linked]
  split
  · exact List.filter_sublist
  · exact List.nil_sublist _

/-- A loop that writes the rows of one partition after another. -/
theorem Linking.write {σ : Type} {row : Nat → Row ι} (linking : Linking of keep visits links)
    (step : σ → Nat → Except String σ) (Good : σ → Prop) (contents : σ → Nat → List (Row ι))
    (each : ∀ state partition, partition ∈ links.used → Good state → ∃ next, step state partition = .ok next ∧ Good next ∧
      contents next = Function.update (contents state) partition
        (contents state partition ++ (links.linked partition).map row))
    {first : σ} (good : Good first) : ∃ last, links.used.foldlM step first = .ok last ∧ Good last ∧
      ∀ partition, contents last partition = contents first partition ++ (links.linked partition).map row := by
  obtain ⟨last,ran,good',written⟩ : ∃ last, links.used.foldlM step first = .ok last ∧ Good last ∧
      ∀ partition, contents last partition = contents first partition ++
        if partition ∈ links.used then (links.linked partition).map row else [] := by
    refine Results.foldlM_rule (fun done state => Good state ∧ ∀ partition, contents state partition =
      contents first partition ++ if partition ∈ done then (links.linked partition).map row else []) ⟨good,by simp⟩ ?_
    rintro done partition rest state split ⟨good,written⟩
    have fresh : partition ∉ done := by
      have distinct := linking.distinct
      rw [split] at distinct
      exact fun again => (List.nodup_append.mp distinct).2.2 _ again _ (List.mem_cons_self ..) rfl
    obtain ⟨next,ran,good',grown⟩ := each state partition (by simp [split]) good
    refine ⟨next,ran,good',fun other => ?_⟩
    rw [grown]
    by_cases here : other = partition
    · subst here
      rw [Function.update_self,written,if_neg fresh,if_pos (by simp),List.append_nil]
    · rw [Function.update_of_ne here,written]
      simp only [List.mem_append,List.mem_singleton,here,or_false]
  refine ⟨last,ran,good',fun partition => ?_⟩
  rw [written]
  split
  · rfl
  · rename_i unused
    have none : links.linked partition = [] := by
      by_contra more
      exact unused ((linking.used partition).mpr more)
    rw [none]
    rfl

end Linking

end PgBatch.HashJoin
