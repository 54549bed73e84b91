import PgBatch.Nodes.HashJoinTable
import PgBatch.Nodes.HashJoinOutputRun
import PgBatch.Nodes.HashJoinPartitions

/-! The pairs of an equijoin, and what a probe batch finds in the table of some build
rows: its pairs with these rows, in whatever order they were stored. -/
namespace PgBatch.HashJoin
open Words Columnar Chains Joining
variable {ι : Type}

/-- A row as the join sees it: its keys and its tag. -/
abbrev Entry (ι : Type) := List Int4 × ι

/-- The keys of a stored row. -/
def entry (keys : List Nat) (row : Row ι) : Entry ι :=
  (keys.map fun key => (row.cell key).value,row.tag)

/-- The pairs of rows with equal keys. -/
def matchPairs (probe build : List (Entry ι)) : List (ι × ι) :=
  (joined Prod.fst Prod.fst probe build).map fun pair => (pair.1.2,pair.2.2)

section Pairs
variable {probe probe' build build' : List (Entry ι)}

@[simp] theorem matchPairs_nil_left : matchPairs [] build = [] := rfl

@[simp] theorem matchPairs_nil_right : matchPairs probe [] = [] := by
  simp [matchPairs]

theorem matchPairs_perm (one : probe.Perm probe') (two : build.Perm build') :
    (matchPairs probe build).Perm (matchPairs probe' build') :=
  (joined_perm one two).map _

theorem matchPairs_append_left : matchPairs (probe ++ probe') build = matchPairs probe build ++ matchPairs probe' build := by
  rw [matchPairs,joined_append_left,List.map_append]
  rfl

theorem matchPairs_append_right : (matchPairs probe (build ++ build')).Perm (matchPairs probe build ++ matchPairs probe build') := by
  rw [matchPairs,matchPairs,matchPairs,← List.map_append]
  exact joined_append_right.map _

theorem matchPairs_flatMap_right {ν : Type} (items : List ν) (each : ν → List (Entry ι)) :
    (matchPairs probe (items.flatMap each)).Perm (items.flatMap fun item => matchPairs probe (each item)) := by
  induction items with
  | nil => exact .of_eq matchPairs_nil_right
  | cons item rest ih => exact matchPairs_append_right.trans (ih.append_left _)

theorem matchPairs_filter_left (keep : Entry ι → Bool)
    (alone : ∀ row ∈ probe, keep row = false → ∀ other ∈ build, other.1 ≠ row.1) :
    matchPairs (probe.filter keep) build = matchPairs probe build := by
  rw [matchPairs,joined_filter_left keep alone]
  rfl

/-- The part of a row is told by the hash of its keys, so that rows that match are in parts of the same number. -/
theorem matchPairs_parts {of : BitVec 32 → Nat} {count : Nat} (inside : ∀ row ∈ probe, of (keyHash row.1) < count) :
    ((List.range count).flatMap fun index => matchPairs (part (fun row => of (keyHash row.1)) probe index)
      (part (fun row => of (keyHash row.1)) build index)).Perm (matchPairs probe build) := by
  have parts : ((List.range count).flatMap fun index => joined Prod.fst Prod.fst
      (part (fun row => of (keyHash row.1)) probe index) (part (fun row => of (keyHash row.1)) build index)).Perm
      (joined Prod.fst Prod.fst probe build) :=
    joined_parts inside fun row _ other _ same => by rw [same]
  have pairs := parts.map fun pair => (pair.1.2,pair.2.2)
  rw [List.map_flatMap] at pairs
  exact pairs

end Pairs

/-- A table that answers every probe. -/
structure Tabled (config : Config) (table : BuildStore ι) : Prop where
  heads : ∀ probe values, config.outerKeys.mapM probe = some values → ∃ head,
    findBuildHead config table.nbuckets table probe (keyHash values) = some head ∧
      Chain (· + 1) table.next head (Probing.rowsOf (keysOf config table) table.nrows values)
  unique : table.hasDuplicates = false → ∀ values, (Probing.rowsOf (keysOf config table) table.nrows values).length ≤ 1

section Tables
variable {config : Config} {table : BuildStore ι}

theorem rowsOf_single {κ : Type} [DecidableEq κ] {key : Nat → κ} {count : Nat}
    (apart : ¬ ∃ left right, left < right ∧ right < count ∧ key left = key right) (wanted : κ) :
    (Probing.rowsOf key count wanted).length ≤ 1 := by
  have same : ∀ one ∈ Probing.rowsOf key count wanted, ∀ two ∈ Probing.rowsOf key count wanted, one = two := by
    intro one first two second
    obtain ⟨below,here⟩ := Probing.mem_rowsOf.mp first
    obtain ⟨below',there⟩ := Probing.mem_rowsOf.mp second
    rcases Nat.lt_trichotomy one two with less | equal | more
    · exact absurd ⟨one,two,less,below',here.trans there.symm⟩ apart
    · exact equal
    · exact absurd ⟨two,one,more,below,there.trans here.symm⟩ apart
  have nodup : (Probing.rowsOf key count wanted).Nodup := Probing.rowsOf_nodup wanted
  cases items : Probing.rowsOf key count wanted with
  | nil => exact Nat.zero_le 1
  | cons one others =>
    cases others with
    | nil => exact Nat.le_refl 1
    | cons two rest =>
      rw [items] at same nodup
      have equal := same one (List.mem_cons_self ..) two (List.mem_cons_of_mem _ (List.mem_cons_self ..))
      exact absurd (equal ▸ List.mem_cons_self ..) (List.nodup_cons.mp nodup).1

theorem Linked.tabled {start : BuildStore ι} {nrows : Nat} (linked : Linked config start start.nrows table)
    (sized : start.nbuckets = chooseBucketCount nrows) (room : start.nrows < start.nbuckets)
    (hashed : ∀ row, row < start.nrows → start.hashes row = keyHash (keysOf config start row)) : Tabled config table := by
  have keys : keysOf config table = keysOf config start := linked.same.keysOf config
  have count : table.nrows = start.nrows := congrArg Store.nrows linked.same.rows
  refine ⟨fun probe values given => ?_,fun alone values => ?_⟩
  · obtain ⟨head,found,chain⟩ := findBuildHead_ok nrows linked sized room hashed given
    refine ⟨head,found _ (Nat.le_of_eq linked.same.nbuckets.symm),?_⟩
    rw [keys,count]
    exact chain
  · rw [keys,count]
    exact rowsOf_single (fun twice => by rw [linked.duplicates.mpr twice] at alone; cases alone) values

/-- The table is finished unless its buckets cannot be allocated. -/
theorem finishTable_result {store : BuildStore ι} (keyed : Keyed config store) (few : store.nrows ≤ 2 ^ 30) :
    finishTable config store = .error "invalid memory alloc request size" ∨
      ∃ table, finishTable config store = .ok table ∧ Tabled config table ∧ table.toStore = store.toStore := by
  obtain ⟨table,ran,linked⟩ := linkBuildRows_ok keyed few
  unfold finishTable finishBuildTable
  split
  · exact .inl rfl
  · rw [ran _ (Nat.le_refl _)]
    exact .inr ⟨table,rfl,linked.tabled rfl (chooseBucketCount_room few) keyed.hashed,linked.same.rows⟩

theorem entry_row (store : BuildStore ι) (row : Nat) :
    entry config.innerKeys (store.row config.ninnerColumns row) = (keysOf config store row,store.tags row) := by
  have keys : (config.innerKeys.map fun key => ((store.row config.ninnerColumns row).cell key).value) =
      keysOf config store row := by
    apply List.map_congr_left
    intro key member
    simp [Row.cell,Store.row,Store.cell,List.getD_eq_getElem?_getD,config.innerInside key member]
  rw [entry,keys]
  rfl

/-- What a probe batch finds in a table, given the keys of its rows. -/
def tableContent (config : Config) (table : BuildStore ι) (selection : Selection) (keys : Nat → Option (List Int4))
    (tag : Nat → ι) : Content (ι × ι) where
  selection := selection
  found := fun row => (keys row).elim [] (Probing.rowsOf (keysOf config table) table.nrows)
  next := fun build _ => table.next build
  passes := fun _ => true
  name := fun pair => (tag pair.1,table.tags pair.2)

/-- The rows of a probe batch that have keys. -/
def probeEntries (visits : List Nat) (keys : Nat → Option (List Int4)) (tag : Nat → ι) : List (Entry ι) :=
  visits.filterMap fun row => (keys row).map (·,tag row)

/-- The rows of a table. -/
def tableEntries (config : Config) (table : Columnar.Store ι (BitVec 32) Int4) : List (Entry ι) :=
  (table.rows config.ninnerColumns).map (entry config.innerKeys)

theorem found_perm (table : BuildStore ι) (values : List Int4) (tag : ι) :
    ((Probing.rowsOf (keysOf config table) table.nrows values).map fun row => (tag,table.tags row)).Perm
      (matchPairs [(values,tag)] (tableEntries config table.toStore)) := by
  have entries : tableEntries config table.toStore =
      (List.range table.nrows).map fun row => (keysOf config table row,table.tags row) := by
    rw [tableEntries,Store.rows,List.map_map]
    exact List.map_congr_left fun row _ => entry_row table row
  rw [entries,matchPairs,joined,List.flatMap_singleton,List.filter_map,List.map_map,List.map_map,Probing.rowsOf]
  exact (List.reverse_perm _).map _

/-- The batch contributes its pairs with the rows of the table. -/
theorem tableContent_emits (table : BuildStore ι) (selection : Selection) (keys : Nat → Option (List Int4)) (tag : Nat → ι) :
    (tableContent config table selection keys tag).emits.Perm
      (matchPairs (probeEntries (selection.rowsFrom 0) keys tag) (tableEntries config table.toStore)) := by
  have all : (tableContent config table selection keys tag).emits =
      (tableContent config table selection keys tag).pairs.map (tableContent config table selection keys tag).name :=
    congrArg (List.map _) (List.filter_eq_self.mpr fun _ _ => rfl)
  rw [all]
  change (List.map _ (pairsOf _ (selection.rowsFrom 0))).Perm _
  induction selection.rowsFrom 0 with
  | nil => exact .refl _
  | cons row rest ih =>
    rw [pairsOf_cons,List.map_append,List.map_map]
    cases found : keys row with
    | none =>
      have skipped : probeEntries (row :: rest) keys tag = probeEntries rest keys tag := by
        simp [probeEntries,found]
      simpa [tableContent,found,skipped] using ih
    | some values =>
      have taken : probeEntries (row :: rest) keys tag = [(values,tag row)] ++ probeEntries rest keys tag := by
        simp [probeEntries,found]
      rw [taken,matchPairs_append_left]
      refine List.Perm.append ?_ ih
      simpa [tableContent,found,Function.comp_def] using found_perm table values (tag row)

/-- A source that looks its rows up in a table serves what they find there. -/
theorem Tabled.serves (tabled : Tabled config table) {σ : Type} {probes : Probes σ} {name : σ → Nat × Nat → ι × ι}
    {source : σ} {selection : Selection} {keys : Nat → Option (List Int4)} {tag : Nat → ι}
    (chosen : probes.selection source = selection) (next : probes.next source = fun build _ => table.next build)
    (named : name source = fun pair => (tag pair.1,table.tags pair.2))
    (duplicates : probes.hasDuplicates source = table.hasDuplicates)
    (left : ∀ row ∈ selection.rowsFrom 0, keys row = none → probes.probeHash source row = none)
    (looks : ∀ row ∈ selection.rowsFrom 0, ∀ values, keys row = some values →
      probes.probeHash source row = some (keyHash values) ∧ ∃ probe, config.outerKeys.mapM probe = some values ∧
        probes.findHead source (keyHash values) row =
          (findBuildHead config table.nbuckets table probe (keyHash values)).getD 0) :
    Serves probes name source (tableContent config table selection keys tag) := by
  refine ⟨chosen,next,named,?_,?_,?_⟩
  · intro row member nothing
    cases found : keys row with
    | none => simp [tableContent,found]
    | some values => rw [(looks row member values found).1] at nothing; cases nothing
  · intro row member hash hashed
    cases found : keys row with
    | none => rw [left row member found] at hashed; cases hashed
    | some values =>
      obtain ⟨same,probe,given,head⟩ := looks row member values found
      rw [same] at hashed
      cases hashed
      obtain ⟨link,ends,chain⟩ := tabled.heads probe values given
      rw [head,ends]
      simpa [tableContent,found] using chain
  · intro alone row _
    rw [duplicates] at alone
    cases found : keys row with
    | none => simp [tableContent,found]
    | some values => simpa [tableContent,found] using tabled.unique alone values

end Tables

end PgBatch.HashJoin
