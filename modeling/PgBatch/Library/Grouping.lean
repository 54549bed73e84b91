import PgBatch.Library.Result
import Mathlib.Data.List.Dedup
import Mathlib.Data.List.Perm.Basic
import Mathlib.Data.List.Perm.Subperm
import Mathlib.Data.List.Nodup

/-! Grouping rows by a key.
A table of one accumulator a key is filled row by row; rows may also be split
into parts first, as long as no key is in two parts. Neither the order of a
table's entries nor that of the groups matters. -/
namespace Grouping

section Groups
variable {κ ρ : Type} [DecidableEq κ] (key : ρ → κ)

/-- The rows of one key, in their own order. -/
def group (rows : List ρ) (k : κ) : List ρ :=
  rows.filter fun row => decide (key row = k)

/-- Every key that occurs, once, with its rows. -/
def groups (rows : List ρ) : List (κ × List ρ) :=
  (rows.map key).dedup.map fun k => (k,group key rows k)

variable {key}

@[simp] theorem group_nil (k : κ) : group key [] k = [] := rfl

@[simp] theorem group_append (left right : List ρ) (k : κ) :
    group key (left ++ right) k = group key left k ++ group key right k :=
  List.filter_append ..

theorem group_single (row : ρ) (k : κ) : group key [row] k = if key row = k then [row] else [] := by
  simp [group,List.filter_cons]

theorem group_eq_nil {rows : List ρ} {k : κ} : group key rows k = [] ↔ k ∉ rows.map key := by
  simp only [group,List.filter_eq_nil_iff,decide_eq_true_eq,List.mem_map,not_exists,not_and]

theorem group_initial {start rows : List ρ} (first : start <+: rows) (k : κ) :
    group key start k <+: group key rows k := by
  obtain ⟨rest,rfl⟩ := first
  exact ⟨_,(group_append start rest k).symm⟩

theorem mem_groups {rows : List ρ} {k : κ} {members : List ρ} :
    (k,members) ∈ groups key rows ↔ members = group key rows k ∧ members ≠ [] := by
  simp only [groups,List.mem_map,List.mem_dedup,Prod.mk.injEq]
  constructor
  · rintro ⟨k,present,rfl,rfl⟩
    exact ⟨rfl,fun none => group_eq_nil.mp none (List.mem_map.mpr present)⟩
  · rintro ⟨rfl,some⟩
    refine ⟨k,?_,rfl,rfl⟩
    rw [← List.mem_map]
    by_contra absent
    exact some (group_eq_nil.mpr absent)

theorem groups_nodup (rows : List ρ) : (groups key rows).Nodup :=
  (List.nodup_dedup _).map fun _ _ same => (Prod.mk.inj same).1

/-- Renaming the keys renames the groups. -/
theorem group_comp {κ' : Type} [DecidableEq κ'] {rename : κ → κ'} (injective : Function.Injective rename)
    (rows : List ρ) (k : κ) : group (fun row => rename (key row)) rows (rename k) = group key rows k := by
  apply List.filter_congr
  intro row _
  rw [decide_eq_decide]
  exact injective.eq_iff

theorem groups_comp {κ' : Type} [DecidableEq κ'] {rename : κ → κ'} (injective : Function.Injective rename)
    (rows : List ρ) : groups (fun row => rename (key row)) rows =
      (groups key rows).map fun entry => (rename entry.1,entry.2) := by
  have keys : (rows.map fun row => rename (key row)) = (rows.map key).map rename := by rw [List.map_map]; rfl
  rw [groups,groups,keys,List.dedup_map_of_injective injective,List.map_map,List.map_map]
  apply List.map_congr_left
  intro k _
  simp only [Function.comp,group_comp injective]

/-- Rows may be grouped part by part when every key has its rows in one part. -/
theorem groups_split (key : ρ → κ) (whole : List ρ) (parts : List (List ρ))
    (apart : parts.Pairwise fun left right => ∀ k ∈ left.map key, k ∉ right.map key)
    (same : ∀ k, group key whole k = parts.flatMap fun part => group key part k) :
    (groups key whole).Perm (parts.flatMap (groups key)) := by
  -- In the parts, the rows of a key are those of the only part that has any.
  have only {part : List ρ} (member : part ∈ parts) {k : κ} (present : k ∈ part.map key) :
      group key whole k = group key part k := by
    rw [same]
    clear same
    induction parts with
    | nil => cases member
    | cons first rest ih =>
      obtain ⟨head,tail⟩ := List.pairwise_cons.mp apart
      rw [List.flatMap_cons]
      rcases List.mem_cons.mp member with rfl | later
      · have none : (rest.flatMap fun part => group key part k) = [] := by
          rw [List.flatMap_eq_nil_iff]
          exact fun other inside => group_eq_nil.mpr (head other inside k present)
        rw [none,List.append_nil]
      · have none : group key first k = [] :=
          group_eq_nil.mpr fun early => head part later k early present
        rw [none,List.nil_append,ih tail later]
  apply (List.perm_ext_iff_of_nodup (groups_nodup whole) ?_).mpr
  · rintro ⟨k,members⟩
    simp only [List.mem_flatMap,mem_groups]
    constructor
    · rintro ⟨rfl,some⟩
      have found : k ∈ whole.map key := by
        by_contra absent
        exact some (group_eq_nil.mpr absent)
      obtain ⟨part,member,inside⟩ : ∃ part ∈ parts, group key part k ≠ [] := by
        by_contra none
        push Not at none
        rw [same,List.flatMap_eq_nil_iff.mpr none] at some
        exact some rfl
      have present : k ∈ part.map key := by
        by_contra absent
        exact inside (group_eq_nil.mpr absent)
      exact ⟨part,member,only member present,some⟩
    · rintro ⟨part,member,rfl,some⟩
      have present : k ∈ part.map key := by
        by_contra absent
        exact some (group_eq_nil.mpr absent)
      exact ⟨(only member present).symm,some⟩
  · rw [List.nodup_flatMap]
    refine ⟨fun part _ => groups_nodup part,apart.imp ?_⟩
    rintro left right disjoint ⟨k,members⟩ first second
    obtain ⟨rfl,some⟩ := mem_groups.mp first
    obtain ⟨same,_⟩ := mem_groups.mp second
    have present : k ∈ left.map key := by
      by_contra absent
      exact some (group_eq_nil.mpr absent)
    rw [same] at some
    exact some (group_eq_nil.mpr (disjoint k present))

/-- A part that is chosen by key has the whole group of a key or nothing of it. -/
theorem group_filter {whole : List ρ} (keep : ρ → Bool)
    (decides : ∀ left ∈ whole, ∀ right ∈ whole, key left = key right → keep left = keep right) (k : κ) :
    group key (whole.filter keep) k = group key whole k ∨ group key (whole.filter keep) k = [] := by
  by_cases kept : ∃ row ∈ whole, key row = k ∧ keep row = true
  · obtain ⟨first,member,here,kept⟩ := kept
    left
    simp only [group,List.filter_filter]
    apply List.filter_congr
    intro row inside
    by_cases this : key row = k
    · simp [this,decides row inside first member (this.trans here.symm),kept]
    · simp [this]
  · right
    rw [group_eq_nil]
    intro present
    obtain ⟨row,member,here⟩ := List.mem_map.mp present
    obtain ⟨member,keeps⟩ := List.mem_filter.mp member
    exact kept ⟨row,member,here,keeps⟩

private theorem flatMap_range_eq (members : List ρ) (part count : Nat) :
    (List.range count).flatMap (fun index => if part = index then members else []) =
      if part < count then members else [] := by
  induction count with
  | zero => rfl
  | succ count ih =>
    rw [List.range_succ,List.flatMap_append,List.flatMap_singleton,ih]
    rcases Nat.lt_trichotomy part count with less | rfl | more
    · rw [if_pos less,if_neg (by omega),if_pos (by omega),List.append_nil]
    · rw [if_neg (by omega),if_pos rfl,if_pos (by omega),List.nil_append]
    · rw [if_neg (by omega),if_neg (by omega),if_neg (by omega),List.nil_append]

/-- Rows split by a value that their key decides. -/
theorem groups_partition (key : ρ → κ) (whole : List ρ) (part : ρ → Nat) (count : Nat)
    (inside : ∀ row ∈ whole, part row < count)
    (decides : ∀ left ∈ whole, ∀ right ∈ whole, key left = key right → part left = part right) :
    (groups key whole).Perm ((List.range count).flatMap fun index =>
      groups key (whole.filter fun row => decide (part row = index))) := by
  have split := groups_split key whole
    ((List.range count).map fun index => whole.filter fun row => decide (part row = index)) ?_ ?_
  · rwa [List.flatMap_map] at split
  · rw [List.pairwise_map]
    refine List.pairwise_lt_range.imp ?_
    intro left right less k first second
    obtain ⟨one,early,rfl⟩ := List.mem_map.mp first
    obtain ⟨two,late,same⟩ := List.mem_map.mp second
    obtain ⟨early,here⟩ := List.mem_filter.mp early
    obtain ⟨late,there⟩ := List.mem_filter.mp late
    have := decides two late one early same
    simp only [decide_eq_true_eq] at here there
    omega
  · intro k
    rw [List.flatMap_map]
    cases cells : group key whole k with
    | nil =>
      symm
      rw [List.flatMap_eq_nil_iff]
      intro index _
      rw [group_eq_nil] at cells ⊢
      exact fun present => cells (List.map_subset _ (List.filter_subset_self _) present)
    | cons first rest =>
      -- The whole group lies in the part of its first row.
      have member : first ∈ group key whole k := by simp [cells]
      obtain ⟨present,here⟩ := List.mem_filter.mp member
      simp only [decide_eq_true_eq] at here
      have each (index : Nat) : group key (whole.filter fun row => decide (part row = index)) k =
          if part first = index then group key whole k else [] := by
        split
        · rename_i same
          simp only [group,List.filter_filter]
          apply List.filter_congr
          intro row inside
          by_cases this : key row = k
          · simp [this,← same,decides row inside first present (this.trans here.symm)]
          · simp [this]
        · rename_i other
          rw [group,List.filter_filter,List.filter_eq_nil_iff]
          intro row inside
          simp only [Bool.and_eq_true,decide_eq_true_eq,not_and]
          intro this there
          exact other ((decides row inside first present (this.trans here.symm)).symm.trans there)
      simp only [each]
      rw [flatMap_range_eq,if_pos (inside first present),cells]

end Groups

section Table
variable {κ ρ σ : Type} [DecidableEq κ]

/-- The accumulator of a key, if the table has the key. -/
def find (table : List (κ × σ)) (k : κ) : Option σ :=
  table.lookup k

/-- Run the accumulator of a key one step on. -/
def advance (step : σ → Except String σ) (k : κ) : List (κ × σ) → Except String (List (κ × σ))
  | [] => .ok []
  | (other,value) :: rest =>
    if other = k then do
      let value ← step value
      .ok ((other,value) :: rest)
    else do
      let rest ← advance step k rest
      .ok ((other,value) :: rest)

/-- The table holds, for exactly the keys of `rows`, the summary of their rows. -/
structure Tabulates (key : ρ → κ) (summary : List ρ → σ) (table : List (κ × σ)) (rows : List ρ) : Prop where
  nodup : (table.map Prod.fst).Nodup
  entries : ∀ k value, (k,value) ∈ table ↔ k ∈ rows.map key ∧ value = summary (group key rows k)

variable {key : ρ → κ} {summary : List ρ → σ} {table : List (κ × σ)} {rows : List ρ}

theorem tabulates_nil : Tabulates key summary [] [] :=
  ⟨List.nodup_nil,by simp⟩

theorem find_eq_some (nodup : (table.map Prod.fst).Nodup) {k : κ} {value : σ} :
    find table k = some value ↔ (k,value) ∈ table := by
  induction table with
  | nil => simp [find]
  | cons entry rest ih =>
    obtain ⟨other,held⟩ := entry
    obtain ⟨fresh,tail⟩ := List.nodup_cons.mp nodup
    by_cases same : k = other
    · subst same
      have absent : (k,value) ∉ rest := fun member => fresh (List.mem_map.mpr ⟨_,member,rfl⟩)
      simp [find,absent,eq_comm]
    · have other' : (k == other) = false := by simpa using same
      simp only [find,List.lookup_cons,other',List.mem_cons,Prod.mk.injEq,same,false_and,false_or]
      exact ih tail

theorem Tabulates.find (tabulates : Tabulates key summary table rows) (k : κ) :
    find table k = if k ∈ rows.map key then some (summary (group key rows k)) else none := by
  split
  · rename_i present
    exact (find_eq_some tabulates.nodup).mpr ((tabulates.entries _ _).mpr ⟨present,rfl⟩)
  · rename_i absent
    rw [Option.eq_none_iff_forall_ne_some]
    intro value found
    exact absent ((tabulates.entries _ _).mp ((find_eq_some tabulates.nodup).mp found)).1

theorem Tabulates.mem_keys (tabulates : Tabulates key summary table rows) {k : κ} :
    k ∈ table.map Prod.fst ↔ k ∈ rows.map key := by
  rw [List.mem_map]
  constructor
  · rintro ⟨⟨_,value⟩,member,rfl⟩
    exact ((tabulates.entries _ _).mp member).1
  · intro present
    exact ⟨_,(tabulates.entries _ _).mpr ⟨present,rfl⟩,rfl⟩

private theorem advance_spec {step : σ → Except String σ} {k : κ} {value next : σ}
    (nodup : (table.map Prod.fst).Nodup) (member : (k,value) ∈ table) (ran : step value = .ok next) :
    ∃ after, advance step k table = .ok after ∧ after.map Prod.fst = table.map Prod.fst ∧
      ∀ other held, (other,held) ∈ after ↔
        (other = k ∧ held = next) ∨ (other ≠ k ∧ (other,held) ∈ table) := by
  induction table with
  | nil => cases member
  | cons entry rest ih =>
    obtain ⟨first,held⟩ := entry
    obtain ⟨fresh,tail⟩ := List.nodup_cons.mp nodup
    by_cases same : first = k
    · subst same
      have held' : held = value := by
        rcases List.mem_cons.mp member with this | later
        · exact (Prod.mk.inj this).2.symm
        · exact absurd (List.mem_map.mpr ⟨_,later,rfl⟩) fresh
      subst held'
      refine ⟨(first,next) :: rest,by simp [advance,ran]; rfl,rfl,?_⟩
      intro other value
      by_cases this : other = first
      · subst this
        have absent : (other,value) ∉ rest := fun member => fresh (List.mem_map.mpr ⟨_,member,rfl⟩)
        simp [absent]
      · simp [this]
    · have later : (k,value) ∈ rest := by
        rcases List.mem_cons.mp member with this | later
        · exact absurd (Prod.mk.inj this).1.symm same
        · exact later
      obtain ⟨after,ran',names,entries⟩ := ih tail later
      refine ⟨(first,held) :: after,by simp [advance,same,ran']; rfl,by simp [names],?_⟩
      intro other value
      rw [List.mem_cons,List.mem_cons,entries,Prod.mk.injEq]
      by_cases this : other = first
      · subst this
        simp [same]
      · simp [this]

/-- One more row of a key that the table has. -/
theorem Tabulates.advance {step : σ → Except String σ} {row : ρ} (tabulates : Tabulates key summary table rows)
    (present : key row ∈ rows.map key)
    (ran : step (summary (group key rows (key row))) = .ok (summary (group key rows (key row) ++ [row]))) :
    ∃ after, advance step (key row) table = .ok after ∧ after.length = table.length ∧
      Tabulates key summary after (rows ++ [row]) := by
  obtain ⟨after,ran',names,entries⟩ :=
    advance_spec tabulates.nodup ((tabulates.entries _ _).mpr ⟨present,rfl⟩) ran
  refine ⟨after,ran',by simpa using congrArg List.length names,names ▸ tabulates.nodup,?_⟩
  intro k value
  rw [entries,tabulates.entries,group_append,group_single,List.map_append,List.mem_append]
  by_cases this : k = key row
  · subst this
    simp only [ne_eq,not_true_eq_false,false_and,or_false,true_and,if_true,present,true_or]
  · simp only [this,false_and,false_or,ne_eq,not_false_eq_true,true_and,Ne.symm this,if_false,List.append_nil,
      List.map_cons,List.map_nil,List.mem_singleton,or_false]

/-- The first row of a key that the table does not have. -/
theorem Tabulates.enter {step : σ → Except String σ} {row : ρ} (tabulates : Tabulates key summary table rows)
    (absent : key row ∉ rows.map key) (ran : step (summary []) = .ok (summary [row])) :
    ∃ after, Grouping.advance step (key row) (table ++ [(key row,summary [])]) = .ok after ∧
      after.length = table.length + 1 ∧ Tabulates key summary after (rows ++ [row]) := by
  have nodup : ((table ++ [(key row,summary [])]).map Prod.fst).Nodup := by
    rw [List.map_append,List.nodup_append]
    refine ⟨tabulates.nodup,by simp,?_⟩
    intro k member other single
    rw [List.map_cons,List.map_nil,List.mem_singleton] at single
    subst single
    rintro rfl
    exact absent (tabulates.mem_keys.mp member)
  obtain ⟨after,ran',names,entries⟩ := advance_spec nodup (List.mem_append_right _ (List.mem_singleton.mpr rfl)) ran
  refine ⟨after,ran',by simpa using congrArg List.length names,names ▸ nodup,?_⟩
  intro k value
  rw [entries,List.mem_append,tabulates.entries,group_append,group_single,List.map_append,List.mem_append]
  by_cases this : k = key row
  · subst this
    have none : group key rows (key row) = [] := group_eq_nil.mpr absent
    simp [none]
  · simp [this,Ne.symm this]

/-- Whatever order a full table is read in, it lists the groups of its rows. -/
theorem Tabulates.perm (tabulates : Tabulates key summary table rows) :
    table.Perm ((groups key rows).map fun entry => (entry.1,summary entry.2)) := by
  apply (List.perm_ext_iff_of_nodup tabulates.nodup.of_map ?_).mpr
  · rintro ⟨k,value⟩
    rw [tabulates.entries]
    simp only [groups,List.map_map,List.mem_map (f := (_ : κ → κ × σ)),List.mem_dedup,Function.comp,Prod.mk.injEq]
    constructor
    · rintro ⟨present,rfl⟩
      exact ⟨k,present,rfl,rfl⟩
    · rintro ⟨k,present,rfl,rfl⟩
      exact ⟨present,rfl⟩
  · rw [groups,List.map_map]
    exact (List.nodup_dedup _).map fun _ _ same => (Prod.mk.inj same).1

end Table

end Grouping
