import PgBatch.Library.Chain
import Mathlib.Data.Finset.Card
import Mathlib.Data.Finset.Filter
import Mathlib.Data.Finset.Range
import Mathlib.Order.Nat
import Mathlib.Algebra.Order.Group.Nat
import Mathlib.Data.Nat.Find

/-! Open addressing with linear probing. A slot holds the first link of a chain of
rows with one key; another row with that key is put in front of the chain. -/
namespace Probing
open Chains

/-- Walk to the first slot where the walk stops, at most `fuel` slots far. -/
def probe (step : Nat → Nat) (stop : Nat → Bool) : Nat → Nat → Option Nat
  | 0, _ => none
  | fuel + 1, slot => if stop slot then some slot else probe step stop fuel (step slot)

section Walk
variable {size : Nat} {step : Nat → Nat} {stop stop' : Nat → Bool}

/-- The walk goes round the slots. -/
def Cyclic (size : Nat) (step : Nat → Nat) : Prop :=
  ∀ slot, slot < size → step slot = (slot + 1) % size

theorem probe_reaches (cyclic : Cyclic size step) {start distance fuel : Nat} (inside : start < size)
    (stops : stop ((start + distance) % size) = true)
    (first : ∀ earlier, earlier < distance → stop ((start + earlier) % size) = false) (enough : distance < fuel) :
    probe step stop fuel start = some ((start + distance) % size) := by
  induction distance generalizing start fuel with
  | zero =>
    obtain ⟨more,rfl⟩ := Nat.exists_eq_add_of_lt enough
    rw [Nat.add_zero,Nat.mod_eq_of_lt inside] at stops
    rw [probe,stops,Nat.add_zero,Nat.mod_eq_of_lt inside]
    rfl
  | succ distance ih =>
    obtain ⟨more,rfl⟩ := Nat.exists_eq_add_of_lt enough
    have here := first 0 (Nat.succ_pos _)
    rw [Nat.add_zero,Nat.mod_eq_of_lt inside] at here
    have shifted (further : Nat) : ((start + 1) % size + further) % size = (start + (further + 1)) % size := by
      rw [Nat.mod_add_mod,Nat.add_right_comm,Nat.add_assoc]
    have rest := @ih ((start + 1) % size) (distance + 1 + more)
      (Nat.mod_lt _ (Nat.zero_lt_of_lt inside)) (by rw [shifted]; exact stops)
      (fun earlier before => by rw [shifted]; exact first (earlier + 1) (Nat.succ_lt_succ before)) (by omega)
    rw [shifted] at rest
    rw [probe,here,cyclic start inside]
    exact rest

/-- If the walk can stop somewhere, there is a first place where it does. -/
theorem first_stop {start slot : Nat} (inside : start < size) (bounded : slot < size) (stops : stop slot = true) :
    ∃ distance < size, stop ((start + distance) % size) = true ∧
      ∀ earlier, earlier < distance → stop ((start + earlier) % size) = false := by
  have reach : ∃ distance, distance < size ∧ stop ((start + distance) % size) = true := by
    by_cases behind : start ≤ slot
    · exact ⟨slot - start,by omega,by rwa [Nat.add_sub_cancel' behind,Nat.mod_eq_of_lt bounded]⟩
    · refine ⟨slot + size - start,by omega,?_⟩
      rwa [show start + (slot + size - start) = slot + size by omega,Nat.add_mod_right,Nat.mod_eq_of_lt bounded]
  refine ⟨Nat.find reach,(Nat.find_spec reach).1,(Nat.find_spec reach).2,fun earlier before => ?_⟩
  have least := Nat.find_min reach before
  have := (Nat.find_spec reach).1
  simpa [show earlier < size by omega] using least

theorem probe_congr (cyclic : Cyclic size step) (same : ∀ slot, slot < size → stop slot = stop' slot) {fuel start : Nat}
    (inside : start < size) : probe step stop fuel start = probe step stop' fuel start := by
  induction fuel generalizing start with
  | zero => rfl
  | succ fuel ih =>
    rw [probe,probe,same start inside,cyclic start inside,ih (Nat.mod_lt _ (Nat.zero_lt_of_lt inside))]

end Walk

variable {κ : Type} [DecidableEq κ]

/-- A search for a key ends at its slot or at an empty one. -/
def stopsAt (slots : Nat → Option κ) (key : κ) (slot : Nat) : Bool :=
  match slots slot with
  | none => true
  | some other => decide (other = key)

/-- Every key is found on the way from its home, behind slots that hold other keys. -/
structure Probed (size : Nat) (home : κ → Nat) (slots : Nat → Option κ) : Prop where
  path : ∀ slot key, slot < size → slots slot = some key → ∃ distance < size,
    slot = (home key + distance) % size ∧
      ∀ earlier, earlier < distance → ∃ other ≠ key, slots ((home key + earlier) % size) = some other

section Slots
variable {size : Nat} {home : κ → Nat} {slots : Nat → Option κ}

omit [DecidableEq κ] in
theorem Probed.unique (probed : Probed size home slots) {left right : Nat} {key : κ} (one : left < size)
    (two : right < size) (first : slots left = some key) (second : slots right = some key) : left = right := by
  obtain ⟨here,_,rfl,before⟩ := probed.path left key one first
  obtain ⟨there,_,rfl,before'⟩ := probed.path right key two second
  rcases Nat.lt_trichotomy here there with less | rfl | less
  · obtain ⟨other,apart,held⟩ := before' here less
    rw [held] at first
    exact absurd (Option.some.inj first) apart
  · rfl
  · obtain ⟨other,apart,held⟩ := before there less
    rw [held] at second
    exact absurd (Option.some.inj second) apart

/-- While a slot is empty, the search for a key ends, and the key may be put where it ended. -/
theorem Probed.search (probed : Probed size home slots) {vacant : Nat} (bounded : vacant < size)
    (empty : slots vacant = none) (key : κ) (inside : home key < size) : ∃ slot < size,
    (∀ step, Cyclic size step → ∀ fuel, size ≤ fuel → probe step (stopsAt slots key) fuel (home key) = some slot) ∧
      (slots slot = some key ∨ slots slot = none ∧ ∀ other, other < size → slots other ≠ some key) ∧
      Probed size home (Function.update slots slot (some key)) := by
  have stops : stopsAt slots key vacant = true := by simp [stopsAt,empty]
  obtain ⟨distance,near,ends,first⟩ := first_stop inside bounded stops
  have others : ∀ earlier, earlier < distance → ∃ other ≠ key, slots ((home key + earlier) % size) = some other := by
    intro earlier before
    have goes := first earlier before
    unfold stopsAt at goes
    split at goes
    · cases goes
    · rename_i other held
      exact ⟨other,of_decide_eq_false goes,held⟩
  have positive : 0 < size := Nat.zero_lt_of_lt bounded
  refine ⟨(home key + distance) % size,Nat.mod_lt _ positive,fun step cyclic fuel enough =>
    probe_reaches cyclic inside ends first (by omega),?_,⟨fun slot other small held => ?_⟩⟩
  · unfold stopsAt at ends
    split at ends
    · rename_i free
      refine .inr ⟨free,fun slot small held => ?_⟩
      obtain ⟨far,_,rfl,before⟩ := probed.path slot key small held
      rcases Nat.lt_trichotomy distance far with less | rfl | less
      · obtain ⟨_,_,taken⟩ := before distance less
        rw [free] at taken
        cases taken
      · rw [free] at held
        cases held
      · obtain ⟨other,apart,taken⟩ := others far less
        rw [held] at taken
        exact apart (Option.some.inj taken).symm
    · rename_i other held
      exact .inl (of_decide_eq_true ends ▸ held)
  · by_cases here : slot = (home key + distance) % size
    · subst here
      rw [Function.update_self] at held
      cases held
      refine ⟨distance,near,rfl,fun earlier before => ?_⟩
      obtain ⟨other,apart,taken⟩ := others earlier before
      refine ⟨other,apart,?_⟩
      rw [Function.update_of_ne ?_,taken]
      intro same
      have goes := first earlier before
      rw [same,ends] at goes
      cases goes
    · rw [Function.update_of_ne here] at held
      obtain ⟨far,close,rfl,before⟩ := probed.path slot other small held
      refine ⟨far,close,rfl,fun earlier less => ?_⟩
      obtain ⟨third,apart,taken⟩ := before earlier less
      by_cases same : (home other + earlier) % size = (home key + distance) % size
      · rw [same] at taken ⊢
        rw [stopsAt,taken] at ends
        exact ⟨third,apart,by rw [Function.update_self,of_decide_eq_true ends]⟩
      · exact ⟨third,apart,by rw [Function.update_of_ne same,taken]⟩

/-- The slots in use. -/
def occupied (size : Nat) (slots : Nat → Option κ) : Finset Nat :=
  (Finset.range size).filter fun slot => (slots slot).isSome

omit [DecidableEq κ] in
theorem vacant_of_card (few : (occupied size slots).card < size) : ∃ slot < size, slots slot = none := by
  by_contra full
  push Not at full
  have all : occupied size slots = Finset.range size := by
    apply Finset.filter_true_of_mem
    intro slot member
    exact Option.isSome_iff_ne_none.mpr (full slot (Finset.mem_range.mp member))
  rw [all,Finset.card_range] at few
  exact Nat.lt_irrefl _ few

omit [DecidableEq κ] in
theorem occupied_update (slot : Nat) (key : κ) :
    (occupied size (Function.update slots slot (some key))).card ≤ (occupied size slots).card + 1 := by
  refine Nat.le_trans (Finset.card_le_card (t := insert slot (occupied size slots)) fun other member => ?_)
    (Finset.card_insert_le _ _)
  rw [occupied,Finset.mem_filter] at member
  by_cases same : other = slot
  · exact Finset.mem_insert.mpr (.inl same)
  · rw [Function.update_of_ne same] at member
    exact Finset.mem_insert_of_mem (Finset.mem_filter.mpr member)

end Slots

section Rows
variable {size count : Nat} {home : κ → Nat} {key : Nat → κ} {heads next : Nat → Nat}

/-- The key of a slot is the key of the row that heads its chain. -/
def keyAt (key : Nat → κ) (heads : Nat → Nat) (slot : Nat) : Option κ :=
  if heads slot = 0 then none else some (key (heads slot - 1))

/-- The rows with a key, the last one first. -/
def rowsOf (key : Nat → κ) (count : Nat) (wanted : κ) : List Nat :=
  ((List.range count).filter fun row => decide (key row = wanted)).reverse

theorem mem_rowsOf {wanted : κ} {row : Nat} : row ∈ rowsOf key count wanted ↔ row < count ∧ key row = wanted := by
  simp [rowsOf]

theorem rowsOf_nodup (wanted : κ) : (rowsOf key count wanted).Nodup :=
  List.nodup_reverse.mpr (List.nodup_range.filter _)

theorem rowsOf_succ (wanted : κ) :
    rowsOf key (count + 1) wanted =
      if key count = wanted then count :: rowsOf key count wanted else rowsOf key count wanted := by
  rw [rowsOf,List.range_succ,List.filter_append,List.reverse_append]
  by_cases same : key count = wanted
  · simp [same,rowsOf]
  · simp [same,rowsOf]

/-- The first `count` rows are in the table. -/
structure Indexed (size : Nat) (home : κ → Nat) (key : Nat → κ) (count : Nat) (heads next : Nat → Nat) : Prop where
  probed : Probed size home (keyAt key heads)
  chains : ∀ slot, slot < size → ∀ wanted, keyAt key heads slot = some wanted →
    Chain (· + 1) next (heads slot) (rowsOf key count wanted)
  placed : ∀ row, row < count → ∃ slot < size, keyAt key heads slot = some (key row)
  few : (occupied size (keyAt key heads)).card ≤ count

theorem indexed_empty (size : Nat) (home : κ → Nat) (key : Nat → κ) (next : Nat → Nat) :
    Indexed size home key 0 (fun _ => 0) next where
  probed := ⟨fun _ _ _ held => by simp [keyAt] at held⟩
  chains := fun _ _ _ held => by simp [keyAt] at held
  placed := fun _ impossible => absurd impossible (Nat.not_lt_zero _)
  few := by simp [occupied,keyAt]

/-- A head is one of the rows. -/
theorem Indexed.head (indexed : Indexed size home key count heads next) {slot : Nat} (inside : slot < size)
    (taken : heads slot ≠ 0) : heads slot - 1 < count := by
  have held : keyAt key heads slot = some (key (heads slot - 1)) := if_neg taken
  have chain := indexed.chains slot inside _ held
  generalize heads slot = link at taken chain ⊢
  cases rows : rowsOf key count (key (link - 1)) with
  | nil =>
    rw [rows] at chain
    cases chain
    exact absurd rfl taken
  | cons first rest =>
    have member : first ∈ rowsOf key count (key (link - 1)) := by simp [rows]
    rw [rows] at chain
    cases chain
    exact (mem_rowsOf.mp member).1

/-- The search for a key ends at the chain of its rows. -/
theorem Indexed.find (indexed : Indexed size home key count heads next) (room : count < size) (wanted : κ)
    (inside : home wanted < size) : ∃ slot < size,
    (∀ step, Cyclic size step → ∀ fuel, size ≤ fuel →
      probe step (stopsAt (keyAt key heads) wanted) fuel (home wanted) = some slot) ∧
    Chain (· + 1) next (heads slot) (rowsOf key count wanted) ∧
    Probed size home (Function.update (keyAt key heads) slot (some wanted)) ∧
    ∀ other, other < size → (∃ held, keyAt key heads other = some held ∧ (held = wanted ↔ other = slot)) ∨
      keyAt key heads other = none := by
  obtain ⟨vacant,bounded,empty⟩ := vacant_of_card (Nat.lt_of_le_of_lt indexed.few room)
  obtain ⟨slot,small,ends,result,probed⟩ := indexed.probed.search bounded empty wanted inside
  refine ⟨slot,small,ends,?_,probed,?_⟩
  · rcases result with found | ⟨free,absent⟩
    · exact indexed.chains slot small wanted found
    · have zero : heads slot = 0 := by
        by_contra taken
        simp [keyAt,taken] at free
      have none_ : rowsOf key count wanted = [] := by
        apply List.eq_nil_iff_forall_not_mem.mpr
        intro row member
        obtain ⟨before,same⟩ := mem_rowsOf.mp member
        obtain ⟨other,within,held⟩ := indexed.placed row before
        exact absent other within (same ▸ held)
      rw [zero,none_]
      exact .nil
  · intro other within
    cases held : keyAt key heads other with
    | none => exact .inr rfl
    | some found =>
      refine .inl ⟨found,rfl,?_,?_⟩
      · rintro rfl
        rcases result with here | ⟨_,absent⟩
        · exact indexed.probed.unique within small held here
        · exact absurd held (absent other within)
      · rintro rfl
        rcases result with here | ⟨free,_⟩
        · exact Option.some.inj (held.symm.trans here)
        · rw [held] at free
          cases free

/-- The next row is put where the search for its key ends. -/
theorem Indexed.insert (indexed : Indexed size home key count heads next) (room : count < size)
    (inside : home (key count) < size) : ∃ slot < size,
    (∀ step, Cyclic size step → ∀ fuel, size ≤ fuel →
      probe step (stopsAt (keyAt key heads) (key count)) fuel (home (key count)) = some slot) ∧
    Chain (· + 1) next (heads slot) (rowsOf key count (key count)) ∧
    Indexed size home key (count + 1) (Function.update heads slot (count + 1))
      (Function.update next count (heads slot)) := by
  obtain ⟨slot,small,ends,chain,probed,only⟩ := indexed.find room (key count) inside
  refine ⟨slot,small,ends,chain,?_⟩
  have keys : keyAt key (Function.update heads slot (count + 1)) =
      Function.update (keyAt key heads) slot (some (key count)) := by
    funext other
    by_cases same : other = slot
    · subst same
      simp [keyAt]
    · simp [keyAt,same]
  have kept {link : Nat} {wanted : κ} (old : Chain (· + 1) next link (rowsOf key count wanted)) :
      Chain (· + 1) (Function.update next count (heads slot)) link (rowsOf key count wanted) := by
    refine old.congr fun row member => ?_
    have before := (mem_rowsOf.mp member).1
    exact Function.update_of_ne (Nat.ne_of_lt before) ..
  constructor
  · rw [keys]
    exact probed
  · intro other within wanted held
    rw [keys] at held
    by_cases same : other = slot
    · subst same
      rw [Function.update_self] at held ⊢
      cases held
      rw [rowsOf_succ,if_pos rfl]
      refine .cons count _ ?_
      rw [Function.update_self]
      exact kept chain
    · rw [Function.update_of_ne same] at held ⊢
      have apart : key count ≠ wanted := by
        rintro rfl
        rcases only other within with ⟨found,found_,here⟩ | none_
        · exact same (here.mp (Option.some.inj (found_.symm.trans held)))
        · rw [held] at none_
          cases none_
      rw [rowsOf_succ,if_neg apart]
      exact kept (indexed.chains other within wanted held)
  · intro row before
    rw [keys]
    by_cases last : row = count
    · subst last
      exact ⟨slot,small,Function.update_self ..⟩
    · obtain ⟨other,within,held⟩ := indexed.placed row (by omega)
      by_cases same : other = slot
      · rcases only other within with ⟨found,found_,here⟩ | none_
        · have mine : key row = key count := (Option.some.inj (held.symm.trans found_)).trans (here.mpr same)
          exact ⟨slot,small,by rw [Function.update_self,mine]⟩
        · rw [held] at none_
          cases none_
      · exact ⟨other,within,by rw [Function.update_of_ne same,held]⟩
  · rw [keys]
    exact Nat.le_trans (occupied_update slot (key count)) (Nat.succ_le_succ indexed.few)

end Rows

end Probing
