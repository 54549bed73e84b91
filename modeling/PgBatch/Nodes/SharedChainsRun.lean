import PgBatch.Nodes.SharedChains
import Mathlib.Algebra.Order.BigOperators.Group.List
import Mathlib.Algebra.Order.Ring.Nat

/-! What linking leaves behind, for every interleaving of the participants' steps:
the chain of a bucket is the rows of the bucket that were swapped in, the last one
first, and a row's search for duplicates meets all that were swapped in before it. -/
namespace PgBatch.SharedChains
open Parallel Chains
variable {τ ι : Type} [Inhabited τ]

section Rows
variable {table : Table τ} {left right place : Nat × Nat}

theorem Table.chunk_mem {index : Nat} (inside : index < table.chunks.length) : table.chunk index ∈ table.chunks := by
  rw [Table.chunk,List.getD_eq_getElem _ _ inside]
  exact List.getElem_mem inside

omit [Inhabited τ] in
/-- The row numbers fit a `uint32`. -/
theorem Table.addressed (table : Table τ) : chunkRows * table.chunks.length < 2 ^ 32 := by
  have rows : (table.chunks.map (·.nrows)).sum ≤ table.chunks.length * chunkRows := by
    have bound := List.sum_le_card_nsmul (table.chunks.map (·.nrows)) chunkRows (by
      intro nrows member
      obtain ⟨chunk,inside,rfl⟩ := List.mem_map.mp member
      exact table.sized chunk inside)
    simpa using bound
  have directory := table.directory
  have buckets := table.buckets
  have full := table.full
  have few := table.few
  have count := chooseBucketCount_spec (table.chunks.map (·.nrows)).sum
  simp only [maxAllocSize,maxBackends,chunkRows] at *
  omega

theorem Table.Holds.small (holds : table.Holds place) : place.2 < chunkRows :=
  Nat.lt_of_lt_of_le holds.2 (table.sized _ (Table.chunk_mem holds.1))

theorem Table.Holds.code (holds : table.Holds place) : Table.code place = chunkRows * place.1 + place.2 + 1 := by
  have addressed := table.addressed
  have small := holds.small
  have inside := holds.1
  have below : chunkRows * place.1 + chunkRows ≤ chunkRows * table.chunks.length := by
    rw [← Nat.mul_succ]
    exact Nat.mul_le_mul_left _ inside
  unfold Table.code rowId
  rw [Nat.mul_comm place.1,Nat.mod_eq_of_lt (by omega),Nat.mod_eq_of_lt (by omega)]

theorem Table.Holds.coded (holds : table.Holds place) :
    Table.code place ≠ 0 ∧ table.rowChunk (Table.code place - 1) = .ok place := by
  have small := holds.small
  have inside := holds.1
  rw [holds.code]
  refine ⟨by omega,?_⟩
  have chunk : (chunkRows * place.1 + place.2 + 1 - 1) / chunkRows = place.1 := by
    rw [Nat.add_sub_cancel,Nat.mul_add_div (by decide),Nat.div_eq_of_lt small,Nat.add_zero]
  have row : (chunkRows * place.1 + place.2 + 1 - 1) % chunkRows = place.2 := by
    rw [Nat.add_sub_cancel,Nat.mul_add_mod,Nat.mod_eq_of_lt small]
  rw [Table.rowChunk,chunk,row,if_neg (by omega)]

theorem Table.Holds.hash (holds : table.Holds place) : table.hash place = keyHash (table.keys place) :=
  table.hashed _ (Table.chunk_mem holds.1) _ holds.2

/-- Key tuples with one hash that agree before the last key are equal. -/
theorem keys_eq {init : List Nat} {last : Nat} {one two : Nat → Int4}
    (same : keyHash ((init ++ [last]).map one) = keyHash ((init ++ [last]).map two))
    (agree : ∀ key ∈ init, one key = two key) : (init ++ [last]).map one = (init ++ [last]).map two := by
  have first : init.map one = init.map two := List.map_congr_left agree
  simp only [List.map_append,List.map_cons,List.map_nil,first] at same ⊢
  rw [keyHash_last same]

theorem duplicate_iff (one : table.Holds left) (two : table.Holds right) :
    table.duplicate left right = true ↔ table.keys left = table.keys right := by
  have hashes := one.hash
  have hashes' := two.hash
  obtain ⟨init,last,keyed⟩ := List.eq_nil_or_concat' table.config.innerKeys |>.resolve_left table.config.keyed
  simp only [Table.hash,Table.keys,keyed] at hashes hashes'
  simp only [Table.duplicate,sameKeyPrefix,Table.keys,keyed,List.dropLast_concat,Bool.and_eq_true,beq_iff_eq,
    List.all_eq_true]
  constructor
  · rintro ⟨same,agree⟩
    exact keys_eq (hashes.symm.trans (same.trans hashes')) agree
  · intro same
    refine ⟨hashes.trans (Eq.trans (congrArg keyHash same) hashes'.symm),?_⟩
    intro key member
    rw [List.map_append,List.map_append] at same
    have first := List.append_inj_left same (by simp)
    exact List.map_inj_left.mp first key member

end Rows

def Table.inBucket (table : Table τ) (bucket : Nat) (places : List (Nat × Nat)) : List (Nat × Nat) :=
  places.filter fun place => table.bucket (table.hash place) == bucket

/-- A search for a duplicate of a row has met no row with its keys before `link`, and
will meet all the others that were swapped in before it. -/
def Walks (table : Table τ) (shared : Shared) (place : Nat × Nat) (link : Nat) : Prop :=
  ∃ later before passed rest, shared.pushed = later ++ place :: before ∧
    table.inBucket (table.bucket (table.hash place)) before = passed ++ rest ∧
    Chain Table.code shared.links link rest ∧ ∀ other ∈ passed, table.keys other ≠ table.keys place

/-- What a participant relies on where it stands. -/
def Fits (table : Table τ) (shared : Shared) : Pc → Prop
  | .claim | .done => True
  | .row index count =>
    index < shared.nextChunk ∧ index < table.chunks.length ∧ count ≤ (table.chunk index).nrows
  | .store index row _ => index < shared.nextChunk ∧ table.Holds (index,row)
  | .swap index row head => index < shared.nextChunk ∧ table.Holds (index,row) ∧ shared.links (index,row) = head
  | .inspect index row => index < shared.nextChunk ∧ table.Holds (index,row) ∧ (index,row) ∈ shared.pushed
  | .detect index row link => index < shared.nextChunk ∧ table.Holds (index,row) ∧ Walks table shared (index,row) link
  | .stuck _ => False

/-- The row whose duplicates a participant is looking for. -/
def Pc.checking : Pc → Option (Nat × Nat)
  | .inspect index last | .detect index last _ => some (index,last)
  | .claim | .row _ _ | .store _ _ _ | .swap _ _ _ | .done | .stuck _ => none

structure Invariant (table : Table τ) (state : State ι) : Prop where
  chains : ∀ bucket, Chain Table.code state.shared.links (state.shared.heads bucket)
    (table.inBucket bucket state.shared.pushed)
  distinct : state.shared.pushed.Nodup
  linked : ∀ place, place ∈ state.shared.pushed ↔ table.Holds place ∧ place.1 < state.shared.nextChunk ∧
    ∀ id count, (state.pcs id).place = some (place.1,count) → place.2 < count
  apart : ∀ id other index count count', (state.pcs id).place = some (index,count) →
    (state.pcs other).place = some (index,count') → id = other
  fits : ∀ id, Fits table state.shared (state.pcs id)
  sound : state.shared.hasDuplicates = true → ∃ left right, left ∈ state.shared.pushed ∧ right ∈ state.shared.pushed ∧
    left ≠ right ∧ table.keys left = table.keys right
  settled : state.shared.hasDuplicates = true ∨ ∀ later place before,
    state.shared.pushed = later ++ place :: before → (∀ id, (state.pcs id).checking ≠ some place) →
    ∀ other ∈ before, table.keys other ≠ table.keys place

/-- What a step of a participant at work on chunk `own` does to the shared memory. -/
structure Grows (own : Option Nat) (before after : Shared) : Prop where
  next : before.nextChunk ≤ after.nextChunk
  pushed : before.pushed <:+ after.pushed
  links : ∀ place, after.links place = before.links place ∨ place ∉ before.pushed ∧ own = some place.1

theorem Grows.refl (shared : Shared) : Grows none shared shared :=
  ⟨Nat.le_refl _,List.suffix_refl _,fun _ => .inl rfl⟩

theorem Walks.grow {table : Table τ} {own : Option Nat} {before after : Shared} {place : Nat × Nat} {link : Nat}
    (grows : Grows own before after) (walks : Walks table before place link) : Walks table after place link := by
  obtain ⟨later,earlier,passed,rest,pushed,split,chain,unequal⟩ := walks
  obtain ⟨more,grown⟩ := grows.pushed
  refine ⟨more ++ later,earlier,passed,rest,?_,split,chain.congr ?_,unequal⟩
  · rw [← grown,pushed,List.append_assoc]
  · intro node member
    refine (grows.links node).resolve_right fun ⟨absent,_⟩ => absent ?_
    have within : node ∈ table.inBucket (table.bucket (table.hash place)) earlier := by
      rw [split]
      exact List.mem_append_right _ member
    rw [pushed]
    exact List.mem_append_right _ (List.mem_cons_of_mem _ (List.mem_filter.mp within).1)

/-- A step of another participant takes nothing away. -/
theorem Fits.grow {table : Table τ} {own : Option Nat} {before after : Shared} {pc : Pc} (grows : Grows own before after)
    (apart : ∀ index count, pc.place = some (index,count) → own ≠ some index) (fits : Fits table before pc) :
    Fits table after pc := by
  have next := grows.next
  cases pc with
  | claim => trivial
  | done => trivial
  | stuck message => exact fits
  | row index count => exact ⟨Nat.lt_of_lt_of_le fits.1 next,fits.2⟩
  | store index row head => exact ⟨Nat.lt_of_lt_of_le fits.1 next,fits.2⟩
  | swap index row head =>
    refine ⟨Nat.lt_of_lt_of_le fits.1 next,fits.2.1,?_⟩
    rw [(grows.links (index,row)).resolve_right fun ⟨_,mine⟩ => apart index row rfl mine]
    exact fits.2.2
  | inspect index row => exact ⟨Nat.lt_of_lt_of_le fits.1 next,fits.2.1,grows.pushed.subset fits.2.2⟩
  | detect index row link => exact ⟨Nat.lt_of_lt_of_le fits.1 next,fits.2.1,fits.2.2.grow grows⟩

section Step
variable [DecidableEq ι] {table : Table τ} {state : State ι} {id : ι} {pc : Pc}

theorem place_update (same : pc.place = (state.pcs id).place) (other : ι) :
    (Function.update state.pcs id pc other).place = (state.pcs other).place := by
  by_cases here : other = id
  · rw [here,Function.update_self,same]
  · rw [Function.update_of_ne here]

/-- The other participants fit still, when the chunk at work is nobody else's. -/
theorem Invariant.others (invariant : Invariant table state) {shared : Shared} {own : Option Nat}
    (grows : Grows own state.shared shared)
    (mine : ∀ other index count, other ≠ id → (state.pcs other).place = some (index,count) → own ≠ some index)
    (fits : Fits table shared pc) (other : ι) : Fits table shared (Function.update state.pcs id pc other) := by
  by_cases here : other = id
  · rw [here,Function.update_self]
    exact fits
  · rw [Function.update_of_ne here]
    exact (invariant.fits other).grow grows fun index count place => mine other index count here place

theorem unchecked_update {place : Nat × Nat}
    (unchecked : ∀ holder, (Function.update state.pcs id pc holder).checking ≠ some place) :
    (∀ holder, holder ≠ id → (state.pcs holder).checking ≠ some place) ∧ pc.checking ≠ some place := by
  refine ⟨fun holder here => ?_,?_⟩
  · have still := unchecked holder
    rwa [Function.update_of_ne here] at still
  · have own := unchecked id
    rwa [Function.update_self] at own

/-- A participant moves on, in its place and without a store. -/
theorem Invariant.quiet (invariant : Invariant table state) (place : pc.place = (state.pcs id).place)
    (fits : Fits table state.shared pc)
    (settles : ∀ place, (state.pcs id).checking = some place → pc.checking ≠ some place →
      state.shared.hasDuplicates = true ∨ ∀ later before, state.shared.pushed = later ++ place :: before →
        ∀ other ∈ before, table.keys other ≠ table.keys place) :
    Invariant table ⟨state.shared,Function.update state.pcs id pc⟩ where
  chains := invariant.chains
  distinct := invariant.distinct
  linked := by
    intro place_
    simp only [place_update place]
    exact invariant.linked place_
  apart := by
    simp only [place_update place]
    exact invariant.apart
  fits := invariant.others (Grows.refl state.shared) (fun _ _ _ _ _ => nofun) fits
  sound := invariant.sound
  settled := by
    rcases invariant.settled with found | settled
    · exact .inl found
    · by_cases checked : ∃ place, (state.pcs id).checking = some place ∧ pc.checking ≠ some place
      · obtain ⟨place,checks,leaves⟩ := checked
        refine (settles place checks leaves).imp_right fun own later other before pushed unchecked => ?_
        by_cases same : other = place
        · subst same
          exact own later before pushed
        · refine settled later other before pushed fun holder checks' => ?_
          by_cases here : holder = id
          · subst here
            exact same (Option.some.inj (checks'.symm.trans checks))
          · exact (unchecked_update unchecked).1 holder here checks'
      · refine .inr fun later other before pushed unchecked => settled later other before pushed fun holder checks => ?_
        by_cases here : holder = id
        · subst here
          exact checked ⟨other,checks,(unchecked_update unchecked).2⟩
        · exact (unchecked_update unchecked).1 holder here checks

/-- The first step of a row: the participant's own link. -/
theorem Invariant.store (invariant : Invariant table state) {index row head : Nat}
    (pc : state.pcs id = .store index row head) :
    Invariant table ⟨{state.shared with links := Function.update state.shared.links (index,row) head},
      Function.update state.pcs id (.swap index row head)⟩ := by
  have fits := invariant.fits id
  rw [pc] at fits
  have place : (Pc.swap index row head).place = (state.pcs id).place := by
    rw [pc]
    rfl
  have absent : (index,row) ∉ state.shared.pushed := fun member =>
    Nat.lt_irrefl row (((invariant.linked _).mp member).2.2 id row (by rw [pc]; rfl))
  have grows : Grows (some index) state.shared
      {state.shared with links := Function.update state.shared.links (index,row) head} := by
    refine ⟨Nat.le_refl _,List.suffix_refl _,fun node => ?_⟩
    by_cases here : node = (index,row)
    · subst here
      exact .inr ⟨absent,rfl⟩
    · exact .inl (Function.update_of_ne here ..)
  refine ⟨fun bucket => (invariant.chains bucket).congr ?_,invariant.distinct,?_,?_,?_,invariant.sound,?_⟩
  · intro node member
    refine Function.update_of_ne (fun same => absent ?_) ..
    exact same ▸ (List.mem_filter.mp member).1
  · intro other
    simp only [place_update place]
    exact invariant.linked other
  · simp only [place_update place]
    exact invariant.apart
  · refine invariant.others grows (fun other index' count here place' same => ?_)
      ⟨fits.1,fits.2,Function.update_self ..⟩
    cases same
    exact here (invariant.apart other id index count row place' (by rw [pc]; rfl))
  · refine invariant.settled.imp_right fun settled later other before pushed unchecked => ?_
    refine settled later other before pushed fun holder checks => ?_
    by_cases here : holder = id
    · subst here
      rw [pc] at checks
      cases checks
    · exact (unchecked_update unchecked).1 holder here checks

/-- The second step, when the head is the one that was read: the row is in its chain. -/
theorem Invariant.swap (invariant : Invariant table state) {index row head : Nat}
    (pc : state.pcs id = .swap index row head)
    (current : state.shared.heads (table.bucket (table.hash (index,row))) = head) :
    Invariant table ⟨{state.shared with
        heads := Function.update state.shared.heads (table.bucket (table.hash (index,row))) (Table.code (index,row))
        pushed := (index,row) :: state.shared.pushed},
      Function.update state.pcs id (.inspect index row)⟩ := by
  have fits := invariant.fits id
  rw [pc] at fits
  obtain ⟨claimed,holds,link⟩ := fits
  have place : (state.pcs id).place = some (index,row) := by
    rw [pc]
    rfl
  have absent : (index,row) ∉ state.shared.pushed := fun member =>
    Nat.lt_irrefl row (((invariant.linked _).mp member).2.2 id row place)
  have grows : Grows (some index) state.shared {state.shared with
      heads := Function.update state.shared.heads (table.bucket (table.hash (index,row))) (Table.code (index,row))
      pushed := (index,row) :: state.shared.pushed} :=
    ⟨Nat.le_refl _,List.suffix_cons ..,fun _ => .inl rfl⟩
  refine ⟨?_,List.nodup_cons.mpr ⟨absent,invariant.distinct⟩,?_,?_,?_,?_,?_⟩
  · intro bucket
    have chain := invariant.chains bucket
    by_cases here : bucket = table.bucket (table.hash (index,row))
    · subst here
      simp only [Table.inBucket,List.filter_cons,beq_self_eq_true,if_true,Function.update_self]
      refine .cons (index,row) _ ?_
      rw [link,← current]
      exact chain
    · simp only [Table.inBucket,List.filter_cons,beq_iff_eq,if_neg (Ne.symm here),Function.update_of_ne here]
      exact chain
  · intro other
    have before := invariant.linked other
    rw [List.mem_cons]
    constructor
    · rintro (rfl | member)
      · refine ⟨holds,claimed,fun holder count at_ => ?_⟩
        by_cases here : holder = id
        · subst here
          simp only [Function.update_self,Pc.place,Option.some.injEq,Prod.mk.injEq] at at_
          dsimp only
          omega
        · simp only [Function.update_of_ne here] at at_
          exact absurd (invariant.apart holder id index count row at_ place) here
      · obtain ⟨held,next,counted⟩ := before.mp member
        refine ⟨held,next,fun holder count at_ => ?_⟩
        by_cases here : holder = id
        · subst here
          simp only [Function.update_self,Pc.place,Option.some.injEq,Prod.mk.injEq] at at_
          have := counted holder row (at_.1 ▸ place)
          omega
        · simp only [Function.update_of_ne here] at at_
          exact counted holder count at_
    · rintro ⟨held,next,counted⟩
      by_cases same : other = (index,row)
      · exact .inl same
      · refine .inr (before.mpr ⟨held,next,fun holder count at_ => ?_⟩)
        by_cases here : holder = id
        · subst here
          obtain ⟨chunk,counts⟩ := Prod.mk.inj (Option.some.inj (at_.symm.trans place))
          have bound := counted holder (row + 1) (by simp only [Function.update_self,Pc.place,chunk])
          have apart : other.2 ≠ row := fun equal => same (Prod.ext chunk equal)
          omega
        · exact counted holder count (by simp only [Function.update_of_ne here]; exact at_)
  · intro one two chunk count count' first second
    by_cases here : one = id <;> by_cases there : two = id
    · rw [here,there]
    · subst here
      simp only [Function.update_self,Pc.place,Option.some.injEq,Prod.mk.injEq,Function.update_of_ne there] at first second
      exact invariant.apart one two chunk row count' (first.1 ▸ place) second
    · subst there
      simp only [Function.update_self,Pc.place,Option.some.injEq,Prod.mk.injEq,Function.update_of_ne here] at first second
      exact invariant.apart one two chunk count row first (second.1 ▸ place)
    · simp only [Function.update_of_ne here,Function.update_of_ne there] at first second
      exact invariant.apart one two chunk count count' first second
  · refine invariant.others grows (fun other index' count here place' same => ?_) ⟨claimed,holds,List.mem_cons_self ..⟩
    cases same
    exact here (invariant.apart other id index count row place' place)
  · intro found
    obtain ⟨left,right,one,two,apart,same⟩ := invariant.sound found
    exact ⟨left,right,List.mem_cons_of_mem _ one,List.mem_cons_of_mem _ two,apart,same⟩
  · refine invariant.settled.imp_right fun settled later other before pushed unchecked => ?_
    cases later with
    | nil =>
      -- The row itself is only now being checked.
      obtain ⟨rfl,_⟩ := List.cons.inj pushed
      have checks : (Pc.inspect index row).checking = some (index,row) := rfl
      exact absurd checks (unchecked_update unchecked).2
    | cons first later =>
      obtain ⟨_,pushed⟩ := List.cons.inj pushed
      refine settled later other before pushed fun holder checks => ?_
      by_cases here : holder = id
      · subst here
        rw [pc] at checks
        cases checks
      · exact (unchecked_update unchecked).1 holder here checks

/-- The pc of one participant changes from one that checks no row to another such. -/
theorem unchecked_before (before : (state.pcs id).checking = none)
    {place : Nat × Nat} (unchecked : ∀ holder, (Function.update state.pcs id pc holder).checking ≠ some place) (holder : ι) :
    (state.pcs holder).checking ≠ some place := by
  by_cases here : holder = id
  · rw [here,before]
    exact nofun
  · exact (unchecked_update unchecked).1 holder here

/-- A chunk is claimed, or there is none left. -/
theorem Invariant.claim (invariant : Invariant table state) (pc : state.pcs id = .claim) :
    Invariant table ⟨{state.shared with nextChunk := state.shared.nextChunk + 1},
      Function.update state.pcs id
        (if table.chunks.length ≤ state.shared.nextChunk then .done else .row state.shared.nextChunk 0)⟩ := by
  have place : (state.pcs id).place = none := by
    rw [pc]
    rfl
  have checks : (state.pcs id).checking = none := by
    rw [pc]
    rfl
  have grows : Grows none state.shared {state.shared with nextChunk := state.shared.nextChunk + 1} :=
    ⟨Nat.le_succ _,List.suffix_refl _,fun _ => .inl rfl⟩
  have below {other : ι} {index count : Nat} (at_ : (state.pcs other).place = some (index,count)) :
      index < state.shared.nextChunk := by
    have fits := invariant.fits other
    cases there : state.pcs other with
    | claim | done | stuck => rw [there] at at_; cases at_
    | row | store | swap | inspect | detect =>
      rw [there] at at_ fits
      obtain ⟨rfl,_⟩ := Prod.mk.inj (Option.some.inj at_)
      exact fits.1
  by_cases last : table.chunks.length ≤ state.shared.nextChunk
  · rw [if_pos last]
    have places (other : ι) : (Function.update state.pcs id .done other).place = (state.pcs other).place := by
      refine place_update ?_ other
      rw [place]
      rfl
    refine ⟨invariant.chains,invariant.distinct,?_,?_,?_,invariant.sound,?_⟩
    · intro other
      simp only [places]
      refine (invariant.linked other).trans (and_congr_right fun holds => and_congr_left fun _ => ?_)
      have := holds.1
      omega
    · simp only [places]
      exact invariant.apart
    · exact invariant.others grows (fun _ _ _ _ _ => nofun) trivial
    · exact invariant.settled.imp_right fun settled later other before pushed unchecked =>
        settled later other before pushed (unchecked_before checks unchecked)
  · rw [if_neg last]
    refine ⟨invariant.chains,invariant.distinct,?_,?_,?_,invariant.sound,?_⟩
    · intro other
      rw [invariant.linked]
      refine and_congr_right fun holds => ?_
      constructor
      · rintro ⟨next,counted⟩
        refine ⟨Nat.lt_succ_of_lt next,fun holder count at_ => ?_⟩
        by_cases here : holder = id
        · subst here
          simp only [Function.update_self,Pc.place,Option.some.injEq,Prod.mk.injEq] at at_
          omega
        · simp only [Function.update_of_ne here] at at_
          exact counted holder count at_
      · rintro ⟨next,counted⟩
        have older : other.1 ≠ state.shared.nextChunk := by
          intro same
          exact Nat.not_lt_zero _ (counted id 0 (by simp only [Function.update_self,Pc.place,same]))
        refine ⟨by dsimp only at next; omega,fun holder count at_ => ?_⟩
        have here : holder ≠ id := by
          rintro rfl
          rw [place] at at_
          cases at_
        exact counted holder count (by simp only [Function.update_of_ne here]; exact at_)
    · intro one two index count count' first second
      by_cases here : one = id <;> by_cases there : two = id
      · rw [here,there]
      · subst here
        simp only [Function.update_self,Pc.place,Option.some.injEq,Prod.mk.injEq,Function.update_of_ne there] at first second
        have := below second
        omega
      · subst there
        simp only [Function.update_self,Pc.place,Option.some.injEq,Prod.mk.injEq,Function.update_of_ne here] at first second
        have := below first
        omega
      · simp only [Function.update_of_ne here,Function.update_of_ne there] at first second
        exact invariant.apart one two index count count' first second
    · exact invariant.others grows (fun _ _ _ _ _ => nofun)
        ⟨Nat.lt_succ_self _,Nat.lt_of_not_le last,Nat.zero_le _⟩
    · exact invariant.settled.imp_right fun settled later other before pushed unchecked =>
        settled later other before pushed (unchecked_before checks unchecked)

/-- All rows of a chunk have been linked. -/
theorem Invariant.swept (invariant : Invariant table state) {index row : Nat} (pc : state.pcs id = .row index row)
    (last : (table.chunk index).nrows ≤ row) : Invariant table ⟨state.shared,Function.update state.pcs id .claim⟩ := by
  have checks : (state.pcs id).checking = none := by
    rw [pc]
    rfl
  refine ⟨invariant.chains,invariant.distinct,?_,?_,?_,invariant.sound,?_⟩
  · intro other
    rw [invariant.linked]
    refine and_congr_right fun holds => and_congr_right fun _ => ?_
    constructor
    · intro counted holder count at_
      by_cases here : holder = id
      · subst here
        simp only [Function.update_self] at at_
        cases at_
      · simp only [Function.update_of_ne here] at at_
        exact counted holder count at_
    · intro counted holder count at_
      by_cases here : holder = id
      · subst here
        rw [pc] at at_
        obtain ⟨chunk,rfl⟩ := Prod.mk.inj (Option.some.inj at_)
        exact Nat.lt_of_lt_of_le holds.2 (chunk ▸ last)
      · exact counted holder count (by simp only [Function.update_of_ne here]; exact at_)
  · intro one two chunk count count' first second
    have here : one ≠ id := by
      rintro rfl
      simp only [Function.update_self] at first
      cases first
    have there : two ≠ id := by
      rintro rfl
      simp only [Function.update_self] at second
      cases second
    simp only [Function.update_of_ne here,Function.update_of_ne there] at first second
    exact invariant.apart one two chunk count count' first second
  · exact invariant.others (Grows.refl state.shared) (fun _ _ _ _ _ => nofun) trivial
  · exact invariant.settled.imp_right fun settled later other before pushed unchecked =>
      settled later other before pushed (unchecked_before checks unchecked)

/-- A duplicate has been found. -/
theorem Invariant.found (invariant : Invariant table state) (place : pc.place = (state.pcs id).place)
    (fits : Fits table state.shared pc) {left right : Nat × Nat} (one : left ∈ state.shared.pushed)
    (two : right ∈ state.shared.pushed) (apart : left ≠ right) (same : table.keys left = table.keys right) :
    Invariant table ⟨{state.shared with hasDuplicates := true},Function.update state.pcs id pc⟩ := by
  have grows : Grows none state.shared {state.shared with hasDuplicates := true} :=
    ⟨Nat.le_refl _,List.suffix_refl _,fun _ => .inl rfl⟩
  refine ⟨invariant.chains,invariant.distinct,?_,?_,?_,fun _ => ⟨left,right,one,two,apart,same⟩,.inl rfl⟩
  · intro other
    simp only [place_update place]
    exact invariant.linked other
  · simp only [place_update place]
    exact invariant.apart
  · exact invariant.others grows (fun _ _ _ _ _ => nofun)
      (fits.grow grows fun _ _ _ => nofun)

omit [DecidableEq ι] in
theorem Invariant.pushed_holds (invariant : Invariant table state) {place : Nat × Nat} (member : place ∈ state.shared.pushed) :
    table.Holds place :=
  ((invariant.linked place).mp member).1

/-- Rows with the same keys are in the same bucket. -/
theorem mem_inBucket {left right : Nat × Nat} (one : table.Holds left) (two : table.Holds right)
    (same : table.keys left = table.keys right) {places : List (Nat × Nat)} (member : left ∈ places) :
    left ∈ table.inBucket (table.bucket (table.hash right)) places := by
  refine List.mem_filter.mpr ⟨member,?_⟩
  rw [one.hash,two.hash,same]
  exact beq_self_eq_true _

/-- One atomic step of any participant. -/
theorem act_invariant (invariant : Invariant table state) (id : ι) : Invariant table (state.act table id) := by
  have fits := invariant.fits id
  unfold State.act
  cases pc : state.pcs id with
  | claim => exact invariant.claim pc
  | row index row =>
    rw [pc] at fits
    simp only [execute]
    by_cases last : (table.chunk index).nrows ≤ row
    · rw [if_pos last]
      exact invariant.swept pc last
    · rw [if_neg last]
      refine invariant.quiet (by rw [pc]; rfl) ⟨fits.1,fits.2.1,Nat.lt_of_not_le last⟩ fun place checks => ?_
      rw [pc] at checks
      cases checks
  | store index row head => exact invariant.store pc
  | swap index row head =>
    rw [pc] at fits
    simp only [execute]
    by_cases current : state.shared.heads (table.bucket (table.hash (index,row))) = head
    · rw [if_pos current]
      exact invariant.swap pc current
    · rw [if_neg current]
      refine invariant.quiet (by rw [pc]; rfl) ⟨fits.1,fits.2.1⟩ fun place checks => ?_
      rw [pc] at checks
      cases checks
  | inspect index row =>
    rw [pc] at fits
    obtain ⟨claimed,holds,member⟩ := fits
    simp only [execute]
    by_cases found : state.shared.hasDuplicates = true
    · rw [if_pos found]
      exact invariant.quiet (by rw [pc]; rfl) ⟨claimed,holds.1,holds.2⟩ fun _ _ _ => .inl found
    · rw [if_neg found]
      -- Its link leads to the rows that were in the bucket before it.
      obtain ⟨later,before,pushed⟩ := List.append_of_mem member
      have chain := invariant.chains (table.bucket (table.hash (index,row)))
      have split : table.inBucket (table.bucket (table.hash (index,row))) state.shared.pushed =
          table.inBucket (table.bucket (table.hash (index,row))) later ++
            (index,row) :: table.inBucket (table.bucket (table.hash (index,row))) before := by
        rw [pushed]
        simp only [Table.inBucket,List.filter_append,List.filter_cons,beq_self_eq_true,if_true]
      rw [split] at chain
      refine invariant.quiet (by rw [pc]; rfl) ⟨claimed,holds,later,before,[],_,pushed,rfl,chain.behind,nofun⟩ ?_
      intro place checks stays
      rw [pc] at checks
      exact absurd checks stays
  | detect index row link =>
    rw [pc] at fits
    obtain ⟨claimed,holds,later,before,passed,rest,pushed,split,chain,unequal⟩ := fits
    have within {other : Nat × Nat} (member : other ∈ passed ++ rest) : other ∈ before := by
      rw [← split] at member
      exact (List.mem_filter.mp member).1
    have stored {other : Nat × Nat} (member : other ∈ before) : other ∈ state.shared.pushed := by
      rw [pushed]
      exact List.mem_append_right _ (List.mem_cons_of_mem _ member)
    have own : (index,row) ∈ state.shared.pushed := by
      rw [pushed]
      exact List.mem_append_right _ (List.mem_cons_self ..)
    have moved : (Pc.row index (row + 1)).place = (state.pcs id).place := by
      rw [pc]
      rfl
    simp only [execute]
    cases chain with
    | nil =>
      rw [if_pos rfl]
      refine invariant.quiet moved ⟨claimed,holds.1,holds.2⟩ fun place checks _ => .inr ?_
      rw [pc] at checks
      obtain rfl := Option.some.inj checks
      intro later' before' pushed' other member same
      -- The row was swapped in once, so that the rows before it are those of the search.
      have equal : before' = before := by
        have distinct := invariant.distinct
        rw [pushed'] at distinct
        obtain ⟨_,last,first⟩ := List.nodup_append.mp distinct
        have fresh : (index,row) ∉ later' := fun member => first _ member _ (List.mem_cons_self ..) rfl
        have same := pushed'.symm.trans pushed
        exact ((List.append_cons_inj_of_notMem fresh (List.nodup_cons.mp last).1).mp same).2.2
      rw [equal] at member
      have bucket := mem_inBucket (invariant.pushed_holds (stored member)) holds same member
      rw [split,List.append_nil] at bucket
      exact unequal other bucket same
    | cons other rest tail =>
      have member : other ∈ before := within (List.mem_append_right _ (List.mem_cons_self ..))
      have held := invariant.pushed_holds (stored member)
      obtain ⟨nonzero,decoded⟩ := held.coded
      rw [if_neg nonzero]
      simp only [decoded]
      by_cases same : table.duplicate (index,row) other = true
      · rw [if_pos same]
        have distinct := invariant.distinct
        rw [pushed] at distinct
        have apart : (index,row) ≠ other := by
          rintro rfl
          exact (List.nodup_cons.mp (List.nodup_append.mp distinct).2.1).1 member
        exact invariant.found moved ⟨claimed,holds.1,holds.2⟩ own (stored member) apart ((duplicate_iff holds held).mp same)
      · rw [if_neg same]
        refine invariant.quiet (by rw [pc]; rfl) ⟨claimed,holds,later,before,passed ++ [other],rest,pushed,?_,tail,?_⟩ ?_
        · rw [split,List.append_assoc]
          rfl
        · intro earlier passes equal
          rcases List.mem_append.mp passes with old | new
          · exact unequal earlier old equal
          · rw [List.mem_singleton.mp new] at equal
            exact same ((duplicate_iff holds held).mpr equal.symm)
        · intro place checks stays
          rw [pc] at checks
          exact absurd checks stays
  | done =>
    refine invariant.quiet (by rw [pc]) trivial fun place checks => ?_
    rw [pc] at checks
    cases checks
  | stuck message =>
    rw [pc] at fits
    exact fits.elim

end Step

theorem initial_invariant (table : Table τ) : Invariant table (State.initial : State ι) where
  chains := fun _ => .nil
  distinct := List.nodup_nil
  linked := fun place => ⟨fun member => absurd member (List.not_mem_nil),fun ⟨_,next,_⟩ => absurd next (Nat.not_lt_zero _)⟩
  apart := fun _ _ _ _ _ first => by cases first
  fits := fun _ => trivial
  sound := nofun
  settled := .inr fun _ _ _ pushed => by simp [State.initial] at pushed

theorem after_invariant [DecidableEq ι] (table : Table τ) (run : List ι) : Invariant table (State.after table run) := by
  suffices all : ∀ state, Invariant table state → Invariant table (run.foldl (State.act table) state) from
    all _ (initial_invariant table)
  induction run with
  | nil => exact fun _ invariant => invariant
  | cons id rest ih => exact fun state invariant => ih _ (act_invariant invariant id)

theorem Invariant.linked_iff {table : Table τ} {state : State ι} (invariant : Invariant table state)
    (linked : state.Linked table) (place : Nat × Nat) : place ∈ state.shared.pushed ↔ table.Holds place := by
  rw [invariant.linked]
  refine ⟨And.left,fun holds => ⟨holds,Nat.lt_of_lt_of_le holds.1 linked.1,fun id count at_ => ?_⟩⟩
  rw [linked.2 id] at at_
  cases at_

section Lookup
variable {table : Table τ} {outerKeys : List Nat} {probe : Nat → Option Int4} {values : List Int4}

theorem zip_matches (inner : Nat → Int4) {innerInit outerInit : List Nat} (same : innerInit.length = outerInit.length)
    {firsts : List Int4} (given : outerInit.mapM probe = some firsts) :
    ((innerInit.zip outerInit).all fun pair => (probe pair.2).elim false fun value => inner pair.1 == value) = true ↔
      innerInit.map inner = firsts := by
  induction outerInit generalizing innerInit firsts with
  | nil =>
    cases given
    simp [List.length_eq_zero_iff.mp same]
  | cons outer rest ih =>
    cases innerInit with
    | nil => cases same
    | cons key keys =>
      simp only [List.mapM_cons,Option.bind_eq_bind,Option.bind_eq_some_iff] at given
      obtain ⟨value,found,others,all,joined⟩ := given
      cases joined
      simp only [List.zip_cons_cons,List.all_cons,found,Option.elim_some,Bool.and_eq_true,beq_iff_eq,List.map_cons,
        List.cons.injEq,ih (Nat.succ.inj same) all]

/-- The key test of a lookup: the build row has the keys of the probe row. -/
theorem matchesKeys_iff {place : Nat × Nat} (holds : table.Holds place)
    (nkeys : outerKeys.length = table.config.innerKeys.length) (given : outerKeys.mapM probe = some values) :
    matchesKeys table outerKeys probe (keyHash values) place = true ↔ table.keys place = values := by
  obtain ⟨init,last,keyed⟩ := List.eq_nil_or_concat' table.config.innerKeys |>.resolve_left table.config.keyed
  have nonempty : outerKeys ≠ [] := by
    rintro rfl
    rw [keyed] at nkeys
    simp at nkeys
  obtain ⟨init',last',outer⟩ := List.eq_nil_or_concat' outerKeys |>.resolve_left nonempty
  subst outer
  have same : init.length = init'.length := by
    rw [keyed] at nkeys
    simpa using nkeys.symm
  simp only [List.mapM_append,List.mapM_cons,List.mapM_nil,Option.bind_eq_bind,Option.bind_eq_some_iff] at given
  obtain ⟨firsts,first,lasts,⟨value,found,nil_,empty_,joined⟩,all⟩ := given
  cases empty_
  cases joined
  cases all
  have hash := holds.hash
  simp only [Table.keys,keyed,List.map_append,List.map_cons,List.map_nil] at hash
  simp only [matchesKeys,keyed,Table.keys,List.map_append,List.map_cons,List.map_nil]
  rw [List.zip_append same]
  simp only [List.zip_cons_cons,List.zip_nil_right,List.dropLast_concat,Bool.and_eq_true,beq_iff_eq]
  rw [zip_matches (fun key => (table.chunk place.1).values key place.2) same first,hash]
  constructor
  · rintro ⟨hashes,firsts_⟩
    rw [firsts_] at hashes ⊢
    rw [keyHash_last hashes]
  · intro equal
    exact ⟨congrArg keyHash equal,List.append_inj_left' equal rfl⟩

theorem Table.Holds.number {place : Nat × Nat} (holds : table.Holds place) :
    Table.code place - 1 = rowId place.1 place.2 := by
  have addressed := table.addressed
  have small := holds.small
  have below : chunkRows * place.1 + chunkRows ≤ chunkRows * table.chunks.length := by
    rw [← Nat.mul_succ]
    exact Nat.mul_le_mul_left _ holds.1
  rw [holds.code,rowId,Nat.mul_comm place.1,Nat.mod_eq_of_lt (by omega),Nat.add_sub_cancel]

/-- From the first match on, the lookups find the matches of the chain, in its order. -/
theorem matchesFrom_chain {shared : Shared} {nodes : List (Nat × Nat)} {link left fuel : Nat}
    (chain : Chain Table.code shared.links link nodes) (holds : ∀ place ∈ nodes, table.Holds place)
    {hash : BitVec 32} (enough : nodes.length < fuel) (rounds : nodes.length < left) :
    matchesFrom table shared outerKeys probe fuel left
        ((nodes.find? (matchesKeys table outerKeys probe hash)).elim 0 Table.code) =
      some (.ok ((nodes.filter (matchesKeys table outerKeys probe hash)).map fun place => rowId place.1 place.2)) := by
  induction nodes generalizing link left with
  | nil =>
    obtain ⟨more,rfl⟩ := Nat.exists_eq_add_of_lt rounds
    rfl
  | cons node rest ih =>
    have tail := @Chain.behind _ _ _ [] _ _ _ chain
    have later : ∀ place ∈ rest, table.Holds place := fun place member => holds place (List.mem_cons_of_mem _ member)
    have shorter : rest.length < fuel := Nat.lt_trans (Nat.lt_succ_self _) enough
    rw [List.find?_cons,List.filter_cons]
    cases passes : matchesKeys table outerKeys probe hash node with
    | false => exact ih tail later shorter (Nat.lt_trans (Nat.lt_succ_self _) rounds)
    | true =>
      have held := holds node (List.mem_cons_self ..)
      obtain ⟨nonzero,decoded⟩ := held.coded
      obtain ⟨left,rfl⟩ : ∃ more, left = more + 1 := ⟨left - 1,by omega⟩
      have same : table.hash node = hash := by
        simp only [matchesKeys,Bool.and_eq_true,beq_iff_eq] at passes
        exact passes.1
      have next : nextMatch table shared outerKeys probe (Table.code node - 1) fuel =
          some (.ok ((rest.find? (matchesKeys table outerKeys probe hash)).elim 0 Table.code)) := by
        simp only [nextMatch,decoded,same]
        exact seek_chain tail (fun place member => (later place member).coded) shorter
      simp only [Option.elim_some,matchesFrom,if_neg nonzero,next,
        ih tail later shorter (Nat.lt_of_succ_lt_succ rounds)]
      rw [held.number]
      rfl

end Lookup

/-- What linking has to leave behind: the rows of a bucket are in its chain, once each; a
probe row meets just the build rows with its keys, once each; and the flag says whether
two build rows have the same keys. -/
structure Right (table : Table τ) (shared : Shared) : Prop where
  chains : ∀ bucket, ∃ chain, Chain Table.code shared.links (shared.heads bucket) chain ∧ chain.Nodup ∧
    ∀ place, place ∈ chain ↔ table.Holds place ∧ table.bucket (table.hash place) = bucket
  lookups : ∀ outerKeys probe values, outerKeys.length = table.config.innerKeys.length →
    outerKeys.mapM probe = some values →
    ∃ found, (∃ enough, ∀ fuel, enough ≤ fuel →
        lookup table shared outerKeys probe (keyHash values) fuel = some (.ok found)) ∧ found.Nodup ∧
      ∀ row, row ∈ found ↔ ∃ place, table.Holds place ∧ table.keys place = values ∧ row = rowId place.1 place.2
  duplicates : shared.hasDuplicates = true ↔
    ∃ left right, table.Holds left ∧ table.Holds right ∧ left ≠ right ∧ table.keys left = table.keys right

section Linked
variable {table : Table τ} {state : State ι}

theorem Invariant.mem_chain (invariant : Invariant table state) (linked : state.Linked table) (bucket : Nat)
    (place : Nat × Nat) : place ∈ table.inBucket bucket state.shared.pushed ↔
      table.Holds place ∧ table.bucket (table.hash place) = bucket := by
  rw [Table.inBucket,List.mem_filter,beq_iff_eq,invariant.linked_iff linked]

theorem Invariant.lookups (invariant : Invariant table state) (linked : state.Linked table) {outerKeys : List Nat}
    {probe : Nat → Option Int4} {values : List Int4} (nkeys : outerKeys.length = table.config.innerKeys.length)
    (given : outerKeys.mapM probe = some values) :
    ∃ found, (∃ enough, ∀ fuel, enough ≤ fuel →
        lookup table state.shared outerKeys probe (keyHash values) fuel = some (.ok found)) ∧ found.Nodup ∧
      ∀ row, row ∈ found ↔ ∃ place, table.Holds place ∧ table.keys place = values ∧ row = rowId place.1 place.2 := by
  let chain := table.inBucket (table.bucket (keyHash values)) state.shared.pushed
  have holds : ∀ place ∈ chain, table.Holds place := fun place member =>
    ((invariant.mem_chain linked _ place).mp member).1
  have links := invariant.chains (table.bucket (keyHash values))
  refine ⟨(chain.filter (matchesKeys table outerKeys probe (keyHash values))).map fun place => rowId place.1 place.2,
    ⟨chain.length + 1,fun fuel enough => ?_⟩,?_,fun row => ?_⟩
  · have head : findHead table state.shared outerKeys probe (keyHash values) fuel =
        some (.ok ((chain.find? (matchesKeys table outerKeys probe (keyHash values))).elim 0 Table.code)) :=
      seek_chain links (fun place member => (holds place member).coded) enough
    simp only [lookup,head]
    exact matchesFrom_chain links holds enough enough
  · refine List.Nodup.map_on ?_ ((invariant.distinct.filter _).filter _)
    intro left one right two same
    have first := holds left (List.mem_filter.mp one).1
    have second := holds right (List.mem_filter.mp two).1
    rw [← first.number,← second.number] at same
    have decoded := first.coded.2
    rw [same,second.coded.2] at decoded
    exact (Except.ok.inj decoded).symm
  · simp only [List.mem_map,List.mem_filter]
    constructor
    · rintro ⟨place,⟨member,passes⟩,rfl⟩
      exact ⟨place,holds place member,(matchesKeys_iff (holds place member) nkeys given).mp passes,rfl⟩
    · rintro ⟨place,held,keys,rfl⟩
      refine ⟨place,⟨(invariant.mem_chain linked _ place).mpr ⟨held,?_⟩,(matchesKeys_iff held nkeys given).mpr keys⟩,rfl⟩
      rw [held.hash,keys]

theorem Invariant.duplicates (invariant : Invariant table state) (linked : state.Linked table) :
    state.shared.hasDuplicates = true ↔
      ∃ left right, table.Holds left ∧ table.Holds right ∧ left ≠ right ∧ table.keys left = table.keys right := by
  have rows := invariant.linked_iff linked
  constructor
  · intro found
    obtain ⟨left,right,one,two,apart,same⟩ := invariant.sound found
    exact ⟨left,right,(rows left).mp one,(rows right).mp two,apart,same⟩
  · rintro ⟨left,right,one,two,apart,same⟩
    refine invariant.settled.resolve_right fun settled => ?_
    have unchecked : ∀ id place, (state.pcs id).checking ≠ some place := by
      intro id place checks
      have left_ := linked.2 id
      cases pc : state.pcs id with
      | inspect | detect => rw [pc] at left_; cases left_
      | claim | row | store | swap | done | stuck => rw [pc] at checks; cases checks
    -- Of two rows the one that was swapped in later has met the other one.
    have meets {later earlier : Nat × Nat} {after before : List (Nat × Nat)}
        (pushed : state.shared.pushed = after ++ later :: before) (member : earlier ∈ before)
        (equal : table.keys earlier = table.keys later) : False :=
      settled after later before pushed (fun id => unchecked id later) earlier member equal
    obtain ⟨after,before,pushed⟩ := List.append_of_mem ((rows left).mpr one)
    have member := (rows right).mpr two
    rw [pushed] at member
    rcases List.mem_append.mp member with later | earlier
    · obtain ⟨after',between,split⟩ := List.append_of_mem later
      refine @meets right left after' (between ++ left :: before) ?_ ?_ same
      · rw [pushed,split]
        simp
      · exact List.mem_append_right _ (List.mem_cons_self ..)
    · rcases List.mem_cons.mp earlier with equal | earlier
      · exact apart equal.symm
      · exact meets pushed earlier same.symm

end Linked

/-- In every interleaving of the participants' steps: no participant fails, and once all
chunks are linked the shared hash table is right. -/
theorem shared_chains_right [DecidableEq ι] (table : Table τ) (run : List ι)
    (linked : (State.after table run).Linked table) :
    (∀ id message, (State.after table run).pcs id ≠ .stuck message) ∧ Right table (State.after table run).shared := by
  have invariant := after_invariant table run
  refine ⟨fun id message stuck => ?_,fun bucket => ?_,fun _ _ _ => invariant.lookups linked,invariant.duplicates linked⟩
  · have fits := invariant.fits id
    rw [stuck] at fits
    exact fits
  · exact ⟨_,invariant.chains bucket,invariant.distinct.filter _,invariant.mem_chain linked bucket⟩

/-- Two backends and a chunk of two rows with one key. -/
def twins : Table Unit where
  config := ⟨1,[0],firstColumn_ne_nil,4,four_power,1,1000000,30000⟩
  chunks := [⟨2,fun _ => (),fun _ => keyHash [7#32],fun _ _ => 7#32,fun _ _ => true⟩]
  backends := 2
  sized := by simp [chunkRows]
  hashed := by simp
  directory := by decide
  buckets := by decide
  full := by decide
  few := by decide

/-- Both take turns until the chunk is linked. -/
def turns : List Bool :=
  (List.range 12).flatMap fun _ => [false,true]

theorem twins_linked : Right twins (State.after twins turns).shared :=
  (shared_chains_right twins turns ⟨by decide,by decide⟩).2

end PgBatch.SharedChains
