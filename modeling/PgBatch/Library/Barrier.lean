import Mathlib.Data.Fintype.Card
import Mathlib.Data.Finset.Card
import Mathlib.Logic.Function.Basic

/-! Phased barriers that parties may join and leave at any time.
A barrier only counts; `Consistent` ties its counters to what every party is
doing, and says that nobody is ever left waiting more than one phase behind. -/
namespace Barriers

structure Barrier where
  phase : Nat
  participants : Nat
  arrived : Nat
  elected : Nat
deriving DecidableEq, Repr

/-- What the barrier knows of a party. `waiting start` has arrived in phase `start`. -/
inductive Party where
  | away
  | inside
  | waiting (start : Nat)
deriving DecidableEq, Repr

namespace Barrier

def init : Barrier :=
  ⟨0,0,0,0⟩

def attach (barrier : Barrier) : Barrier :=
  {barrier with participants := barrier.participants + 1}

/-- The last arrival releases the others, and is elected. -/
def arrive (barrier : Barrier) : Barrier × Bool :=
  if barrier.arrived + 1 = barrier.participants then
    ({barrier with phase := barrier.phase + 1, arrived := 0, elected := barrier.phase + 1},true)
  else ({barrier with arrived := barrier.arrived + 1},false)

/-- A party that waited in phase `start` goes on; the first one to do so is
elected when nobody else has been. -/
def wake (barrier : Barrier) (start : Nat) : Barrier × Bool :=
  if barrier.elected = start + 1 then (barrier,false)
  else ({barrier with elected := start + 1},true)

/-- Leaving releases the others when all of them have arrived. -/
def detach (barrier : Barrier) : Barrier :=
  if 0 < barrier.participants - 1 ∧ barrier.arrived = barrier.participants - 1 then
    {barrier with participants := barrier.participants - 1, phase := barrier.phase + 1, arrived := 0}
  else {barrier with participants := barrier.participants - 1}

end Barrier

variable {ι : Type} [Fintype ι] [DecidableEq ι]

structure Consistent (barrier : Barrier) (party : ι → Party) : Prop where
  participants : barrier.participants = (Finset.univ.filter fun i => party i ≠ .away).card
  arrived : barrier.arrived = (Finset.univ.filter fun i => party i = .waiting barrier.phase).card
  behind : ∀ i start, party i = .waiting start → start = barrier.phase ∨ start + 1 = barrier.phase
  missing : barrier.participants ≠ 0 → barrier.arrived < barrier.participants

omit [DecidableEq ι] in
theorem consistent_init : Consistent .init (fun _ : ι => .away) := by
  refine ⟨?_,?_,?_,?_⟩ <;> simp [Barrier.init]

/-- Counting after one party changes its status. -/
private theorem card_update (party : ι → Party) (i : ι) (value : Party) (test : Party → Prop) [DecidablePred test] :
    (Finset.univ.filter fun j => test (Function.update party i value j)).card +
        (if test (party i) then 1 else 0) =
      (Finset.univ.filter fun j => test (party j)).card + (if test value then 1 else 0) := by
  have split (status : ι → Party) :
      (Finset.univ.filter fun j => test (status j)).card =
        ((Finset.univ.erase i).filter fun j => test (status j)).card + (if test (status i) then 1 else 0) := by
    rw [← Finset.insert_erase (Finset.mem_univ i),Finset.filter_insert]
    split
    · rw [Finset.card_insert_of_notMem (by simp)]
      simp
    · simp
  rw [split,split party,Function.update_self]
  have others : ((Finset.univ.erase i).filter fun j => test (Function.update party i value j)) =
      (Finset.univ.erase i).filter fun j => test (party j) := by
    apply Finset.filter_congr
    intro j member
    rw [Function.update_of_ne (Finset.ne_of_mem_erase member)]
  rw [others]
  omega

theorem attach_consistent {barrier : Barrier} {party : ι → Party} (consistent : Consistent barrier party)
    {i : ι} (away : party i = .away) :
    Consistent barrier.attach (Function.update party i .inside) := by
  have total := card_update party i .inside (· ≠ .away)
  have waiting := card_update party i .inside (· = .waiting barrier.phase)
  simp only [away,ne_eq,not_true_eq_false,if_false,reduceCtorEq,not_false_eq_true,if_true] at total waiting
  refine ⟨?_,?_,?_,?_⟩
  · simp only [Barrier.attach,consistent.participants]
    exact total.symm
  · simp only [Barrier.attach,consistent.arrived]
    exact waiting.symm
  · intro j start status
    by_cases same : j = i
    · subst same
      simp at status
    · rw [Function.update_of_ne same] at status
      exact consistent.behind j start status
  · intro _
    simp only [Barrier.attach]
    have := consistent.missing
    by_cases empty : barrier.participants = 0
    · have none : barrier.arrived ≤ barrier.participants := by
        rw [consistent.arrived,consistent.participants]
        apply Finset.card_le_card
        intro j member
        simp only [Finset.mem_filter,Finset.mem_univ,true_and] at member ⊢
        simp [member]
      omega
    · have := this empty
      omega

/-- When everyone who is not away has arrived except one party that arrives now,
the barrier is released; the others were all waiting in the current phase. -/
theorem arrive_released {barrier : Barrier} {party : ι → Party} (consistent : Consistent barrier party)
    {i : ι} (inside : party i = .inside) (released : barrier.arrive.2 = true) (j : ι) (other : j ≠ i) :
    party j = .away ∨ party j = .waiting barrier.phase := by
  have full : barrier.arrived + 1 = barrier.participants := by
    unfold Barrier.arrive at released
    split at released
    · assumption
    · contradiction
  by_contra busy
  push Not at busy
  rw [consistent.arrived,consistent.participants] at full
  have proper : insert j (insert i (Finset.univ.filter fun k => party k = .waiting barrier.phase)) ⊆
      Finset.univ.filter fun k => party k ≠ .away := by
    intro k member
    simp only [Finset.mem_insert,Finset.mem_filter,Finset.mem_univ,true_and] at member ⊢
    rcases member with rfl | rfl | member
    · exact busy.1
    · simp [inside]
    · simp [member]
  have size := Finset.card_le_card proper
  rw [Finset.card_insert_of_notMem (by simp [other,busy.2]),
    Finset.card_insert_of_notMem (by simp [inside])] at size
  omega

theorem arrive_consistent {barrier : Barrier} {party : ι → Party} (consistent : Consistent barrier party)
    {i : ι} (inside : party i = .inside) :
    Consistent barrier.arrive.1
      (Function.update party i (if barrier.arrive.2 then .inside else .waiting barrier.phase)) := by
  have others := arrive_released consistent inside
  have total (value : Party) (present : value ≠ .away) :
      (Finset.univ.filter fun j => Function.update party i value j ≠ .away).card = barrier.participants := by
    have := card_update party i value (· ≠ .away)
    simp only [inside,ne_eq,reduceCtorEq,not_false_eq_true,if_true,present] at this
    rw [consistent.participants]
    simpa using this
  have occupied : barrier.participants ≠ 0 := by
    rw [consistent.participants,Finset.card_ne_zero]
    exact ⟨i,by simp [inside]⟩
  have before := consistent.missing occupied
  unfold Barrier.arrive at others ⊢
  split at others <;> rename_i last
  · simp only [last,if_true] at others ⊢
    refine ⟨(total _ (by simp)).symm,?_,?_,?_⟩
    · symm
      rw [Finset.card_eq_zero,Finset.filter_eq_empty_iff]
      intro j _
      by_cases same : j = i
      · subst same
        simp
      · rw [Function.update_of_ne same]
        rcases others trivial j same with status | status <;> simp [status]
    · intro j start status
      by_cases same : j = i
      · subst same
        simp at status
      · rw [Function.update_of_ne same] at status
        rcases others trivial j same with away | waiting
        · rw [away] at status
          contradiction
        · rw [waiting] at status
          cases status
          exact .inr rfl
    · intro _
      simp only
      omega
  · simp only [last,if_false,Bool.false_eq_true]
    refine ⟨(total _ (by simp)).symm,?_,?_,?_⟩
    · have := card_update party i (.waiting barrier.phase) (· = .waiting barrier.phase)
      simp only [inside,reduceCtorEq,if_false,if_true] at this
      simp only [consistent.arrived]
      omega
    · intro j start status
      by_cases same : j = i
      · subst same
        simp only [Function.update_self,Party.waiting.injEq] at status
        exact .inl status.symm
      · rw [Function.update_of_ne same] at status
        exact consistent.behind j start status
    · intro _
      simp only
      omega

/-- Fields of a barrier that waking does not touch. -/
theorem wake_fields (barrier : Barrier) (start : Nat) :
    (barrier.wake start).1.phase = barrier.phase ∧ (barrier.wake start).1.participants = barrier.participants ∧
      (barrier.wake start).1.arrived = barrier.arrived := by
  unfold Barrier.wake
  split <;> exact ⟨rfl,rfl,rfl⟩

theorem wake_consistent {barrier : Barrier} {party : ι → Party} (consistent : Consistent barrier party)
    {i : ι} {start : Nat} (waiting : party i = .waiting start) (released : start + 1 = barrier.phase) :
    Consistent (barrier.wake start).1 (Function.update party i .inside) := by
  obtain ⟨phase,participants,arrived⟩ := wake_fields barrier start
  have total := card_update party i .inside (· ≠ .away)
  have current := card_update party i .inside (· = .waiting barrier.phase)
  have late : ¬ start = barrier.phase := by omega
  simp only [waiting,ne_eq,reduceCtorEq,not_false_eq_true,if_true,Party.waiting.injEq,late,if_false] at total current
  refine ⟨?_,?_,?_,?_⟩
  · rw [participants,consistent.participants]
    simp only [ne_eq]
    omega
  · rw [arrived,phase,consistent.arrived]
    omega
  · intro j begun status
    rw [phase]
    by_cases same : j = i
    · subst same
      simp at status
    · rw [Function.update_of_ne same] at status
      exact consistent.behind j begun status
  · rw [participants,arrived]
    exact consistent.missing

/-- A party that leaves while nobody waits in the current phase releases nobody. -/
theorem detach_consistent {barrier : Barrier} {party : ι → Party} (consistent : Consistent barrier party)
    {i : ι} (inside : party i = .inside) (idle : ∀ j, party j ≠ .waiting barrier.phase) :
    barrier.detach.phase = barrier.phase ∧ barrier.detach.elected = barrier.elected ∧
      Consistent barrier.detach (Function.update party i .away) := by
  have none : barrier.arrived = 0 := by
    rw [consistent.arrived,Finset.card_eq_zero,Finset.filter_eq_empty_iff]
    intro j _
    exact idle j
  have stays : barrier.detach = {barrier with participants := barrier.participants - 1} := by
    unfold Barrier.detach
    rw [if_neg]
    rintro ⟨some,all⟩
    omega
  have total := card_update party i .away (· ≠ .away)
  have current := card_update party i .away (· = .waiting barrier.phase)
  simp only [inside,ne_eq,reduceCtorEq,not_false_eq_true,not_true_eq_false,if_true,if_false] at total current
  rw [stays]
  refine ⟨rfl,rfl,?_,?_,?_,?_⟩
  · simp only [consistent.participants,ne_eq]
    omega
  · simp only [consistent.arrived]
    omega
  · intro j start status
    by_cases same : j = i
    · subst same
      simp at status
    · rw [Function.update_of_ne same] at status
      exact consistent.behind j start status
  · simp only [none]
    omega

end Barriers
