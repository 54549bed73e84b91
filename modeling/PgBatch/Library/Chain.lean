import PgBatch.Library.Result
import Mathlib.Data.List.Basic

/-! Singly linked lists in memory. A node is linked by its code, and zero ends a
chain; `next` holds the link of every node. -/
namespace Chains
variable {ν : Type}

/-- From a link the chain goes through just these nodes. -/
inductive Chain (code next : ν → Nat) : Nat → List ν → Prop
  | nil : Chain code next 0 []
  | cons (node : ν) (rest : List ν) (tail : Chain code next (next node) rest) : Chain code next (code node) (node :: rest)

section Shape
variable {code next : ν → Nat}

/-- Behind a node of the chain follows what its link says. -/
theorem Chain.behind {before rest : List ν} {node : ν} {link : Nat}
    (chain : Chain code next link (before ++ node :: rest)) : Chain code next (next node) rest := by
  induction before generalizing link with
  | nil =>
    cases chain with
    | cons _ _ tail => exact tail
  | cons first _ ih =>
    cases chain with
    | cons _ _ tail => exact ih tail

/-- A chain depends on the links of its own nodes only. -/
theorem Chain.congr {next' : ν → Nat} {nodes : List ν} {link : Nat} (chain : Chain code next link nodes)
    (same : ∀ node ∈ nodes, next' node = next node) : Chain code next' link nodes := by
  induction chain with
  | nil => exact .nil
  | cons first rest tail ih =>
    refine .cons first rest ?_
    rw [same first (List.mem_cons_self ..)]
    exact ih fun node member => same node (List.mem_cons_of_mem _ member)

theorem Chain.empty {nodes : List ν} {link : Nat} (chain : Chain code next link nodes) (coded : ∀ node ∈ nodes, code node ≠ 0) :
    link = 0 ↔ nodes = [] := by
  cases chain with
  | nil => exact ⟨fun _ => rfl,fun _ => rfl⟩
  | cons node rest => exact ⟨fun zero => absurd zero (coded node (List.mem_cons_self ..)),nofun⟩

end Shape

/-- Walk a chain up to a node that passes the test, at most `fuel` nodes far. -/
def seek (decode : Nat → Except String ν) (next : ν → Nat) (test : ν → Bool) : Nat → Nat → Option (Except String Nat)
  | 0, _ => none
  | fuel + 1, link =>
    if link = 0 then some (.ok 0)
    else match decode link with
      | .error message => some (.error message)
      | .ok node => if test node then some (.ok link) else seek decode next test fuel (next node)

/-- The nodes from a link on, at most `fuel` of them; a node is linked by its number plus one. -/
def follow (next : Nat → Nat) : Nat → Nat → Option (List Nat)
  | 0, _ => none
  | fuel + 1, link => if link = 0 then some [] else (follow next fuel (next (link - 1))).map ((link - 1) :: ·)

theorem follow_chain {next : Nat → Nat} {nodes : List Nat} {link fuel : Nat} (chain : Chain (· + 1) next link nodes)
    (enough : nodes.length < fuel) : follow next fuel link = some nodes := by
  induction chain generalizing fuel with
  | nil =>
    obtain ⟨more,rfl⟩ := Nat.exists_eq_add_of_lt enough
    rfl
  | cons node rest tail ih =>
    obtain ⟨more,rfl⟩ := Nat.exists_eq_add_of_lt enough
    have shorter : rest.length < rest.length + 1 + more := by omega
    simp only [List.length_cons,follow,Nat.add_sub_cancel,if_neg (Nat.succ_ne_zero node)]
    rw [ih shorter]
    rfl

section Walk
variable {code next : ν → Nat} {decode : Nat → Except String ν} {test : ν → Bool}

/-- The walk stops at the first node that passes, or at the end of the chain. -/
theorem seek_chain {nodes : List ν} {link fuel : Nat} (chain : Chain code next link nodes)
    (coded : ∀ node ∈ nodes, code node ≠ 0 ∧ decode (code node) = .ok node) (enough : nodes.length < fuel) :
    seek decode next test fuel link = some (.ok ((nodes.find? test).elim 0 code)) := by
  induction chain generalizing fuel with
  | nil =>
    obtain ⟨more,rfl⟩ := Nat.exists_eq_add_of_lt enough
    rfl
  | cons node rest tail ih =>
    obtain ⟨more,rfl⟩ := Nat.exists_eq_add_of_lt enough
    obtain ⟨nonzero,decoded⟩ := coded node (List.mem_cons_self ..)
    simp only [seek,if_neg nonzero,decoded,List.find?_cons]
    cases test node with
    | true => rfl
    | false =>
      refine ih (fun other member => coded other (List.mem_cons_of_mem _ member)) ?_
      simp only [List.length_cons]
      omega

end Walk

end Chains
