import PgBatch.Library.Bytes
import Mathlib.Tactic.Ring

/-! Memory addressed by byte. What is stored is loaded as it was, and what lies apart
from a store is loaded as before. -/
namespace Bytes

abbrev Memory := Nat → Byte

def store (memory : Memory) (start : Nat) (bytes : List Byte) : Memory :=
  fun address => if start ≤ address then (bytes[address - start]?).getD (memory address) else memory address

/-- The `width` bytes from an address on, as a number. -/
def load (width : Nat) (memory : Memory) (start : Nat) : Nat :=
  ofBytes ((List.range width).map fun index => memory (start + index))

theorem store_inside (memory : Memory) (start : Nat) {bytes : List Byte} {index : Nat} (inside : index < bytes.length) :
    store memory start bytes (start + index) = bytes[index] := by
  rw [store,if_pos (Nat.le_add_right start index),Nat.add_sub_cancel_left,List.getElem?_eq_getElem inside]
  rfl

theorem store_outside {memory : Memory} {start address : Nat} {bytes : List Byte}
    (outside : address < start ∨ start + bytes.length ≤ address) : store memory start bytes address = memory address := by
  unfold store
  split
  · rw [List.getElem?_eq_none (by omega)]
    rfl
  · rfl

theorem load_congr {width : Nat} {memory other : Memory} {start : Nat}
    (same : ∀ index, index < width → memory (start + index) = other (start + index)) :
    load width memory start = load width other start := by
  unfold load
  congr 1
  exact List.map_congr_left fun index member => same index (List.mem_range.mp member)

theorem load_store_apart {width : Nat} (memory : Memory) {start place : Nat} {bytes : List Byte}
    (apart : place + width ≤ start ∨ start + bytes.length ≤ place) :
    load width (store memory start bytes) place = load width memory place :=
  load_congr fun index inside => store_outside (by omega)

/-- A part of what was stored. -/
theorem load_store_part {width : Nat} (memory : Memory) (start : Nat) {bytes : List Byte} {offset : Nat}
    (inside : offset + width ≤ bytes.length) :
    load width (store memory start bytes) (start + offset) = ofBytes ((bytes.drop offset).take width) := by
  unfold load
  congr 1
  refine List.ext_getElem (by simp; omega) fun index left right => ?_
  have bound : index < width := by simpa using left
  rw [List.getElem_map,List.getElem_range,Nat.add_assoc,store_inside memory start (by omega),List.getElem_take,
    List.getElem_drop]

theorem load_store {width number : Nat} (memory : Memory) (start : Nat) (small : number < 256 ^ width) :
    load width (store memory start (toBytes width number)) start = number := by
  have part := @load_store_part width memory start (toBytes width number) 0 (by simp)
  rw [Nat.add_zero,List.drop_zero,List.take_of_length_le (by simp),ofBytes_toBytes small] at part
  exact part

/-- A number of an array that was stored as a whole. -/
theorem load_store_pack {width : Nat} (memory : Memory) (start : Nat) {numbers : List Nat}
    (small : ∀ number ∈ numbers, number < 256 ^ width) {index : Nat} (inside : index < numbers.length) :
    load width (store memory start (pack width numbers)) (start + width * index) = numbers[index] := by
  have room : width * index + width ≤ (pack width numbers).length := by
    rw [length_pack,show width * index + width = width * (index + 1) by ring]
    exact Nat.mul_le_mul_left width inside
  rw [load_store_part memory start room]
  exact wordAt_pack small inside

/-- Writes of one width, one behind the other, each number depending on what a loop carries. -/
theorem loop_stores {σ : Type} (width output : Nat) (number : σ → Nat → Nat) (next : σ → Nat → σ)
    (small : ∀ state index, number state index < 256 ^ width) (first : σ) (memory : Memory) (count : Nat) :
    ∃ written : Memory,
      (List.range count).foldl (fun (carried : σ × Memory) index => (next carried.1 index,
        store carried.2 (output + width * index) (toBytes width (number carried.1 index)))) (first,memory) =
        ((List.range count).foldl next first,written) ∧
      (∀ index, index < count →
        load width written (output + width * index) = number ((List.range index).foldl next first) index) ∧
      ∀ address, address < output ∨ output + width * count ≤ address → written address = memory address := by
  induction count with
  | zero => exact ⟨memory,rfl,fun _ none_ => absurd none_ (Nat.not_lt_zero _),fun _ _ => rfl⟩
  | succ count ih =>
    obtain ⟨written,ran,loads,outside⟩ := ih
    refine ⟨store written (output + width * count) (toBytes width (number ((List.range count).foldl next first) count)),
      ?_,fun index inside => ?_,fun address beyond => ?_⟩
    · rw [List.range_succ,List.foldl_append,List.foldl_append,ran]
      rfl
    · rcases Nat.lt_succ_iff_lt_or_eq.mp inside with earlier | rfl
      · have before : width * index + width ≤ width * count := by
          rw [show width * index + width = width * (index + 1) by ring]
          exact Nat.mul_le_mul_left width earlier
        rw [load_store_apart written (by omega),loads index earlier]
      · exact load_store written _ (small _ _)
    · have size : width * (count + 1) = width * count + width := by ring
      rw [store_outside (by rw [length_toBytes]; omega),outside address (by omega)]

end Bytes
