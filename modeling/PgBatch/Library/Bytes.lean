import Mathlib.Data.List.Basic
import Mathlib.Tactic.Ring

/-! Memory as bytes: fixed-width numbers, least significant byte first, arrays of
them, and bitmaps. What is written as bytes reads back as it was. -/
namespace Bytes

abbrev Byte := BitVec 8

/-- The `width` bytes of a number, whose higher bits are dropped. -/
def toBytes : Nat → Nat → List Byte
  | 0, _ => []
  | width + 1, number => BitVec.ofNat 8 number :: toBytes width (number / 256)

def ofBytes : List Byte → Nat
  | [] => 0
  | byte :: rest => byte.toNat + 256 * ofBytes rest

/-- An array of numbers of the same width. -/
def pack (width : Nat) (numbers : List Nat) : List Byte :=
  numbers.flatMap (toBytes width)

/-- The number at an index of an array. -/
def wordAt (width : Nat) (bytes : List Byte) (index : Nat) : Nat :=
  ofBytes ((bytes.drop (width * index)).take width)

/-- A bitmap of `size` bytes. -/
def packBits (size : Nat) (flag : Nat → Bool) : List Byte :=
  (List.range size).map fun index =>
    (BitVec.ofBoolListLE ((List.range 8).map fun place => flag (8 * index + place))).setWidth 8

def bitAt (bytes : List Byte) (index : Nat) : Bool :=
  (bytes.getD (index / 8) 0#8).getLsbD (index % 8)

@[simp] theorem length_toBytes (width number : Nat) : (toBytes width number).length = width := by
  induction width generalizing number with
  | zero => rfl
  | succ width ih => rw [toBytes,List.length_cons,ih]

theorem ofBytes_toBytes {width number : Nat} (small : number < 256 ^ width) :
    ofBytes (toBytes width number) = number := by
  induction width generalizing number with
  | zero =>
    rw [Nat.pow_zero] at small
    rw [toBytes,ofBytes]
    omega
  | succ width ih =>
    have rest : number / 256 < 256 ^ width := by
      apply Nat.div_lt_of_lt_mul
      rwa [Nat.pow_succ,Nat.mul_comm] at small
    rw [toBytes,ofBytes,ih rest,BitVec.toNat_ofNat]
    exact Nat.mod_add_div number 256

@[simp] theorem length_pack (width : Nat) (numbers : List Nat) :
    (pack width numbers).length = width * numbers.length := by
  induction numbers with
  | nil => rfl
  | cons number rest ih =>
    rw [pack,List.flatMap_cons,List.length_append,length_toBytes,← pack,ih,List.length_cons]
    ring

/-- Every number of an array is found at its index. -/
theorem wordAt_pack {width : Nat} {numbers : List Nat} (small : ∀ number ∈ numbers, number < 256 ^ width)
    {index : Nat} (inside : index < numbers.length) : wordAt width (pack width numbers) index = numbers[index] := by
  induction numbers generalizing index with
  | nil => exact absurd inside (Nat.not_lt_zero _)
  | cons number rest ih =>
    rw [pack,List.flatMap_cons,← pack,wordAt]
    cases index with
    | zero =>
      rw [Nat.mul_zero,List.drop_zero,List.take_left' (length_toBytes _ _)]
      exact ofBytes_toBytes (small number (List.mem_cons_self ..))
    | succ index =>
      have skip : width * (index + 1) = (toBytes width number).length + width * index := by
        rw [length_toBytes]
        ring
      rw [skip,List.drop_append,List.drop_eq_nil_of_le (by omega),Nat.add_sub_cancel_left,List.nil_append]
      exact ih (fun number member => small number (List.mem_cons_of_mem _ member)) (by simpa using inside)

@[simp] theorem length_packBits (size : Nat) (flag : Nat → Bool) : (packBits size flag).length = size := by
  simp [packBits]

theorem bitAt_packBits {size index : Nat} (flag : Nat → Bool) (inside : index < 8 * size) :
    bitAt (packBits size flag) index = flag index := by
  have byte : index / 8 < size := by omega
  have place : index % 8 < 8 := Nat.mod_lt _ (by decide)
  have whole : 8 * (index / 8) + index % 8 = index := Nat.div_add_mod index 8
  rw [bitAt,packBits,List.getD_eq_getElem?_getD,List.getElem?_map,List.getElem?_range byte,Option.map_some,
    Option.getD_some,BitVec.getLsbD_setWidth,decide_eq_true place,Bool.true_and,BitVec.getLsbD_ofBoolListLE,
    List.getD_eq_getElem?_getD,List.getElem?_map,List.getElem?_range place,Option.map_some,Option.getD_some,whole]

end Bytes
