import PgBatch.Library.Sweep
import PgBatch.Library.Words

/-! Bitmaps in arrays of bytes, the lowest bit of a byte first. -/
namespace Bitmaps
open Words Sweeps

def bitAt (bytes : Nat → BitVec 8) (index : Nat) : Bool :=
  (bytes (index / 8)).getLsbD (index % 8)

def setBit (bytes : Nat → BitVec 8) (index : Nat) : Nat → BitVec 8 :=
  Function.update bytes (index / 8) (bytes (index / 8) ||| bit 8 (index % 8))

def moveBit (bytes : Nat → BitVec 8) (start : Nat) (moved : Nat → BitVec 8) (index : Nat) : Nat → BitVec 8 :=
  if bitAt bytes (start + index) then setBit moved index else moved

/-- Move `count` bits from `start` on to the front of a cleared bitmap. -/
def moveBits (bytes : Nat → BitVec 8) (start count : Nat) : Nat → BitVec 8 :=
  (List.range count).foldl (moveBit bytes start) fun _ => 0#8

@[simp] theorem bitAt_zero (index : Nat) : bitAt (fun _ => 0#8) index = false :=
  BitVec.getLsbD_zero

/-- A bit depends on its byte only. -/
theorem bitAt_congr {bytes others : Nat → BitVec 8} {index : Nat} (same : bytes (index / 8) = others (index / 8)) :
    bitAt bytes index = bitAt others index :=
  congrArg (fun byte => byte.getLsbD (index % 8)) same

theorem bitAt_setBit (bytes : Nat → BitVec 8) (index other : Nat) :
    bitAt (setBit bytes index) other = (bitAt bytes other || decide (other = index)) := by
  unfold bitAt setBit
  by_cases same : other / 8 = index / 8
  · have low : other % 8 < 8 := Nat.mod_lt _ (by decide)
    have place : (other % 8 = index % 8) = (other = index) := propext (by omega)
    rw [same,Function.update_self,BitVec.getLsbD_or,getLsbD_bit]
    simp [low,place]
  · have apart : other ≠ index := fun equal => same (equal ▸ rfl)
    rw [Function.update_of_ne same]
    simp [apart]

theorem bitAt_moveBit (bytes : Nat → BitVec 8) (start : Nat) (moved : Nat → BitVec 8) (index other : Nat) :
    bitAt (moveBit bytes start moved index) other =
      if other = index then (bitAt moved other || bitAt bytes (start + other)) else bitAt moved other := by
  unfold moveBit
  split
  · rename_i set
    rw [bitAt_setBit]
    split
    · rename_i here
      simp [here,set]
    · rename_i apart
      simp [apart]
  · rename_i clear
    split
    · rename_i here
      simp [here,clear]
    · rfl

theorem bitAt_moveBits (bytes : Nat → BitVec 8) (start count index : Nat) :
    bitAt (moveBits bytes start count) index = (decide (index < count) && bitAt bytes (start + index)) := by
  have swept := foldl_sweep id bitAt (fun place old => old || bitAt bytes (start + place))
    (List.nodup_range : (List.range count).Nodup) (fun moved place _ other => bitAt_moveBit bytes start moved place other)
    (fun _ => 0#8) index
  rw [moveBits,swept]
  by_cases inside : index < count
  · simp [inside]
  · simp [inside]

end Bitmaps
