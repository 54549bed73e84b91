import PgBatch.Library.Bytes
import PgBatch.Library.Result
import PgBatch.Spill.Set
import Mathlib.Algebra.BigOperators.Group.List.Basic

/-! The blocks of the spill files as bytes: a header, the hashes, a validity bitmap
and an array of values for each column. A logical tape and a shared file are
both read as a stream of such blocks. -/
namespace PgBatch.Spill
open Words Columnar Bytes
variable {τ : Type}

/-- `SPILL_MAGIC`. -/
def spillMagic : Nat := 0x50474253

/-- `SpillHeader`, whose two counts are `uint16`. -/
def spillHeader (nrows ncolumns : Nat) : List Byte :=
  toBytes 4 spillMagic ++ (toBytes 2 nrows ++ toBytes 2 ncolumns)

/-- The writes of `flush_writer`. -/
def writeBlock (ncolumns : Nat) (block : Store τ) : List Byte :=
  spillHeader block.nrows ncolumns ++
    (pack 4 ((List.range block.nrows).map fun row => (block.hashes row).toNat) ++
      (packBits (8 * ncolumns) (fun index => block.valid (index / 64) (index % 64)) ++
        (List.range ncolumns).flatMap fun column =>
          pack 4 ((List.range block.nrows).map fun row => (block.values column row).toNat)))

/-- `PgBatchSpillBlock`: what a reader has read of one block. -/
structure SpillBlock where
  nrows : Nat
  ncolumns : Nat
  selection : BitVec 64
  hashes : List Byte
  values : List (List Byte)
  validity : List Byte
deriving DecidableEq, Repr

/-- A row as readers see it: the value of a NULL cell is not looked at. -/
structure Spilled where
  hash : BitVec 32
  cells : List (Option Int4)
deriving DecidableEq, Repr

namespace SpillBlock

def hash (block : SpillBlock) (row : Nat) : BitVec 32 :=
  BitVec.ofNat 32 (wordAt 4 block.hashes row)

def value (block : SpillBlock) (column row : Nat) : Int4 :=
  BitVec.ofNat 32 (wordAt 4 (block.values.getD column []) row)

/-- Bit `row % 8` of `validity[column * 8 + row / 8]`. -/
def isValid (block : SpillBlock) (column row : Nat) : Bool :=
  bitAt block.validity (64 * column + row)

def rows (block : SpillBlock) : List Spilled :=
  (Words.rows block.selection).map fun row =>
    ⟨block.hash row,(List.range block.ncolumns).map fun column =>
      if block.isValid column row then some (block.value column row) else none⟩

end SpillBlock

/-- A read of so many bytes that fails at the end of the stream. -/
def readExact (short : String) (count : Nat) (stream : List Byte) : Except String (List Byte × List Byte) :=
  if (stream.take count).length ≠ count then .error short else .ok (stream.take count,stream.drop count)

def readColumns (short : String) (nrows : Nat) : Nat → List Byte → Except String (List (List Byte) × List Byte)
  | 0, stream => .ok ([],stream)
  | ncolumns + 1, stream => do
    let (values,stream) ← readExact short (4 * nrows) stream
    let (others,stream) ← readColumns short nrows ncolumns stream
    .ok (values :: others,stream)

/-- The part of the two `reader_next` functions that reads a block. -/
def readBlock (invalid short : String) (ncolumns : Nat) (stream : List Byte) :
    Except String (Option (SpillBlock × List Byte)) :=
  let header := stream.take 8
  if header.length = 0 then .ok none
  else
    let nrows := wordAt 2 header 2
    if header.length ≠ 8 ∨ wordAt 4 header 0 ≠ spillMagic ∨ wordAt 2 header 3 ≠ ncolumns ∨ nrows = 0 ∨
        blockRows < nrows then .error invalid
    else do
      let (hashes,stream) ← readExact short (4 * nrows) (stream.drop 8)
      let (validity,stream) ← readExact short (8 * ncolumns) stream
      let (values,stream) ← readColumns short nrows ncolumns stream
      .ok (some (⟨nrows,ncolumns,writeMask nrows,hashes,values,validity⟩,stream))

/-- What a reader makes of a block. -/
def blockOf (ncolumns : Nat) (block : Store τ) : SpillBlock where
  nrows := block.nrows
  ncolumns := ncolumns
  selection := writeMask block.nrows
  hashes := pack 4 ((List.range block.nrows).map fun row => (block.hashes row).toNat)
  values := (List.range ncolumns).map fun column =>
    pack 4 ((List.range block.nrows).map fun row => (block.values column row).toNat)
  validity := packBits (8 * ncolumns) fun index => block.valid (index / 64) (index % 64)

def spilled (row : Row τ) : Spilled :=
  ⟨row.hash,row.cells.map fun cell => if cell.valid then some cell.value else none⟩

theorem readExact_append {short : String} {bytes rest : List Byte} {count : Nat} (size : bytes.length = count) :
    readExact short count (bytes ++ rest) = .ok (bytes,rest) := by
  subst size
  simp [readExact]

theorem readColumns_append {short : String} {nrows : Nat} {ι : Type} (columns : List ι) (bytes : ι → List Byte)
    (size : ∀ column, (bytes column).length = 4 * nrows) (rest : List Byte) :
    readColumns short nrows columns.length (columns.flatMap bytes ++ rest) = .ok (columns.map bytes,rest) := by
  induction columns with
  | nil => rfl
  | cons column others ih =>
    rw [List.length_cons,List.flatMap_cons,List.append_assoc,readColumns,readExact_append (size column)]
    simp only [bind,Except.bind,ih]
    rfl

theorem readExact_shorter {short : String} {count : Nat} {stream bytes rest : List Byte}
    (read : readExact short count stream = .ok (bytes,rest)) : rest.length ≤ stream.length := by
  unfold readExact at read
  split at read
  · cases read
  · cases read
    simp

theorem readColumns_shorter {short : String} {nrows ncolumns : Nat} {stream rest : List Byte}
    {values : List (List Byte)} (read : readColumns short nrows ncolumns stream = .ok (values,rest)) :
    rest.length ≤ stream.length := by
  induction ncolumns generalizing stream values with
  | zero =>
    cases read
    exact Nat.le_refl _
  | succ ncolumns ih =>
    obtain ⟨⟨first,middle⟩,one,read⟩ := Results.bind_ok.mp read
    obtain ⟨⟨others,last⟩,two,read⟩ := Results.bind_ok.mp read
    cases read
    exact (ih two).trans (readExact_shorter one)

/-- A block that has been read is no longer in the stream. -/
theorem readBlock_shorter {invalid short : String} {ncolumns : Nat} {stream rest : List Byte} {block : SpillBlock}
    (read : readBlock invalid short ncolumns stream = .ok (some (block,rest))) : rest.length < stream.length := by
  unfold readBlock at read
  dsimp only at read
  split at read
  · cases read
  · split at read
    · cases read
    · rename_i header
      have size : 8 ≤ stream.length := by
        have whole : (stream.take 8).length = 8 := by
          by_contra other
          exact header (Or.inl other)
        rw [List.length_take] at whole
        omega
      obtain ⟨⟨hashes,one⟩,first,read⟩ := Results.bind_ok.mp read
      obtain ⟨⟨validity,two⟩,second,read⟩ := Results.bind_ok.mp read
      obtain ⟨⟨values,three⟩,third,read⟩ := Results.bind_ok.mp read
      cases read
      have left := readExact_shorter first
      rw [List.length_drop] at left
      have middle := readExact_shorter second
      have right := readColumns_shorter third
      dsimp only at left middle right ⊢
      omega

theorem length_writeBlock (ncolumns : Nat) (block : Store τ) :
    (writeBlock ncolumns block).length = blockBytes ncolumns block.nrows := by
  have columns : ((List.range ncolumns).flatMap fun column =>
      pack 4 ((List.range block.nrows).map fun row => (block.values column row).toNat)).length =
      4 * ncolumns * block.nrows := by
    simp only [List.length_flatMap,length_pack,List.length_map,List.length_range,List.map_const',List.sum_replicate_nat]
    ring
  rw [writeBlock,spillHeader]
  simp only [List.length_append,length_toBytes,length_pack,length_packBits,List.length_map,List.length_range,columns,
    blockBytes]
  omega

theorem read_spillHeader {nrows ncolumns : Nat} (short : nrows < 2 ^ 16) (few : ncolumns < 2 ^ 16) :
    (spillHeader nrows ncolumns).length = 8 ∧ wordAt 4 (spillHeader nrows ncolumns) 0 = spillMagic ∧
      wordAt 2 (spillHeader nrows ncolumns) 2 = nrows ∧ wordAt 2 (spillHeader nrows ncolumns) 3 = ncolumns := by
  have magic : 2 * 2 = (toBytes 4 spillMagic).length := by simp
  have counts : 2 * 3 = (toBytes 4 spillMagic).length + (toBytes 2 nrows).length := by simp
  refine ⟨by simp [spillHeader],?_,?_,?_⟩
  · rw [wordAt,Nat.mul_zero,List.drop_zero,spillHeader,List.take_left' (length_toBytes _ _)]
    exact ofBytes_toBytes (by decide)
  · rw [wordAt,spillHeader,magic,List.drop_left,List.take_left' (length_toBytes _ _)]
    exact ofBytes_toBytes short
  · rw [wordAt,spillHeader,counts,← List.drop_drop,List.drop_left,List.drop_left,List.take_of_length_le (by simp)]
    exact ofBytes_toBytes few

/-- A written block is read back, and the stream behind it is left alone. -/
theorem readBlock_writeBlock {invalid short : String} {ncolumns : Nat} {block : Store τ} (few : ncolumns < 2 ^ 16)
    (nonempty : 0 < block.nrows) (small : block.nrows ≤ blockRows) (rest : List Byte) :
    readBlock invalid short ncolumns (writeBlock ncolumns block ++ rest) =
      .ok (some (blockOf ncolumns block,rest)) := by
  have bound : block.nrows ≤ 64 := small
  obtain ⟨size,magic,nrows,columns⟩ := read_spillHeader (by omega : block.nrows < 2 ^ 16) few
  have whole : writeBlock ncolumns block ++ rest = spillHeader block.nrows ncolumns ++
      ((blockOf ncolumns block).hashes ++ ((blockOf ncolumns block).validity ++
        (((List.range ncolumns).flatMap fun column =>
          pack 4 ((List.range block.nrows).map fun row => (block.values column row).toNat)) ++ rest))) := by
    simp only [writeBlock,blockOf,List.append_assoc]
  have values : readColumns short block.nrows ncolumns _ = _ :=
    List.length_range (n := ncolumns) ▸ readColumns_append (List.range ncolumns)
      (fun column => pack 4 ((List.range block.nrows).map fun row => (block.values column row).toNat))
      (fun column => by simp) rest
  rw [whole,readBlock]
  dsimp only
  rw [List.take_left' size,List.drop_left' size,if_neg (by omega),nrows,if_neg (by
    rw [size,magic,columns]
    omega)]
  rw [readExact_append (by simp [blockOf])]
  simp only [bind,Except.bind]
  rw [readExact_append (by simp [blockOf])]
  dsimp only
  rw [values]
  rfl

/-- The rows that a reader sees in a block are the rows stored in it. -/
theorem rows_blockOf {ncolumns : Nat} {block : Store τ} (small : block.nrows ≤ blockRows) :
    (blockOf ncolumns block).rows = (block.rows ncolumns).map spilled := by
  have listed : Words.rows (blockOf ncolumns block).selection = List.range block.nrows := rows_blockSelection small
  have bound : block.nrows ≤ 64 := small
  rw [SpillBlock.rows,listed,Store.rows,List.map_map]
  apply List.map_congr_left
  intro row inside
  rw [List.mem_range] at inside
  have word (contents : Nat → BitVec 32) : BitVec.ofNat 32
      (wordAt 4 (pack 4 ((List.range block.nrows).map fun row => (contents row).toNat)) row) = contents row := by
    rw [wordAt_pack (by
      intro number member
      obtain ⟨index,_,rfl⟩ := List.mem_map.mp member
      exact (contents index).isLt) (by simpa using inside),List.getElem_map,List.getElem_range,BitVec.ofNat_toNat,
      BitVec.setWidth_eq]
  have cells (column : Nat) (member : column ∈ List.range ncolumns) :
      (if (blockOf ncolumns block).isValid column row then some ((blockOf ncolumns block).value column row)
        else none) =
      if block.valid column row then some (block.values column row) else none := by
    rw [List.mem_range] at member
    have valid : (blockOf ncolumns block).isValid column row = block.valid column row := by
      have place : 64 * column + row < 8 * (8 * ncolumns) := by omega
      have outer : (64 * column + row) / 64 = column := by omega
      have inner : (64 * column + row) % 64 = row := by omega
      rw [SpillBlock.isValid,blockOf,bitAt_packBits _ place,outer,inner]
    have value : (blockOf ncolumns block).value column row = block.values column row := by
      rw [SpillBlock.value,blockOf]
      dsimp only
      rw [List.getD_eq_getElem?_getD,List.getElem?_map,List.getElem?_range member,Option.map_some,Option.getD_some]
      exact word (block.values column)
    rw [valid,value]
  have first : (blockOf ncolumns block).hash row = block.hashes row := word block.hashes
  simp only [Function.comp,spilled,Store.row,Spilled.mk.injEq,List.map_map]
  exact ⟨first,List.map_congr_left cells⟩

end PgBatch.Spill
