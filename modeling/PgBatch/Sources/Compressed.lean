import PgBatch.Library.Memory
import PgBatch.Sources.Arrow

/-! The batches of the compressed table AM (`examples/compressed_tam/compressed.c`): up to
64 rows of int4 columns in one allocation, each column plain or as the differences of
neighbours, where a NULL row repeats the value before it. -/
namespace PgBatch.Compressed
open PgBatch.Sources Bytes Words

/-- `PgBatchCompression`. -/
inductive Compression where
  | plain | delta8 | delta16
deriving DecidableEq, Repr

structure CompressedColumn where
  encoding : Compression
  validity : Nat → BitVec 8
  nullCount : Nat
  base : Int4
  dataOffset : Nat

/-- The batch with its header, and the memory of its allocation. -/
structure CompressedBatch where
  nrows : Nat
  bytes : Nat
  columns : Nat → CompressedColumn
  memory : Memory

def maxalign (size : Nat) : Nat :=
  (size + 7) / 8 * 8

/-- `offsetof (CompressedBatch, columns) + sizeof (CompressedColumn) * ncolumns`. -/
def headerSize (ncolumns : Nat) : Nat :=
  16 + 24 * ncolumns

/-- The last value before a row that is not NULL, or the row's own. -/
def carried (values : Nat → Int4) (nonnull : BitVec 64) (last : Int4) (row : Nat) : Int4 :=
  if nonnull.getLsbD row then values row else last

/-! Writing. -/

structure Choice where
  encoding : Compression
  base : Int4
  dataSize : Nat

/-- One turn of the first loop of `choose_compression`: `last` and `normalized`. -/
def normalizeRow (values : Nat → Int4) (nonnull : BitVec 64) (state : Int4 × (Nat → Int4)) (row : Nat) :
    Int4 × (Nat → Int4) :=
  (carried values nonnull state.1 row,Function.update state.2 row (carried values nonnull state.1 row))

def normalize (values : Nat → Int4) (nonnull : BitVec 64) (nrows : Nat) : Nat → Int4 :=
  ((List.range nrows).foldl (normalizeRow values nonnull) (0#32,fun _ => 0#32)).2

def deltaAt (normalized : Nat → Int4) (row : Nat) : Int :=
  (normalized row).toInt - (normalized (row - 1)).toInt

/-- The second loop: `fits_int8` and `fits_int16`. -/
def fitsRow (normalized : Nat → Int4) (fits : Bool × Bool) (row : Nat) : Bool × Bool :=
  (if deltaAt normalized row < -128 ∨ 127 < deltaAt normalized row then false else fits.1,
    if deltaAt normalized row < -32768 ∨ 32767 < deltaAt normalized row then false else fits.2)

def fits (normalized : Nat → Int4) (nrows : Nat) : Bool × Bool :=
  (List.range' 1 (nrows - 1)).foldl (fitsRow normalized) (true,true)

def chooseCompression (values : Nat → Int4) (nonnull : BitVec 64) (nrows : Nat) : Choice :=
  let normalized := normalize values nonnull nrows
  if (fits normalized nrows).1 then ⟨.delta8,normalized 0,nrows - 1⟩
  else if (fits normalized nrows).2 then ⟨.delta16,normalized 0,2 * (nrows - 1)⟩
  else ⟨.plain,normalized 0,4 * nrows⟩

/-- One turn of the first loop of `write_column`. -/
def markRow (nonnull : BitVec 64) (stored : CompressedColumn) (row : Nat) : CompressedColumn :=
  if nonnull.getLsbD row then {stored with validity := Bitmaps.setBit stored.validity row}
  else {stored with nullCount := stored.nullCount + 1}

/-- One turn of its second loop, at `row + 1`: `last`, and the memory with the difference. -/
def writeDelta (width : Nat) (values : Nat → Int4) (nonnull : BitVec 64) (output : Nat) (state : Int4 × Memory)
    (row : Nat) : Int4 × Memory :=
  (carried values nonnull state.1 (row + 1),
    store state.2 (output + width * row) (toBytes width
      (BitVec.ofInt (8 * width) ((carried values nonnull state.1 (row + 1)).toInt - state.1.toInt)).toNat))

def writeDeltas (width : Nat) (values : Nat → Int4) (nonnull : BitVec 64) (output : Nat) (base : Int4) (nrows : Nat)
    (memory : Memory) : Memory :=
  ((List.range (nrows - 1)).foldl (writeDelta width values nonnull output) (base,memory)).2

def writeValues (stored : CompressedColumn) (values : Nat → Int4) (nonnull : BitVec 64) (nrows : Nat) (memory : Memory) :
    Memory :=
  match stored.encoding with
  | .plain => store memory stored.dataOffset (pack 4 ((List.range nrows).map fun row => (values row).toNat))
  | .delta8 => writeDeltas 1 values nonnull stored.dataOffset stored.base nrows memory
  | .delta16 => writeDeltas 2 values nonnull stored.dataOffset stored.base nrows memory

def writeColumn (batch : CompressedBatch) (column : Nat) (values : Nat → Int4) (nonnull : BitVec 64) (nrows : Nat) :
    CompressedBatch :=
  let stored := (List.range nrows).foldl (markRow nonnull) (batch.columns column)
  {batch with
    columns := Function.update batch.columns column stored
    memory := writeValues stored values nonnull nrows batch.memory}

/-- The header of a column before its rows are written. -/
def placeColumn (stored : CompressedColumn) (choice : Choice) (offset : Nat) : CompressedColumn :=
  {stored with
    encoding := choice.encoding
    base := choice.base
    dataOffset := offset % 2 ^ 32}

section Build
variable (values : Nat → Nat → Int4) (nonnullRows : Nat → BitVec 64) (nrows : Nat)

/-- One turn of the second loop of `build_compressed_batch`, with `header_size`, which
`data_offset` takes as a `uint32`. -/
def buildColumn (state : CompressedBatch × Nat) (column : Nat) : CompressedBatch × Nat :=
  let choice := chooseCompression (values column) (nonnullRows column) nrows
  let placed := placeColumn (state.1.columns column) choice state.2
  (writeColumn {state.1 with columns := Function.update state.1.columns column placed} column (values column)
    (nonnullRows column) nrows,state.2 + maxalign choice.dataSize)

def addSize (bytes column : Nat) : Nat :=
  bytes + maxalign (chooseCompression (values column) (nonnullRows column) nrows).dataSize

/-- `palloc0`. -/
def emptyBatch (nrows bytes : Nat) : CompressedBatch where
  nrows := nrows
  bytes := bytes
  columns := fun _ => ⟨.plain,fun _ => 0#8,0,0#32,0⟩
  memory := fun _ => 0#8

def buildCompressedBatch (ncolumns : Nat) : CompressedBatch :=
  let bytes := (List.range ncolumns).foldl (addSize values nonnullRows nrows) (maxalign (headerSize ncolumns))
  ((List.range ncolumns).foldl (buildColumn values nonnullRows nrows)
    (emptyBatch nrows bytes,maxalign (headerSize ncolumns))).1

end Build

/-! Reading. -/

/-- One turn of the loop of `column_values`, at `row + 1`. -/
def decodeDelta (width : Nat) (memory : Memory) (data : Nat) (decoded : Nat → Int4) (row : Nat) : Nat → Int4 :=
  Function.update decoded (row + 1)
    (BitVec.ofInt 32 ((decoded row).toInt + (BitVec.ofNat (8 * width) (load width memory (data + width * row))).toInt))

def decodeDeltas (width : Nat) (memory : Memory) (data : Nat) (base : Int4) (nrows : Nat) : Nat → Int4 :=
  (List.range (nrows - 1)).foldl (decodeDelta width memory data) (Function.update (fun _ => 0#32) 0 base)

def columnValues (batch : CompressedBatch) (stored : CompressedColumn) : Nat → Int4 :=
  match stored.encoding with
  | .plain => fun row => BitVec.ofNat 32 (load 4 batch.memory (stored.dataOffset + 4 * row))
  | .delta8 => decodeDeltas 1 batch.memory stored.dataOffset stored.base batch.nrows
  | .delta16 => decodeDeltas 2 batch.memory stored.dataOffset stored.base batch.nrows

/-- The array that `prepare_column` makes of `nrows` rows from `start` on. -/
def arrowColumn (batch : CompressedBatch) (attnum start nrows : Nat) : ArrowArray where
  length := nrows
  nullCount := if (batch.columns (attnum - 1)).nullCount = 0 then 0 else -1
  offset := start
  validity := if (batch.columns (attnum - 1)).nullCount = 0 then none else some (batch.columns (attnum - 1)).validity
  values := columnValues batch (batch.columns (attnum - 1))

end PgBatch.Compressed
