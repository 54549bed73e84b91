import PgBatch.Sources.Compressed

/-! What is read from a compressed batch is what it was built from: the reader adds up the
differences that the writer took, and no column writes into another one. -/
namespace PgBatch.Compressed
open PgBatch.Sources Bytes Words

section Rows
variable (values : Nat → Int4) (nonnull : BitVec 64)

/-- The value that a row has in the loops: its own, or that of the last row before it that
is not NULL, or the base. -/
def running (base : Int4) (row : Nat) : Int4 :=
  (List.range row).foldl (fun last index => carried values nonnull last (index + 1)) base

theorem running_succ (base : Int4) (row : Nat) :
    running values nonnull base (row + 1) = carried values nonnull (running values nonnull base row) (row + 1) := by
  rw [running,List.range_succ,List.foldl_append]
  rfl

/-- The base of a column: its first value, or zero. -/
def baseOf : Int4 :=
  carried values nonnull 0#32 0

variable {values nonnull}

/-- A row that is not NULL has its own value. -/
theorem running_own {row : Nat} (valid : nonnull.getLsbD row = true) :
    running values nonnull (baseOf values nonnull) row = values row := by
  cases row with
  | zero => exact if_pos valid
  | succ row =>
    rw [running_succ]
    exact if_pos valid

/-- Both loops fill a NULL row alike. -/
theorem normalize_running (count : Nat) :
    (count = 0 ∨ ((List.range count).foldl (normalizeRow values nonnull) (0#32,fun _ => 0#32)).1 =
        running values nonnull (baseOf values nonnull) (count - 1)) ∧
      ∀ row, row < count → ((List.range count).foldl (normalizeRow values nonnull) (0#32,fun _ => 0#32)).2 row =
        running values nonnull (baseOf values nonnull) row := by
  induction count with
  | zero => exact ⟨.inl rfl,fun row none_ => absurd none_ (Nat.not_lt_zero row)⟩
  | succ count ih =>
    obtain ⟨last,rows⟩ := ih
    have next : carried values nonnull
        ((List.range count).foldl (normalizeRow values nonnull) (0#32,fun _ => 0#32)).1 count =
        running values nonnull (baseOf values nonnull) count := by
      cases count with
      | zero => rfl
      | succ count =>
        rw [last.resolve_left (Nat.succ_ne_zero count),running_succ]
        rfl
    rw [List.range_succ,List.foldl_append,List.foldl_cons,List.foldl_nil]
    refine ⟨.inr next,fun row inside => ?_⟩
    rw [normalizeRow,next]
    dsimp only
    by_cases same : row = count
    · rw [same,Function.update_self]
    · rw [Function.update_of_ne same]
      exact rows row (by omega)

theorem normalize_eq {nrows row : Nat} (inside : row < nrows) :
    normalize values nonnull nrows row = running values nonnull (baseOf values nonnull) row :=
  (normalize_running nrows).2 row inside

end Rows

/-! The choice of an encoding. -/

theorem fits_iff (normalized : Nat → Int4) (rows : List Nat) (start : Bool × Bool) :
    ((rows.foldl (fitsRow normalized) start).1 = true ↔
        start.1 = true ∧ ∀ row ∈ rows, -128 ≤ deltaAt normalized row ∧ deltaAt normalized row ≤ 127) ∧
      ((rows.foldl (fitsRow normalized) start).2 = true ↔
        start.2 = true ∧ ∀ row ∈ rows, -32768 ≤ deltaAt normalized row ∧ deltaAt normalized row ≤ 32767) := by
  induction rows generalizing start with
  | nil => simp
  | cons row rest ih =>
    rw [List.foldl_cons]
    obtain ⟨eight,sixteen⟩ := ih (fitsRow normalized start row)
    refine ⟨eight.trans ?_,sixteen.trans ?_⟩
    · simp only [fitsRow,List.forall_mem_cons]
      split
      · rename_i outside
        exact ⟨fun both => absurd both.1 Bool.false_ne_true,fun both => by have := both.2.1; omega⟩
      · rename_i within
        exact ⟨fun both => ⟨both.1,by omega,both.2⟩,fun both => ⟨both.1,both.2.2⟩⟩
    · simp only [fitsRow,List.forall_mem_cons]
      split
      · rename_i outside
        exact ⟨fun both => absurd both.1 Bool.false_ne_true,fun both => by have := both.2.1; omega⟩
      · rename_i within
        exact ⟨fun both => ⟨both.1,by omega,both.2⟩,fun both => ⟨both.1,both.2.2⟩⟩

/-- The bytes of a stored difference. -/
def Compression.deltaWidth : Compression → Option Nat
  | .plain => none
  | .delta8 => some 1
  | .delta16 => some 2

theorem one_byte : 0 < 1 := Nat.one_pos

theorem two_bytes : 0 < 2 := Nat.two_pos

theorem deltaWidth_pos {encoding : Compression} {width : Nat} (chosen : encoding.deltaWidth = some width) : 0 < width := by
  cases encoding <;> cases chosen
  · exact one_byte
  · exact two_bytes

def Compression.size (nrows : Nat) : Compression → Nat
  | .plain => 4 * nrows
  | .delta8 => nrows - 1
  | .delta16 => 2 * (nrows - 1)

section Choose
variable {values : Nat → Int4} {nonnull : BitVec 64} {nrows : Nat}

theorem chooseCompression_size :
    (chooseCompression values nonnull nrows).dataSize = (chooseCompression values nonnull nrows).encoding.size nrows := by
  unfold chooseCompression
  dsimp only
  split
  · rfl
  · split <;> rfl

theorem chooseCompression_base (positive : 0 < nrows) :
    (chooseCompression values nonnull nrows).base = baseOf values nonnull := by
  have first : normalize values nonnull nrows 0 = baseOf values nonnull := normalize_eq positive
  unfold chooseCompression
  dsimp only
  split
  · exact first
  · split <;> exact first

/-- The difference of two neighbours, as the writer takes it. -/
def delta (values : Nat → Int4) (nonnull : BitVec 64) (row : Nat) : Int :=
  (running values nonnull (baseOf values nonnull) (row + 1)).toInt - (running values nonnull (baseOf values nonnull) row).toInt

/-- The chosen width holds every difference. -/
theorem chooseCompression_fits {width : Nat}
    (chosen : (chooseCompression values nonnull nrows).encoding.deltaWidth = some width) {row : Nat}
    (inside : row + 1 < nrows) :
    -2 ^ (8 * width - 1) ≤ delta values nonnull row ∧ delta values nonnull row < 2 ^ (8 * width - 1) := by
  obtain ⟨eight,sixteen⟩ := fits_iff (normalize values nonnull nrows) (List.range' 1 (nrows - 1)) (true,true)
  have member : row + 1 ∈ List.range' 1 (nrows - 1) := List.mem_range'_1.mpr (by omega)
  have same : deltaAt (normalize values nonnull nrows) (row + 1) = delta values nonnull row := by
    rw [deltaAt,Nat.add_sub_cancel,normalize_eq inside,normalize_eq (Nat.lt_of_succ_lt inside)]
    rfl
  unfold chooseCompression at chosen
  dsimp only at chosen
  split at chosen
  · rename_i small
    cases chosen
    have bounds := (eight.mp small).2 _ member
    rw [same] at bounds
    norm_num
    omega
  · split at chosen
    · rename_i middle
      cases chosen
      have bounds := (sixteen.mp middle).2 _ member
      rw [same] at bounds
      norm_num
      omega
    · cases chosen

end Choose

/-! The loops of the writer. -/

section Write
variable {values : Nat → Int4} {nonnull : BitVec 64}

/-- A column whose rows were marked: its validity and the number of its NULLs. -/
structure Marked (nonnull : BitVec 64) (count : Nat) (before after : CompressedColumn) : Prop where
  encoding : after.encoding = before.encoding
  base : after.base = before.base
  data : after.dataOffset = before.dataOffset
  validity : ∀ row, Bitmaps.bitAt after.validity row = (decide (row < count) && nonnull.getLsbD row)
  counted : after.nullCount = 0 ↔ ∀ row, row < count → nonnull.getLsbD row = true

theorem markRows_ok (stored : CompressedColumn) (clear : ∀ row, Bitmaps.bitAt stored.validity row = false)
    (zero : stored.nullCount = 0) (count : Nat) :
    Marked nonnull count stored ((List.range count).foldl (markRow nonnull) stored) := by
  induction count with
  | zero => exact ⟨rfl,rfl,rfl,fun row => by simp [clear row],by simp [zero]⟩
  | succ count ih =>
    rw [List.range_succ,List.foldl_append,List.foldl_cons,List.foldl_nil]
    revert ih
    generalize (List.range count).foldl (markRow nonnull) stored = middle
    intro ih
    have split (row : Nat) : row < count + 1 ↔ row < count ∨ row = count := Nat.lt_succ_iff_lt_or_eq
    unfold markRow
    cases set : nonnull.getLsbD count with
    | true =>
      refine ⟨ih.encoding,ih.base,ih.data,fun row => ?_,ih.counted.trans ?_⟩
      · simp only [if_true]
        rw [Bitmaps.bitAt_setBit,ih.validity row]
        by_cases same : row = count
        · simp [same,set]
        · have still : (row < count + 1) = (row < count) := propext (by omega)
          simp [same,still]
      · refine ⟨fun all row inside => ((split row).mp inside).elim (all row) fun same => same ▸ set,
          fun all row inside => all row (Nat.lt_succ_of_lt inside)⟩
    | false =>
      refine ⟨ih.encoding,ih.base,ih.data,fun row => ?_,fun none_ => absurd none_ (Nat.succ_ne_zero _),fun all => ?_⟩
      · simp only [Bool.false_eq_true,if_false]
        rw [ih.validity row]
        by_cases same : row = count
        · simp [same,set]
        · have still : (row < count + 1) = (row < count) := propext (by omega)
          simp [still]
      · rw [all count (Nat.lt_succ_self count)] at set
        cases set

/-- The data of a column in memory. -/
def Written (values : Nat → Int4) (nonnull : BitVec 64) (nrows : Nat) (encoding : Compression) (offset : Nat)
    (memory : Memory) : Prop :=
  match encoding.deltaWidth with
  | none => ∀ row, row < nrows → load 4 memory (offset + 4 * row) = (values row).toNat
  | some width => ∀ row, row + 1 < nrows →
      load width memory (offset + width * row) = (BitVec.ofInt (8 * width) (delta values nonnull row)).toNat

theorem pow_bytes (width : Nat) : 256 ^ width = 2 ^ (8 * width) := by
  rw [Nat.pow_mul]

theorem writeDeltas_ok (width : Nat) (output nrows : Nat) (memory : Memory) :
    (∀ row, row + 1 < nrows →
      load width (writeDeltas width values nonnull output (baseOf values nonnull) nrows memory) (output + width * row) =
        (BitVec.ofInt (8 * width) (delta values nonnull row)).toNat) ∧
      ∀ address, address < output ∨ output + width * (nrows - 1) ≤ address →
        writeDeltas width values nonnull output (baseOf values nonnull) nrows memory address = memory address := by
  obtain ⟨written,ran,loads,outside⟩ := loop_stores width output
    (fun last row => (BitVec.ofInt (8 * width) ((carried values nonnull last (row + 1)).toInt - last.toInt)).toNat)
    (fun last row => carried values nonnull last (row + 1)) (fun last row => by rw [pow_bytes]; exact BitVec.isLt _)
    (baseOf values nonnull) memory (nrows - 1)
  have same : writeDeltas width values nonnull output (baseOf values nonnull) nrows memory = written :=
    congrArg Prod.snd ran
  rw [same]
  refine ⟨fun row inside => ?_,outside⟩
  rw [loads row (by omega),delta,running_succ]
  rfl

theorem writeValues_ok {stored : CompressedColumn} (base : stored.base = baseOf values nonnull) (nrows : Nat)
    (memory : Memory) :
    Written values nonnull nrows stored.encoding stored.dataOffset (writeValues stored values nonnull nrows memory) ∧
      ∀ address, address < stored.dataOffset ∨ stored.dataOffset + stored.encoding.size nrows ≤ address →
        writeValues stored values nonnull nrows memory address = memory address := by
  unfold writeValues Written Compression.size
  rw [base]
  cases stored.encoding with
  | plain =>
    have small : ∀ number ∈ (List.range nrows).map fun row => (values row).toNat, number < 256 ^ 4 := by
      simp only [List.forall_mem_map]
      exact fun row _ => (values row).isLt
    refine ⟨fun row inside => ?_,fun address beyond => store_outside (by simpa using beyond)⟩
    rw [load_store_pack memory stored.dataOffset small (by simpa using inside)]
    simp
  | delta8 =>
    obtain ⟨loads,outside⟩ := @writeDeltas_ok values nonnull 1 stored.dataOffset nrows memory
    exact ⟨loads,fun address beyond => outside address (by simpa using beyond)⟩
  | delta16 => exact writeDeltas_ok 2 stored.dataOffset nrows memory

/-- The data depends on its own bytes only. -/
theorem Written.congr {nrows offset : Nat} {encoding : Compression} {memory other : Memory}
    (written : Written values nonnull nrows encoding offset memory)
    (same : ∀ address, offset ≤ address → address < offset + encoding.size nrows → other address = memory address) :
    Written values nonnull nrows encoding offset other := by
  unfold Written Compression.size at *
  cases encoding with
  | plain =>
    dsimp only at same
    intro row inside
    rw [← written row inside]
    exact load_congr fun index small => same _ (by omega) (by omega)
  | delta8 =>
    dsimp only at same
    intro row inside
    rw [← written row inside]
    exact load_congr fun index small => same _ (by omega) (by omega)
  | delta16 =>
    dsimp only at same
    intro row inside
    rw [← written row inside]
    exact load_congr fun index small => same _ (by omega) (by omega)

end Write

/-! The loop of the reader. -/

theorem toInt_stored {width : Nat} {number : Int} (low : -2 ^ (8 * width - 1) ≤ number)
    (high : number < 2 ^ (8 * width - 1)) (positive : 0 < width) :
    (BitVec.ofNat (8 * width) (BitVec.ofInt (8 * width) number).toNat).toInt = number := by
  rw [BitVec.ofNat_toNat,BitVec.setWidth_eq,BitVec.toInt_ofInt]
  have twice : (2 : Int) ^ (8 * width) = 2 * 2 ^ (8 * width - 1) := by
    rw [← pow_succ',Nat.sub_add_cancel (by omega)]
  have size : ((2 ^ (8 * width) : Nat) : Int) = 2 * 2 ^ (8 * width - 1) := by
    rw [Nat.cast_pow]
    exact twice
  refine Int.bmod_eq_of_le ?_ ?_ <;> rw [size] <;> omega

section Read
variable {values : Nat → Int4} {nonnull : BitVec 64}

theorem decodeDeltas_ok {width nrows data : Nat} {memory : Memory} (positive : 0 < width)
    (loads : ∀ row, row + 1 < nrows →
      load width memory (data + width * row) = (BitVec.ofInt (8 * width) (delta values nonnull row)).toNat)
    (within : ∀ row, row + 1 < nrows →
      -2 ^ (8 * width - 1) ≤ delta values nonnull row ∧ delta values nonnull row < 2 ^ (8 * width - 1))
    {row : Nat} (inside : row < nrows) :
    decodeDeltas width memory data (baseOf values nonnull) nrows row = running values nonnull (baseOf values nonnull) row := by
  have decoded (count : Nat) (few : count + 1 ≤ nrows) : ∀ row, row ≤ count →
      (List.range count).foldl (decodeDelta width memory data)
        (Function.update (fun _ => 0#32) 0 (baseOf values nonnull)) row =
        running values nonnull (baseOf values nonnull) row := by
    induction count with
    | zero =>
      intro row first
      rw [Nat.le_zero.mp first]
      rfl
    | succ count ih =>
      intro row behind
      have earlier := ih (by omega)
      rw [List.range_succ,List.foldl_append,List.foldl_cons,List.foldl_nil,decodeDelta]
      by_cases same : row = count + 1
      · rw [same,Function.update_self,earlier count (Nat.le_refl count),loads count few,
          toInt_stored (within count few).1 (within count few).2 positive,delta,add_sub_cancel,BitVec.ofInt_toInt]
      · rw [Function.update_of_ne same]
        exact earlier row (by omega)
  exact decoded (nrows - 1) (by omega) row (by omega)

/-- The signed number that stands in the data of a column for a difference. -/
def storedDelta (memory : Memory) (width data row : Nat) : Int :=
  (BitVec.ofNat (8 * width) (load width memory (data + width * row))).toInt

end Read

/-! A batch of many columns. -/

section Build
variable (values : Nat → Nat → Int4) (nonnullRows : Nat → BitVec 64) (nrows ncolumns : Nat)

/-- Where the data of a column starts. -/
def place (column : Nat) : Nat :=
  (List.range column).foldl (addSize values nonnullRows nrows) (maxalign (headerSize ncolumns))

theorem place_succ (column : Nat) : place values nonnullRows nrows ncolumns (column + 1) =
    place values nonnullRows nrows ncolumns column +
      maxalign (chooseCompression (values column) (nonnullRows column) nrows).dataSize := by
  rw [place,List.range_succ,List.foldl_append]
  rfl

theorem place_mono {one two : Nat} (le : one ≤ two) :
    place values nonnullRows nrows ncolumns one ≤ place values nonnullRows nrows ncolumns two := by
  induction two, le using Nat.le_induction with
  | base => exact Nat.le_refl _
  | succ two _ ih =>
    rw [place_succ]
    exact Nat.le_add_right_of_le ih

theorem place_size (column : Nat) : place values nonnullRows nrows ncolumns column +
    (chooseCompression (values column) (nonnullRows column) nrows).encoding.size nrows ≤
      place values nonnullRows nrows ncolumns (column + 1) := by
  rw [place_succ,chooseCompression_size]
  unfold maxalign
  omega

variable {nrows} in
theorem place_le (small : nrows ≤ 64) (column : Nat) :
    place values nonnullRows nrows ncolumns column ≤ headerSize ncolumns + 7 + 256 * column := by
  induction column with
  | zero =>
    change maxalign (headerSize ncolumns) ≤ _
    unfold maxalign
    omega
  | succ column ih =>
    rw [place_succ,chooseCompression_size]
    have size : ((chooseCompression (values column) (nonnullRows column) nrows).encoding.size nrows) ≤ 256 := by
      unfold Compression.size
      split <;> omega
    unfold maxalign
    omega

/-- A column as the batch stores it. -/
structure Encoded (column : Nat) (stored : CompressedColumn) (memory : Memory) : Prop where
  encoding : stored.encoding = (chooseCompression (values column) (nonnullRows column) nrows).encoding
  base : stored.base = baseOf (values column) (nonnullRows column)
  data : stored.dataOffset = place values nonnullRows nrows ncolumns column
  validity : ∀ row, row < nrows → Bitmaps.bitAt stored.validity row = (nonnullRows column).getLsbD row
  counted : stored.nullCount = 0 ↔ ∀ row, row < nrows → (nonnullRows column).getLsbD row = true
  written : Written (values column) (nonnullRows column) nrows stored.encoding stored.dataOffset memory

/-- The columns that the loop of `build_compressed_batch` has come to. -/
structure Building (count : Nat) (state : CompressedBatch × Nat) : Prop where
  header : state.2 = place values nonnullRows nrows ncolumns count
  rows : state.1.nrows = nrows
  bytes : state.1.bytes = place values nonnullRows nrows ncolumns ncolumns
  encoded : ∀ column, column < count →
    Encoded values nonnullRows nrows ncolumns column (state.1.columns column) state.1.memory
  untouched : ∀ column, count ≤ column → state.1.columns column = (emptyBatch 0 0).columns column

variable {values nonnullRows nrows ncolumns}

/-- What one turn of the loop writes. -/
theorem buildColumn_eq {batch : CompressedBatch} {header count : Nat} {stored : CompressedColumn}
    (marked : (List.range nrows).foldl (markRow (nonnullRows count)) (placeColumn (batch.columns count)
      (chooseCompression (values count) (nonnullRows count) nrows) header) = stored) :
    ∃ columns : Nat → CompressedColumn, columns count = stored ∧
      (∀ column, column ≠ count → columns column = batch.columns column) ∧
      buildColumn values nonnullRows nrows (batch,header) count =
        ({batch with
          columns := columns
          memory := writeValues stored (values count) (nonnullRows count) nrows batch.memory},
        header + maxalign (chooseCompression (values count) (nonnullRows count) nrows).dataSize) := by
  subst marked
  let placed := placeColumn (batch.columns count) (chooseCompression (values count) (nonnullRows count) nrows) header
  refine ⟨Function.update (Function.update batch.columns count placed) count
    ((List.range nrows).foldl (markRow (nonnullRows count)) placed),Function.update_self ..,fun column apart => ?_,?_⟩
  · rw [Function.update_of_ne apart,Function.update_of_ne apart]
  · unfold buildColumn writeColumn
    simp only [Function.update_self]
    rfl

theorem buildColumn_building (positive : 0 < nrows) (small : nrows ≤ 64) (few : ncolumns ≤ 1600) {count : Nat}
    (more : count < ncolumns) {state : CompressedBatch × Nat}
    (building : Building values nonnullRows nrows ncolumns count state) :
    Building values nonnullRows nrows ncolumns (count + 1) (buildColumn values nonnullRows nrows state count) := by
  obtain ⟨batch,header⟩ := state
  have reached : header = place values nonnullRows nrows ncolumns count := building.header
  have fresh : batch.columns count = (emptyBatch 0 0).columns count := building.untouched count (Nat.le_refl count)
  have marked := @markRows_ok (nonnullRows count)
    (placeColumn (batch.columns count) (chooseCompression (values count) (nonnullRows count) nrows) header)
    (by rw [fresh]; exact Bitmaps.bitAt_zero) (by rw [fresh]; rfl) nrows
  obtain ⟨columns,own,others,built⟩ := @buildColumn_eq values nonnullRows nrows batch header count _ rfl
  rw [← own] at marked built
  rw [built]
  have data : (columns count).dataOffset = place values nonnullRows nrows ncolumns count := by
    have bound := place_le values nonnullRows ncolumns small count
    unfold headerSize at bound
    rw [marked.data,placeColumn,reached,Nat.mod_eq_of_lt (by omega)]
  have base : (columns count).base = baseOf (values count) (nonnullRows count) :=
    marked.base.trans (chooseCompression_base positive)
  obtain ⟨written,outside⟩ := writeValues_ok base nrows batch.memory
  refine ⟨?_,building.rows,building.bytes,fun column inside => ?_,fun column above => ?_⟩
  · rw [place_succ,reached]
  · rcases Nat.lt_succ_iff_lt_or_eq.mp inside with earlier | rfl
    · have before := building.encoded column earlier
      dsimp only at before ⊢
      rw [others column (Nat.ne_of_lt earlier)]
      refine ⟨before.encoding,before.base,before.data,before.validity,before.counted,?_⟩
      refine before.written.congr fun address _ below => outside address (.inl ?_)
      have size := place_size values nonnullRows nrows ncolumns column
      have behind := place_mono values nonnullRows nrows ncolumns earlier
      rw [before.encoding,before.data] at below
      rw [data]
      exact Nat.lt_of_lt_of_le below (Nat.le_trans size behind)
    · exact ⟨marked.encoding,base,data,fun row within => by rw [marked.validity]; simp [within],marked.counted,written⟩
  · dsimp only
    rw [others column (by omega)]
    exact building.untouched column (by omega)

/-- Every column of a batch is stored as it was chosen to be. -/
theorem buildCompressedBatch_encoded (positive : 0 < nrows) (small : nrows ≤ 64) (few : ncolumns ≤ 1600) :
    (buildCompressedBatch values nonnullRows nrows ncolumns).nrows = nrows ∧
      (buildCompressedBatch values nonnullRows nrows ncolumns).bytes = place values nonnullRows nrows ncolumns ncolumns ∧
      ∀ column, column < ncolumns → Encoded values nonnullRows nrows ncolumns column
        ((buildCompressedBatch values nonnullRows nrows ncolumns).columns column)
        (buildCompressedBatch values nonnullRows nrows ncolumns).memory := by
  have loop (count : Nat) (within : count ≤ ncolumns) : Building values nonnullRows nrows ncolumns count
      ((List.range count).foldl (buildColumn values nonnullRows nrows)
        (emptyBatch nrows (place values nonnullRows nrows ncolumns ncolumns),maxalign (headerSize ncolumns))) := by
    induction count with
    | zero => exact ⟨rfl,rfl,rfl,fun column none_ => absurd none_ (Nat.not_lt_zero column),fun _ _ => rfl⟩
    | succ count ih =>
      rw [List.range_succ,List.foldl_append]
      exact buildColumn_building positive small few within (ih (Nat.le_of_succ_le within))
  have whole := loop ncolumns (Nat.le_refl ncolumns)
  exact ⟨whole.rows,whole.bytes,whole.encoded⟩

/-- A reader of the data finds the value of every row that is not NULL. -/
theorem columnValues_ok {batch : CompressedBatch} {column : Nat} {stored : CompressedColumn} (rows : batch.nrows = nrows)
    (encoded : Encoded values nonnullRows nrows ncolumns column stored batch.memory) {row : Nat} (inside : row < nrows)
    (valid : (nonnullRows column).getLsbD row = true) : columnValues batch stored row = values column row := by
  have written := encoded.written
  unfold Written at written
  unfold columnValues
  have within (width : Nat) (chosen : stored.encoding.deltaWidth = some width) (row : Nat) (more : row + 1 < nrows) :=
    @chooseCompression_fits (values column) (nonnullRows column) nrows width (encoded.encoding ▸ chosen) row more
  rw [encoded.base,rows]
  cases form : stored.encoding with
  | plain =>
    rw [form] at written
    change BitVec.ofNat 32 (load 4 batch.memory (stored.dataOffset + 4 * row)) = _
    rw [written row inside,BitVec.ofNat_toNat,BitVec.setWidth_eq]
  | delta8 =>
    rw [form] at written within
    exact (decodeDeltas_ok one_byte written (within 1 rfl) inside).trans (running_own valid)
  | delta16 =>
    rw [form] at written within
    exact (decodeDeltas_ok two_bytes written (within 2 rfl) inside).trans (running_own valid)

end Build

/-- The cells that a batch is built from. -/
def original (values : Nat → Nat → Int4) (nonnullRows : Nat → BitVec 64) (column row : Nat) : Option Int4 :=
  if (nonnullRows column).getLsbD row then some (values column row) else none

section Window
variable {values : Nat → Nat → Int4} {nonnullRows : Nat → BitVec 64} {nrows ncolumns column start count : Nat}
  {batch : CompressedBatch}

/-- A window of a column has the validity and the values of its rows. -/
theorem arrowColumn_row (rows : batch.nrows = nrows)
    (encoded : Encoded values nonnullRows nrows ncolumns column (batch.columns column) batch.memory)
    (within : start + count ≤ nrows) {row : Nat} (below : row < count) :
    (arrowColumn batch (column + 1) start count).rowIsValid row = (nonnullRows column).getLsbD (start + row) ∧
      ((nonnullRows column).getLsbD (start + row) = true →
        (arrowColumn batch (column + 1) start count).values (start + row) = values column (start + row)) := by
  have inside : start + row < nrows := by omega
  refine ⟨?_,fun valid => columnValues_ok rows encoded inside valid⟩
  unfold ArrowArray.rowIsValid arrowColumn
  rw [Nat.add_sub_cancel]
  dsimp only
  by_cases full : (batch.columns column).nullCount = 0
  · rw [if_pos full,encoded.counted.mp full (start + row) inside]
  · rw [if_neg full]
    exact encoded.validity (start + row) inside

/-- So has the array, and both of its views. -/
theorem arrowColumn_cell (rows : batch.nrows = nrows)
    (encoded : Encoded values nonnullRows nrows ncolumns column (batch.columns column) batch.memory)
    (within : start + count ≤ nrows) {row : Nat} (below : row < count) :
    (arrowColumn batch (column + 1) start count).cell row = original values nonnullRows column (start + row) := by
  obtain ⟨valid,value⟩ := arrowColumn_row rows encoded within below
  unfold ArrowArray.cell original
  rw [valid]
  by_cases set : (nonnullRows column).getLsbD (start + row) = true
  · rw [if_pos set,if_pos set]
    exact congrArg some (value set)
  · rw [if_neg set,if_neg set]

theorem arrowColumn_counted (batch : CompressedBatch) (attnum start count : Nat) :
    (arrowColumn batch attnum start count).Counted := by
  intro zero row _
  unfold arrowColumn at zero
  dsimp only at zero
  unfold ArrowArray.rowIsValid arrowColumn
  dsimp only
  by_cases full : (batch.columns (attnum - 1)).nullCount = 0
  · rw [if_pos full]
  · rw [if_neg full] at zero
    cases zero

theorem arrowColumn_seen (rows : batch.nrows = nrows) (small : nrows ≤ 64)
    (encoded : Encoded values nonnullRows nrows ncolumns column (batch.columns column) batch.memory)
    (within : start + count ≤ nrows) {row : Nat} (below : row < count) :
    (arrowColumn batch (column + 1) start count).int4Vector.seen row =
      original values nonnullRows column (start + row) := by
  have addressed := @int4Vector_addressed (arrowColumn batch (column + 1) start count)
    (show start + count ≤ 2 ^ 31 by omega)
  rw [addressed.seen below,int4Vector_cell (arrowColumn_counted batch (column + 1) start count) below]
  exact arrowColumn_cell rows encoded within below

end Window

/-- For every batch and each of its columns: the stored differences are those of the filled
rows and fit their width; and any window of the column has the validity of every row and
the value of every row that is not NULL, in the Arrow array and in both views of it. -/
theorem column_round_trip (values : Nat → Nat → Int4) (nonnullRows : Nat → BitVec 64) {nrows ncolumns column : Nat}
    (positive : 0 < nrows) (small : nrows ≤ 64) (few : ncolumns ≤ 1600) (inside : column < ncolumns) :
    (∀ width, ((buildCompressedBatch values nonnullRows nrows ncolumns).columns column).encoding.deltaWidth = some width →
      ∀ row, row + 1 < nrows →
        (-2 ^ (8 * width - 1) ≤ delta (values column) (nonnullRows column) row ∧
          delta (values column) (nonnullRows column) row < 2 ^ (8 * width - 1)) ∧
        storedDelta (buildCompressedBatch values nonnullRows nrows ncolumns).memory width
          ((buildCompressedBatch values nonnullRows nrows ncolumns).columns column).dataOffset row =
            delta (values column) (nonnullRows column) row) ∧
    ∀ start count, start + count ≤ nrows → ∀ array,
      arrowColumn (buildCompressedBatch values nonnullRows nrows ncolumns) (column + 1) start count = array →
      ∀ row, row < count →
        array.rowIsValid row = (nonnullRows column).getLsbD (start + row) ∧
        ((nonnullRows column).getLsbD (start + row) = true →
          array.values (array.offset + row) = values column (start + row)) ∧
        array.int4Vector.seen row = original values nonnullRows column (start + row) ∧
        ∀ datum wanted, datum.Holds array → wanted.getLsbD row = true →
          (fetchDatums array datum wanted).vector.cell row = original values nonnullRows column (start + row) := by
  obtain ⟨rows,_,columns⟩ := @buildCompressedBatch_encoded values nonnullRows nrows ncolumns positive small few
  have encoded := columns column inside
  refine ⟨fun width chosen row more => ?_,fun start count within array same row below => ?_⟩
  · have fits := @chooseCompression_fits (values column) (nonnullRows column) nrows width (encoded.encoding ▸ chosen) row more
    refine ⟨fits,?_⟩
    have written := encoded.written
    unfold Written at written
    rw [chosen] at written
    rw [storedDelta,written row more]
    exact toInt_stored fits.1 fits.2 (deltaWidth_pos chosen)
  · subst same
    obtain ⟨valid,value⟩ := arrowColumn_row rows encoded within below
    refine ⟨valid,value,arrowColumn_seen rows small encoded within below,fun datum wanted holds asked => ?_⟩
    obtain ⟨held,fetched⟩ := fetchDatums_ok holds wanted
    rw [held.vector (fetched row asked)]
    exact arrowColumn_cell rows encoded within below

/-- The largest and the smallest int32 in turn. -/
def farApart (_ row : Nat) : Int4 :=
  if row = 1 then 0x80000000#32 else 0x7fffffff#32

/-- Three rows, the first one NULL: a window of the other two. -/
theorem farApart_round_trip :
    (arrowColumn (buildCompressedBatch farApart (fun _ => 6#64) 3 1) 1 1 2).int4Vector.seen 0 = some 0x80000000#32 ∧
      (arrowColumn (buildCompressedBatch farApart (fun _ => 6#64) 3 1) 1 1 2).int4Vector.seen 1 = some 0x7fffffff#32 := by
  obtain ⟨_,windows⟩ := column_round_trip farApart (fun _ => 6#64) (show 0 < 3 by decide) (by decide)
    (show 1 ≤ 1600 by decide) (show 0 < 1 by decide)
  exact ⟨(windows 1 2 (by decide) _ rfl 0 (by decide)).2.2.1,(windows 1 2 (by decide) _ rfl 1 (by decide)).2.2.1⟩

end PgBatch.Compressed
