import PgBatch.Kernels.Int4
import PgBatch.Library.Sweep

/-! The hash kernel (`kernels/int4_hash.c`) for vectors of either layout and
selections of any number of words. -/
namespace PgBatch
open Words Sweeps

/-- The hashes, and the `valid_rows` of the kernel. -/
abbrev HashState := (Nat → BitVec 32) × Selection

/-- The row loop of `hash_two_keys`, behind `valid_rows->words[word] = 0`. -/
def hashTwoRow (left right : Int4Vector) (word : Nat) (state : HashState) (bitno : Nat) : HashState :=
  let row := 64 * word + bitno
  if !left.rowIsNull row && !right.rowIsNull row then
    (Function.update state.1 row (hashCombine (murmurhash32 (left.rowValue row)) (murmurhash32 (right.rowValue row))),
      state.2.store word (state.2.words word ||| bit 64 bitno))
  else state

def hashTwoWord (left right : Int4Vector) (selection : Selection) (state : HashState) (word : Nat) : HashState :=
  (rows (selection.word word)).foldl (hashTwoRow left right word) (state.1,state.2.store word 0#64)

/-- `hash_two_keys`. -/
def hashTwoVectors (left right : Int4Vector) (selection : Selection) (state : HashState) : HashState :=
  (List.range selection.nwords).foldl (hashTwoWord left right selection) state

/-- The row loops of the general path, which index validity bits by `offset + row` as an `int64`. -/
def hashKeyRow (column : Int4Vector) (key word : Nat) (state : HashState) (bitno : Nat) : HashState :=
  let row := 64 * word + bitno
  let cleared := (state.1,state.2.store word (state.2.words word &&& ~~~bit 64 bitno))
  match column with
  | .datum values isnull =>
    if isnull row then cleared else (hashValue state.1 row key (datumGetInt32 (values row)),state.2)
  | .packed values none offset => (hashValue state.1 row key (values (offset + row)),state.2)
  | .packed values (some validity) offset =>
    if !validity (offset + row) then cleared else (hashValue state.1 row key (values (offset + row)),state.2)

def hashKeyWord (column : Int4Vector) (key : Nat) (state : HashState) (word : Nat) : HashState :=
  (rows (state.2.words word)).foldl (hashKeyRow column key word) state

/-- The general path: all words for one key after the other. -/
def hashAllVectors (keys : List Int4Vector) (selection : Selection) (state : HashState) : HashState :=
  let valid := (List.range selection.nwords).foldl (fun valid word => valid.store word (selection.word word)) state.2
  keys.zipIdx.foldl (fun state key => (List.range selection.nwords).foldl (hashKeyWord key.1 key.2) state) (state.1,valid)

/-- `pg_batch_hash_int4`. -/
def hashVectors (keys : List Int4Vector) (selection : Selection) (state : HashState) : HashState :=
  match keys with
  | [left,right] => hashTwoVectors left right selection state
  | keys => hashAllVectors keys selection state

/-! A step of the kernel changes the hash and the bit of one row. -/

/-- What the state says of a row. -/
def HashState.at (state : HashState) (row : Nat) : BitVec 32 × Bool :=
  (state.1 row,(state.2.words (row / 64)).getLsbD (row % 64))

/-- The place of a row within a word, if it is in that word. -/
def inWord (word row : Nat) : Nat :=
  if row / 64 = word then row % 64 else 64

theorem inWord_iff {word row bitno : Nat} (inside : bitno < 64) : inWord word row = bitno ↔ row = 64 * word + bitno := by
  unfold inWord
  split <;> omega

theorem at_store (state : HashState) (word : Nat) (bits : BitVec 64) (row : Nat) :
    HashState.at (state.1,state.2.store word bits) row =
      (state.1 row,if row / 64 = word then bits.getLsbD (row % 64) else (state.at row).2) := by
  unfold HashState.at Selection.store
  by_cases same : row / 64 = word
  · simp [same]
  · simp [same]

/-- A row that has been visited for a key. -/
def keyed (column : Column) (key row : Nat) (cell : BitVec 32 × Bool) : BitVec 32 × Bool :=
  match column row with
  | none => (cell.1,false)
  | some value => (if key = 0 then murmurhash32 value else hashCombine cell.1 (murmurhash32 value),cell.2)

theorem hashKeyRow_eq (column : Int4Vector) (key word : Nat) (state : HashState) (bitno : Nat) :
    hashKeyRow column key word state bitno = match column.cell (64 * word + bitno) with
      | none => (state.1,state.2.store word (state.2.words word &&& ~~~bit 64 bitno))
      | some value => (hashValue state.1 (64 * word + bitno) key value,state.2) := by
  cases column with
  | datum values isnull =>
    simp only [hashKeyRow,Int4Vector.cell]
    cases isnull (64 * word + bitno) <;> rfl
  | packed values validity offset =>
    cases validity with
    | none => rfl
    | some validity =>
      have same : ((64 * word + bitno : Nat) : Int) + offset = offset + (64 * word + bitno : Nat) := Int.add_comm ..
      simp only [hashKeyRow,Int4Vector.cell,same]
      cases validity (offset + (64 * word + bitno : Nat)) <;> rfl

theorem at_hashKeyRow (column : Int4Vector) (key word : Nat) (state : HashState) {bitno : Nat} (inside : bitno < 64)
    (row : Nat) : (hashKeyRow column key word state bitno).at row =
      if inWord word row = bitno then keyed column.cell key row (state.at row) else state.at row := by
  simp only [inWord_iff inside]
  rw [hashKeyRow_eq]
  by_cases here : row = 64 * word + bitno
  · subst here
    rw [if_pos rfl,keyed]
    cases column.cell (64 * word + bitno) with
    | none =>
      dsimp only
      rw [at_store]
      have place : (64 * word + bitno) % 64 = bitno := by omega
      simp [show (64 * word + bitno) / 64 = word by omega,place,inside,HashState.at]
    | some value => simp [HashState.at,hashValue]
  · rw [if_neg here]
    cases column.cell (64 * word + bitno) with
    | none =>
      dsimp only
      rw [at_store]
      unfold HashState.at
      by_cases same : row / 64 = word
      · have apart : row % 64 ≠ bitno := by omega
        rw [if_pos same,BitVec.getLsbD_and,BitVec.getLsbD_not,getLsbD_bit,← same]
        simp [apart,Nat.mod_lt]
      · simp [same]
    | some value => simp [HashState.at,hashValue,here]

theorem at_hashKeyWord (column : Int4Vector) (key : Nat) (state : HashState) (word row : Nat) :
    (hashKeyWord column key state word).at row =
      if row / 64 = word then (if (state.at row).2 then keyed column.cell key row (state.at row) else state.at row)
      else state.at row := by
  rw [hashKeyWord,foldl_sweep (inWord word) HashState.at (keyed column.cell key) (rows_nodup _)
    fun state bitno member => at_hashKeyRow column key word state (rows_lt member)]
  unfold inWord
  by_cases same : row / 64 = word
  · simp [same,HashState.at]
  · rw [if_neg same,if_neg same,if_neg]
    intro member
    exact absurd (rows_lt member) (Nat.lt_irrefl _)

/-- The loop over the words for one key. -/
theorem at_hashKeyWords (column : Int4Vector) (key count : Nat) (state : HashState) {row : Nat} (inside : row / 64 < count) :
    ((List.range count).foldl (hashKeyWord column key) state).at row =
      if (state.at row).2 then keyed column.cell key row (state.at row) else state.at row := by
  rw [foldl_sweep (· / 64) HashState.at
    (fun place cell => if cell.2 then keyed column.cell key place cell else cell) List.nodup_range
    fun state word _ place => at_hashKeyWord column key state word place]
  rw [if_pos (List.mem_range.mpr inside)]

theorem at_hashKeys (keys : List Int4Vector) (count : Nat) (state : HashState) {row : Nat} (inside : row / 64 < count) :
    let result := keys.zipIdx.foldl (fun state key => (List.range count).foldl (hashKeyWord key.1 key.2) state) state
    (result.at row).2 = ((state.at row).2 && (keysAt (keys.map Int4Vector.cell) row).isSome) ∧
      ∀ values, keys ≠ [] → (state.at row).2 = true → keysAt (keys.map Int4Vector.cell) row = some values →
        (result.at row).1 = keyHash values := by
  induction keys using List.reverseRecOn with
  | nil => simp [keysAt]
  | append_singleton init last ih =>
    obtain ⟨valid,hash⟩ := ih
    simp only [List.zipIdx_append,List.foldl_append,List.zipIdx_cons,List.zipIdx_nil,List.foldl_cons,
      List.foldl_nil,Nat.zero_add,at_hashKeyWords last init.length count _ inside]
    generalize init.zipIdx.foldl (fun state key => (List.range count).foldl (hashKeyWord key.1 key.2) state) state =
      middle at valid hash ⊢
    have split : keysAt ((init ++ [last]).map Int4Vector.cell) row =
        (keysAt (init.map Int4Vector.cell) row).bind fun values => (last.cell row).map fun value => values ++ [value] := by
      simp only [keysAt,List.map_append,List.map_cons,List.map_nil,List.mapM_append,List.mapM_cons,List.mapM_nil]
      cases List.mapM (fun column : Column => column row) (init.map Int4Vector.cell) <;> cases last.cell row <;> rfl
    constructor
    · rw [split]
      cases present : (middle.at row).2 with
      | false =>
        rw [valid,Bool.and_eq_false_iff] at present
        rw [if_neg Bool.false_ne_true,valid]
        rcases present with never | absent
        · rw [never,Bool.false_and,Bool.false_and]
        · rw [Option.not_isSome_iff_eq_none.mp (Bool.eq_false_iff.mp absent)]
          rfl
      | true =>
        rw [valid,Bool.and_eq_true] at present
        obtain ⟨values,earlier⟩ := Option.isSome_iff_exists.mp present.2
        simp only [if_true,keyed,present.1,earlier]
        cases last.cell row with
        | none => rfl
        | some value => simp [valid,present.1,earlier]
    · intro values _ selected all
      rw [split] at all
      obtain ⟨before,earlier,rest⟩ := Option.bind_eq_some_iff.mp all
      obtain ⟨value,found,joined⟩ := Option.map_eq_some_iff.mp rest
      have present : (middle.at row).2 = true := by
        rw [valid,selected,earlier]
        rfl
      rw [if_pos present,keyed,found,← joined]
      by_cases first : init = []
      · subst first
        cases earlier
        rfl
      · have length : init.length ≠ 0 := by simpa using first
        have size : before ≠ [] := by
          rintro rfl
          exact length (by simpa using (keysAt_length earlier).symm)
        simp only [if_neg length]
        rw [keyHash_append size,hash before first selected earlier]

theorem at_hashTwoRow (left right : Int4Vector) (word : Nat) (state : HashState) {bitno : Nat} (inside : bitno < 64)
    (row : Nat) : (hashTwoRow left right word state bitno).at row =
      if inWord word row = bitno then
        (if !left.rowIsNull row && !right.rowIsNull row then
          (hashCombine (murmurhash32 (left.rowValue row)) (murmurhash32 (right.rowValue row)),true) else state.at row)
      else state.at row := by
  simp only [inWord_iff inside,hashTwoRow]
  by_cases here : row = 64 * word + bitno
  · subst here
    rw [if_pos rfl]
    split
    · rw [at_store (Function.update state.1 _ _,state.2)]
      have place : (64 * word + bitno) % 64 = bitno := by omega
      simp [show (64 * word + bitno) / 64 = word by omega,place,inside]
    · rfl
  · rw [if_neg here]
    split
    · rw [at_store (Function.update state.1 _ _,state.2)]
      unfold HashState.at
      dsimp only
      rw [Function.update_of_ne here]
      by_cases same : row / 64 = word
      · have apart : row % 64 ≠ bitno := by omega
        rw [if_pos same,BitVec.getLsbD_or,getLsbD_bit,← same]
        simp [apart]
      · simp [same]
    · rfl

/-- The two-key path visits every word once. -/
theorem at_hashTwoVectors (left right : Int4Vector) (selection : Selection) (state : HashState) {row : Nat}
    (inside : row / 64 < selection.nwords) : (hashTwoVectors left right selection state).at row =
      if selection.Selected row ∧ left.rowIsNull row = false ∧ right.rowIsNull row = false then
        (hashCombine (murmurhash32 (left.rowValue row)) (murmurhash32 (right.rowValue row)),true)
      else (state.1 row,false) := by
  have words (state : HashState) (word : Nat) (place : Nat) : (hashTwoWord left right selection state word).at place =
      if place / 64 = word then
        (if selection.Selected place ∧ left.rowIsNull place = false ∧ right.rowIsNull place = false then
          (hashCombine (murmurhash32 (left.rowValue place)) (murmurhash32 (right.rowValue place)),true)
        else (state.1 place,false))
      else state.at place := by
    rw [hashTwoWord,foldl_sweep (inWord word) HashState.at
      (fun row cell => if !left.rowIsNull row && !right.rowIsNull row then
        (hashCombine (murmurhash32 (left.rowValue row)) (murmurhash32 (right.rowValue row)),true) else cell) (rows_nodup _)
      fun state bitno member => at_hashTwoRow left right word state (rows_lt member),at_store]
    by_cases same : place / 64 = word
    · have place_ : 64 * word + place % 64 = place := by omega
      have small : place % 64 < 64 := Nat.mod_lt _ (by decide)
      have bits : place % 64 ∈ rows (selection.word word) ↔ selection.Selected place := by
        rw [mem_word,place_,and_iff_right small]
      simp only [inWord,if_pos same,bits]
      by_cases selected : selection.Selected place
      · simp [selected]
      · simp [selected]
    · rw [if_neg same,if_neg same,if_neg]
      · rfl
      · simp only [inWord,if_neg same]
        exact fun member => absurd (rows_lt member) (Nat.lt_irrefl _)
  rw [hashTwoVectors,foldl_sweep (· / 64) HashState.at
    (fun place cell =>
      if selection.Selected place ∧ left.rowIsNull place = false ∧ right.rowIsNull place = false then
        (hashCombine (murmurhash32 (left.rowValue place)) (murmurhash32 (right.rowValue place)),true)
      else (cell.1,false)) List.nodup_range fun state word _ place => words state word place]
  rw [if_pos (List.mem_range.mpr inside)]
  rfl

/-- The general path, from the words that it stores first. -/
theorem at_hashAllVectors {keys : List Int4Vector} (nonempty : keys ≠ []) (selection : Selection) (state : HashState)
    {row : Nat} (inside : row / 64 < selection.nwords) :
    (((hashAllVectors keys selection state).at row).2 = true ↔
      selection.Selected row ∧ (keysAt (keys.map Int4Vector.cell) row).isSome = true) ∧
      ∀ values, selection.Selected row → keysAt (keys.map Int4Vector.cell) row = some values →
        ((hashAllVectors keys selection state).at row).1 = keyHash values := by
  have first : ((List.range selection.nwords).foldl (fun valid word => valid.store word (selection.word word)) state.2).words
      (row / 64) = selection.word (row / 64) := by
    rw [foldl_sweep id Selection.words (fun word _ => selection.word word) List.nodup_range]
    · exact if_pos (List.mem_range.mpr inside)
    · intro valid word _ place
      by_cases same : place = word
      · subst same
        simp [Selection.store]
      · simp [Selection.store,same]
  have small : row % 64 < 64 := Nat.mod_lt _ (by decide)
  have start : (selection.word (row / 64)).getLsbD (row % 64) = true ↔ selection.Selected row := by
    rw [← mem_rows,mem_word,Nat.div_add_mod,and_iff_right small]
  obtain ⟨valid,hash⟩ := at_hashKeys keys selection.nwords
    (state.1,(List.range selection.nwords).foldl (fun valid word => valid.store word (selection.word word)) state.2) inside
  have began : (HashState.at (state.1,(List.range selection.nwords).foldl
      (fun valid word => valid.store word (selection.word word)) state.2) row).2 =
        (selection.word (row / 64)).getLsbD (row % 64) := by
    unfold HashState.at
    dsimp only
    rw [first]
  rw [began] at valid hash
  refine ⟨?_,fun values selected => hash values nonempty (start.mpr selected)⟩
  rw [← start,← Bool.and_eq_true,← valid]
  rfl

/-- The kernel keeps just the selected rows without NULL keys and hashes their keys, on either path. -/
structure HashRight (keys : List Int4Vector) (selection : Selection) : Prop where
  valid : ∀ state row, row / 64 < selection.nwords →
    (((hashVectors keys selection state).at row).2 = true ↔
      selection.Selected row ∧ (keysAt (keys.map Int4Vector.cell) row).isSome = true)
  hashes : ∀ state row values, ((hashVectors keys selection state).at row).2 = true → row / 64 < selection.nwords →
    keysAt (keys.map Int4Vector.cell) row = some values → ((hashVectors keys selection state).at row).1 = keyHash values
  paths : ∀ state row, row / 64 < selection.nwords →
    ((hashVectors keys selection state).at row).2 = ((hashAllVectors keys selection state).at row).2 ∧
      (((hashVectors keys selection state).at row).2 = true →
        ((hashVectors keys selection state).at row).1 = ((hashAllVectors keys selection state).at row).1)

theorem keysAt_pair (left right : Int4Vector) (row : Nat) : keysAt ([left,right].map Int4Vector.cell) row =
    (left.cell row).bind fun first => (right.cell row).map fun second => [first,second] := by
  simp only [keysAt,List.map_cons,List.map_nil,List.mapM_cons,List.mapM_nil]
  cases left.cell row <;> cases right.cell row <;> rfl

/-- It does so if and only if there are not two keys, or it reads both keys of a selected row as not NULL
just where they are not. -/
theorem hash_right_iff (keys : List Int4Vector) (nonempty : keys ≠ []) (selection : Selection) :
    HashRight keys selection ↔ ∀ left right, keys = [left,right] → ∀ row, selection.Selected row →
      (left.rowIsNull row = false ∧ right.rowIsNull row = false ↔
        (left.cell row).isSome = true ∧ (right.cell row).isSome = true) := by
  have inWords {row : Nat} (selected : selection.Selected row) : row / 64 < selection.nwords := by
    have := selected.1
    simp only [Selection.nwords]
    omega
  constructor
  · rintro right_ left right rfl row selected
    have valid := right_.valid (fun _ => 0#32,selection) row (inWords selected)
    rw [hashVectors,at_hashTwoVectors left right selection _ (inWords selected),keysAt_pair] at valid
    by_cases seen : left.rowIsNull row = false ∧ right.rowIsNull row = false
    · rw [if_pos ⟨selected,seen⟩] at valid
      have own := (valid.mp rfl).2
      refine iff_of_true seen ?_
      cases one : left.cell row <;> cases two : right.cell row <;> simp_all
    · rw [if_neg fun both => seen both.2] at valid
      refine iff_of_false seen fun own => ?_
      obtain ⟨first,one⟩ := Option.isSome_iff_exists.mp own.1
      obtain ⟨second,two⟩ := Option.isSome_iff_exists.mp own.2
      rw [one,two] at valid
      exact absurd (valid.mpr ⟨selected,rfl⟩) Bool.false_ne_true
  · intro condition
    by_cases pair : ∃ left right, keys = [left,right]
    · obtain ⟨left,right,rfl⟩ := pair
      have two (state : HashState) (row : Nat) (inside : row / 64 < selection.nwords) :
          (((hashVectors [left,right] selection state).at row).2 = true ↔
            selection.Selected row ∧ (keysAt ([left,right].map Int4Vector.cell) row).isSome = true) ∧
          ∀ values, selection.Selected row → keysAt ([left,right].map Int4Vector.cell) row = some values →
            ((hashVectors [left,right] selection state).at row).1 = keyHash values := by
        rw [hashVectors,at_hashTwoVectors left right selection state inside,keysAt_pair]
        by_cases selected : selection.Selected row
        · have same := condition left right rfl row selected
          cases one : left.cell row with
          | none => simp_all
          | some first =>
            cases two : right.cell row with
            | none => simp_all
            | some second =>
              rw [one,two] at same
              have seen := same.mpr ⟨rfl,rfl⟩
              rw [if_pos ⟨selected,seen⟩,Int4Vector.cell_value one,Int4Vector.cell_value two]
              refine ⟨by simp [selected],?_⟩
              rintro values _ found
              cases found
              rfl
        · rw [if_neg fun both => selected both.1]
          exact ⟨by simp [selected],fun _ impossible => absurd impossible selected⟩
      refine ⟨fun state row inside => (two state row inside).1,fun state row values valid inside found => ?_,
        fun state row inside => ?_⟩
      · exact (two state row inside).2 values ((two state row inside).1.mp valid).1 found
      · obtain ⟨valid,hash⟩ := two state row inside
        obtain ⟨valid',hash'⟩ := at_hashAllVectors nonempty selection state inside
        refine ⟨by rw [Bool.eq_iff_iff,valid,valid'],fun present => ?_⟩
        obtain ⟨selected,some_⟩ := valid.mp present
        obtain ⟨values,found⟩ := Option.isSome_iff_exists.mp some_
        rw [hash values selected found,hash' values selected found]
    · have general (state : HashState) : hashVectors keys selection state = hashAllVectors keys selection state := by
        unfold hashVectors
        split
        · exact absurd ⟨_,_,rfl⟩ pair
        · rfl
      refine ⟨fun state row inside => ?_,fun state row values valid inside found => ?_,fun state row inside => ?_⟩
      · rw [general]
        exact (at_hashAllVectors nonempty selection state inside).1
      · rw [general] at valid ⊢
        obtain ⟨valid',hash⟩ := at_hashAllVectors nonempty selection state inside
        exact hash values (valid'.mp valid).1 found
      · rw [general]
        exact ⟨rfl,fun _ => rfl⟩

/-- Two keys far into their arrays: the row is not hashed. -/
theorem far_row_unhashed : oneRow.Selected 0 ∧ keysAt ([farColumn,farColumn].map Int4Vector.cell) 0 = some [7#32,7#32] ∧
    ((hashVectors [farColumn,farColumn] oneRow (fun _ => 0#32,oneRow)).at 0).2 = false ∧
    ((hashAllVectors [farColumn,farColumn] oneRow (fun _ => 0#32,oneRow)).at 0).2 = true ∧
    ¬ HashRight [farColumn,farColumn] oneRow := by
  refine ⟨by decide,by decide,by decide,by decide,fun right => ?_⟩
  have same := (right.paths (fun _ => 0#32,oneRow) 0 (by decide)).1
  exact absurd same (by decide)

theorem near_row_hashed : HashRight [.packed (fun _ => 7#32) (some fun _ => true) 5,.datum (fun _ => 9#64) fun _ => false]
    oneRow := by
  refine (hash_right_iff _ (List.cons_ne_nil _ _) oneRow).mpr ?_
  rintro left right same row _
  cases same
  exact ⟨fun _ => ⟨rfl,rfl⟩,fun _ => ⟨rfl,rfl⟩⟩

end PgBatch
