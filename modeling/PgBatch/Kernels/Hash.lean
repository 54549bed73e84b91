import PgBatch.Library.Words
import PgBatch.Library.Columnar
import Mathlib.Data.List.Induction

/-! Batches of at most 64 rows and the key hash of `kernels/int4_hash.c`.
A column is what its accessors answer: NULL or an int4 for every row. The tag of
a row is a ghost that lets two equal rows be told apart. -/
namespace PgBatch
open Words Columnar

abbrev Int4 := BitVec 32

abbrev Cell := Columnar.Cell Int4

abbrev Row (τ : Type) := Columnar.Row τ (BitVec 32) Int4

abbrev Store (τ : Type) := Columnar.Store τ (BitVec 32) Int4

abbrev Column := Nat → Option Int4

def pgBatchSize : Nat := 64

/-- A batch with one selection word; bits at or beyond `nrows` mean nothing. -/
structure Batch (τ : Type) where
  nrows : Nat
  small : nrows ≤ pgBatchSize
  selection : BitVec 64
  column : Nat → Column
  tag : Nat → τ

/-- `hash_join_input_value`: a NULL is delivered with the value zero. -/
def inputValue : Option Int4 → Cell
  | none => ⟨0,false⟩
  | some value => ⟨value,true⟩

def wordMask (nrows : Nat) : BitVec 64 :=
  if 64 ≤ nrows then BitVec.allOnes 64 else BitVec.allOnes 64 >>> (64 - nrows)

def murmurhash32 (data : BitVec 32) : BitVec 32 :=
  let h := data
  let h := h ^^^ (h >>> 16)
  let h := h * 0x85ebca6b#32
  let h := h ^^^ (h >>> 13)
  let h := h * 0xc2b2ae35#32
  h ^^^ (h >>> 16)

def hashCombine (a b : BitVec 32) : BitVec 32 :=
  a ^^^ (b + 0x9e3779b9#32 + (a <<< 6) + (a >>> 2))

def hashValue (hashes : Nat → BitVec 32) (row key : Nat) (value : Int4) : Nat → BitVec 32 :=
  Function.update hashes row
    (if key = 0 then murmurhash32 value else hashCombine (hashes row) (murmurhash32 value))

/-- The row loop of `hash_two_keys`. -/
def hashTwoKeys (left right : Column) (nrows : Nat) (selection : BitVec 64) (hashes : Nat → BitVec 32) :
    (Nat → BitVec 32) × BitVec 64 :=
  (rows (selection &&& wordMask nrows)).foldl
    (fun state row => match left row,right row with
      | some first,some second =>
        (Function.update state.1 row (hashCombine (murmurhash32 first) (murmurhash32 second)),
          state.2 ||| bit 64 row)
      | _,_ => state) (hashes,0#64)

/-- One key column of the general path, over the rows that are still valid. -/
def hashKey (column : Column) (key : Nat) (state : (Nat → BitVec 32) × BitVec 64) :
    (Nat → BitVec 32) × BitVec 64 :=
  (rows state.2).foldl
    (fun state row => match column row with
      | none => (state.1,state.2 &&& ~~~(bit 64 row))
      | some value => (hashValue state.1 row key value,state.2)) state

/-- `pg_batch_hash_int4` for a selection of one word: the hashes and the valid rows. -/
def hashInt4 (keys : List Column) (nrows : Nat) (selection : BitVec 64) (hashes : Nat → BitVec 32) :
    (Nat → BitVec 32) × BitVec 64 :=
  match keys with
  | [left,right] => hashTwoKeys left right nrows selection hashes
  | keys => keys.zipIdx.foldl (fun state key => hashKey key.1 key.2 state) (hashes,selection &&& wordMask nrows)

/-- The hash of a key tuple: `murmurhash32` of the first key, the others combined in. -/
def keyHash : List Int4 → BitVec 32
  | [] => 0
  | first :: rest => rest.foldl (fun hash value => hashCombine hash (murmurhash32 value)) (murmurhash32 first)

/-- The values of the keys in one row, if none of them is NULL. -/
def keysAt (keys : List Column) (row : Nat) : Option (List Int4) :=
  keys.mapM (fun column => column row)

/-! The hash decides its last key: `murmurhash32` is a permutation, and
`hash_combine` can be undone in its second argument. -/

theorem xorshift_inj {w shift : Nat} (positive : 0 < shift) {x y : BitVec w}
    (same : x ^^^ (x >>> shift) = y ^^^ (y >>> shift)) : x = y := by
  -- Down from the top bit: bit `index + shift` is known before bit `index`.
  have bits (distance : Nat) : ∀ index, w ≤ index + distance → x.getLsbD index = y.getLsbD index := by
    induction distance using Nat.strong_induction_on with
    | _ distance ih =>
      intro index near
      by_cases outside : w ≤ index
      · rw [BitVec.getLsbD_of_ge x index outside,BitVec.getLsbD_of_ge y index outside]
      · have higher := ih (distance - min distance shift) (by omega) (shift + index) (by omega)
        have here := congrArg (fun word => word.getLsbD index) same
        simp only [BitVec.getLsbD_xor,BitVec.getLsbD_ushiftRight,higher] at here
        simpa only [Bool.xor_left_inj] using here
  apply BitVec.eq_of_getLsbD_eq
  intro index inside
  exact bits w index (by omega)

theorem mul_inj {w : Nat} {factor x y : BitVec w} (inverse : BitVec w) (unit : factor * inverse = 1#w)
    (same : x * factor = y * factor) : x = y := by
  have scaled := congrArg (· * inverse) same
  simpa only [BitVec.mul_assoc,unit,BitVec.mul_one] using scaled

theorem murmurhash32_inj {x y : BitVec 32} (same : murmurhash32 x = murmurhash32 y) : x = y := by
  have last := xorshift_inj (by decide) same
  have second := mul_inj 0x7ed1b41d#32 (by decide) last
  have middle := xorshift_inj (by decide) second
  have first := mul_inj 0xa5cb9243#32 (by decide) middle
  exact xorshift_inj (by decide) first

theorem hashCombine_inj {a b c : BitVec 32} (same : hashCombine a b = hashCombine a c) : b = c := by
  have sum := (BitVec.xor_right_inj a).mp same
  exact (BitVec.add_left_inj _).mp ((BitVec.add_left_inj _).mp ((BitVec.add_left_inj _).mp sum))

/-- With equal hashes, key tuples that agree before their last key agree in it. -/
theorem keyHash_last {init : List Int4} {left right : Int4}
    (same : keyHash (init ++ [left]) = keyHash (init ++ [right])) : left = right := by
  cases init with
  | nil => exact murmurhash32_inj same
  | cons first rest =>
    simp only [List.cons_append,keyHash,List.foldl_append,List.foldl_cons,List.foldl_nil] at same
    exact murmurhash32_inj (hashCombine_inj same)

/-- The hash and all keys but the last decide the key tuple. -/
theorem keyHash_exact {left right : List Int4} (length : left.length = right.length)
    (same : keyHash left = keyHash right) (agree : left.dropLast = right.dropLast) : left = right := by
  rcases List.eq_nil_or_concat' left with rfl | ⟨init,last,rfl⟩
  · exact (List.length_eq_zero_iff.mp length.symm).symm
  · rcases List.eq_nil_or_concat' right with rfl | ⟨init',last',rfl⟩
    · simp at length
    · rw [List.dropLast_concat,List.dropLast_concat] at agree
      subst agree
      rw [keyHash_last same]

theorem keyHash_append {init : List Int4} (nonempty : init ≠ []) (last : Int4) :
    keyHash (init ++ [last]) = hashCombine (keyHash init) (murmurhash32 last) := by
  cases init with
  | nil => contradiction
  | cons first rest => simp [keyHash]

/-! The kernel computes the key hash of exactly the selected rows without NULL keys. -/

private theorem hashKey_visits (column : Column) (key : Nat) (visits : List Nat) (distinct : visits.Nodup)
    (inside : ∀ row ∈ visits, row < 64) (state : (Nat → BitVec 32) × BitVec 64) (row : Nat) :
    let result := visits.foldl
      (fun state row => match column row with
        | none => (state.1,state.2 &&& ~~~(bit 64 row))
        | some value => (hashValue state.1 row key value,state.2)) state
    result.2.getLsbD row = (state.2.getLsbD row && (decide (row ∉ visits) || (column row).isSome)) ∧
      result.1 row = if row ∈ visits then
        ((column row).elim (state.1 row) (fun value => hashValue state.1 row key value row)) else state.1 row := by
  induction visits generalizing state with
  | nil => simp
  | cons first rest ih =>
    have fresh := (List.nodup_cons.mp distinct).1
    have tail := ih (List.nodup_cons.mp distinct).2 (fun row member => inside row (List.mem_cons_of_mem _ member))
    have low := inside first (List.mem_cons_self ..)
    simp only [List.foldl_cons]
    cases value : column first with
    | none =>
      obtain ⟨valid,hash⟩ := tail (state.1,state.2 &&& ~~~(bit 64 first))
      rw [valid,hash]
      by_cases same : row = first
      · subst same
        simp [fresh,value,low]
      · have apart : (~~~(bit 64 first)).getLsbD row = true ∨ state.2.getLsbD row = false := by
          by_cases small : row < 64
          · exact .inl (by
              simp only [BitVec.getLsbD_not,getLsbD_bit,small,same,and_false,decide_true,decide_false,Bool.not_false,
                Bool.and_true])
          · exact .inr (BitVec.getLsbD_of_ge _ _ (by omega))
        rcases apart with clear | absent
        · simp [same,clear]
        · simp [same,absent]
    | some found =>
      obtain ⟨valid,hash⟩ := tail (hashValue state.1 first key found,state.2)
      rw [valid,hash]
      by_cases same : row = first
      · subst same
        simp [fresh,value]
      · have other : hashValue state.1 first key found row = state.1 row := by simp [hashValue,same]
        have again (v : Int4) : hashValue (hashValue state.1 first key found) row key v row =
            hashValue state.1 row key v row := by
          simp [hashValue,same]
        simp [same,other,again]

theorem hashKey_spec (column : Column) (key : Nat) (state : (Nat → BitVec 32) × BitVec 64) (row : Nat) :
    (hashKey column key state).2.getLsbD row = (state.2.getLsbD row && (column row).isSome) ∧
      (∀ value, state.2.getLsbD row = true → column row = some value →
        (hashKey column key state).1 row =
          if key = 0 then murmurhash32 value else hashCombine (state.1 row) (murmurhash32 value)) := by
  obtain ⟨valid,hash⟩ := hashKey_visits column key (rows state.2) (rows_nodup _) (fun _ => rows_lt) state row
  unfold hashKey
  refine ⟨?_,?_⟩
  · rw [valid]
    cases present : state.2.getLsbD row <;> simp [present]
  · intro value present found
    rw [hash,if_pos (mem_rows.mpr present),found]
    simp [hashValue]

theorem getLsbD_wordMask (nrows row : Nat) :
    (wordMask nrows).getLsbD row = decide (row < 64 ∧ row < nrows) := by
  unfold wordMask
  split
  · rw [BitVec.getLsbD_allOnes,decide_eq_decide]
    omega
  · rw [BitVec.getLsbD_ushiftRight,BitVec.getLsbD_allOnes,decide_eq_decide]
    omega

theorem rows_wordMask (nrows : Nat) : rows (wordMask nrows) = List.range (min 64 nrows) := by
  apply Words.sorted_ext (rows_sorted _) List.pairwise_lt_range
  intro row
  rw [mem_rows,getLsbD_wordMask,decide_eq_true_eq,List.mem_range]
  omega

theorem keysAt_length {keys : List Column} {row : Nat} {values : List Int4}
    (all : keysAt keys row = some values) : values.length = keys.length := by
  induction keys generalizing values with
  | nil =>
    cases all
    rfl
  | cons column rest ih =>
    simp only [keysAt,List.mapM_cons,Option.bind_eq_bind,Option.bind_eq_some_iff] at all
    obtain ⟨value,_,others,found,joined⟩ := all
    cases joined
    simp [ih found]

private theorem hashKeys_spec (keys : List Column) (start : (Nat → BitVec 32) × BitVec 64) (row : Nat) :
    let result := keys.zipIdx.foldl (fun state key => hashKey key.1 key.2 state) start
    result.2.getLsbD row = (start.2.getLsbD row && (keysAt keys row).isSome) ∧
      (∀ values, keys ≠ [] → start.2.getLsbD row = true → keysAt keys row = some values →
        result.1 row = keyHash values) := by
  induction keys using List.reverseRecOn with
  | nil => simp [keysAt]
  | append_singleton init last ih =>
    simp only [List.zipIdx_append,List.foldl_append,List.zipIdx_cons,List.zipIdx_nil,List.foldl_cons,
      List.foldl_nil,Nat.zero_add]
    obtain ⟨valid,hash⟩ := ih
    obtain ⟨valid',hash'⟩ := hashKey_spec last init.length
      (init.zipIdx.foldl (fun state key => hashKey key.1 key.2 state) start) row
    have split : keysAt (init ++ [last]) row =
        (keysAt init row).bind fun values => (last row).map fun value => values ++ [value] := by
      simp only [keysAt,List.mapM_append,List.mapM_cons,List.mapM_nil]
      cases List.mapM (fun column => column row) init <;> cases last row <;> rfl
    constructor
    · rw [valid',valid,split]
      cases keysAt init row <;> cases last row <;> simp
    · intro values _ selected all
      rw [split] at all
      obtain ⟨before,earlier,rest⟩ := Option.bind_eq_some_iff.mp all
      obtain ⟨value,found,joined⟩ := Option.map_eq_some_iff.mp rest
      have present : (init.zipIdx.foldl (fun state key => hashKey key.1 key.2 state) start).2.getLsbD row = true := by
        rw [valid,selected,earlier]
        rfl
      rw [hash' value present found,← joined]
      by_cases first : init = []
      · subst first
        simp only [keysAt,List.mapM_nil] at earlier
        cases earlier
        rfl
      · have length : init.length ≠ 0 := by simpa using first
        have size : before ≠ [] := by
          rintro rfl
          exact length (keysAt_length earlier).symm
        rw [if_neg length,keyHash_append size,hash before first selected earlier]

private theorem hashTwoKeys_visits (left right : Column) (visits : List Nat) (distinct : visits.Nodup)
    (inside : ∀ row ∈ visits, row < 64) (state : (Nat → BitVec 32) × BitVec 64) (row : Nat) :
    let result := visits.foldl
      (fun state row => match left row,right row with
        | some first,some second =>
          (Function.update state.1 row (hashCombine (murmurhash32 first) (murmurhash32 second)),
            state.2 ||| bit 64 row)
        | _,_ => state) state
    result.2.getLsbD row =
        (state.2.getLsbD row || (decide (row ∈ visits) && (keysAt [left,right] row).isSome)) ∧
      ∀ values, row ∈ visits → keysAt [left,right] row = some values → result.1 row = keyHash values := by
  induction visits using List.reverseRecOn with
  | nil => simp
  | append_singleton before last ih =>
    obtain ⟨unique,_,apart⟩ := List.nodup_append.mp distinct
    obtain ⟨valid,hash⟩ := ih unique (fun row member => inside row (by simp [member]))
    have fresh : last ∉ before := fun member => apart last member last (by simp) rfl
    have low := inside last (by simp)
    simp only [List.foldl_append,List.foldl_cons,List.foldl_nil,List.mem_append,List.mem_singleton]
    have keys : keysAt [left,right] row = (left row).bind fun first => (right row).map fun second => [first,second] := by
      simp only [keysAt,List.mapM_cons,List.mapM_nil]
      cases left row <;> cases right row <;> rfl
    by_cases same : row = last
    · subst same
      cases first : left row with
      | none => simp [valid,keys,first,fresh]
      | some one => cases second : right row with
        | none => simp [valid,keys,first,second,fresh]
        | some two => simp [keys,first,second,low,keyHash]
    · have untouched : ∀ word : BitVec 64, (word ||| bit 64 last).getLsbD row = word.getLsbD row := by
        simp [same]
      cases left last with
      | none => exact ⟨by simp [valid,same],by simpa [same] using hash⟩
      | some one => cases right last with
        | none => exact ⟨by simp [valid,same],by simpa [same] using hash⟩
        | some two =>
          simp only [untouched,valid,same,or_false]
          refine ⟨trivial,?_⟩
          intro values member all
          rw [Function.update_of_ne same]
          exact hash values member all

/-- Both paths of the kernel: which rows are valid, and what they hash to. -/
theorem hashInt4_spec (keys : List Column) (nonempty : keys ≠ []) (nrows : Nat) (selection : BitVec 64)
    (hashes : Nat → BitVec 32) (row : Nat) :
    (hashInt4 keys nrows selection hashes).2.getLsbD row =
        (selection.getLsbD row && decide (row < nrows) && (keysAt keys row).isSome) ∧
      ∀ values, (hashInt4 keys nrows selection hashes).2.getLsbD row = true → keysAt keys row = some values →
        (hashInt4 keys nrows selection hashes).1 row = keyHash values := by
  have masked : (selection &&& wordMask nrows).getLsbD row = (selection.getLsbD row && decide (row < nrows)) := by
    rw [BitVec.getLsbD_and,getLsbD_wordMask]
    by_cases inside : row < 64
    · simp [inside]
    · rw [BitVec.getLsbD_of_ge selection row (by omega)]
      simp
  unfold hashInt4
  split
  · rename_i left right
    obtain ⟨valid,hash⟩ := hashTwoKeys_visits left right (rows (selection &&& wordMask nrows)) (rows_nodup _)
      (fun _ => rows_lt) (hashes,0#64) row
    have visited : (hashTwoKeys left right nrows selection hashes).2.getLsbD row =
        ((selection &&& wordMask nrows).getLsbD row && (keysAt [left,right] row).isSome) := by
      unfold hashTwoKeys
      rw [valid]
      simp only [BitVec.getLsbD_zero,Bool.false_or,mem_rows]
      cases (selection &&& wordMask nrows).getLsbD row <;> simp
    refine ⟨by rw [visited,masked],?_⟩
    intro values present all
    rw [visited,Bool.and_eq_true] at present
    exact hash values (mem_rows.mpr present.1) all
  · obtain ⟨valid,hash⟩ := hashKeys_spec keys (hashes,selection &&& wordMask nrows) row
    refine ⟨by rw [valid,masked],?_⟩
    intro values present all
    rw [valid,Bool.and_eq_true] at present
    exact hash values nonempty present.1 all

/-! What a join takes from a batch. -/

variable {τ : Type}

/-- `hash_batch` and `hash_input_batch`: the key hashes and the rows without NULL keys. -/
def hashBatch (keys : List Nat) (batch : Batch τ) : (Nat → BitVec 32) × BitVec 64 :=
  hashInt4 (keys.map batch.column) batch.nrows batch.selection (fun _ => 0#32)

/-- The rows of a batch that are selected. -/
def Batch.selected (batch : Batch τ) : List Nat :=
  rows (batch.selection &&& wordMask batch.nrows)

/-- One row of a batch with its first `ncolumns` columns and the hash of its keys. -/
def Batch.row (keys : List Nat) (ncolumns : Nat) (batch : Batch τ) (row : Nat) : Row τ :=
  ⟨batch.tag row,keyHash (((keysAt (keys.map batch.column) row)).getD []),
    (List.range ncolumns).map fun column => inputValue (batch.column column row)⟩

/-- The rows of a batch a join keeps: selected, and without a NULL key. -/
def Batch.accepted (keys : List Nat) (ncolumns : Nat) (batch : Batch τ) : List (Row τ) :=
  (batch.selected.filter fun row => (keysAt (keys.map batch.column) row).isSome).map (batch.row keys ncolumns)

theorem hashBatch_rows {keys : List Nat} (nonempty : keys ≠ []) (batch : Batch τ) :
    rows (hashBatch keys batch).2 =
      batch.selected.filter fun row => (keysAt (keys.map batch.column) row).isSome := by
  simp only [Batch.selected,rows,List.filter_filter]
  apply List.filter_congr
  intro row inside
  have low := List.mem_range.mp inside
  rw [hashBatch,(hashInt4_spec _ (by simpa using nonempty) _ _ _ row).1,BitVec.getLsbD_and,getLsbD_wordMask]
  simp only [low,true_and]
  rw [Bool.and_comm]

theorem hashBatch_hash {keys : List Nat} (nonempty : keys ≠ []) (batch : Batch τ) {row : Nat}
    (member : row ∈ rows (hashBatch keys batch).2) (ncolumns : Nat) :
    (hashBatch keys batch).1 row = (batch.row keys ncolumns row).hash := by
  obtain ⟨valid,hash⟩ := hashInt4_spec (keys.map batch.column) (by simpa using nonempty) batch.nrows
    batch.selection (fun _ => 0#32) row
  have present := mem_rows.mp member
  have all : (keysAt (keys.map batch.column) row).isSome = true := by
    rw [hashBatch,valid] at present
    simp only [Bool.and_eq_true] at present
    exact present.2
  obtain ⟨values,found⟩ := Option.isSome_iff_exists.mp all
  rw [hashBatch,hash values present found]
  simp [Batch.row,found]

end PgBatch
