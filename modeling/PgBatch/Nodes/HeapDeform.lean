import PgBatch.Library.Cursor
import PgBatch.Nodes.HeapSlot

/-! Incremental deformation of heap tuples (`access/heap_deform.h` of the PostgreSQL
patch): one attribute at a time behind a saved cursor, and all of them up to a number. -/
namespace PgBatch.Deform
open Cursors

structure CompactAttribute where
  attlen : Int
  attbyval : Bool
  attalignby : Nat
  attcacheoff : Int
deriving Inhabited

structure TupleDesc where
  compactAttrs : List CompactAttribute
  firstNonCachedOffsetAttr : Nat

def TupleDesc.natts (desc : TupleDesc) : Nat :=
  desc.compactAttrs.length

def TupleDesc.cattr (desc : TupleDesc) (attnum : Nat) : CompactAttribute :=
  desc.compactAttrs.getD attnum default

/-- A tuple in memory from its header on, and what the header says of it. -/
structure HeapTuple where
  data : List UInt8
  hoff : Nat
  natts : Nat
  hasNulls : Bool

/-- The functions of `access/tupmacs.h` and the constants of a tuple header. A pointer
is a place in the tuple's data. -/
structure Tupmacs where
  offsetofBits : Nat
  maxalign : Nat → Nat
  bitmaplen : Nat → Nat
  attIsnull : Nat → List UInt8 → Bool
  firstNullAttr : List UInt8 → Nat → Nat
  populateIsnullArray : List UInt8 → Nat → (Nat → Bool) → Nat → Bool
  fetchAttNoerr : List UInt8 → Nat → Bool → Int → BitVec 64
  alignFetchThenAdd : List UInt8 → Nat → BitVec 32 → Bool → Int → Nat → BitVec 64 × BitVec 32

/-- What is relied on: the first NULL is the first, and the array says which are NULL. -/
structure Tupmacs.Documented (macros : Tupmacs) : Prop where
  bounded : ∀ bits natts, macros.firstNullAttr bits natts ≤ natts
  before : ∀ bits natts attnum, attnum < macros.firstNullAttr bits natts → macros.attIsnull attnum bits = false
  first : ∀ bits natts, macros.firstNullAttr bits natts < natts →
    macros.attIsnull (macros.firstNullAttr bits natts) bits = true
  populated : ∀ bits natts isnull attnum, attnum < natts →
    macros.populateIsnullArray bits natts isnull attnum = macros.attIsnull attnum bits

structure HeapTupleDeformState where
  nvalid : Nat
  off : BitVec 32
deriving DecidableEq, Repr

def heapDeformTupleInit : HeapTupleDeformState :=
  ⟨0,0⟩

/-- The offset behind the attribute before `attnum`, whose own offset is cached. -/
def cachedEnd (desc : TupleDesc) (attnum : Nat) : BitVec 32 :=
  let cattr := desc.cattr (attnum - 1)
  BitVec.ofInt 32 cattr.attcacheoff + BitVec.ofInt 32 cattr.attlen

section Source
variable (macros : Tupmacs) (tuple : HeapTuple) (desc : TupleDesc)

/-- `tup->t_bits`. -/
def tBits : List UInt8 :=
  tuple.data.drop macros.offsetofBits

/-- The attribute at its cached offset. -/
def fetchCached (tp : Nat) (attbyval : Bool) (attnum : Nat) : BitVec 64 :=
  let cattr := desc.cattr attnum
  macros.fetchAttNoerr tuple.data (tp + (BitVec.ofInt 32 cattr.attcacheoff).toNat) attbyval cattr.attlen

/-- The next attribute behind an offset. -/
def fetchNext (tp attnum : Nat) (off : BitVec 32) : BitVec 64 × BitVec 32 :=
  let cattr := desc.cattr attnum
  macros.alignFetchThenAdd tuple.data tp off cattr.attbyval cattr.attlen cattr.attalignby

/-- A return value with the cursor it leaves, or the end of a loop. -/
abbrev Walked := (HeapTupleDeformState × Option (BitVec 64 × Bool)) ⊕ (Nat × BitVec 32)

/-- The attributes before the first NULL. -/
def walkBeforeNull (target : Nat) : Nat → Nat → BitVec 32 → Walked
  | 0, attnum, off => .inr (attnum,off)
  | count+1, attnum, off =>
    let (datum,off) := fetchNext macros tuple desc tuple.hoff attnum off
    if attnum = target - 1 then .inl (⟨target,off⟩,some (datum,false))
    else walkBeforeNull target count (attnum + 1) off

/-- The attributes from the first NULL on. -/
def walkWithNulls (target : Nat) : Nat → Nat → BitVec 32 → Walked
  | 0, attnum, off => .inr (attnum,off)
  | count+1, attnum, off =>
    if macros.attIsnull attnum (tBits macros tuple) then
      if attnum = target - 1 then .inl (⟨target,off⟩,some (0,true))
      else walkWithNulls target count (attnum + 1) off
    else
      let (datum,off) := fetchNext macros tuple desc tuple.hoff attnum off
      if attnum = target - 1 then .inl (⟨target,off⟩,some (datum,false))
      else walkWithNulls target count (attnum + 1) off

/-- The two walks and what follows them. -/
def walkTo (target natts firstNull attnum : Nat) (off : BitVec 32) :
    HeapTupleDeformState × Option (BitVec 64 × Bool) :=
  match walkBeforeNull macros tuple desc target (firstNull - attnum) attnum off with
  | .inl returned => returned
  | .inr (attnum,off) =>
    match walkWithNulls macros tuple desc target (natts - attnum) attnum off with
    | .inl returned => returned
    | .inr (_,off) => (⟨natts,off⟩,none)

/-- `heap_deform_tuple_advance`; no answer is the return value false. -/
def heapDeformTupleAdvance (firstNonGuaranteed : Nat) (state : HeapTupleDeformState) (target : Nat) :
    HeapTupleDeformState × Option (BitVec 64 × Bool) :=
  let firstNonGuaranteed := min target firstNonGuaranteed
  if target ≤ firstNonGuaranteed then
    (⟨target,cachedEnd desc target⟩,some (fetchCached macros tuple desc tuple.hoff true (target - 1),false))
  else
    let natts := min tuple.natts target
    if natts ≤ state.nvalid then (state,none)
    else
      let firstNull := if tuple.hasNulls then macros.firstNullAttr (tBits macros tuple) natts else natts
      let firstNonCacheOffset := min desc.firstNonCachedOffsetAttr firstNull
      let skipped : HeapTupleDeformState :=
        if state.nvalid < firstNonGuaranteed then ⟨firstNonGuaranteed,cachedEnd desc firstNonGuaranteed⟩ else state
      if skipped.nvalid < firstNonCacheOffset then
        if target ≤ firstNonCacheOffset then
          (⟨target,cachedEnd desc target⟩,
            some (fetchCached macros tuple desc tuple.hoff (desc.cattr (target - 1)).attbyval (target - 1),false))
        else
          walkTo macros tuple desc target natts firstNull firstNonCacheOffset (cachedEnd desc firstNonCacheOffset)
      else walkTo macros tuple desc target natts firstNull skipped.nvalid skipped.off

/-- `deform_attr` of `nodes/slot.c`: the planner rejects relations with non-NULL missing values. -/
def deformAttr (firstNonGuaranteed : Nat) (cursor : HeapTupleDeformState) (attnum : Nat) :
    HeapTupleDeformState × (BitVec 64 × Bool) :=
  let (cursor,found) := heapDeformTupleAdvance macros tuple desc firstNonGuaranteed cursor attnum
  (cursor,found.getD (0,true))

/-- The caller's cursor and arrays. -/
structure Deformed where
  nvalid : Nat
  off : BitVec 32
  values : Nat → BitVec 64
  isnull : Nat → Bool

/-- One attribute written to the arrays. -/
def Deformed.put (state : Deformed) (attnum : Nat) (value : BitVec 64) (isnull : Bool) : Deformed :=
  {state with values := Function.update state.values attnum value, isnull := Function.update state.isnull attnum isnull}

/-- Attributes read at their cached offsets. -/
def cachedLoop (tp : Nat) (attbyval : Nat → Bool) : Nat → Nat → Deformed → Deformed
  | 0, _, state => state
  | count+1, attnum, state =>
    cachedLoop tp attbyval count (attnum + 1)
      (state.put attnum (fetchCached macros tuple desc tp (attbyval attnum) attnum) false)

/-- Attributes before the first NULL, read one behind the other. -/
def presentLoop (tp : Nat) : Nat → Nat → Deformed → Deformed
  | 0, _, state => state
  | count+1, attnum, state =>
    let (datum,off) := fetchNext macros tuple desc tp attnum state.off
    presentLoop tp count (attnum + 1) {state.put attnum datum false with off := off}

/-- Attributes from the first NULL on, whose flags have been set. -/
def nullsLoop (tp : Nat) : Nat → Nat → Deformed → Deformed
  | 0, _, state => state
  | count+1, attnum, state =>
    if state.isnull attnum then
      nullsLoop tp count (attnum + 1) {state with values := Function.update state.values attnum 0}
    else
      let (datum,off) := fetchNext macros tuple desc tp attnum state.off
      nullsLoop tp count (attnum + 1) {state with values := Function.update state.values attnum datum, off := off}

/-- Attributes up to `stop` read at their cached offsets. -/
def cachedPrefix (tp : Nat) (attbyval : Nat → Bool) (stop attnum : Nat) (state : Deformed) : Deformed :=
  {cachedLoop macros tuple desc tp attbyval (stop - attnum) attnum state with off := cachedEnd desc stop}

/-- The two walks over the attributes and what follows them. -/
def fillTo (tp natts firstNull reqnatts attnum : Nat) (state : Deformed) : Deformed × Bool :=
  let state := presentLoop macros tuple desc tp (firstNull - attnum) attnum state
  let attnum := max attnum firstNull
  let state := nullsLoop macros tuple desc tp (natts - attnum) attnum state
  let attnum := max attnum natts
  (state,decide (reqnatts ≤ attnum))

/-- `heap_deform_tuple_to` behind the guaranteed prefix. -/
def deformRest (tp natts firstNull reqnatts attnum : Nat) (state : Deformed) : Deformed × Bool :=
  let firstNonCacheOffset := min desc.firstNonCachedOffsetAttr firstNull
  if attnum < firstNonCacheOffset then
    fillTo macros tuple desc tp natts firstNull reqnatts firstNonCacheOffset
      (cachedPrefix macros tuple desc tp (fun attnum => (desc.cattr attnum).attbyval) firstNonCacheOffset attnum state)
  else fillTo macros tuple desc tp natts firstNull reqnatts attnum state

/-- Where the data starts, how many attributes are read, how many of them lie before
the first NULL, and the flags. -/
def deformStart (firstNonGuaranteed reqnatts : Nat) (isnull : Nat → Bool) : Nat × Nat × Nat × (Nat → Bool) :=
  if tuple.hasNulls then
    let natts := min tuple.natts reqnatts
    let tp := macros.maxalign (macros.offsetofBits + macros.bitmaplen tuple.natts)
    if firstNonGuaranteed < natts then
      (tp,natts,macros.firstNullAttr (tBits macros tuple) natts,
        macros.populateIsnullArray (tBits macros tuple) natts isnull)
    else (tp,natts,natts,isnull)
  else
    let natts := if firstNonGuaranteed < reqnatts then min tuple.natts reqnatts else reqnatts
    (macros.maxalign macros.offsetofBits,natts,natts,isnull)

/-- `heap_deform_tuple_to`. -/
def heapDeformTupleTo (firstNonGuaranteed : Nat) (state : Deformed) (reqnatts : Nat) : Deformed × Bool :=
  let firstNonGuaranteed := min reqnatts firstNonGuaranteed
  let (tp,natts,firstNull,isnull) := deformStart macros tuple firstNonGuaranteed reqnatts state.isnull
  let attnum := state.nvalid
  let state := {state with nvalid := reqnatts, isnull := isnull}
  if attnum < firstNonGuaranteed then
    let state := cachedPrefix macros tuple desc tp (fun _ => true) firstNonGuaranteed attnum state
    if firstNonGuaranteed = reqnatts then (state,true)
    else deformRest macros tuple desc tp natts firstNull reqnatts firstNonGuaranteed state
  else deformRest macros tuple desc tp natts firstNull reqnatts attnum state

/-- The answers of a cursor moved from target to target. -/
def advances (firstNonGuaranteed : Nat) (targets : List Nat) : List (Option (BitVec 64 × Bool)) :=
  reads (heapDeformTupleAdvance macros tuple desc firstNonGuaranteed) heapDeformTupleInit targets

/-- A tuple deformed in several calls, with the return value of the last. -/
def deformSteps (firstNonGuaranteed : Nat) (values : Nat → BitVec 64) (isnull : Nat → Bool) (requests : List Nat) :
    Deformed × Bool :=
  requests.foldl (fun state reqnatts => heapDeformTupleTo macros tuple desc firstNonGuaranteed state.1 reqnatts)
    (⟨0,0,values,isnull⟩,true)

end Source

section Meaning
variable (macros : Tupmacs) (tuple : HeapTuple) (desc : TupleDesc)

/-- How many of the first attributes lie before a NULL. -/
def firstNullIn (natts : Nat) : Nat :=
  if tuple.hasNulls then macros.firstNullAttr (tBits macros tuple) natts else natts

def nullAt (attnum : Nat) : Bool :=
  tuple.hasNulls && macros.attIsnull attnum (tBits macros tuple)

/-- The attributes of the whole tuple that lie at their cached offsets. -/
def cachedLimit : Nat :=
  min desc.firstNonCachedOffsetAttr (firstNullIn macros tuple tuple.natts)

def offAt : Nat → BitVec 32 :=
  position (fun attnum => if attnum < cachedLimit macros tuple desc then some (cachedEnd desc (attnum + 1)) else none)
    (fun attnum off => if nullAt macros tuple attnum then off else (fetchNext macros tuple desc tuple.hoff attnum off).2) 0

def datumAt (attnum : Nat) : BitVec 64 :=
  if attnum < cachedLimit macros tuple desc then
    fetchCached macros tuple desc tuple.hoff (desc.cattr attnum).attbyval attnum
  else if nullAt macros tuple attnum then 0
  else (fetchNext macros tuple desc tuple.hoff attnum (offAt macros tuple desc attnum)).1

/-- What an advance to a target answers, and the cursor it leaves. -/
def answer (target : Nat) : HeapTupleDeformState × Option (BitVec 64 × Bool) :=
  if target ≤ tuple.natts then
    (⟨target,offAt macros tuple desc target⟩,
      some (datumAt macros tuple desc (target - 1),nullAt macros tuple (target - 1)))
  else (⟨tuple.natts,offAt macros tuple desc tuple.natts⟩,none)

/-- What a walk comes to that stops behind `stop` or at its target. -/
def walked (target stop : Nat) : Walked :=
  if target ≤ stop then
    .inl (⟨target,offAt macros tuple desc target⟩,
      some (datumAt macros tuple desc (target - 1),nullAt macros tuple (target - 1)))
  else .inr (stop,offAt macros tuple desc stop)

/-- The tuple as the slot's model sees it. -/
def shown (tid : Nat × Nat) : Scan.HeapTuple where
  tid := tid
  natts := tuple.natts
  attr := fun target => if nullAt macros tuple (target - 1) then none else some (datumAt macros tuple desc (target - 1))

/-- A prefix that is by-value, cached and not NULL in the tuple. -/
structure Guaranteed (firstNonGuaranteed : Nat) : Prop where
  cached : firstNonGuaranteed ≤ desc.firstNonCachedOffsetAttr
  present : firstNonGuaranteed ≤ tuple.natts
  byval : ∀ attnum < firstNonGuaranteed, (desc.cattr attnum).attbyval = true
  notNull : ∀ attnum < firstNonGuaranteed, nullAt macros tuple attnum = false

/-- The arrays of a call up to an attribute, with the flags set ahead of it. -/
structure Filled (reqnatts attnum : Nat) (state : Deformed) : Prop where
  nvalid : state.nvalid = reqnatts
  values : ∀ before < attnum, state.values before = datumAt macros tuple desc before
  isnull : ∀ before, before < attnum ∨
    firstNullIn macros tuple (min tuple.natts reqnatts) ≤ before ∧ before < min tuple.natts reqnatts →
    state.isnull before = nullAt macros tuple before

/-- What a call leaves for the next one. -/
structure DeformedTo (mark : Nat) (state : Deformed) : Prop where
  filled : Filled macros tuple desc mark (min tuple.natts mark) state
  off : state.off = offAt macros tuple desc (min tuple.natts mark)

/-- The header is as long as its bitmap makes it. -/
def Aligned : Prop :=
  tuple.hoff = if tuple.hasNulls then macros.maxalign (macros.offsetofBits + macros.bitmaplen tuple.natts)
    else macros.maxalign macros.offsetofBits

instance : Decidable (Aligned macros tuple) :=
  inferInstanceAs (Decidable (_ = _))

end Meaning

section Facts
variable {macros : Tupmacs} {tuple : HeapTuple} {desc : TupleDesc}

theorem offAt_cached {attnum : Nat} (positive : 0 < attnum) (inside : attnum ≤ cachedLimit macros tuple desc) :
    offAt macros tuple desc attnum = cachedEnd desc attnum := by
  obtain ⟨before,rfl⟩ := Nat.exists_eq_succ_of_ne_zero (Nat.ne_of_gt positive)
  exact position_known (if_pos inside)

theorem offAt_null {attnum : Nat} (beyond : cachedLimit macros tuple desc ≤ attnum)
    (isNull : nullAt macros tuple attnum = true) :
    offAt macros tuple desc (attnum + 1) = offAt macros tuple desc attnum := by
  rw [offAt,position_step (if_neg (Nat.not_lt.mpr beyond)),if_pos isNull]

theorem fetchNext_at {attnum : Nat} (beyond : cachedLimit macros tuple desc ≤ attnum)
    (present : nullAt macros tuple attnum = false) :
    fetchNext macros tuple desc tuple.hoff attnum (offAt macros tuple desc attnum) =
      (datumAt macros tuple desc attnum,offAt macros tuple desc (attnum + 1)) := by
  have after : offAt macros tuple desc (attnum + 1) =
      (fetchNext macros tuple desc tuple.hoff attnum (offAt macros tuple desc attnum)).2 := by
    rw [offAt,position_step (if_neg (Nat.not_lt.mpr beyond)),present]
    rfl
  rw [datumAt,if_neg (Nat.not_lt.mpr beyond),present,after]
  rfl

theorem datumAt_null {attnum : Nat} (beyond : cachedLimit macros tuple desc ≤ attnum)
    (isNull : nullAt macros tuple attnum = true) : datumAt macros tuple desc attnum = 0 := by
  rw [datumAt,if_neg (Nat.not_lt.mpr beyond),if_pos isNull]

theorem datumAt_cached {attnum : Nat} (inside : attnum < cachedLimit macros tuple desc) :
    datumAt macros tuple desc attnum =
      fetchCached macros tuple desc tuple.hoff (desc.cattr attnum).attbyval attnum :=
  if_pos inside

theorem firstNullIn_le (documented : macros.Documented) (tuple : HeapTuple) (natts : Nat) :
    firstNullIn macros tuple natts ≤ natts := by
  unfold firstNullIn
  split
  · exact documented.bounded _ _
  · exact Nat.le_refl _

theorem nullAt_before (documented : macros.Documented) (natts : Nat) {attnum : Nat}
    (before : attnum < firstNullIn macros tuple natts) : nullAt macros tuple attnum = false := by
  cases nulls : tuple.hasNulls with
  | false => simp [nullAt,nulls]
  | true =>
    simp only [firstNullIn,nullAt,nulls,if_true,Bool.true_and] at before ⊢
    exact documented.before _ _ _ before

theorem nullAt_first (documented : macros.Documented) {natts : Nat} (inside : firstNullIn macros tuple natts < natts) :
    nullAt macros tuple (firstNullIn macros tuple natts) = true := by
  cases nulls : tuple.hasNulls with
  | false => simp [firstNullIn,nulls] at inside
  | true =>
    simp only [firstNullIn,nullAt,nulls,if_true,Bool.true_and] at inside ⊢
    exact documented.first _ _ inside

/-- The first NULL below a target is the first NULL of the tuple, when that is below it. -/
theorem firstNullIn_min (documented : macros.Documented) {fewer natts : Nat} (less : fewer ≤ natts) :
    firstNullIn macros tuple fewer = min fewer (firstNullIn macros tuple natts) := by
  have few := firstNullIn_le documented tuple fewer
  rcases Nat.lt_trichotomy (firstNullIn macros tuple fewer) (firstNullIn macros tuple natts) with below | same | above
  · by_cases all : firstNullIn macros tuple fewer = fewer
    · omega
    · have isNull := nullAt_first documented (show firstNullIn macros tuple fewer < fewer by omega)
      rw [nullAt_before documented _ below] at isNull
      cases isNull
  · omega
  · have isNull := nullAt_first documented (show firstNullIn macros tuple natts < natts by omega)
    rw [nullAt_before documented _ above] at isNull
    cases isNull

theorem walkBeforeNull_at (count : Nat) {target attnum : Nat} (beyond : cachedLimit macros tuple desc ≤ attnum)
    (present : ∀ later, attnum ≤ later → later < attnum + count → nullAt macros tuple later = false)
    (ahead : attnum < target) :
    walkBeforeNull macros tuple desc target count attnum (offAt macros tuple desc attnum) =
      walked macros tuple desc target (attnum + count) := by
  induction count generalizing attnum with
  | zero => exact (if_neg (Nat.not_le.mpr ahead)).symm
  | succ count ih =>
    have here := present attnum (Nat.le_refl _) (by omega)
    simp only [walkBeforeNull,fetchNext_at beyond here]
    by_cases last : attnum = target - 1
    · obtain rfl : target = attnum + 1 := by omega
      simp [walked,here]
    · rw [if_neg last,ih (Nat.le_succ_of_le beyond) (fun later after below => present later (by omega) (by omega))
        (by omega),Nat.succ_add_eq_add_succ]

theorem walkWithNulls_at (nulls : tuple.hasNulls = true) {target count attnum : Nat}
    (beyond : cachedLimit macros tuple desc ≤ attnum) (ahead : attnum < target) :
    walkWithNulls macros tuple desc target count attnum (offAt macros tuple desc attnum) =
      walked macros tuple desc target (attnum + count) := by
  induction count generalizing attnum with
  | zero => exact (if_neg (Nat.not_le.mpr ahead)).symm
  | succ count ih =>
    have flag : macros.attIsnull attnum (tBits macros tuple) = nullAt macros tuple attnum := by simp [nullAt,nulls]
    have rest (later : attnum ≠ target - 1) := @ih (attnum + 1) (Nat.le_succ_of_le beyond) (by omega)
    rw [walkWithNulls,flag]
    cases isNull : nullAt macros tuple attnum with
    | true =>
      by_cases last : attnum = target - 1
      · obtain rfl : target = attnum + 1 := by omega
        simp [walked,isNull,datumAt_null beyond isNull,offAt_null beyond isNull]
      · rw [if_pos rfl,if_neg last,← offAt_null beyond isNull,rest last,Nat.succ_add_eq_add_succ]
    | false =>
      simp only [Bool.false_eq_true,if_false,fetchNext_at beyond isNull]
      by_cases last : attnum = target - 1
      · obtain rfl : target = attnum + 1 := by omega
        simp [walked,isNull]
      · rw [if_neg last,rest last,Nat.succ_add_eq_add_succ]

theorem walkTo_at (documented : macros.Documented) {target attnum : Nat}
    (beyond : cachedLimit macros tuple desc ≤ attnum) (ahead : attnum < target) (inside : attnum ≤ tuple.natts) :
    walkTo macros tuple desc target (min tuple.natts target) (firstNullIn macros tuple (min tuple.natts target)) attnum
      (offAt macros tuple desc attnum) = answer macros tuple desc target := by
  have bounded := firstNullIn_le documented tuple (min tuple.natts target)
  have first := walkBeforeNull_at (firstNullIn macros tuple (min tuple.natts target) - attnum) beyond
    (fun later after below => nullAt_before documented (min tuple.natts target) (by omega)) ahead
  rw [walkTo,first]
  generalize stop : attnum + (firstNullIn macros tuple (min tuple.natts target) - attnum) = next
  by_cases found : target ≤ next
  · simp only [walked,answer,if_pos found,if_pos (show target ≤ tuple.natts by omega)]
  · have second : walkWithNulls macros tuple desc target (min tuple.natts target - next) next
        (offAt macros tuple desc next) = walked macros tuple desc target (min tuple.natts target) := by
      cases nulls : tuple.hasNulls with
      | true => rw [walkWithNulls_at nulls (by omega) (by omega),Nat.add_sub_of_le (by omega)]
      | false =>
        obtain rfl : next = min tuple.natts target := by
          simp only [firstNullIn,nulls] at stop
          simp at stop
          omega
        rw [Nat.sub_self,walked,if_neg found]
        rfl
    simp only [walked,if_neg found] at second ⊢
    rw [second]
    by_cases within : target ≤ tuple.natts
    · simp only [answer,if_pos within,if_pos (show target ≤ min tuple.natts target by omega)]
    · simp only [answer,if_neg within,Nat.min_eq_left (Nat.le_of_lt (Nat.not_le.mp within))]

theorem Guaranteed.le_limit (documented : macros.Documented) {firstNonGuaranteed : Nat}
    (guaranteed : Guaranteed macros tuple desc firstNonGuaranteed) :
    firstNonGuaranteed ≤ cachedLimit macros tuple desc := by
  refine Nat.le_min.mpr ⟨guaranteed.cached,Nat.le_of_not_lt fun below => ?_⟩
  have isNull := nullAt_first documented (Nat.lt_of_lt_of_le below guaranteed.present)
  rw [guaranteed.notNull _ below] at isNull
  cases isNull

/-- Cached attributes of a prefix of the tuple. -/
theorem min_cached (documented : macros.Documented) (target : Nat) :
    min desc.firstNonCachedOffsetAttr (firstNullIn macros tuple (min tuple.natts target)) =
      min target (cachedLimit macros tuple desc) := by
  have bounded := firstNullIn_le documented tuple tuple.natts
  rw [firstNullIn_min documented (Nat.min_le_left ..),cachedLimit]
  omega

/-- An attribute that is fetched at its cached offset is not NULL. -/
theorem answer_cached (documented : macros.Documented) {target : Nat} (positive : 0 < target)
    (inside : target ≤ cachedLimit macros tuple desc) :
    answer macros tuple desc target = (⟨target,cachedEnd desc target⟩,some (fetchCached macros tuple desc tuple.hoff
      (desc.cattr (target - 1)).attbyval (target - 1),false)) := by
  have bounded := firstNullIn_le documented tuple tuple.natts
  have before : target ≤ firstNullIn macros tuple tuple.natts := Nat.le_trans inside (Nat.min_le_right ..)
  rw [answer,if_pos (Nat.le_trans before bounded),offAt_cached positive inside,datumAt_cached (by omega),
    nullAt_before documented tuple.natts (by omega)]

theorem advance_at (documented : macros.Documented) {firstNonGuaranteed target : Nat}
    (guaranteed : Guaranteed macros tuple desc firstNonGuaranteed) {mark : Nat} (ahead : mark < target)
    (inside : mark ≤ tuple.natts) :
    heapDeformTupleAdvance macros tuple desc firstNonGuaranteed ⟨mark,offAt macros tuple desc mark⟩ target =
      answer macros tuple desc target := by
  have prefixed := guaranteed.le_limit documented
  have whole : cachedLimit macros tuple desc ≤ tuple.natts :=
    Nat.le_trans (Nat.min_le_right ..) (firstNullIn_le documented tuple _)
  have positive : 0 < target := by omega
  unfold heapDeformTupleAdvance
  dsimp only
  by_cases quick : target ≤ min target firstNonGuaranteed
  · rw [if_pos quick,answer_cached documented positive (by omega),guaranteed.byval (target - 1) (by omega)]
  rw [if_neg quick,← firstNullIn,min_cached documented]
  by_cases short : min tuple.natts target ≤ mark
  · obtain rfl : mark = tuple.natts := by omega
    rw [if_pos short,answer,if_neg (by omega)]
  rw [if_neg short]
  -- the cursor behind the guaranteed prefix is the place of its attribute
  obtain ⟨attnum,skipped,moved,below⟩ : ∃ attnum, (if mark < min target firstNonGuaranteed then
      (⟨min target firstNonGuaranteed,cachedEnd desc (min target firstNonGuaranteed)⟩ : HeapTupleDeformState)
      else ⟨mark,offAt macros tuple desc mark⟩) = ⟨attnum,offAt macros tuple desc attnum⟩ ∧
      attnum < target ∧ attnum ≤ tuple.natts := by
    split
    · refine ⟨min target firstNonGuaranteed,?_,?_,?_⟩
      · rw [offAt_cached (by omega) (by omega)]
      · omega
      · omega
    · exact ⟨mark,rfl,ahead,inside⟩
  rw [skipped]
  dsimp only
  by_cases cached : attnum < min target (cachedLimit macros tuple desc)
  · rw [if_pos cached]
    by_cases jump : target ≤ min target (cachedLimit macros tuple desc)
    · rw [if_pos jump,answer_cached documented positive (by omega)]
    · have reached : min target (cachedLimit macros tuple desc) = cachedLimit macros tuple desc := by omega
      rw [if_neg jump,reached,← offAt_cached (by omega) (Nat.le_refl _)]
      exact walkTo_at documented (Nat.le_refl _) (by omega) whole
  · rw [if_neg cached]
    exact walkTo_at documented (by omega) moved below

theorem Filled.put {reqnatts attnum : Nat} {state : Deformed} {value : BitVec 64} {isnull : Bool}
    (filled : Filled macros tuple desc reqnatts attnum state) (right : value = datumAt macros tuple desc attnum)
    (flag : isnull = nullAt macros tuple attnum) :
    Filled macros tuple desc reqnatts (attnum + 1) (state.put attnum value isnull) := by
  refine ⟨filled.nvalid,fun before below => ?_,fun before which => ?_⟩
  · simp only [Deformed.put,Function.update_apply]
    split
    · rw [right,‹before = attnum›]
    · exact filled.values before (by omega)
  · simp only [Deformed.put,Function.update_apply]
    split
    · rw [flag,‹before = attnum›]
    · exact filled.isnull before (which.imp_left (by omega))

theorem cachedLoop_filled (documented : macros.Documented) (attbyval : Nat → Bool) (count : Nat) {reqnatts attnum : Nat}
    {state : Deformed} (inside : attnum + count ≤ cachedLimit macros tuple desc)
    (byval : ∀ later, attnum ≤ later → later < attnum + count → attbyval later = (desc.cattr later).attbyval)
    (filled : Filled macros tuple desc reqnatts attnum state) :
    Filled macros tuple desc reqnatts (attnum + count)
      (cachedLoop macros tuple desc tuple.hoff attbyval count attnum state) := by
  induction count generalizing attnum state with
  | zero => exact filled
  | succ count ih =>
    have before : attnum < firstNullIn macros tuple tuple.natts :=
      Nat.lt_of_lt_of_le (by omega : attnum < cachedLimit macros tuple desc) (Nat.min_le_right ..)
    rw [← Nat.succ_add_eq_add_succ]
    refine ih (by omega) (fun later after below => byval later (by omega) (by omega)) (filled.put ?_ ?_)
    · rw [byval attnum (Nat.le_refl _) (by omega),datumAt_cached (by omega)]
    · exact (nullAt_before documented _ before).symm

theorem presentLoop_filled (count : Nat) {reqnatts attnum : Nat} {state : Deformed}
    (beyond : cachedLimit macros tuple desc ≤ attnum)
    (present : ∀ later, attnum ≤ later → later < attnum + count → nullAt macros tuple later = false)
    (filled : Filled macros tuple desc reqnatts attnum state) (off : state.off = offAt macros tuple desc attnum) :
    Filled macros tuple desc reqnatts (attnum + count)
        (presentLoop macros tuple desc tuple.hoff count attnum state) ∧
      (presentLoop macros tuple desc tuple.hoff count attnum state).off = offAt macros tuple desc (attnum + count) := by
  induction count generalizing attnum state with
  | zero => exact ⟨filled,off⟩
  | succ count ih =>
    have here := present attnum (Nat.le_refl _) (by omega)
    have put := filled.put rfl here.symm
    simp only [presentLoop,off,fetchNext_at beyond here]
    rw [← Nat.succ_add_eq_add_succ]
    exact ih (Nat.le_succ_of_le beyond) (fun later after below => present later (by omega) (by omega))
      ⟨put.nvalid,put.values,put.isnull⟩ rfl

theorem nullsLoop_filled (count : Nat) {reqnatts attnum : Nat} {state : Deformed}
    (beyond : cachedLimit macros tuple desc ≤ attnum)
    (marked : firstNullIn macros tuple (min tuple.natts reqnatts) ≤ attnum)
    (inside : attnum + count ≤ min tuple.natts reqnatts)
    (filled : Filled macros tuple desc reqnatts attnum state) (off : state.off = offAt macros tuple desc attnum) :
    Filled macros tuple desc reqnatts (attnum + count)
        (nullsLoop macros tuple desc tuple.hoff count attnum state) ∧
      (nullsLoop macros tuple desc tuple.hoff count attnum state).off = offAt macros tuple desc (attnum + count) := by
  induction count generalizing attnum state with
  | zero => exact ⟨filled,off⟩
  | succ count ih =>
    have flag : state.isnull attnum = nullAt macros tuple attnum := filled.isnull attnum (.inr ⟨marked,by omega⟩)
    -- the flag is written already, so putting it again changes nothing
    have same : Function.update state.isnull attnum (nullAt macros tuple attnum) = state.isnull := by
      rw [← flag,Function.update_eq_self]
    have put := filled.put rfl rfl
    rw [nullsLoop,flag,← Nat.succ_add_eq_add_succ]
    rw [Deformed.put,same] at put
    cases isNull : nullAt macros tuple attnum with
    | true =>
      rw [datumAt_null beyond isNull] at put
      exact ih (Nat.le_succ_of_le beyond) (Nat.le_succ_of_le marked) (by omega) put
        (off.trans (offAt_null beyond isNull).symm)
    | false =>
      simp only [Bool.false_eq_true,if_false,off,fetchNext_at beyond isNull]
      exact ih (Nat.le_succ_of_le beyond) (Nat.le_succ_of_le marked) (by omega)
        ⟨put.nvalid,put.values,put.isnull⟩ rfl

theorem cachedPrefix_filled (documented : macros.Documented) (attbyval : Nat → Bool) {reqnatts stop attnum : Nat}
    {state : Deformed} (ahead : attnum < stop) (inside : stop ≤ cachedLimit macros tuple desc)
    (byval : ∀ later, later < stop → attbyval later = (desc.cattr later).attbyval)
    (filled : Filled macros tuple desc reqnatts attnum state) :
    Filled macros tuple desc reqnatts stop (cachedPrefix macros tuple desc tuple.hoff attbyval stop attnum state) ∧
      (cachedPrefix macros tuple desc tuple.hoff attbyval stop attnum state).off = offAt macros tuple desc stop := by
  have looped := cachedLoop_filled documented attbyval (stop - attnum) (by omega)
    (fun later _ below => byval later (by omega)) filled
  rw [Nat.add_sub_of_le (Nat.le_of_lt ahead)] at looped
  exact ⟨⟨looped.nvalid,looped.values,looped.isnull⟩,(offAt_cached (by omega) inside).symm⟩

theorem fillTo_filled (documented : macros.Documented) {reqnatts attnum : Nat} {state : Deformed}
    (beyond : cachedLimit macros tuple desc ≤ attnum ∨ attnum = reqnatts)
    (inside : attnum ≤ min tuple.natts reqnatts) (filled : Filled macros tuple desc reqnatts attnum state)
    (off : state.off = offAt macros tuple desc attnum) :
    ∃ after, fillTo macros tuple desc tuple.hoff (min tuple.natts reqnatts)
        (firstNullIn macros tuple (min tuple.natts reqnatts)) reqnatts attnum state =
        (after,decide (reqnatts ≤ tuple.natts)) ∧
      DeformedTo macros tuple desc reqnatts after := by
  have bounded := firstNullIn_le documented tuple (min tuple.natts reqnatts)
  have verdict : decide (reqnatts ≤ max (max attnum (firstNullIn macros tuple (min tuple.natts reqnatts)))
      (min tuple.natts reqnatts)) = decide (reqnatts ≤ tuple.natts) :=
    decide_eq_decide.mpr (by omega)
  unfold fillTo
  dsimp only
  rw [verdict]
  rcases beyond with beyond | done
  · obtain ⟨filled,off⟩ := presentLoop_filled (firstNullIn macros tuple (min tuple.natts reqnatts) - attnum) beyond
      (fun later _ below => nullAt_before documented (min tuple.natts reqnatts) (by omega)) filled off
    have reached : attnum + (firstNullIn macros tuple (min tuple.natts reqnatts) - attnum) =
      max attnum (firstNullIn macros tuple (min tuple.natts reqnatts)) := by omega
    rw [reached] at filled off
    obtain ⟨filled,off⟩ := nullsLoop_filled
      (min tuple.natts reqnatts - max attnum (firstNullIn macros tuple (min tuple.natts reqnatts)))
      (Nat.le_trans beyond (Nat.le_max_left ..)) (Nat.le_max_right ..) (by omega) filled off
    rw [Nat.add_sub_of_le (by omega)] at filled off
    exact ⟨_,rfl,filled,off⟩
  · obtain rfl : attnum = min tuple.natts reqnatts := by omega
    rw [Nat.max_eq_left bounded,Nat.sub_self,Nat.sub_eq_zero_of_le bounded]
    exact ⟨state,rfl,filled,off⟩

theorem deformRest_filled (documented : macros.Documented) {reqnatts attnum : Nat} {state : Deformed}
    (inside : attnum ≤ min tuple.natts reqnatts) (filled : Filled macros tuple desc reqnatts attnum state)
    (off : state.off = offAt macros tuple desc attnum) :
    ∃ after, deformRest macros tuple desc tuple.hoff (min tuple.natts reqnatts)
        (firstNullIn macros tuple (min tuple.natts reqnatts)) reqnatts attnum state =
        (after,decide (reqnatts ≤ tuple.natts)) ∧
      DeformedTo macros tuple desc reqnatts after := by
  have whole : cachedLimit macros tuple desc ≤ tuple.natts :=
    Nat.le_trans (Nat.min_le_right ..) (firstNullIn_le documented tuple _)
  rw [deformRest,min_cached documented]
  split
  · have jumped := cachedPrefix_filled documented (fun attnum => (desc.cattr attnum).attbyval)
      (by assumption) (Nat.min_le_right ..) (fun _ _ => rfl) filled
    exact fillTo_filled documented (by omega) (by omega) jumped.1 jumped.2
  · exact fillTo_filled documented (by omega) inside filled off

/-- Behind the last attribute of the tuple there is nothing left to read. -/
theorem deformRest_short (documented : macros.Documented) {reqnatts attnum : Nat} {state : Deformed}
    (short : tuple.natts ≤ attnum) (ahead : attnum < reqnatts) :
    deformRest macros tuple desc tuple.hoff (min tuple.natts reqnatts)
      (firstNullIn macros tuple (min tuple.natts reqnatts)) reqnatts attnum state = (state,false) := by
  have bounded := firstNullIn_le documented tuple (min tuple.natts reqnatts)
  rw [deformRest,if_neg (by omega),fillTo,Nat.sub_eq_zero_of_le (by omega),Nat.max_eq_left (by omega),
    Nat.sub_eq_zero_of_le (by omega),Nat.max_eq_left (by omega)]
  exact congrArg (Prod.mk state) (decide_eq_false (by omega))

theorem deformStart_at (documented : macros.Documented) (aligned : Aligned macros tuple) {firstNonGuaranteed : Nat}
    (guaranteed : Guaranteed macros tuple desc firstNonGuaranteed) (reqnatts : Nat) (isnull : Nat → Bool) :
    ∃ flags, deformStart macros tuple (min reqnatts firstNonGuaranteed) reqnatts isnull =
        (tuple.hoff,min tuple.natts reqnatts,firstNullIn macros tuple (min tuple.natts reqnatts),flags) ∧
      ∀ attnum < min tuple.natts reqnatts, isnull attnum = nullAt macros tuple attnum ∨
        firstNullIn macros tuple (min tuple.natts reqnatts) ≤ attnum → flags attnum = nullAt macros tuple attnum := by
  have present := guaranteed.present
  have bounded := firstNullIn_le documented tuple (min tuple.natts reqnatts)
  have prefixed : firstNonGuaranteed ≤ firstNullIn macros tuple tuple.natts :=
    Nat.le_trans (guaranteed.le_limit documented) (Nat.min_le_right ..)
  rw [Aligned] at aligned
  unfold deformStart
  cases nulls : tuple.hasNulls with
  | true =>
    rw [nulls,if_pos rfl] at aligned
    rw [if_pos rfl]
    dsimp only
    split
    · refine ⟨_,by rw [aligned,firstNullIn,nulls,if_pos rfl],fun attnum below _ => ?_⟩
      rw [documented.populated _ _ _ _ below,nullAt,nulls,Bool.true_and]
    · have all : firstNullIn macros tuple (min tuple.natts reqnatts) = min tuple.natts reqnatts := by
        rw [firstNullIn_min documented (Nat.min_le_left ..)]
        omega
      refine ⟨isnull,by rw [aligned,all],fun attnum below which => ?_⟩
      exact which.resolve_right (by omega)
  | false =>
    have all : firstNullIn macros tuple (min tuple.natts reqnatts) = min tuple.natts reqnatts := by
      simp [firstNullIn,nulls]
    have narrowed : (if min reqnatts firstNonGuaranteed < reqnatts then min tuple.natts reqnatts else reqnatts) =
        min tuple.natts reqnatts := by
      split <;> omega
    simp only [nulls,Bool.false_eq_true,if_false] at aligned ⊢
    refine ⟨isnull,by rw [aligned,all,narrowed],fun attnum below which => ?_⟩
    exact which.resolve_right (by omega)

theorem to_at (documented : macros.Documented) (aligned : Aligned macros tuple) {firstNonGuaranteed : Nat}
    (guaranteed : Guaranteed macros tuple desc firstNonGuaranteed) {mark reqnatts : Nat} {state : Deformed}
    (here : DeformedTo macros tuple desc mark state) (ahead : mark < reqnatts) :
    ∃ after, heapDeformTupleTo macros tuple desc firstNonGuaranteed state reqnatts =
        (after,decide (reqnatts ≤ tuple.natts)) ∧
      DeformedTo macros tuple desc reqnatts after := by
  have limited := guaranteed.le_limit documented
  have present := guaranteed.present
  obtain ⟨flags,start,flagged⟩ := deformStart_at documented aligned guaranteed reqnatts state.isnull
  have started : Filled macros tuple desc reqnatts (min tuple.natts mark)
      {state with nvalid := reqnatts, isnull := flags} := by
    refine ⟨rfl,here.filled.values,fun before which => flagged before (by omega) ?_⟩
    exact which.imp (fun below => here.filled.isnull before (.inl below)) And.left
  rw [heapDeformTupleTo,start]
  dsimp only
  rw [here.filled.nvalid]
  split
  · rename_i quick
    rw [Nat.min_eq_right (show mark ≤ tuple.natts by omega)] at started
    obtain ⟨filled,off⟩ := cachedPrefix_filled documented (fun _ => true) quick (by omega)
      (fun later below => (guaranteed.byval later (by omega)).symm) started
    split
    · rename_i done
      rw [done] at filled off ⊢
      have within : min tuple.natts reqnatts = reqnatts := by omega
      refine ⟨_,by rw [decide_eq_true (show reqnatts ≤ tuple.natts by omega)],?_,?_⟩
      · rwa [within]
      · rwa [within]
    · exact deformRest_filled documented (by omega) filled off
  · by_cases short : tuple.natts < mark
    · rw [deformRest_short documented (Nat.le_of_lt short) ahead]
      have same : min tuple.natts reqnatts = min tuple.natts mark := by omega
      exact ⟨_,by rw [decide_eq_false (show ¬reqnatts ≤ tuple.natts by omega)],by rwa [same],by rw [same]; exact here.off⟩
    · have within : min tuple.natts mark = mark := by omega
      rw [within] at started
      exact deformRest_filled documented (by omega) started (by rw [← within]; exact here.off)

theorem deformSteps_at (documented : macros.Documented) (aligned : Aligned macros tuple) {firstNonGuaranteed : Nat}
    (guaranteed : Guaranteed macros tuple desc firstNonGuaranteed) (values : Nat → BitVec 64) (isnull : Nat → Bool)
    (requests : List Nat) (last : Nat) (increasing : (0 :: (requests ++ [last])).Pairwise (· < ·)) :
    DeformedTo macros tuple desc last
        (deformSteps macros tuple desc firstNonGuaranteed values isnull (requests ++ [last])).1 ∧
      (deformSteps macros tuple desc firstNonGuaranteed values isnull (requests ++ [last])).2 =
        decide (last ≤ tuple.natts) := by
  refine foldl_at (fun (state : Deformed × Bool) mark =>
    DeformedTo macros tuple desc mark state.1 ∧ state.2 = decide (mark ≤ tuple.natts)) ?_ ?_ increasing
  · intro state mark target here ahead
    obtain ⟨after,same,there⟩ := to_at documented aligned guaranteed here.1 ahead
    rw [same]
    exact ⟨there,rfl⟩
  · refine ⟨⟨⟨rfl,fun before below => ?_,fun before which => ?_⟩,?_⟩,(decide_eq_true (Nat.zero_le _)).symm⟩
    · simp at below
    · simp at which
    · rw [Nat.min_zero]
      rfl

theorem advances_at (documented : macros.Documented) {firstNonGuaranteed : Nat}
    (guaranteed : Guaranteed macros tuple desc firstNonGuaranteed) {targets : List Nat}
    (increasing : (0 :: targets).Pairwise (· < ·)) :
    advances macros tuple desc firstNonGuaranteed targets =
      targets.map fun target => (answer macros tuple desc target).2 := by
  refine reads_eq_map (fun state mark => state =
      ⟨min tuple.natts mark,offAt macros tuple desc (min tuple.natts mark)⟩) ?_ ?_ increasing
  · rintro _ mark target rfl ahead
    have behind : min tuple.natts mark < target := Nat.lt_of_le_of_lt (Nat.min_le_right ..) ahead
    have answered := advance_at documented guaranteed behind (Nat.min_le_left ..)
    rw [answered,answer]
    refine ⟨rfl,?_⟩
    split
    · rw [Nat.min_eq_right (by assumption)]
    · rw [Nat.min_eq_left (by omega)]
  · rw [Nat.min_zero]
    rfl

/-- The cursor of the slot's own model moves as the one in memory does. -/
theorem advance_refines (documented : macros.Documented) {firstNonGuaranteed target : Nat}
    (guaranteed : Guaranteed macros tuple desc firstNonGuaranteed) {mark : Nat} (tid : Nat × Nat) (ahead : mark < target)
    (inside : mark ≤ tuple.natts) :
    ∃ next found, heapDeformTupleAdvance macros tuple desc firstNonGuaranteed
        ⟨mark,offAt macros tuple desc mark⟩ target = (⟨next,offAt macros tuple desc next⟩,found) ∧
      next ≤ tuple.natts ∧
      Scan.heapDeformTupleAdvance mark (shown macros tuple desc tid) target =
        .ok (next,found.map fun cell => if cell.2 then none else some cell.1) := by
  have forward : ¬target ≤ mark := Nat.not_le.mpr ahead
  rw [advance_at documented guaranteed ahead inside,Scan.heapDeformTupleAdvance,if_neg forward]
  by_cases within : target ≤ tuple.natts
  · rw [answer,if_pos within,if_neg (show ¬(shown macros tuple desc tid).natts < target from Nat.not_lt.mpr within)]
    exact ⟨target,_,rfl,within,rfl⟩
  · rw [answer,if_neg within,if_pos (show (shown macros tuple desc tid).natts < target from Nat.not_le.mp within)]
    exact ⟨tuple.natts,_,rfl,Nat.le_refl _,congrArg Except.ok (congrArg (·,none) (Nat.max_eq_right inside))⟩

/-- Deforming attribute by attribute, or in steps, is deforming the tuple at once: a target
has the value and the flag that one call finds, and none exactly behind the tuple's last attribute. -/
theorem incremental_agrees (documented : macros.Documented) (aligned : Aligned macros tuple) {firstNonGuaranteed : Nat}
    (guaranteed : Guaranteed macros tuple desc firstNonGuaranteed) (values : Nat → BitVec 64) (isnull : Nat → Bool) :
    (∀ targets : List Nat, (0 :: targets).Pairwise (· < ·) → (∀ target ∈ targets, target ≤ desc.natts) →
      advances macros tuple desc firstNonGuaranteed targets = targets.map fun target =>
        let whole := (deformSteps macros tuple desc firstNonGuaranteed values isnull [desc.natts]).1
        if target ≤ tuple.natts then some (whole.values (target - 1),whole.isnull (target - 1)) else none) ∧
    ∀ requests last, (0 :: (requests ++ [last])).Pairwise (· < ·) →
      let steps := deformSteps macros tuple desc firstNonGuaranteed values isnull (requests ++ [last])
      let whole := deformSteps macros tuple desc firstNonGuaranteed values isnull [last]
      steps.2 = whole.2 ∧ steps.1.nvalid = whole.1.nvalid ∧ steps.1.off = whole.1.off ∧
        ∀ attnum < min tuple.natts last, steps.1.values attnum = whole.1.values attnum ∧
          steps.1.isnull attnum = whole.1.isnull attnum := by
  refine ⟨fun targets increasing bounded => ?_,fun requests last increasing => ?_⟩
  · rw [advances_at documented guaranteed increasing]
    refine List.map_congr_left fun target member => ?_
    have positive : 0 < target := List.rel_of_pairwise_cons increasing member
    have within := bounded target member
    obtain ⟨⟨filled,_⟩,_⟩ := deformSteps_at documented aligned guaranteed values isnull [] desc.natts
      (by simpa using Nat.lt_of_lt_of_le positive within)
    rw [List.nil_append] at filled
    dsimp only [answer]
    split
    · rw [filled.values (target - 1) (by omega),filled.isnull (target - 1) (.inl (by omega))]
    · rfl
  · have positive : 0 < last := List.rel_of_pairwise_cons increasing (List.mem_append_right _ (List.mem_singleton_self _))
    obtain ⟨⟨filled,off⟩,result⟩ := deformSteps_at documented aligned guaranteed values isnull requests last increasing
    obtain ⟨⟨filled',off'⟩,result'⟩ := deformSteps_at documented aligned guaranteed values isnull [] last
      (by simpa using positive)
    refine ⟨result.trans result'.symm,filled.nvalid.trans filled'.nvalid.symm,off.trans off'.symm,fun attnum below => ?_⟩
    exact ⟨(filled.values attnum below).trans (filled'.values attnum below).symm,
      (filled.isnull attnum (.inl below)).trans (filled'.isnull attnum (.inl below)).symm⟩

end Facts

section Machine

/-- A bit that is not set stands for a NULL. -/
def bitIsnull (attnum : Nat) (bits : List UInt8) : Bool :=
  !(bits.getD (attnum / 8) 0).toBitVec.getLsbD (attnum % 8)

def loadLittle : Nat → List UInt8 → Nat
  | 0, _ => 0
  | count+1, bytes => (bytes.headD 0).toNat + 256 * loadLittle count bytes.tail

def alignTo (alignby off : Nat) : Nat :=
  (off + alignby - 1) / alignby * alignby

/-- The macros on a little-endian machine, for fixed widths and inline variable-length values. -/
def littleEndian : Tupmacs where
  offsetofBits := 23
  maxalign := alignTo 8
  bitmaplen := fun natts => (natts + 7) / 8
  attIsnull := bitIsnull
  firstNullAttr := fun bits natts => (List.range natts).findIdx fun attnum => bitIsnull attnum bits
  populateIsnullArray := fun bits natts isnull attnum =>
    if attnum < alignTo 8 natts then bitIsnull attnum bits else isnull attnum
  fetchAttNoerr := fun data place byval len =>
    if byval then (BitVec.ofNat (8 * len.toNat) (loadLittle len.toNat (data.drop place))).signExtend 64
    else BitVec.ofNat 64 place
  alignFetchThenAdd := fun data tp off byval len alignby =>
    let aligned := alignTo alignby off.toNat
    if 0 < len then
      (if byval then (BitVec.ofNat (8 * len.toNat) (loadLittle len.toNat (data.drop (tp + aligned)))).signExtend 64
        else BitVec.ofNat 64 (tp + aligned),BitVec.ofNat 32 (aligned + len.toNat))
    else
      let off := if data.getD (tp + off.toNat) 0 = 0 then aligned else off.toNat
      let head := (data.getD (tp + off) 0).toNat
      let size := if head % 2 = 1 then head / 2 else loadLittle 4 (data.drop (tp + off)) / 4
      (BitVec.ofNat 64 (tp + off),BitVec.ofNat 32 (off + size))

theorem littleEndian_documented : littleEndian.Documented where
  bounded bits natts := Nat.le_trans List.findIdx_le_length (Nat.le_of_eq List.length_range)
  before bits natts attnum below := by
    have present := List.not_of_lt_findIdx below
    rwa [List.getElem_range] at present
  first bits natts inside := by
    have isNull := List.findIdx_getElem (p := fun attnum => bitIsnull attnum bits)
      (w := Nat.lt_of_lt_of_eq inside List.length_range.symm)
    rwa [List.getElem_range] at isNull
  populated bits natts isnull attnum below :=
    if_pos (show attnum < (natts + 8 - 1) / 8 * 8 by omega)

/-- Two cached integers, a text, a nullable short, an integer and one more column added later. -/
def sixColumns : TupleDesc where
  compactAttrs := [⟨4,true,4,0⟩,⟨4,true,4,4⟩,⟨-1,false,4,-1⟩,⟨2,true,2,-1⟩,⟨4,true,4,-1⟩,⟨8,true,8,-1⟩]
  firstNonCachedOffsetAttr := 2

/-- Five attributes, the fourth of them NULL. -/
def shortTuple : HeapTuple where
  data := List.replicate 23 0 ++ [0x17] ++ [7,0,0,0,9,0,0,0,7,0x61,0x62,0,5,0,0,0]
  hoff := 24
  natts := 5
  hasNulls := true

theorem shortTuple_guaranteed : Guaranteed littleEndian shortTuple sixColumns 1 where
  cached := by decide
  present := by decide
  byval := by decide
  notNull := by decide

theorem shortTuple_agrees :
    advances littleEndian shortTuple sixColumns 1 [2,4,5,6] =
      [some (9,false),some (0,true),some (5,false),none] ∧
    (deformSteps littleEndian shortTuple sixColumns 1 (fun _ => 0) (fun _ => false) [3,6]).1.values 4 =
      (deformSteps littleEndian shortTuple sixColumns 1 (fun _ => 0) (fun _ => false) [6]).1.values 4 := by
  obtain ⟨advanced,stepped⟩ := incremental_agrees littleEndian_documented (by decide) shortTuple_guaranteed
    (fun _ => 0) (fun _ => false)
  refine ⟨(advanced [2,4,5,6] (by decide) (by decide)).trans ?_,((stepped [3] 6 (by decide)).2.2.2 4 (by decide)).1⟩
  decide

end Machine
end PgBatch.Deform
