import PgBatch.Sources.ArrowScan

/-! The windows of an Arrow scan: each turn takes the next rows of the file, and what is
published of them are those that satisfy the conditions. -/
namespace PgBatch.ArrowFdw
open Sources Scan Expr Results

/-- The attributes of a row of a record. -/
def RecordBatch.row (natts : Nat) (record : RecordBatch) (row : Nat) : Attrs :=
  fun attnum => if 0 < attnum ∧ attnum ≤ natts then ((record.columns (attnum - 1)).cell row).map int32GetDatum else none

def RecordBatch.rows (natts : Nat) (record : RecordBatch) : List Attrs :=
  (List.range record.length).map (record.row natts)

/-- The columns of a record have the same length, and a null count of zero is true. -/
structure RecordBatch.Decoded (natts : Nat) (record : RecordBatch) : Prop where
  lengths : ∀ index, index < natts → (record.columns index).length = record.length
  counted : ∀ index, index < natts → (record.columns index).Counted

/-! The array of a window. -/

theorem windowArray_cell (source : ArrowArray) (start nrows row : Nat) :
    (windowArray source start nrows).cell row = source.cell (start + row) := by
  unfold ArrowArray.cell ArrowArray.rowIsValid windowArray
  dsimp only
  rw [Nat.add_assoc]

theorem windowArray_counted {source : ArrowArray} (counted : source.Counted) {start nrows : Nat}
    (within : start + nrows ≤ source.length) : (windowArray source start nrows).Counted := by
  intro zero row inside
  have valid := counted zero (start + row) (Nat.lt_of_lt_of_le (Nat.add_lt_add_left inside start) within)
  unfold ArrowArray.rowIsValid windowArray
  dsimp only
  rw [Nat.add_assoc]
  exact valid

/-- A window looks a row up where the record does. -/
theorem windowArray_addressed {source : ArrowArray} {start nrows row : Nat} :
    (windowArray source start nrows).int4Vector.AddressedAt row ↔ source.int4Vector.AddressedAt (start + row) := by
  have place : (row : Int) + ((source.offset + start : Nat) : Int) = ((start + row : Nat) : Int) + (source.offset : Int) := by
    push_cast
    omega
  unfold ArrowArray.int4Vector windowArray
  dsimp only
  generalize (if source.nullCount = 0 then none else source.validity.map fun validity index =>
    Bitmaps.bitAt validity index.toNat : Option (Int → Bool)) = bits
  cases bits with
  | none => exact Iff.rfl
  | some validity =>
    unfold Int4Vector.AddressedAt
    dsimp only
    rw [place]

theorem decodeWindow_eq {natts attnum : Nat} (record : RecordBatch) (start nrows : Nat)
    (known : 0 < attnum ∧ attnum ≤ natts) :
    decodeWindow natts record start nrows attnum = .ok (windowArray (record.columns (attnum - 1)) start nrows) := by
  unfold decodeWindow decodeColumn
  rw [if_pos known]
  rfl

/-- A window over rows of a record shows just these rows. -/
theorem window_row (sourceAttnums : List Nat) (natts : Nat) (record : RecordBatch) (start nrows row : Nat) :
    (openWindow sourceAttnums (decodeWindow natts record start nrows) nrows).row row = record.row natts (start + row) := by
  funext attnum
  unfold Window.row openWindow RecordBatch.row
  dsimp only
  by_cases known : 0 < attnum ∧ attnum ≤ natts
  · rw [decodeWindow_eq record start nrows known,if_pos known]
    dsimp only
    rw [windowArray_cell]
  · rw [if_neg known]
    unfold decodeWindow decodeColumn
    rw [if_neg known]
    rfl

theorem window_shows {sourceAttnums : List Nat} {natts : Nat} (attnums : ∀ attnum ∈ sourceAttnums, 0 < attnum ∧ attnum ≤ natts)
    {record : RecordBatch} (decoded : record.Decoded natts) {start nrows : Nat} (positive : 0 < nrows) (small : nrows ≤ 64)
    (within : start + nrows ≤ record.length) :
    Shows sourceAttnums (openWindow sourceAttnums (decodeWindow natts record start nrows) nrows) := by
  refine openWindow_shows (fun attnum member => ?_) positive small
  have known := attnums attnum member
  have index : attnum - 1 < natts := by omega
  refine ⟨_,decodeWindow_eq record start nrows known,windowArray_counted (decoded.counted _ index) ?_,rfl⟩
  rw [decoded.lengths _ index]
  exact within

/-- A scan over a file with the conditions of its plan. -/
structure Setting (κ : Type) where
  conditions : Conditions κ
  source : Source
  natts : Nat
  columnPruning : Bool
  maxRows : Nat
  sourceAttnums : List Nat
  file : List RecordBatch
  filters : List κ

namespace Setting
variable {κ : Type} (set : Setting κ)

/-- The records are decoded, and the scan asks for columns of the table. -/
structure Fair : Prop where
  decoded : ∀ record ∈ set.file, record.Decoded set.natts
  attnums : ∀ attnum ∈ set.sourceAttnums, 0 < attnum ∧ attnum ≤ set.natts
  params : set.source.params = set.conditions.params
  supports : ∀ qual ∈ set.filters, supported set.conditions qual = true
  columns : ∀ qual ∈ set.filters, ∀ var ∈ treeVars (set.conditions.tree qual), var.varattno.toNat ∈ set.sourceAttnums

def keeps (row : Attrs) : Bool :=
  set.filters.all fun qual => decide (set.conditions.Satisfies row qual)

/-- The rows that satisfy the conditions, in file order. -/
def expected : List Attrs :=
  (set.file.flatMap (RecordBatch.rows set.natts)).filter set.keeps

/-- In the column of each condition, a row that the conditions before it keep finds its own
validity bit. -/
def FindsRow (record : RecordBatch) (row : Nat) : Prop :=
  ∀ before qual after, set.filters = before ++ qual :: after →
    (∀ earlier ∈ before, set.conditions.Satisfies (record.row set.natts row) earlier) →
    ∀ var ∈ treeVars (set.conditions.tree qual), (record.columns (var.varattno.toNat - 1)).int4Vector.AddressedAt row

/-- Every row of the file finds its validity bits. -/
def FindsRows : Prop :=
  ∀ record ∈ set.file, ∀ row, row < record.length → set.FindsRow record row

/-- No record is too long and no condition fails on a row. -/
structure Fine : Prop where
  table : 0 < set.natts
  lengths : ∀ record ∈ set.file, record.length < 2 ^ 31
  holds : ∀ row ∈ set.file.flatMap (RecordBatch.rows set.natts), ∀ qual ∈ set.filters,
    ∃ result, set.conditions.holds qual row = .ok result

/-- What all the steps of a scan keep. -/
structure Fit (scan : FdwScan) : Prop where
  natts : scan.natts = set.natts
  maxRows : scan.maxRows = set.maxRows
  sourceAttnums : scan.sourceAttnums = set.sourceAttnums
  file : scan.file = set.file
  left : scan.left <:+ set.file
  record : scan.recordOffset < scan.recordLength →
    ∃ record ∈ set.file, scan.record = some record ∧ scan.recordLength = record.length
  compiled : List.Forall₂ (Compiled set.conditions set.sourceAttnums) set.filters scan.quals

/-- The rows that are still to be taken. -/
def rowsLeft (scan : FdwScan) : List Attrs :=
  (scan.record.elim [] fun record =>
    (List.range' scan.recordOffset (scan.recordLength - scan.recordOffset)).map (record.row set.natts)) ++
  scan.left.flatMap (RecordBatch.rows set.natts)

theorem rowsLeft_between {scan : FdwScan} (done : scan.recordLength ≤ scan.recordOffset) :
    set.rowsLeft scan = scan.left.flatMap (RecordBatch.rows set.natts) := by
  unfold rowsLeft
  rw [Nat.sub_eq_zero_of_le done]
  cases scan.record <;> rfl

/-- The next rows of a record, and those behind them. -/
theorem rowsLeft_take {scan : FdwScan} {record : RecordBatch} (held : scan.record = some record) {nrows : Nat}
    (within : nrows ≤ scan.recordLength - scan.recordOffset) (quals : List BatchQual) (active : Option Window) :
    set.rowsLeft scan = (List.range' scan.recordOffset nrows).map (record.row set.natts) ++
      set.rowsLeft {scan with quals := quals, recordOffset := scan.recordOffset + nrows, active := active} := by
  unfold rowsLeft
  dsimp only
  rw [held,Option.elim_some,Option.elim_some,← List.append_assoc,← List.map_append]
  have rest : scan.recordLength - (scan.recordOffset + nrows) = scan.recordLength - scan.recordOffset - nrows := by omega
  rw [rest,List.range'_append_1,Nat.add_sub_cancel' within]

theorem nextRows_inside {scan : FdwScan} (fit : set.Fit scan) (inside : scan.recordOffset < scan.recordLength) :
    0 < nextRows scan ∧ nextRows scan ≤ 64 ∧ nextRows scan ≤ scan.recordLength - scan.recordOffset := by
  have positive := batchSize_pos set.maxRows
  have small := batchSize_le set.maxRows
  unfold nextRows
  rw [fit.maxRows]
  omega

/-! Loading a record. -/

section Record
variable {set : Setting κ} (fair : set.Fair) {scan : FdwScan} (fit : set.Fit scan)
include fair fit

theorem takeRecord_ok (done : scan.recordLength ≤ scan.recordOffset) {after : FdwScan} {turn : Turn}
    (ran : takeRecord scan = .ok (after,turn)) :
    set.Fit after ∧ after.active = scan.active ∧ set.rowsLeft after = set.rowsLeft scan ∧
      (turn = .again ∧ after.rounds < scan.rounds ∨ turn = .ended ∧ set.rowsLeft after = []) := by
  rw [set.rowsLeft_between done]
  obtain ⟨⟨other,loaded⟩,load,rest⟩ := bind_ok.mp ran
  unfold loadRecord at load
  cases messages : scan.left with
  | nil =>
    rw [messages] at load
    cases load
    cases rest
    have none_ : set.rowsLeft (releaseRecord scan) = [] := by
      rw [set.rowsLeft_between (Nat.le_refl _)]
      simp only [releaseRecord,messages,List.flatMap_nil]
    refine ⟨⟨fit.natts,fit.maxRows,fit.sourceAttnums,fit.file,fit.left,fun inside => ?_,fit.compiled⟩,rfl,?_,.inr ⟨rfl,none_⟩⟩
    · exact absurd inside (Nat.lt_irrefl 0)
    · rw [none_]
      rfl
  | cons record later =>
    rw [messages] at load
    obtain ⟨column,decoded,load⟩ := bind_ok.mp load
    obtain ⟨length,checked,load⟩ := bind_ok.mp load
    obtain ⟨_,_,load⟩ := bind_ok.mp load
    cases load
    cases rest
    have suffix : record :: later <:+ set.file := messages ▸ fit.left
    have among : record ∈ set.file := suffix.mem (List.mem_cons_self ..)
    have size : length = record.length := by
      unfold checkLength at checked
      split at checked
      · cases checked
      cases checked
      unfold decodeColumn at decoded
      split at decoded
      · rename_i known
        cases decoded
        refine (fair.decoded record among).lengths _ ?_
        have natts := fit.natts
        omega
      · cases decoded
    refine ⟨⟨fit.natts,fit.maxRows,fit.sourceAttnums,fit.file,(List.suffix_cons ..).trans suffix,
      fun _ => ⟨record,among,rfl,size⟩,fit.compiled⟩,rfl,?_,.inl ⟨rfl,?_⟩⟩
    · unfold rowsLeft
      dsimp only
      rw [Option.elim_some,size,Nat.sub_zero,← List.range_eq_range',List.flatMap_cons]
      rfl
    · unfold FdwScan.rounds
      rw [messages,List.map_cons,List.sum_cons,List.length_cons]
      dsimp only
      omega

theorem takeRecord_total (fine : set.Fine) : ∃ result, takeRecord scan = .ok result := by
  unfold takeRecord loadRecord
  cases messages : scan.left with
  | nil => exact ⟨_,rfl⟩
  | cons record later =>
    have suffix : record :: later <:+ set.file := messages ▸ fit.left
    have among : record ∈ set.file := suffix.mem (List.mem_cons_self ..)
    have decodes {attnum : Nat} (known : 0 < attnum ∧ attnum ≤ set.natts) :
        decodeColumn scan.natts record attnum = .ok (record.columns (attnum - 1)) := by
      rw [fit.natts]
      exact if_pos known
    have measured : 0 < lengthAttnum scan ∧ lengthAttnum scan ≤ set.natts := by
      have compiled := fit.compiled
      unfold lengthAttnum
      cases quals : scan.quals with
      | cons state others =>
        rw [quals] at compiled
        obtain ⟨qual,_,head,_⟩ := List.forall₂_cons_right_iff.mp compiled
        dsimp only
        rw [fit.sourceAttnums]
        exact fair.attnums _ (column_listed head.inside)
      | nil =>
        cases attnums : scan.sourceAttnums with
        | cons attnum others => exact fair.attnums attnum (by rw [← fit.sourceAttnums,attnums]; exact List.mem_cons_self ..)
        | nil => exact ⟨Nat.one_pos,fine.table⟩
    have length := (fair.decoded record among).lengths (lengthAttnum scan - 1) (by omega)
    have checked : checkLength (record.columns (lengthAttnum scan - 1)) = .ok record.length := by
      unfold checkLength
      rw [length,if_neg (Nat.not_le.mpr (fine.lengths record among))]
    have ahead : decodeAhead scan record = .ok () := by
      unfold decodeAhead
      split
      · rfl
      obtain ⟨_,ran,_⟩ : ∃ last : Unit, (List.range scan.natts).foldlM
          (fun _ index => (decodeColumn scan.natts record (index + 1)).map fun _ => ()) () = .ok last ∧ True := by
        refine foldlM_rule (fun _ _ => True) trivial fun done index rest state split _ => ⟨(),?_,trivial⟩
        have inside : index < scan.natts := List.mem_range.mp (by rw [split]; simp)
        rw [decodes ⟨Nat.succ_pos _,fit.natts ▸ inside⟩]
        rfl
      exact ran
    exact ⟨_,bind_ok.mpr ⟨_,bind_ok.mpr ⟨_,decodes measured,bind_ok.mpr ⟨_,checked,bind_ok.mpr ⟨(),ahead,rfl⟩⟩⟩,rfl⟩⟩

end Record

/-! Cutting a window. -/

section Window
variable {set : Setting κ} (fair : set.Fair) {record : RecordBatch} (among : record ∈ set.file) {start nrows : Nat}
include fair among

omit among in
/-- A row of a window finds its bits where the row of the record does. -/
theorem window_finds {row : Nat} (finds : set.FindsRow record (start + row)) :
    Finds set.conditions (openWindow set.sourceAttnums (decodeWindow set.natts record start nrows) nrows) row set.filters := by
  intro before qual after split earlier var member array decoded
  have filter : qual ∈ set.filters := by rw [split]; simp
  have known := fair.attnums _ (fair.columns qual filter var member)
  change decodeWindow set.natts record start nrows var.varattno.toNat = .ok array at decoded
  rw [decodeWindow_eq record start nrows known] at decoded
  cases decoded
  refine windowArray_addressed.mpr (finds before qual after split (fun one within => ?_) var member)
  have holds := earlier one within
  rw [window_row] at holds
  exact holds

variable (finds : set.FindsRows) (positive : 0 < nrows) (small : nrows ≤ 64) (within : start + nrows ≤ record.length)
  {quals : List BatchQual} (compiled : List.Forall₂ (Compiled set.conditions set.sourceAttnums) set.filters quals)
include finds positive small within compiled

theorem applySourceQuals_ok {afters : List BatchQual} {filtered : Window} (ran : applySourceQuals set.source quals
      (openWindow set.sourceAttnums (decodeWindow set.natts record start nrows) nrows) = .ok (afters,filtered)) :
    Shows set.sourceAttnums filtered ∧ List.Forall₂ (Compiled set.conditions set.sourceAttnums) set.filters afters ∧
      filtered.rows = ((List.range' start nrows).map (record.row set.natts)).filter set.keeps := by
  have found (row : Nat) (selected : (openWindow set.sourceAttnums (decodeWindow set.natts record start nrows) nrows).selection.Selected
      row) : Finds set.conditions (openWindow set.sourceAttnums (decodeWindow set.natts record start nrows) nrows) row set.filters := by
    have inside := (allRows_selected small).mp selected
    exact window_finds fair (finds record among (start + row) (by omega))
  rw [← List.filterMap_some (l := quals)] at compiled
  obtain ⟨shows,decode,compiled',_,selects⟩ := @filterWindow_ok κ set.conditions set.sourceAttnums fdwErrors set.source
    BatchQual some (fun _ state => state) (fun _ _ => rfl) fair.params quals set.filters compiled _
    (window_shows fair.attnums (fair.decoded record among) positive small within) found afters filtered ran
  rw [List.filterMap_some] at compiled'
  refine ⟨shows,compiled',?_⟩
  rw [filtered_rows decode selects,openWindow_rows _ _ small,List.range'_eq_map_range,List.map_map]
  congr 1
  exact List.map_congr_left fun row _ => window_row ..

theorem applySourceQuals_total (fine : set.Fine) : ∃ result, applySourceQuals set.source quals
    (openWindow set.sourceAttnums (decodeWindow set.natts record start nrows) nrows) = .ok result := by
  rw [← List.filterMap_some (l := quals)] at compiled
  refine filterWindow_total fair.params compiled (window_shows fair.attnums (fair.decoded record among) positive small within)
    (fun row selected => ?_) fun row selected => ?_
  · have inside := (allRows_selected small).mp selected
    exact window_finds fair (finds record among (start + row) (by omega))
  · have inside := (allRows_selected small).mp selected
    rw [window_row]
    refine fine.holds _ (List.mem_flatMap.mpr ⟨record,among,List.mem_map.mpr ⟨start + row,?_,rfl⟩⟩)
    exact List.mem_range.mpr (by omega)

end Window

/-! The loop of a call. -/

/-- What a turn makes of the rows that are still to be taken. -/
inductive TurnRight (before after : FdwScan) : Turn → Prop
  | again (less : after.rounds < before.rounds) (free : before.active = none → after.active = none)
      (same : (set.rowsLeft before).filter set.keeps = (set.rowsLeft after).filter set.keeps) : TurnRight before after .again
  | published (window) (held : after.active = some window) (shows : Shows set.sourceAttnums window)
      (filled : window.rows ≠ [])
      (first : (set.rowsLeft before).filter set.keeps = window.rows ++ (set.rowsLeft after).filter set.keeps) :
      TurnRight before after (.published window)
  | ended (free : before.active = none → after.active = none) (before_ : set.rowsLeft before = [])
      (after_ : set.rowsLeft after = []) : TurnRight before after .ended

section Turn
variable {set : Setting κ} (fair : set.Fair) (finds : set.FindsRows) {scan : FdwScan} (fit : set.Fit scan)
include fair finds fit

omit fair finds in
theorem nextWindow_eq (record : RecordBatch) : nextWindow scan record = openWindow set.sourceAttnums
    (decodeWindow set.natts record scan.recordOffset (nextRows scan)) (nextRows scan) := by
  rw [nextWindow,fit.sourceAttnums,fit.natts]

theorem takeWindow_ok (inside : scan.recordOffset < scan.recordLength) {record : RecordBatch} (among : record ∈ set.file)
    (held : scan.record = some record) (size : scan.recordLength = record.length) {after : FdwScan} {turn : Turn}
    (ran : takeWindow set.source scan record = .ok (after,turn)) : set.Fit after ∧ set.TurnRight scan after turn := by
  obtain ⟨positive,small,within⟩ := set.nextRows_inside fit inside
  obtain ⟨⟨quals,filtered⟩,filtering,done⟩ := bind_ok.mp ran
  rw [nextWindow_eq fit] at filtering
  obtain ⟨shows,compiled,rows⟩ := applySourceQuals_ok fair among finds positive small (by omega) fit.compiled filtering
  have kept (active : Option Window) :
      set.Fit {scan with quals := quals, recordOffset := scan.recordOffset + nextRows scan, active := active} :=
    ⟨fit.natts,fit.maxRows,fit.sourceAttnums,fit.file,fit.left,fun _ => ⟨record,among,held,size⟩,compiled⟩
  have order (active : Option Window) : (set.rowsLeft scan).filter set.keeps = filtered.rows ++ (set.rowsLeft
      {scan with quals := quals, recordOffset := scan.recordOffset + nextRows scan, active := active}).filter set.keeps := by
    rw [set.rowsLeft_take held within quals active,List.filter_append,rows]
  have done := Except.ok.inj done
  unfold finishWindow at done
  split at done
  · rename_i empty
    cases done
    have nothing := (rows_eq_nil_iff shows).mpr empty
    refine ⟨kept none,.again ?_ (fun _ => rfl) ?_⟩
    · unfold FdwScan.rounds
      dsimp only
      omega
    · rw [order none,nothing,List.nil_append]
  · rename_i filled
    cases done
    exact ⟨kept (some filtered),.published filtered rfl shows (fun nothing => filled ((rows_eq_nil_iff shows).mp nothing))
      (order (some filtered))⟩

theorem turn_ok {after : FdwScan} {turn : Turn} (ran : scanTurn set.source scan = .ok (after,turn)) :
    set.Fit after ∧ set.TurnRight scan after turn := by
  unfold scanTurn at ran
  split at ran
  · rename_i done
    obtain ⟨fit',active,rows,⟨rfl,less⟩ | ⟨rfl,nothing⟩⟩ := takeRecord_ok fair fit done ran
    · exact ⟨fit',.again less (fun free => active.trans free) (by rw [rows])⟩
    · exact ⟨fit',.ended (fun free => active.trans free) (rows.symm.trans nothing) nothing⟩
  · rename_i open_
    have inside := Nat.not_le.mp open_
    obtain ⟨record,among,held,size⟩ := fit.record inside
    rw [held] at ran
    exact takeWindow_ok fair finds fit inside among held size ran

theorem turn_total (fine : set.Fine) : ∃ result, scanTurn set.source scan = .ok result := by
  unfold scanTurn
  split
  · exact takeRecord_total fair fit fine
  · rename_i open_
    have inside := Nat.not_le.mp open_
    obtain ⟨record,among,held,size⟩ := fit.record inside
    obtain ⟨positive,small,within⟩ := set.nextRows_inside fit inside
    rw [held]
    dsimp only
    unfold takeWindow
    rw [nextWindow_eq fit]
    have inside : scan.recordOffset + nextRows scan ≤ record.length := by omega
    obtain ⟨result,filtering⟩ := applySourceQuals_total fair among finds positive small inside fit.compiled fine
    exact ⟨_,bind_ok.mpr ⟨result,filtering,rfl⟩⟩

end Turn

section Loop
variable {set : Setting κ} (fair : set.Fair) (finds : set.FindsRows)
include fair finds

/-- The next window that keeps a row, or the end of the file. -/
theorem scanLoop_ok {rounds : Nat} {scan after : FdwScan} (fit : set.Fit scan) (free : scan.active = none)
    {result : Option Window} (ran : scanLoop set.source rounds scan = .ok (after,result)) :
    set.Fit after ∧ after.active = result ∧
      (set.rowsLeft scan).filter set.keeps = result.elim [] Window.rows ++ (set.rowsLeft after).filter set.keeps ∧
      (∀ window ∈ result, window.rows ≠ [] ∧ Shows set.sourceAttnums window) ∧ (result = none → set.rowsLeft after = []) := by
  induction rounds generalizing scan with
  | zero => cases ran
  | succ rounds ih =>
    obtain ⟨⟨middle,turn⟩,one,rest⟩ := bind_ok.mp ran
    obtain ⟨fit',right⟩ := turn_ok fair finds fit one
    cases right with
    | again less free' same =>
      obtain ⟨last,active,order,found,final⟩ := ih fit' (free' free) rest
      exact ⟨last,active,same.trans order,found,final⟩
    | published window held shows filled first =>
      cases rest
      refine ⟨fit',held,first,fun other member => ?_,fun none_ => by cases none_⟩
      cases member
      exact ⟨filled,shows⟩
    | ended free' before_ after_ =>
      cases rest
      refine ⟨fit',free' free,?_,by simp,fun _ => after_⟩
      rw [before_,after_]
      rfl

theorem scanLoop_total (fine : set.Fine) {rounds : Nat} {scan : FdwScan} (fit : set.Fit scan)
    (enough : scan.rounds ≤ rounds) : ∃ result, scanLoop set.source rounds scan = .ok result := by
  induction rounds generalizing scan with
  | zero => exact absurd enough (Nat.not_le.mpr (Nat.succ_pos _))
  | succ rounds ih =>
    obtain ⟨⟨middle,turn⟩,one⟩ := turn_total fair finds fit fine
    obtain ⟨fit',right⟩ := turn_ok fair finds fit one
    cases right with
    | again less free' same =>
      obtain ⟨result,rest⟩ := ih fit' (by omega)
      exact ⟨result,bind_ok.mpr ⟨_,one,rest⟩⟩
    | published window held shows filled first => exact ⟨_,bind_ok.mpr ⟨_,one,rfl⟩⟩
    | ended free' before_ after_ => exact ⟨_,bind_ok.mpr ⟨_,one,rfl⟩⟩

theorem scanNext_ok {scan after : FdwScan} (fit : set.Fit scan) {result : Option Window}
    (ran : scanNext set.source scan = .ok (after,result)) : set.Fit after ∧ after.active = result ∧
      (set.rowsLeft scan).filter set.keeps = result.elim [] Window.rows ++ (set.rowsLeft after).filter set.keeps ∧
      (∀ window ∈ result, window.rows ≠ [] ∧ Shows set.sourceAttnums window) ∧ (result = none → set.rowsLeft after = []) := by
  unfold scanNext at ran
  split at ran
  · cases ran
  · rename_i free
    exact scanLoop_ok fair finds fit (Option.not_isSome_iff_eq_none.mp free) ran

theorem scanNext_total (fine : set.Fine) {scan : FdwScan} (fit : set.Fit scan) (free : scan.active = none) :
    ∃ result, scanNext set.source scan = .ok result := by
  unfold scanNext
  rw [free,if_neg (by simp)]
  exact scanLoop_total fair finds fine fit (Nat.le_refl _)

end Loop

end Setting
end PgBatch.ArrowFdw
