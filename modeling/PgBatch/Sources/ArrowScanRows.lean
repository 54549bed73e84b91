import PgBatch.Sources.ArrowScanRun
import PgBatch.Nodes.FilterEmits

/-! The two readers of an Arrow scan: one takes its windows, the other their rows, and both
come to the rows of the file that satisfy the conditions, also after a rescan. -/
namespace PgBatch.ArrowFdw
open Sources Scan Expr Results Cursors

/-- The attributes of a row in the order of a slot. -/
def tupleOf (natts : Nat) (values : Attrs) : List (Option (BitVec 64)) :=
  (List.range natts).map fun column => values (column + 1)

/-- The row path finds in its slot what the window shows. -/
theorem fetchTuple_ok {natts : Nat} {window : Window} (shows : Shows (List.range' 1 natts) window) {row : Nat} (small : row < 64) :
    ∃ after, fetchTuple natts row window = .ok (after,tupleOf natts (window.row row)) ∧
      Shows (List.range' 1 natts) after ∧ Filled window after := by
  obtain ⟨⟨after,tuple⟩,ran,shown,filled,rfl⟩ : ∃ state : Window × List (Option (BitVec 64)),
      (List.range natts).foldlM (fetchAttribute row) (window,[]) = .ok state ∧
      Shows (List.range' 1 natts) state.1 ∧ Filled window state.1 ∧ state.2 = tupleOf natts (window.row row) := by
    refine foldlM_rule (fun done (state : Window × List (Option (BitVec 64))) =>
      Shows (List.range' 1 natts) state.1 ∧ Filled window state.1 ∧
      state.2 = done.map fun column => window.row row (column + 1)) ⟨shows,⟨rfl,rfl,rfl⟩,rfl⟩ ?_
    rintro done column rest ⟨before,values⟩ split ⟨shown,filled,rfl⟩
    have inside : column < natts := List.mem_range.mp (by rw [split]; simp)
    have listed : column < (List.range' 1 natts).length := inside.trans_eq (List.length_range' ..).symm
    obtain ⟨next,datum,array,ran,shown',filled',decoded,cells⟩ :=
      getDatumColumn_ok fdwErrors shown listed (Words.bit 64 row)
    refine ⟨(next,done.map (fun column => window.row row (column + 1)) ++ [datum.cell row]),bind_ok.mpr ⟨_,ran,rfl⟩,shown',
      ⟨filled'.attnums.trans filled.attnums,filled'.decode.trans filled.decode,filled'.selection.trans filled.selection⟩,?_⟩
    have attnum : (List.range' 1 natts).getD column 0 = column + 1 := by
      rw [List.getD_eq_getElem _ _ listed,List.getElem_range',Nat.one_mul,Nat.add_comm]
    rw [attnum,filled.decode] at decoded
    have cell : datum.cell row = window.row row (column + 1) := by
      unfold Window.row
      rw [decoded]
      exact cells row (by simp [small])
    rw [List.map_append,List.map_singleton,cell]
  exact ⟨after,ran,shown,filled⟩

namespace Setting
variable {κ : Type} (set : Setting κ)

/-- What its readers do with the window of a scan leaves the rest of it as it was. -/
theorem Fit.reading {set : Setting κ} {scan : FdwScan} (fit : set.Fit scan) (active : Option Window) (scalarRow : Int) :
    set.Fit {scan with active := active, scalarRow := scalarRow} :=
  ⟨fit.natts,fit.maxRows,fit.sourceAttnums,fit.file,fit.left,fit.record,fit.compiled⟩

/-- A scan in front of its file. -/
structure Starts (scan : FdwScan) : Prop where
  fit : set.Fit scan
  free : scan.active = none
  rows : set.rowsLeft scan = set.file.flatMap (RecordBatch.rows set.natts)

/-- A rescan brings a scan to the start of its file. -/
theorem rescan_starts {scan : FdwScan} (fit : set.Fit scan) :
    ∃ after, scanRescan (releaseBatch scan) = .ok after ∧ set.Starts after := by
  have same : scan.file = set.file := fit.file
  refine ⟨_,if_neg Bool.false_ne_true,⟨fit.natts,fit.maxRows,fit.sourceAttnums,fit.file,?_,
    fun inside => absurd inside (Nat.lt_irrefl 0),fit.compiled⟩,rfl,?_⟩
  · rw [← same]
    exact List.suffix_rfl
  · rw [set.rowsLeft_between (Nat.le_refl _),← same]
    rfl

theorem beginQuals_ok {conditions : Conditions κ} {sourceAttnums : List Nat} {filters : List κ}
    (supports : ∀ qual ∈ filters, supported conditions qual = true)
    (columns : ∀ qual ∈ filters, ∀ var ∈ treeVars (conditions.tree qual), var.varattno.toNat ∈ sourceAttnums) :
    ∃ quals, filters.mapM (beginSourceQual conditions sourceAttnums) = .ok quals ∧
      List.Forall₂ (Compiled conditions sourceAttnums) filters quals := by
  induction filters with
  | nil => exact ⟨[],rfl,.nil⟩
  | cons filter filters ih =>
    obtain ⟨state,one,head⟩ := beginSourceQual_ok (supports filter (List.mem_cons_self ..))
      (columns filter (List.mem_cons_self ..))
    obtain ⟨states,others,tail⟩ := ih (fun qual member => supports qual (List.mem_cons_of_mem _ member))
      fun qual member => columns qual (List.mem_cons_of_mem _ member)
    refine ⟨state :: states,?_,.cons head tail⟩
    rw [List.mapM_cons]
    exact bind_ok.mpr ⟨state,one,bind_ok.mpr ⟨states,others,rfl⟩⟩

theorem begin_starts {set : Setting κ} (fair : set.Fair) : ∃ begun, scanBegin set.conditions set.natts
    set.columnPruning set.file set.filters set.maxRows set.sourceAttnums = .ok begun ∧ set.Starts begun := by
  obtain ⟨quals,ran,compiled⟩ := beginQuals_ok fair.supports fair.columns
  exact ⟨_,bind_ok.mpr ⟨quals,ran,rfl⟩,⟨rfl,rfl,rfl,rfl,List.suffix_rfl,fun inside => absurd inside (Nat.lt_irrefl 0),
    compiled⟩,rfl,rfl⟩

/-! The reader of windows. -/

section Windows
variable {set : Setting κ} (fair : set.Fair) (finds : set.FindsRows)
include fair finds

theorem windows_served : Serves (nextReleased set.source)
    (fun scan rows => set.Fit scan ∧ (set.rowsLeft scan).filter set.keeps = rows) Window.rows where
  ended := by
    rintro before after _ ⟨fit,rfl⟩ ran
    obtain ⟨_,_,order,_,final⟩ := scanNext_ok fair finds (fit.reading none before.scalarRow) ran
    rw [final rfl] at order
    exact order
  answered := by
    rintro before after _ window ⟨fit,rfl⟩ ran
    obtain ⟨fit',_,order,found,_⟩ := scanNext_ok fair finds (fit.reading none before.scalarRow) ran
    exact ⟨(found window rfl).1,_,order,fit',rfl⟩

end Windows

/-! The reader of rows. -/

/-- The rows that are still to be stored: of the window in front of the row path, and behind it. -/
inductive RowsAt (scan : FdwScan) : List Attrs → Prop
  | between (free : scan.active = none) : RowsAt scan ((set.rowsLeft scan).filter set.keeps)
  | inside (window) (row : Nat) (held : scan.active = some window) (shows : Shows set.sourceAttnums window)
      (place : scan.scalarRow = (row : Int) - 1) :
      RowsAt scan ((window.selection.rowsFrom row).map window.row ++ (set.rowsLeft scan).filter set.keeps)

/-- What a turn of the row path makes of them. -/
inductive RowRight (rows : List Attrs) (after : FdwScan) : RowTurn → Prop
  | again (free : after.active = none) (same : rows = (set.rowsLeft after).filter set.keeps) : RowRight rows after .again
  | stored (values rest) (split : rows = values :: rest) (place : set.RowsAt after rest) :
      RowRight rows after (.stored (tupleOf set.natts values))
  | ended (nothing : rows = []) : RowRight rows after .ended

section Rows
variable {set : Setting κ} (all : set.sourceAttnums = List.range' 1 set.natts) {scan : FdwScan} (fit : set.Fit scan)
include all fit

/-- The next row of a window, if it has one left. -/
theorem visit_right {window : Window} {row : Nat} (shows : Shows set.sourceAttnums window)
    (place : scan.scalarRow = (row : Int) - 1) :
    ∃ after turn, visitRow scan window (window.selection.nextAfter scan.scalarRow) = .ok (after,turn) ∧ set.Fit after ∧
      set.RowRight ((window.selection.rowsFrom row).map window.row ++ (set.rowsLeft scan).filter set.keeps) after turn ∧
      (window.selection.rowsFrom row ≠ [] → turn ≠ .again) := by
  rw [place]
  unfold visitRow
  cases found : window.selection.next row with
  | none =>
    rw [Selection.nextAfter_none found,if_pos (by decide),Selection.rowsFrom_none found]
    exact ⟨_,_,rfl,fit.reading none scan.scalarRow,.again rfl rfl,fun some_ => absurd rfl some_⟩
  | some next =>
    obtain ⟨rows,_,inside⟩ := Selection.rowsFrom_some found
    have small : next < 64 := Nat.lt_of_lt_of_le inside shows.small
    rw [Selection.nextAfter_some found,if_neg (by omega),rows,Int.toNat_natCast]
    obtain ⟨filled,ran,shown,same⟩ := fetchTuple_ok (all ▸ shows) small
    refine ⟨{scan with active := some filled, scalarRow := (next : Int)},.stored (tupleOf set.natts (window.row next)),
      bind_ok.mpr ⟨_,by rw [fit.natts]; exact ran,rfl⟩,fit.reading _ _,.stored (window.row next) _ rfl ?_,fun _ => by simp⟩
    have after : set.RowsAt {scan with active := some filled, scalarRow := (next : Int)} ((filled.selection.rowsFrom
        (next + 1)).map filled.row ++ (set.rowsLeft scan).filter set.keeps) :=
      .inside filled (next + 1) rfl (all ▸ shown) (by dsimp only; omega)
    rw [same.selection,row_eq same.decode] at after
    exact after

variable (fair : set.Fair) (finds : set.FindsRows)
include fair finds

theorem foreignTurn_ok {rows : List Attrs} (at_ : set.RowsAt scan rows) {after : FdwScan} {turn : RowTurn}
    (ran : foreignTurn set.source scan = .ok (after,turn)) :
    set.Fit after ∧ set.RowRight rows after turn ∧ (scan.active = none → turn ≠ .again) := by
  obtain ⟨⟨middle,result⟩,opened,rest⟩ := bind_ok.mp ran
  unfold foreignWindow at opened
  cases at_ with
  | inside window row held shows place =>
    rw [held] at opened
    cases opened
    obtain ⟨_,_,visited,fit',right,_⟩ := visit_right all fit shows place
    cases visited.symm.trans rest
    exact ⟨fit',right,fun free => by cases held.symm.trans free⟩
  | between free =>
    rw [free] at opened
    obtain ⟨⟨next,answer⟩,ran',entered⟩ := bind_ok.mp opened
    obtain ⟨fit',active,order,found,final⟩ := scanNext_ok fair finds fit ran'
    cases answer with
    | none =>
      cases entered
      cases rest
      rw [final rfl] at order
      exact ⟨fit',.ended order,fun _ => by simp⟩
    | some window =>
      cases entered
      obtain ⟨some_,shows⟩ := found window rfl
      have entered := fit'.reading next.active (-1)
      obtain ⟨_,_,visited,fit'',right,filled⟩ := visit_right all entered shows (show (-1 : Int) = ((0 : Nat) : Int) - 1 from rfl)
      cases visited.symm.trans rest
      rw [← Selection.visits_eq] at right filled
      refine ⟨fit'',?_,fun _ => filled fun nothing => some_ (by rw [Window.rows,nothing]; rfl)⟩
      rw [order]
      exact right

theorem foreignTurn_total (fine : set.Fine) {rows : List Attrs} (at_ : set.RowsAt scan rows) :
    ∃ result, foreignTurn set.source scan = .ok result := by
  cases at_ with
  | inside window row held shows place =>
    obtain ⟨after,turn,visited,_⟩ := visit_right all fit shows place
    refine ⟨_,bind_ok.mpr ⟨(scan,some window),?_,visited⟩⟩
    unfold foreignWindow
    rw [held]
  | between free =>
    obtain ⟨⟨next,answer⟩,ran⟩ := scanNext_total fair finds fine fit free
    obtain ⟨fit',_,_,found,_⟩ := scanNext_ok fair finds fit ran
    have opened : foreignWindow set.source scan = .ok (enterWindow next answer) := by
      unfold foreignWindow
      rw [free]
      exact bind_ok.mpr ⟨_,ran,rfl⟩
    cases answer with
    | none => exact ⟨_,bind_ok.mpr ⟨_,opened,rfl⟩⟩
    | some window =>
      obtain ⟨after,turn,visited,_⟩ := visit_right all (fit'.reading next.active (-1)) (found window rfl).2
        (show (-1 : Int) = ((0 : Nat) : Int) - 1 from rfl)
      exact ⟨_,bind_ok.mpr ⟨_,opened,visited⟩⟩

end Rows

section Iterate
variable {set : Setting κ} (all : set.sourceAttnums = List.range' 1 set.natts) (fair : set.Fair) (finds : set.FindsRows)
include all fair finds

theorem foreignLoop_ok {rounds : Nat} {scan : FdwScan} (fit : set.Fit scan) {rows : List Attrs} (at_ : set.RowsAt scan rows)
    {after : FdwScan} {result : Option (List (Option (BitVec 64)))}
    (ran : foreignLoop set.source rounds scan = .ok (after,result)) :
    set.Fit after ∧ set.RowRight rows after (result.elim .ended .stored) := by
  induction rounds generalizing scan rows with
  | zero => cases ran
  | succ rounds ih =>
    obtain ⟨⟨middle,turn⟩,one,rest⟩ := bind_ok.mp ran
    obtain ⟨fit',right,_⟩ := foreignTurn_ok all fit fair finds at_ one
    cases turn with
    | again =>
      cases right with
      | again free same => exact ih fit' (same ▸ .between free) rest
    | stored tuple =>
      cases rest
      exact ⟨fit',right⟩
    | ended =>
      cases rest
      exact ⟨fit',right⟩

/-- Two rounds are enough: a window that was left is followed by one with a row. -/
theorem iterate_total (fine : set.Fine) {scan : FdwScan} (fit : set.Fit scan) {rows : List Attrs}
    (at_ : set.RowsAt scan rows) : ∃ result, iterateForeignScan set.source scan = .ok result := by
  obtain ⟨⟨middle,turn⟩,one⟩ := foreignTurn_total all fit fair finds fine at_
  obtain ⟨fit',right,_⟩ := foreignTurn_ok all fit fair finds at_ one
  cases right with
  | stored values rest split place => exact ⟨_,bind_ok.mpr ⟨_,one,rfl⟩⟩
  | ended nothing => exact ⟨_,bind_ok.mpr ⟨_,one,rfl⟩⟩
  | again free same =>
    obtain ⟨⟨last,turn⟩,two⟩ := foreignTurn_total all fit' fair finds fine (.between free)
    obtain ⟨_,_,moves⟩ := foreignTurn_ok all fit' fair finds (.between free) two
    cases turn with
    | again => exact absurd rfl (moves free)
    | stored tuple => exact ⟨_,bind_ok.mpr ⟨_,one,bind_ok.mpr ⟨_,two,rfl⟩⟩⟩
    | ended => exact ⟨_,bind_ok.mpr ⟨_,one,bind_ok.mpr ⟨_,two,rfl⟩⟩⟩

theorem rows_served : Serves (iterateForeignScan set.source) (fun scan tuples => set.Fit scan ∧
    ∃ rows, set.RowsAt scan rows ∧ tuples = rows.map (tupleOf set.natts)) fun tuple => [tuple] where
  ended := by
    rintro before after _ ⟨fit,rows,at_,rfl⟩ ran
    obtain ⟨_,right⟩ := foreignLoop_ok all fair finds fit at_ ran
    cases right with
    | ended nothing => rw [nothing,List.map_nil]
  answered := by
    rintro before after _ tuple ⟨fit,rows,at_,rfl⟩ ran
    obtain ⟨fit',right⟩ := foreignLoop_ok all fair finds fit at_ ran
    cases right with
    | stored values rest split place =>
      refine ⟨List.cons_ne_nil _ _,rest.map (tupleOf set.natts),?_,fit',rest,place,rfl⟩
      rw [split,List.map_cons]
      rfl

end Iterate

end Setting
end PgBatch.ArrowFdw
