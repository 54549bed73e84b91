import PgBatch.Sources.ArrowScanRows

/-! The two readers of an Arrow scan agree, wherever a scan has come to before its rescan. A
row whose position in an array does not fit an `int` may be taken for another one. -/
namespace PgBatch.ArrowFdw
open Sources Scan Expr Results Cursors

namespace Setting
variable {κ : Type} (set : Setting κ)

section Reached
variable {set : Setting κ} (fair : set.Fair) (finds : set.FindsRows)
include fair finds

theorem foreignTurn_fit {scan after : FdwScan} (fit : set.Fit scan) {turn : RowTurn}
    (ran : foreignTurn set.source scan = .ok (after,turn)) : set.Fit after := by
  obtain ⟨⟨middle,result⟩,opened,rest⟩ := bind_ok.mp ran
  have opened_fit : set.Fit middle := by
    unfold foreignWindow at opened
    cases held : scan.active with
    | some window =>
      rw [held] at opened
      cases opened
      exact fit
    | none =>
      rw [held] at opened
      obtain ⟨⟨next,answer⟩,ran',entered⟩ := bind_ok.mp opened
      obtain ⟨fit',_⟩ := scanNext_ok fair finds fit ran'
      cases answer with
      | none =>
        cases entered
        exact fit'
      | some window =>
        cases entered
        exact fit'.reading next.active (-1)
  cases result with
  | none =>
    cases rest
    exact opened_fit
  | some window =>
    dsimp only at rest
    unfold visitRow at rest
    split at rest
    · cases rest
      exact opened_fit.reading none middle.scalarRow
    · obtain ⟨⟨filled,tuple⟩,_,done⟩ := bind_ok.mp rest
      cases done
      exact opened_fit.reading _ _

theorem foreignLoop_fit {rounds : Nat} {scan after : FdwScan} (fit : set.Fit scan)
    {result : Option (List (Option (BitVec 64)))} (ran : foreignLoop set.source rounds scan = .ok (after,result)) :
    set.Fit after := by
  induction rounds generalizing scan with
  | zero => cases ran
  | succ rounds ih =>
    obtain ⟨⟨middle,turn⟩,one,rest⟩ := bind_ok.mp ran
    have fit' := foreignTurn_fit fair finds fit one
    cases turn with
    | again => exact ih fit' rest
    | stored tuple =>
      cases rest
      exact fit'
    | ended =>
      cases rest
      exact fit'

omit fair finds in
theorem rescan_fit {scan after : FdwScan} (fit : set.Fit scan) (ran : scanRescan scan = .ok after) : set.Fit after := by
  unfold scanRescan at ran
  split at ran
  · cases ran
  · cases ran
    exact ⟨fit.natts,fit.maxRows,fit.sourceAttnums,fit.file,by rw [← fit.file],
      fun inside => absurd inside (Nat.lt_irrefl 0),fit.compiled⟩

theorem reached_fit {begun scan : FdwScan} (fit : set.Fit begun) (reached : Reached set.source begun scan) : set.Fit scan := by
  induction reached with
  | begun => exact fit
  | next before after result _ ran ih => exact (scanNext_ok fair finds ih ran).1
  | read before window other _ _ ih => exact ih.reading (some other) before.scalarRow
  | release before _ ih => exact ih.reading none before.scalarRow
  | rescan before after _ ran ih => exact rescan_fit ih ran
  | iterate before after result _ ran ih => exact foreignLoop_fit fair finds ih ran
  | rescanForeign before after _ ran ih => exact rescan_fit (ih.reading none before.scalarRow) ran

end Reached

/-- The windows from a state on: none is empty, and together they hold the rows of the file
that satisfy the conditions, in file order and once each. -/
def WindowsRight (scan : FdwScan) : Prop :=
  (∀ windows after, Drains (nextReleased set.source) scan windows after →
    windows.flatMap Window.rows = set.expected ∧ ∀ window ∈ windows, window.rows ≠ []) ∧
  (set.Fine → ∃ windows after, Drains (nextReleased set.source) scan windows after)

/-- The row path stores the same rows. -/
def RowsRight (scan : FdwScan) : Prop :=
  (∀ tuples after, Drains (iterateForeignScan set.source) scan tuples after → tuples = set.expected.map (tupleOf set.natts)) ∧
  (set.Fine → ∃ tuples after, Drains (iterateForeignScan set.source) scan tuples after)

theorem starts_windows {set : Setting κ} (fair : set.Fair) (finds : set.FindsRows) {scan : FdwScan} (starts : set.Starts scan) :
    set.WindowsRight scan := by
  have left : set.Fit scan ∧ (set.rowsLeft scan).filter set.keeps = set.expected := ⟨starts.fit,by rw [starts.rows]; rfl⟩
  refine ⟨fun windows after drains => (windows_served fair finds).drained drains left,fun fine => ?_⟩
  refine (windows_served fair finds).drains (fun before rows held => ?_) left
  exact scanNext_total fair finds fine (held.1.reading none before.scalarRow) rfl

theorem starts_rows {set : Setting κ} (all : set.sourceAttnums = List.range' 1 set.natts) (fair : set.Fair)
    (finds : set.FindsRows) {scan : FdwScan} (starts : set.Starts scan) : set.RowsRight scan := by
  have served := rows_served all fair finds
  have left : set.Fit scan ∧ ∃ rows, set.RowsAt scan rows ∧ set.expected.map (tupleOf set.natts) = rows.map (tupleOf set.natts) :=
    ⟨starts.fit,_,.between starts.free,by rw [starts.rows]; rfl⟩
  refine ⟨fun tuples after drains => ?_,fun fine => ?_⟩
  · obtain ⟨same,_⟩ := served.drained drains left
    rw [List.flatMap_singleton'] at same
    exact same
  · refine served.drains (fun before tuples held => ?_) left
    obtain ⟨fit,rows,at_,_⟩ := held
    exact iterate_total all fair finds fine fit at_

/-- The scan of the row path, over the same file with the same conditions. -/
def foreign : Setting κ :=
  {set with maxRows := 0, sourceAttnums := List.range' 1 set.natts}

theorem foreign_fair {set : Setting κ} (fair : set.Fair) : set.foreign.Fair where
  decoded := fair.decoded
  attnums := by
    intro attnum member
    obtain ⟨low,high⟩ := List.mem_range'_1.mp member
    exact ⟨low,show attnum ≤ set.natts by omega⟩
  params := fair.params
  supports := fair.supports
  columns := by
    intro qual filter var member
    have known := fair.attnums _ (fair.columns qual filter var member)
    exact List.mem_range'_1.mpr ⟨known.1,by omega⟩

theorem RowsRight.ofForeign {set : Setting κ} {scan : FdwScan} (right : set.foreign.RowsRight scan) : set.RowsRight scan :=
  ⟨right.1,fun fine => right.2 ⟨fine.table,fine.lengths,fine.holds⟩⟩

end Setting

/-- One column, of which the second row is NULL, stored from `offset` on. -/
def twoRows (offset : Nat) (value : Int4) (bits : Nat → BitVec 8) : RecordBatch :=
  ⟨2,fun _ => ⟨2,1,offset,some bits,fun _ => value⟩⟩

def noRows : RecordBatch :=
  ⟨0,fun _ => ⟨0,0,0,none,fun _ => 0#32⟩⟩

/-- The condition `one < 5` over a file. -/
def smallSetting (maxRows : Nat) (file : List RecordBatch) : Setting Bool where
  conditions := Filter.smallConditions
  source := ⟨true,.seq,Filter.smallConditions.params,true,true⟩
  natts := 1
  columnPruning := false
  maxRows := maxRows
  sourceAttnums := [1]
  file := file
  filters := [true]

def nearSetting : Setting Bool :=
  smallSetting 1 [noRows,twoRows 5 3#32 fun _ => 32#8]

theorem smallSetting_fair {maxRows : Nat} {file : List RecordBatch} (decoded : ∀ record ∈ file, record.Decoded 1) :
    (smallSetting maxRows file).Fair where
  decoded := decoded
  attnums := show ∀ attnum ∈ [1], 0 < attnum ∧ attnum ≤ 1 by decide
  params := rfl
  supports := show ∀ qual ∈ [true], supported Filter.smallConditions qual = true by decide
  columns := show ∀ qual ∈ [true], ∀ var ∈ treeVars (Filter.smallTree qual), var.varattno.toNat ∈ [1] by decide

theorem twoRows_decoded (offset : Nat) (value : Int4) (bits : Nat → BitVec 8) : (twoRows offset value bits).Decoded 1 :=
  ⟨fun _ _ => rfl,fun _ _ zero => by cases zero⟩

theorem nearSetting_fair : nearSetting.Fair :=
  smallSetting_fair fun record member => by
    rcases List.mem_cons.mp member with rfl | later
    · exact ⟨fun _ _ => rfl,fun _ _ _ row inside => absurd inside (Nat.not_lt_zero row)⟩
    · rw [List.mem_singleton.mp later]
      exact twoRows_decoded ..

theorem nearSetting_finds : nearSetting.FindsRows := by
  intro record member row inside before qual after _ _ var _
  rcases List.mem_cons.mp member with rfl | later
  · exact absurd inside (Nat.not_lt_zero row)
  · rw [List.mem_singleton.mp later] at inside ⊢
    exact Int4Vector.addressed_iff.mp (int4Vector_addressed (show 5 + 2 ≤ 2 ^ 31 by decide)) row inside

theorem nearSetting_fine : nearSetting.Fine where
  table := Nat.one_pos
  lengths := by decide
  holds := fun row _ qual member => by
    rw [List.mem_singleton.mp member]
    exact Filter.smallFine row true (List.mem_cons_self ..)

/-- Stored 2^32 rows into its array; the rows at the start of the array are NULL. -/
def farRecord : RecordBatch :=
  twoRows (2 ^ 32) 3#32 fun byte => if byte = 2 ^ 29 then 1#8 else 0#8

def farSetting : Setting Bool :=
  smallSetting 0 [farRecord]

def smallQual : BatchQual :=
  ⟨⟨some 0,none,[],some (.const .int4 (some 5#32)),.lt,true⟩,freshMachine,0,{0},∅,∅,false⟩

def farBegun : FdwScan :=
  ⟨1,false,0,[1],farSetting.file,farSetting.file,none,0,0,[smallQual],none,0⟩

theorem far_begun : scanBegin farSetting.conditions 1 false farSetting.file farSetting.filters 0 [1] = .ok farBegun := rfl

def farLoaded : FdwScan :=
  {farBegun with left := [], record := some farRecord, recordLength := 2}

theorem farSetting_fair : farSetting.Fair :=
  smallSetting_fair fun record member => by
    rw [List.mem_singleton.mp member]
    exact twoRows_decoded ..

/-- The condition sees NULL in both rows. -/
theorem far_filtered : ∃ quals filtered, applySourceQuals farSetting.source farBegun.quals (nextWindow farLoaded farRecord) =
    .ok (quals,filtered) ∧ filtered.selection.words 0 = 0#64 := by
  obtain ⟨begun,began,starts⟩ := Setting.begin_starts farSetting_fair
  cases far_begun.symm.trans began
  obtain ⟨_,_,compiled,_⟩ := List.forall₂_cons_right_iff.mp starts.fit.compiled
  have shows : Shows [1] (nextWindow farLoaded farRecord) :=
    window_shows farSetting_fair.attnums (twoRows_decoded _ _ _) Nat.two_pos (by decide) (Nat.le_refl _)
  have rows : (nextWindow farLoaded farRecord).selection.words 0 ≠ 0#64 := by decide
  obtain ⟨ready,array,_,_,decoded,steps⟩ := @applySourceQual_eq Bool _ _ fdwErrors farSetting.source _ shows _ _ compiled rows
  cases decoded
  obtain ⟨machine,bound,applied,held,none_⟩ : ∃ machine bound, applyFilter farSetting.source.params smallQual.expr true true
      (bind freshMachine ⟨(nextWindow farLoaded farRecord).selection,fun _ =>
        (windowArray (farRecord.columns 0) 0 2).int4Vector⟩) =
      .ok machine ∧ machine.bound = some bound ∧ bound.selection.words 0 = 0#64 := ⟨_,_,rfl,rfl,by decide⟩
  refine ⟨[{smallQual with machine := machine}],{ready with selection := bound.selection},?_,none_⟩
  have one : applySourceQual fdwErrors farSetting.source smallQual (nextWindow farLoaded farRecord) =
      .ok ({smallQual with machine := machine},{ready with selection := bound.selection}) :=
    steps.trans (bind_ok.mpr ⟨machine,applied,by rw [held]⟩)
  exact filterWindow_step fdwErrors farSetting.source rows rfl one rfl

/-- The first call finds no row in the file. -/
theorem far_next : ∃ after, scanNext farSetting.source farBegun = .ok (after,none) := by
  obtain ⟨quals,filtered,ran,empty⟩ := far_filtered
  have taken : scanTurn farSetting.source farLoaded = .ok ({farLoaded with quals := quals, recordOffset := 2},.again) := by
    refine bind_ok.mpr ⟨_,ran,congrArg Except.ok ?_⟩
    exact if_pos empty
  exact ⟨_,bind_ok.mpr ⟨_,rfl,bind_ok.mpr ⟨_,taken,rfl⟩⟩⟩

end PgBatch.ArrowFdw
