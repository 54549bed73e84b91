import PgBatch.Sources.CompressedCursor

/-! The cursor of a compressed scan, turn by turn: which windows are still to be taken, and
that the calls of a scan publish them in order. -/
namespace PgBatch.Compressed
open Sources Scan Expr Words Results

/-- A scan over a relation: `prepared` are its conditions with their scalars evaluated, and
`filters` those among them that have an expression. -/
structure Setting (κ : Type) where
  conditions : Conditions κ
  source : Source
  relation : CompressedRelation
  inputs : List InputBatch
  sourceAttnums : List Nat
  maxRows : Nat
  mode : SourceScanMode
  prepared : List SourceQual
  filters : List κ

namespace Setting
variable {κ : Type} (set : Setting κ)

/-- The relation stores the inputs, and the scan asks for columns of it. -/
structure Fair : Prop where
  stores : Stores set.relation set.inputs
  few : set.relation.ncolumns ≤ 1600
  attnums : ∀ attnum ∈ set.sourceAttnums, 0 < attnum ∧ attnum ≤ set.relation.ncolumns
  params : set.source.params = set.conditions.params

/-- The rows that the source keeps. -/
def keeps (row : Attrs) : Bool :=
  set.mode ≠ .filter || set.filters.all fun qual => decide (set.conditions.Satisfies row qual)

def skips (group : StorageGroup) : Bool :=
  skipsGroup set.mode set.prepared group

/-- The stored batches of the groups that are not skipped. -/
def visible : List InputBatch :=
  set.relation.groups.flatMap fun group =>
    if set.skips group then [] else (set.inputs.drop group.firstBatch).take group.nbatches

/-- What is published of windows that are still to be taken. -/
def shown (cuts : List Cut) : List (List Attrs) :=
  (cuts.map fun cut => (cut.rows set.relation.ncolumns).filter set.keeps).filter fun rows => !rows.isEmpty

/-- The windows of neighbouring batches, the first one from a row on. -/
def partCuts : List InputBatch → Nat → List Cut
  | [],_ => []
  | input :: rest,row => cutsFrom set.maxRows input row ++ rest.flatMap fun other => cutsFrom set.maxRows other 0

def leftCuts : List StorageGroup → List (List InputBatch) → List Cut
  | group :: groups,part :: parts => (if set.skips group then [] else set.partCuts part 0) ++ leftCuts groups parts
  | _,_ => []

/-- What the calls, releases and rescans of a scan keep. -/
structure Fit (scan : CompressedScan) : Prop where
  relation : scan.relation = set.relation
  maxRows : scan.maxRows = set.maxRows
  sourceAttnums : scan.sourceAttnums = set.sourceAttnums
  mode : scan.mode = set.mode
  evaluates : Evaluates set.source.params set.prepared scan.quals
  ready : scan.pruneQualsReady = true → scan.quals.map SourceQual.part = set.prepared.map SourceQual.part
  compiled : List.Forall₂ (Compiled set.conditions set.sourceAttnums) set.filters (scan.quals.filterMap SourceQual.expr)

/-- The cursor is in front of a group. -/
structure Before (scan : CompressedScan) (parts : List (List InputBatch)) : Prop where
  ready : scan.groupReady = false
  row : scan.batchRow = 0
  divided : Divided set.relation.ncolumns scan.batchIndex (set.relation.groups.drop scan.groupIndex) parts
  whole : set.inputs.drop scan.batchIndex = parts.flatten

def InPart : List InputBatch → Nat → Prop
  | [],row => row = 0
  | input :: _,row => row < input.nrows

/-- The cursor is in a group, in front of `part`. -/
structure Inside (scan : CompressedScan) (group : StorageGroup) (groups : List StorageGroup) (part : List InputBatch)
    (parts : List (List InputBatch)) : Prop where
  ready : scan.groupReady = true
  here : set.relation.groups.drop scan.groupIndex = group :: groups
  stop : endBatch group = scan.batchIndex + part.length
  row : InPart part scan.batchRow
  whole : set.inputs.drop scan.batchIndex = part ++ parts.flatten
  divided : Divided set.relation.ncolumns (scan.batchIndex + part.length) groups parts

/-- Where the cursor is, with the windows that are still to be taken. -/
inductive At (scan : CompressedScan) : List Cut → Prop
  | before (parts) (place : set.Before scan parts) : At scan (set.leftCuts (set.relation.groups.drop scan.groupIndex) parts)
  | inside (group groups part parts) (place : set.Inside scan group groups part parts) :
      At scan (set.partCuts part scan.batchRow ++ set.leftCuts groups parts)

theorem partCuts_zero (part : List InputBatch) : set.partCuts part 0 = part.flatMap fun input => cutsFrom set.maxRows input 0 := by
  cases part with
  | nil => rfl
  | cons input rest => rfl

theorem drop_head {α : Type} {items : List α} {index : Nat} {item : α} {rest : List α}
    (split : items.drop index = item :: rest) : items[index]? = some item ∧ items.drop (index + 1) = rest := by
  refine ⟨?_,?_⟩
  · rw [← List.head?_drop,split]
    rfl
  · rw [← List.tail_drop,split]
    rfl

theorem skipsGroup_eq {scan : CompressedScan} (fit : set.Fit scan) (ready : scan.pruneQualsReady = true)
    (group : StorageGroup) : skipsGroup scan.mode scan.quals group = set.skips group := by
  unfold skips skipsGroup
  rw [fit.mode,← groupMayMatch_part group scan.quals,fit.ready ready,groupMayMatch_part]

/-- A turn enters its group, or skips it. -/
theorem enter_inside {scan : CompressedScan} (fit : set.Fit scan) (ready : scan.pruneQualsReady = true) {cuts : List Cut}
    (place : set.At scan cuts) {group : StorageGroup} (found : set.relation.groups[scan.groupIndex]? = some group) :
    ∃ groups part parts, set.Inside (enterGroup scan group) group groups part parts ∧
      cuts = set.partCuts part (enterGroup scan group).batchRow ++ set.leftCuts groups parts := by
  cases place with
  | before parts place =>
    obtain ⟨unready,row,divided,whole⟩ := place
    have head : (set.relation.groups.drop scan.groupIndex).head? = some group := List.head?_drop.trans found
    cases split : set.relation.groups.drop scan.groupIndex with
    | nil =>
      rw [split] at head
      cases head
    | cons first groups =>
    rw [split] at head divided
    cases Option.some.inj head
    cases divided with
    | cons _ _ _ part parts holds rest =>
    have stop : endBatch group = scan.batchIndex + part.length := by rw [endBatch,holds.first,holds.count]
    unfold enterGroup
    rw [unready,if_neg Bool.false_ne_true,set.skipsGroup_eq fit ready,leftCuts]
    cases skipped : set.skips group with
    | true =>
      refine ⟨groups,[],parts,⟨rfl,split,rfl,rfl,?_,?_⟩,rfl⟩
      · rw [if_pos rfl,stop,← List.drop_drop,whole,List.flatten_cons,List.drop_left]
        rfl
      · rw [if_pos rfl,stop]
        exact rest
    | false =>
      refine ⟨groups,part,parts,⟨rfl,split,stop,?_,whole,rest⟩,?_⟩
      · rw [if_neg Bool.false_ne_true]
        dsimp only
        rw [row]
        cases part with
        | nil => rfl
        | cons input _ => exact input.positive
      · rw [if_neg Bool.false_ne_true,if_neg Bool.false_ne_true]
        dsimp only
        rw [row]
  | inside other groups part parts place =>
    have same : other = group := Option.some.inj ((drop_head place.here).1.symm.trans found)
    subst same
    have entered : enterGroup scan other = scan := if_pos place.ready
    rw [entered]
    exact ⟨groups,part,parts,place,rfl⟩

theorem fit_enter {scan : CompressedScan} (fit : set.Fit scan) (group : StorageGroup) : set.Fit (enterGroup scan group) := by
  obtain ⟨relation,maxRows,attnums,mode,evaluates,ready,compiled⟩ := fit
  unfold enterGroup
  split
  · exact ⟨relation,maxRows,attnums,mode,evaluates,ready,compiled⟩
  split <;> exact ⟨relation,maxRows,attnums,mode,evaluates,ready,compiled⟩

theorem enterGroup_kept (scan : CompressedScan) (group : StorageGroup) :
    (enterGroup scan group).pruneQualsReady = scan.pruneQualsReady ∧ (enterGroup scan group).active = scan.active ∧
      (enterGroup scan group).groupIndex = scan.groupIndex := by
  unfold enterGroup
  split
  · exact ⟨rfl,rfl,rfl⟩
  split <;> exact ⟨rfl,rfl,rfl⟩

theorem leave_before {scan : CompressedScan} {group : StorageGroup} {groups : List StorageGroup}
    {parts : List (List InputBatch)} (place : set.Inside scan group groups [] parts) :
    set.Before {scan with groupIndex := scan.groupIndex + 1, groupReady := false} parts where
  ready := rfl
  row := place.row
  divided := by
    dsimp only
    rw [(drop_head place.here).2]
    exact place.divided
  whole := place.whole

/-- The next window of a part, and what is left behind it. -/
theorem partCuts_next {input : InputBatch} {rest : List InputBatch} {row : Nat} (inside : row < input.nrows) :
    set.partCuts (input :: rest) row =
      ⟨input,row,min (batchSize set.maxRows) (input.nrows - row)⟩ ::
        (if row + min (batchSize set.maxRows) (input.nrows - row) = input.nrows then set.partCuts rest 0
        else set.partCuts (input :: rest) (row + min (batchSize set.maxRows) (input.nrows - row))) := by
  have step : cutsFrom set.maxRows input row = ⟨input,row,min (batchSize set.maxRows) (input.nrows - row)⟩ ::
      cutsFrom set.maxRows input (row + min (batchSize set.maxRows) (input.nrows - row)) := by
    unfold cutsFrom
    rw [windowsFrom,if_pos inside,List.map_cons]
  rw [partCuts,step,List.cons_append]
  congr 1
  split
  · rename_i full
    have none_ : cutsFrom set.maxRows input (row + min (batchSize set.maxRows) (input.nrows - row)) = [] := by
      rw [cutsFrom,windowsFrom,full,if_neg (Nat.lt_irrefl _)]
      rfl
    rw [none_,List.nil_append,partCuts_zero]
  · rfl

/-- The cursor behind a window. -/
theorem advance_inside {scan : CompressedScan} {group : StorageGroup} {groups : List StorageGroup} {input : InputBatch}
    {rest : List InputBatch} {parts : List (List InputBatch)} {stored : CompressedBatch} (rows : stored.nrows = input.nrows)
    (place : set.Inside scan group groups (input :: rest) parts) :
    ∃ part, set.Inside (advance scan stored (min (batchSize set.maxRows) (input.nrows - scan.batchRow))) group groups part
        parts ∧
      set.partCuts (input :: rest) scan.batchRow =
        ⟨input,scan.batchRow,min (batchSize set.maxRows) (input.nrows - scan.batchRow)⟩ ::
          set.partCuts part (advance scan stored (min (batchSize set.maxRows) (input.nrows - scan.batchRow))).batchRow := by
  obtain ⟨ready,here,stop,row,whole,divided⟩ := place
  have inside : scan.batchRow < input.nrows := row
  rw [set.partCuts_next inside]
  unfold advance
  rw [rows]
  by_cases full : scan.batchRow + min (batchSize set.maxRows) (input.nrows - scan.batchRow) = input.nrows
  · rw [if_pos full,if_pos full]
    refine ⟨rest,⟨ready,here,?_,?_,?_,?_⟩,rfl⟩
    · rw [stop,List.length_cons]
      dsimp only
      omega
    · cases rest with
      | nil => rfl
      | cons next _ => exact next.positive
    · exact (drop_head whole).2
    · rw [List.length_cons] at divided
      dsimp only
      rw [Nat.add_assoc,Nat.add_comm 1]
      exact divided
  · rw [if_neg full,if_neg full]
    refine ⟨input :: rest,⟨ready,here,stop,?_,whole,divided⟩,rfl⟩
    have less : min (batchSize set.maxRows) (input.nrows - scan.batchRow) ≤ input.nrows - scan.batchRow := Nat.min_le_right ..
    show _ < input.nrows
    dsimp only
    omega

theorem advance_kept (scan : CompressedScan) (stored : CompressedBatch) (nrows : Nat) :
    (advance scan stored nrows).quals = scan.quals ∧ (advance scan stored nrows).mode = scan.mode ∧
      (advance scan stored nrows).pruneQualsReady = scan.pruneQualsReady ∧
      (advance scan stored nrows).groupIndex = scan.groupIndex := by
  unfold advance
  split <;> exact ⟨rfl,rfl,rfl,rfl⟩

theorem fit_advance {scan : CompressedScan} (fit : set.Fit scan) (stored : CompressedBatch) (nrows : Nat) :
    set.Fit (advance scan stored nrows) := by
  obtain ⟨relation,maxRows,attnums,mode,evaluates,ready,compiled⟩ := fit
  unfold advance
  split <;> exact ⟨relation,maxRows,attnums,mode,evaluates,ready,compiled⟩

section Take
variable {set : Setting κ} (fair : set.Fair) {input : InputBatch} {row nrows : Nat} (positive : 0 < nrows)
  (within : row + nrows ≤ input.nrows) {quals : List SourceQual}
  (compiled : List.Forall₂ (Compiled set.conditions set.sourceAttnums) set.filters (quals.filterMap SourceQual.expr))
include fair positive within compiled

/-- A loaded window after its filter: the rows that the source keeps. -/
theorem filterBatch_ok {afters : List SourceQual} {filtered : Window}
    (ran : filterBatch set.source quals (loadedWindow set.relation.ncolumns set.sourceAttnums input row nrows) =
      .ok (afters,filtered)) :
    Shows set.sourceAttnums filtered ∧
      List.Forall₂ (Compiled set.conditions set.sourceAttnums) set.filters (afters.filterMap SourceQual.expr) ∧
      filtered.rows = (Cut.rows set.relation.ncolumns ⟨input,row,nrows⟩).filter fun values =>
        set.filters.all fun qual => decide (set.conditions.Satisfies values qual) := by
  have small := input.small
  have finds (other : Nat) (selected : (loadedWindow set.relation.ncolumns set.sourceAttnums input row nrows).selection.Selected
      other) : Finds set.conditions (loadedWindow set.relation.ncolumns set.sourceAttnums input row nrows) other set.filters :=
    loaded_finds input set.conditions within ((allRows_selected (by omega)).mp selected) set.filters
  obtain ⟨shows,decode,compiled',_,selects⟩ := @filterWindow_ok κ set.conditions set.sourceAttnums compressedErrors
    set.source SourceQual SourceQual.expr (fun qual expr => {qual with expr := some expr}) (fun _ _ => rfl) fair.params
    quals set.filters compiled _ (loaded_shows fair.attnums input positive within) finds afters filtered ran
  refine ⟨shows,compiled',?_⟩
  rw [filtered_rows decode selects,loaded_rows fair.few input within]

theorem filterBatch_total (fine : ∀ values ∈ Cut.rows set.relation.ncolumns ⟨input,row,nrows⟩, ∀ qual ∈ set.filters,
      ∃ result, set.conditions.holds qual values = .ok result) :
    ∃ result, filterBatch set.source quals (loadedWindow set.relation.ncolumns set.sourceAttnums input row nrows) =
      .ok result := by
  have small := input.small
  have inside {other : Nat} (selected : (loadedWindow set.relation.ncolumns set.sourceAttnums input row nrows).selection.Selected
      other) : other < nrows := (allRows_selected (by omega)).mp selected
  refine filterWindow_total fair.params compiled (loaded_shows fair.attnums input positive within)
    (fun other selected => loaded_finds input set.conditions within (inside selected) set.filters) fun other selected => ?_
  rw [loaded_row fair.few input within (inside selected)]
  refine fine _ (List.mem_map.mpr ⟨row + other,?_,rfl⟩)
  have below := inside selected
  rw [List.mem_range'_1]
  dsimp only
  omega

end Take

theorem shown_cons (cut : Cut) (cuts : List Cut) :
    set.shown (cut :: cuts) = (if (cut.rows set.relation.ncolumns).filter set.keeps = [] then set.shown cuts
      else (cut.rows set.relation.ncolumns).filter set.keeps :: set.shown cuts) := by
  rw [shown,List.map_cons,List.filter_cons]
  split <;> split <;> simp_all [shown]

/-- What a turn makes of the windows that are still to be taken. -/
inductive TurnRight (before after : CompressedScan) (cuts : List Cut) : Turn → Prop
  | again (later) (place : set.At after later) (free : before.active = none → after.active = none) (among : later <:+ cuts)
      (same : set.shown cuts = set.shown later)
      (less : set.relation.groups.length - after.groupIndex + later.length <
        set.relation.groups.length - before.groupIndex + cuts.length) : TurnRight before after cuts .again
  | published (window later) (place : set.At after later) (among : later <:+ cuts) (some_ : window.rows ≠ [])
      (first : set.shown cuts = window.rows :: set.shown later) (fewer : later.length < cuts.length) :
      TurnRight before after cuts (.published window)
  | ended (same : after = before) (none_ : cuts = []) : TurnRight before after cuts .ended

section Turn
variable {set : Setting κ} (fair : set.Fair) {scan after : CompressedScan} (fit : set.Fit scan)
include fair fit

omit fair in
theorem loadBatch_ok (free : scan.active = none) (input : InputBatch) (nrows : Nat) :
    loadBatch scan (input.stored set.relation.ncolumns) scan.batchRow nrows =
      .ok (loadedWindow set.relation.ncolumns set.sourceAttnums input scan.batchRow nrows) := by
  unfold loadBatch loadedWindow
  rw [free,fit.sourceAttnums,fit.relation]
  rfl

theorem takeWindow_ok {group : StorageGroup} {groups : List StorageGroup} {input : InputBatch} {rest : List InputBatch}
    {parts : List (List InputBatch)} (place : set.Inside scan group groups (input :: rest) parts) {turn : Turn}
    (ran : takeWindow set.source scan (input.stored set.relation.ncolumns) = .ok (after,turn)) :
    set.Fit after ∧ after.pruneQualsReady = scan.pruneQualsReady ∧
      set.TurnRight scan after (set.partCuts (input :: rest) scan.batchRow ++ set.leftCuts groups parts) turn := by
  have inside : scan.batchRow < input.nrows := place.row
  have size := batchSize_pos set.maxRows
  obtain ⟨window,loaded,others⟩ := bind_ok.mp ran
  have free : scan.active = none := by
    cases held : scan.active with
    | none => rfl
    | some other =>
      have taken : scan.active.isSome = true := by rw [held]; rfl
      rw [loadBatch,if_pos taken] at loaded
      cases loaded
  rw [nextRows,stored_nrows fair.few,fit.maxRows] at loaded others
  cases (loadBatch_ok fit free input _).symm.trans loaded
  obtain ⟨⟨quals,filtered⟩,filtering,done⟩ := bind_ok.mp others
  obtain ⟨part,place',cuts⟩ := set.advance_inside (stored_nrows fair.few input) place
  have fit' := set.fit_advance fit (input.stored set.relation.ncolumns)
    (min (batchSize set.maxRows) (input.nrows - scan.batchRow))
  obtain ⟨sameQuals,sameMode,sameReady,sameGroup⟩ := advance_kept scan (input.stored set.relation.ncolumns)
    (min (batchSize set.maxRows) (input.nrows - scan.batchRow))
  unfold filterLoaded at filtering
  rw [sameMode,sameQuals,fit.mode] at filtering
  unfold publishLoaded at done
  generalize advance scan (input.stored set.relation.ncolumns)
    (min (batchSize set.maxRows) (input.nrows - scan.batchRow)) = moved at place' cuts fit' sameQuals sameReady sameGroup done
  have within : scan.batchRow + min (batchSize set.maxRows) (input.nrows - scan.batchRow) ≤ input.nrows := by omega
  have positive : 0 < min (batchSize set.maxRows) (input.nrows - scan.batchRow) := by omega
  generalize min (batchSize set.maxRows) (input.nrows - scan.batchRow) = nrows at within positive cuts filtering
  -- What the filter leaves, in each of the modes.
  have left : Shows set.sourceAttnums filtered ∧ Evaluates set.source.params set.prepared quals ∧
      quals.map SourceQual.part = scan.quals.map SourceQual.part ∧
      List.Forall₂ (Compiled set.conditions set.sourceAttnums) set.filters (quals.filterMap SourceQual.expr) ∧
      filtered.rows = (Cut.rows set.relation.ncolumns ⟨input,scan.batchRow,nrows⟩).filter set.keeps := by
    by_cases mode : set.mode = .filter
    · rw [if_pos mode] at filtering
      obtain ⟨shows,compiled,rows⟩ := filterBatch_ok fair positive within fit.compiled filtering
      obtain ⟨evaluates,parts⟩ := fit.evaluates.filtered (filterBatch_parts filtering)
      refine ⟨shows,evaluates,parts,compiled,rows.trans (List.filter_congr fun values _ => ?_)⟩
      simp [keeps,mode]
    · rw [if_neg mode] at filtering
      cases filtering
      refine ⟨loaded_shows fair.attnums input positive within,fit.evaluates,rfl,fit.compiled,?_⟩
      rw [loaded_rows fair.few input within,List.filter_eq_self.mpr fun values _ => by simp [keeps,mode]]
  obtain ⟨shows,evaluates,same,compiled,rows⟩ := left
  have kept (active : Option Window) : set.Fit {moved with quals := quals, active := active} := by
    refine ⟨fit'.relation,fit'.maxRows,fit'.sourceAttnums,fit'.mode,evaluates,fun ready => ?_,compiled⟩
    exact same.trans (fit.ready (sameReady.symm.trans ready))
  have at_ (active : Option Window) : set.At {moved with quals := quals, active := active}
      (set.partCuts part moved.batchRow ++ set.leftCuts groups parts) :=
    .inside _ _ _ _ ⟨place'.ready,place'.here,place'.stop,place'.row,place'.whole,place'.divided⟩
  rw [cuts,List.cons_append]
  replace done := Except.ok.inj done
  split at done
  · rename_i empty
    cases done
    have nothing := (rows_eq_nil_iff shows).mpr empty
    refine ⟨kept none,sameReady,.again _ (at_ none) (fun _ => rfl) (List.suffix_cons ..) ?_ ?_⟩
    · rw [shown_cons,if_pos (rows.symm.trans nothing)]
    · rw [List.length_cons]
      dsimp only
      omega
  · rename_i filled
    cases done
    have something : filtered.rows ≠ [] := fun nothing => filled ((rows_eq_nil_iff shows).mp nothing)
    refine ⟨kept (some filtered),sameReady,.published filtered _ (at_ (some filtered)) (List.suffix_cons ..)
      something ?_ ?_⟩
    · rw [shown_cons,if_neg (fun nothing => something (rows.trans nothing)),rows]
    · rw [List.length_cons]
      exact Nat.lt_succ_self _

theorem takeWindow_total (free : scan.active = none) {group : StorageGroup} {groups : List StorageGroup} {input : InputBatch} {rest : List InputBatch}
    {parts : List (List InputBatch)} (place : set.Inside scan group groups (input :: rest) parts)
    (fine : set.mode = .filter → ∀ values ∈ Cut.rows set.relation.ncolumns
      ⟨input,scan.batchRow,min (batchSize set.maxRows) (input.nrows - scan.batchRow)⟩, ∀ qual ∈ set.filters,
        ∃ result, set.conditions.holds qual values = .ok result) :
    ∃ result, takeWindow set.source scan (input.stored set.relation.ncolumns) = .ok result := by
  have row : scan.batchRow < input.nrows := place.row
  have size := batchSize_pos set.maxRows
  unfold takeWindow
  rw [nextRows,stored_nrows fair.few,fit.maxRows,loadBatch_ok fit free]
  obtain ⟨sameQuals,sameMode,_⟩ := advance_kept scan (input.stored set.relation.ncolumns)
    (min (batchSize set.maxRows) (input.nrows - scan.batchRow))
  have filters : ∃ result, filterLoaded set.source (advance scan (input.stored set.relation.ncolumns)
      (min (batchSize set.maxRows) (input.nrows - scan.batchRow))) (loadedWindow set.relation.ncolumns set.sourceAttnums
        input scan.batchRow (min (batchSize set.maxRows) (input.nrows - scan.batchRow))) = .ok result := by
    unfold filterLoaded
    rw [sameMode,sameQuals,fit.mode]
    by_cases mode : set.mode = .filter
    · rw [if_pos mode]
      exact filterBatch_total fair (by omega) (by omega) fit.compiled (fine mode)
    · rw [if_neg mode]
      exact ⟨_,rfl⟩
  obtain ⟨⟨quals,filtered⟩,filtering⟩ := filters
  exact ⟨_,bind_ok.mpr ⟨_,rfl,bind_ok.mpr ⟨(quals,filtered),filtering,rfl⟩⟩⟩

/-- The stored batch that the cursor is in front of. -/
theorem inside_batch {group : StorageGroup} {groups : List StorageGroup} {part : List InputBatch}
    {parts : List (List InputBatch)} (place : set.Inside scan group groups part parts) :
    (scan.batchIndex < endBatch group → ∃ input rest, part = input :: rest ∧
      scan.relation.batches[scan.batchIndex]? = some (input.stored set.relation.ncolumns)) ∧
    (¬scan.batchIndex < endBatch group → part = []) := by
  have stop := place.stop
  cases part with
  | nil =>
    rw [List.length_nil] at stop
    exact ⟨fun more => by omega,fun _ => rfl⟩
  | cons input rest =>
    rw [List.length_cons] at stop
    refine ⟨fun _ => ⟨input,rest,rfl,?_⟩,fun past => by omega⟩
    have found : set.inputs[scan.batchIndex]? = some input := (drop_head place.whole).1
    rw [fit.relation,fair.stores.batches,List.getElem?_map,found]
    rfl

theorem turn_ok (ready : scan.pruneQualsReady = true) {cuts : List Cut}
    (place : set.At scan cuts) {turn : Turn} (ran : scanTurn set.source scan = .ok (after,turn)) :
    set.Fit after ∧ after.pruneQualsReady = true ∧ set.TurnRight scan after cuts turn := by
  unfold scanTurn at ran
  rw [fit.relation] at ran
  cases found : set.relation.groups[scan.groupIndex]? with
  | none =>
    rw [found] at ran
    cases ran
    refine ⟨fit,ready,.ended rfl ?_⟩
    have past := List.drop_eq_nil_of_le (List.getElem?_eq_none_iff.mp found)
    cases place with
    | before parts place =>
      rw [past]
      rfl
    | inside group groups part parts place =>
      rw [place.here] at past
      cases past
  | some group =>
    rw [found] at ran
    obtain ⟨groups,part,parts,inside,rfl⟩ := set.enter_inside fit ready place found
    have fit' := set.fit_enter fit group
    obtain ⟨sameReady,sameActive,sameIndex⟩ := enterGroup_kept scan group
    obtain ⟨more,done⟩ := inside_batch fair fit' inside
    dsimp only at ran
    split at ran
    · rename_i below
      obtain ⟨input,rest,rfl,stored⟩ := more below
      rw [fit'.relation] at stored
      rw [stored] at ran
      obtain ⟨fit'',kept,right⟩ := takeWindow_ok fair fit' inside ran
      refine ⟨fit'',kept.trans (sameReady.trans ready),?_⟩
      cases right with
      | again later place free among same less =>
        exact .again later place (fun none_ => free (sameActive.trans none_)) among same (by rw [sameIndex] at less; exact less)
      | published window later place among some_ first fewer =>
        exact .published window later place among some_ first fewer
      | ended _ none_ =>
        rw [set.partCuts_next inside.row] at none_
        cases none_
    · rename_i past
      cases ran
      cases done past
      have known : scan.groupIndex < set.relation.groups.length := (List.getElem?_eq_some_iff.mp found).1
      have before := set.leave_before inside
      rw [sameIndex] at before
      refine ⟨⟨fit'.relation,fit'.maxRows,fit'.sourceAttnums,fit'.mode,fit'.evaluates,fit'.ready,fit'.compiled⟩,
        sameReady.trans ready,.again (set.leftCuts groups parts) ?_ (fun none_ => sameActive.trans none_) ?_ rfl ?_⟩
      · have rest : set.relation.groups.drop (scan.groupIndex + 1) = groups := by
          rw [← sameIndex]
          exact (drop_head inside.here).2
        exact rest ▸ .before parts before
      · exact List.suffix_append ..
      · rw [partCuts,List.nil_append]
        dsimp only
        omega

/-- A turn fails only where a condition fails on a row of the next window. -/
theorem turn_total (ready : scan.pruneQualsReady = true) (free : scan.active = none) {cuts : List Cut}
    (place : set.At scan cuts) (fine : set.mode = .filter → ∀ cut ∈ cuts, ∀ values ∈ cut.rows set.relation.ncolumns,
      ∀ qual ∈ set.filters, ∃ result, set.conditions.holds qual values = .ok result) :
    ∃ result, scanTurn set.source scan = .ok result := by
  unfold scanTurn
  rw [fit.relation]
  cases found : set.relation.groups[scan.groupIndex]? with
  | none => exact ⟨_,rfl⟩
  | some group =>
    obtain ⟨groups,part,parts,inside,rfl⟩ := set.enter_inside fit ready place found
    have fit' := set.fit_enter fit group
    obtain ⟨sameReady,sameActive,sameIndex⟩ := enterGroup_kept scan group
    obtain ⟨more,_⟩ := inside_batch fair fit' inside
    dsimp only
    split
    · rename_i below
      obtain ⟨input,rest,rfl,stored⟩ := more below
      rw [fit'.relation] at stored
      rw [stored]
      refine takeWindow_total fair fit' (sameActive.trans free) inside fun mode values member => ?_
      refine fine mode _ ?_ values member
      rw [set.partCuts_next inside.row]
      exact List.mem_append_left _ (List.mem_cons_self ..)
    · exact ⟨_,rfl⟩

end Turn

end Setting

end PgBatch.Compressed
