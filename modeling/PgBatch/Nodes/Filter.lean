import PgBatch.Nodes.ScanRun
import PgBatch.Runtime.UnarySession

/-! PgBatchFilterProject (`nodes/filter.c`) above PgBatchScan: the conditions that do
not run as kernels, row by row, and what the two nodes emit together. -/
namespace PgBatch.Filter
open Scan Unary Results
variable {κ : Type}

/-- `ExecQual`: the conditions one after the other, up to the first that is not true. -/
def execQual (conditions : Conditions κ) : List κ → Attrs → Except String Bool
  | [],_ => .ok true
  | qual :: rest,row => do
    let value ← conditions.holds qual row
    if value = some true then execQual conditions rest row else .ok false

/-- The attributes of a row of the compact layout. -/
def tupleAttrs (sourceAttnums : List Nat) (tuple : Tuple Datum) : Attrs :=
  fun attnum => if attnum ∈ sourceAttnums then tuple.values.getD (columnOf sourceAttnums attnum) none else none

/-- A row as the slot of the scan shows it. -/
def slotRow (layout : Layout) (batch : Unary.Batch Datum) (row : Nat) : Tuple Datum :=
  batch.tuple (List.range layout.sourceAttnums.length) row

section Process
variable (conditions : Conditions κ) (plan : ScanPlan κ)

/-- The body of the loop of `filter_batch`: whether the row stays selected. -/
def filterRow (batch : Unary.Batch Datum) (_state : Unit) (row : Nat) : Except String (Unit × Bool) := do
  let kept ← execQual conditions plan.residual (tupleAttrs plan.layout.sourceAttnums (slotRow plan.layout batch row))
  .ok ((),kept)

/-- `filter_batch`. -/
def filterBatch (_state : Unit) (batch : Unary.Batch Datum) : Except String (Processed Unit Datum) :=
  if plan.residual.isEmpty then .ok ⟨(),batch,batch.rowCount,false⟩
  else do
    let (selection,_) ← batch.selection.sift (filterRow conditions plan batch) batch.selection.nrows 0 ()
    .ok ⟨(),{batch with selection := selection},selection.rowCount,false⟩

/-- What `filter_begin` sets up, above a child that has the given batches under the
request that is forwarded to it. A row is shown as it is in the child's slot;
`ExecProject` is applied to each row that is returned. -/
def filterConfig (child : List (Unary.Batch Datum)) : Config Unit Datum where
  child := fun _ _ => child
  childColumns := plan.layout.sourceAttnums.length
  ncolumns := plan.layout.sourceAttnums.length
  filterColumns := Finset.range plan.layout.nfilterColumns
  projectColumns := plan.layout.projectColumns.toFinset
  maxRows := 0
  rowMode := .inputRow (slotRow plan.layout)
  process := some (filterBatch conditions plan)

end Process

/-- The batch of a scan as its slot shows it. -/
def slotBatch {β ρ : Type} (ops : BatchOps β) (view : β → Nat → ρ) (tid : ρ → Nat × Nat) (tableOid : Nat) (batch : β) :
    Unary.Batch Datum where
  selection := ops.selection batch
  tableOid := tableOid
  tid := fun row => tid (view batch row)
  column := fun column row => match ops.getDatum batch column row with
    | .ok value => value
    | .error _ => none

/-! The process as a filter of rows. -/

/-- The rows that satisfy the conditions. -/
def satisfying (conditions : Conditions κ) (quals : List κ) (row : Attrs) : Bool :=
  quals.all fun qual => decide (conditions.Satisfies row qual)

theorem execQual_ok {conditions : Conditions κ} {quals : List κ} {row : Attrs} {kept : Bool}
    (ran : execQual conditions quals row = .ok kept) : kept = satisfying conditions quals row := by
  induction quals with
  | nil =>
    cases ran
    rfl
  | cons qual rest ih =>
    obtain ⟨value,held,ran⟩ := bind_ok.mp ran
    rw [satisfying,List.all_cons]
    split at ran
    · rename_i true_
      rw [true_] at held
      rw [ih ran,decide_eq_true (show conditions.Satisfies row qual from held),Bool.true_and]
      rfl
    · rename_i other
      cases ran
      have unmet : ¬ conditions.Satisfies row qual := fun holds => other (Except.ok.inj (held.symm.trans holds))
      rw [decide_eq_false unmet,Bool.false_and]

section Ideal
variable (conditions : Conditions κ) (plan : ScanPlan κ)

/-- The process when no condition fails. -/
def idealRow (batch : Unary.Batch Datum) (_state : Unit) (row : Nat) : Except String (Unit × Bool) :=
  .ok ((),satisfying conditions plan.residual (tupleAttrs plan.layout.sourceAttnums (slotRow plan.layout batch row)))

def idealBatch (_state : Unit) (batch : Unary.Batch Datum) : Except String (Processed Unit Datum) := do
  let (selection,_) ← batch.selection.sift (idealRow conditions plan batch) batch.selection.nrows 0 ()
  .ok ⟨(),{batch with selection := selection},selection.visits.length,false⟩

end Ideal

section Keeps
variable {σ : Type} {keep other : σ → Nat → Except String (σ × Bool)}

/-- A loop that does not fail is the same loop with a body that fails less on the selected rows. -/
theorem sift_agrees {Good : Nat → Prop}
    (agrees : ∀ state row result, Good row → keep state row = .ok result → other state row = .ok result)
    {left row : Nat} {selection : Selection} {state : σ} {result : Selection × σ}
    (good : ∀ row, selection.Selected row → Good row) (ran : Selection.sift keep left row selection state = .ok result) :
    Selection.sift other left row selection state = .ok result := by
  induction left generalizing row selection state with
  | zero => exact ran
  | succ left ih =>
    unfold Selection.sift at ran ⊢
    cases found : selection.next row with
    | none =>
      simp only [found] at ran ⊢
      exact ran
    | some here =>
      simp only [found] at ran ⊢
      obtain ⟨kept,one,rest⟩ := bind_ok.mp ran
      have fewer : ∀ row, (if kept.2 then selection else selection.clear here).Selected row → Good row := by
        intro row selected
        split at selected
        · exact good row selected
        · exact good row (Selection.selected_clear.mp selected).1
      exact bind_ok.mpr ⟨kept,agrees _ _ _ (good here (next_selected found)) one,ih fewer rest⟩

theorem siftRows_total (test : Nat → Bool) (rows : List Nat) :
    Selection.siftRows (fun (_ : Unit) row => .ok ((),test row)) rows () = .ok (rows.filter test,()) := by
  induction rows with
  | nil => rfl
  | cons row rest ih =>
    simp only [Selection.siftRows,ih,List.filter_cons]
    cases test row <;> rfl

theorem sift_keeps {left row : Nat} {selection : Selection} :
    Selection.sift (fun (_ : Unit) _ => .ok ((),true)) left row selection () = .ok (selection,()) := by
  induction left generalizing row with
  | zero => rfl
  | succ left ih =>
    unfold Selection.sift
    cases selection.next row with
    | none => rfl
    | some found => exact ih

end Keeps

section Realises
variable (conditions : Conditions κ) (plan : ScanPlan κ) (child : List (Unary.Batch Datum))

/-- The rows of the compact layout that satisfy the conditions left to the filter. -/
def keepRows (rows : List (Tuple Datum)) : List (Tuple Datum) :=
  rows.filter fun tuple => satisfying conditions plan.residual (tupleAttrs plan.layout.sourceAttnums tuple)

theorem idealBatch_ok (batch : Unary.Batch Datum) :
    ∃ selection : Selection, idealBatch conditions plan () batch =
        .ok ⟨(),{batch with selection := selection},selection.visits.length,false⟩ ∧
      selection.visits = batch.selection.visits.filter fun row =>
        satisfying conditions plan.residual (tupleAttrs plan.layout.sourceAttnums (slotRow plan.layout batch row)) := by
  obtain ⟨selection,ran,_,visits⟩ := Selection.sift_visits (siftRows_total
    (fun row => satisfying conditions plan.residual
      (tupleAttrs plan.layout.sourceAttnums (slotRow plan.layout batch row))) batch.selection.visits)
  exact ⟨selection,bind_ok.mpr ⟨_,ran,rfl⟩,visits⟩

theorem idealBatch_realises :
    Realises {filterConfig conditions plan child with process := some (idealBatch conditions plan)}
      (keepRows conditions plan) (fun _ => False) (fun _ _ => True) where
  nothing := rfl
  final := nofun
  runs := by
    intro privateData seen batch _ _
    obtain ⟨selection,ran,visits⟩ := idealBatch_ok conditions plan batch
    refine ⟨_,ran,trivial,?_,List.length_eq_zero_iff,by simp⟩
    rw [keepRows,List.filter_append]
    congr 1
    simp only [Config.shown,visits,List.filter_map]
    rfl

/-- On a batch without stray bits, a process that does not fail is the ideal one. -/
theorem filterBatch_covers : Covers (filterConfig conditions plan child) (some (idealBatch conditions plan))
    (fun batch => batch.selection.Clean) := by
  intro privateData batch done clean ran
  change filterBatch conditions plan () batch = .ok done at ran
  change idealBatch conditions plan () batch = .ok done
  unfold filterBatch at ran
  split at ran
  · rename_i empty
    have same : idealRow conditions plan batch = fun _ _ => .ok ((),true) := by
      funext _ row
      rw [idealRow,List.isEmpty_iff.mp empty]
      rfl
    have counted : batch.rowCount = batch.selection.visits.length := clean.rowCount
    cases ran
    unfold idealBatch
    rw [same,sift_keeps,counted]
    rfl
  · obtain ⟨⟨selection,_⟩,sifted,rest⟩ := bind_ok.mp ran
    cases rest
    have agrees (state : Unit) (row : Nat) (result : Unit × Bool) (_ : True)
        (one : filterRow conditions plan batch state row = .ok result) :
        idealRow conditions plan batch state row = .ok result := by
      obtain ⟨kept,evaluated,done⟩ := bind_ok.mp one
      cases done
      rw [idealRow,← execQual_ok evaluated]
    refine bind_ok.mpr ⟨_,sift_agrees agrees (fun _ _ => trivial) sifted,?_⟩
    dsimp only
    rw [(Selection.sift_clean clean sifted).rowCount]

end Realises

/-! What a source, or the heap, is taken to deliver. -/

section Feed
variable [DecidableEq κ] {β ρ : Type}

/-- The batches of a scan over the rows that are `visible`. Each row that satisfies all
conditions is delivered; a delivered row satisfies the conditions that the source
applies, and on an exact page those of the bitmap. -/
structure Feed (conditions : Conditions κ) (request : PlanRequest κ) (ops : BatchOps β) (view : β → Nat → ρ)
    (attrs : ρ → Attrs) (Shows : β → Prop) (visible : List ρ) (left : List (Bool × β)) : Prop where
  shows : ∀ item ∈ left, Shows item.2
  delivered : ∃ keep : ρ → Bool, (left.flatMap fun item => listed ops view item.2) = visible.filter keep ∧
    ∀ row ∈ visible, (∀ qual ∈ request.quals, conditions.Satisfies (attrs row) qual) → keep row = true
  applied : ∀ item ∈ left, ∀ row ∈ listed ops view item.2, ∀ index qual, request.quals[index]? = some qual →
    appliedBySource request.support index = true → conditions.Satisfies (attrs row) qual
  proved : ∀ item ∈ left, item.1 = false → ∀ row ∈ listed ops view item.2, ∀ qual ∈ request.quals,
    recheckOnly request.mode request.bitmapqualorig qual = true → conditions.Satisfies (attrs row) qual

omit [DecidableEq κ] in
theorem mem_localQuals {support : Option (List QualSupport)} {quals : List κ} {qual : κ} :
    qual ∈ localQuals support quals ↔ ∃ index, quals[index]? = some qual ∧ appliedBySource support index = false := by
  simp only [localQuals,List.mem_map,List.mem_filter,Prod.exists,List.mem_zipIdx_iff_getElem?,Bool.not_eq_true']
  constructor
  · rintro ⟨_,index,⟨found,left⟩,rfl⟩
    exact ⟨index,found,left⟩
  · rintro ⟨index,found,left⟩
    exact ⟨qual,index,⟨found,left⟩,rfl⟩

variable {conditions : Conditions κ} {request : PlanRequest κ} {plan : ScanPlan κ} {ops : BatchOps β} {view : β → Nat → ρ}
  {attrs : ρ → Attrs} {Shows : β → Prop} {visible : List ρ} {left : List (Bool × β)}

/-- On a row of the feed, the conditions run by the two nodes are all there is to check. -/
theorem row_satisfies (planned : Planned conditions request plan)
    (feed : Feed conditions request ops view attrs Shows visible left) {item : Bool × β} (member : item ∈ left) {row : ρ}
    (listed_ : row ∈ listed ops view item.2) :
    (passesPage conditions (recheckOnly request.mode request.bitmapqualorig) plan.batchQuals item.1 (attrs row) &&
      satisfying conditions plan.residual (attrs row)) = satisfying conditions request.quals (attrs row) := by
  have parts (qual : κ) : qual ∈ localQuals request.support request.quals ↔ qual ∈ plan.batchQuals ∨ qual ∈ plan.residual := by
    rw [← planned.parts,List.mem_append]
  rw [Bool.eq_iff_iff]
  simp only [passesPage,satisfying,Bool.and_eq_true,List.all_eq_true,decide_eq_true_eq,Bool.or_eq_true,Bool.not_eq_true']
  constructor
  · rintro ⟨kernels,residual⟩ qual among
    obtain ⟨index,found⟩ := List.mem_iff_getElem?.mp among
    cases source : appliedBySource request.support index with
    | true => exact feed.applied item member row listed_ index qual found source
    | false =>
      rcases (parts qual).mp (mem_localQuals.mpr ⟨index,found,source⟩) with kernel | rest
      · rcases kernels qual kernel with skipped | holds
        · simp only [Runs,Bool.or_eq_false_iff,Bool.not_eq_false'] at skipped
          exact feed.proved item member skipped.2 row listed_ qual among skipped.1
        · exact holds
      · exact residual qual rest
  · intro all
    have own (qual : κ) (left_ : qual ∈ localQuals request.support request.quals) : conditions.Satisfies (attrs row) qual := by
      obtain ⟨index,found,_⟩ := mem_localQuals.mp left_
      exact all qual (List.mem_of_getElem? found)
    exact ⟨fun qual kernel => .inr (own qual ((parts qual).mpr (.inl kernel))),
      fun qual rest => own qual ((parts qual).mpr (.inr rest))⟩

/-- What the two nodes leave of the feed is what the conditions leave of the visible rows. -/
theorem feed_emits (planned : Planned conditions request plan)
    (feed : Feed conditions request ops view attrs Shows visible left) :
    (remaining ops view attrs conditions (recheckOnly request.mode request.bitmapqualorig) plan.batchQuals left).filter
        (fun row => satisfying conditions plan.residual (attrs row)) =
      visible.filter fun row => satisfying conditions request.quals (attrs row) := by
  obtain ⟨keep,delivered,complete⟩ := feed.delivered
  have each (item : Bool × β) (member : item ∈ left) :
      ((listed ops view item.2).filter fun row => passesPage conditions (recheckOnly request.mode request.bitmapqualorig)
          plan.batchQuals item.1 (attrs row)).filter (fun row => satisfying conditions plan.residual (attrs row)) =
        (listed ops view item.2).filter fun row => satisfying conditions request.quals (attrs row) := by
    rw [List.filter_filter]
    refine List.filter_congr fun row listed_ => ?_
    rw [Bool.and_comm]
    exact row_satisfies planned feed member listed_
  rw [remaining,List.filter_flatMap,List.flatMap_congr each,← List.filter_flatMap,delivered,List.filter_filter]
  refine List.filter_congr fun row among => ?_
  cases all : satisfying conditions request.quals (attrs row) with
  | false => rfl
  | true =>
    simp only [satisfying,List.all_eq_true,decide_eq_true_eq] at all
    rw [complete row among all,Bool.and_true]

/-- A row in the compact layout. -/
def compactRow (layout : Layout) (attrs : ρ → Attrs) (tid : ρ → Nat × Nat) (tableOid : Nat) (row : ρ) : Tuple Datum :=
  ⟨layout.sourceAttnums.map (attrs row),tid row,tableOid⟩

variable {Prepared : β → Nat → Prop} {layout : Layout} (tid : ρ → Nat × Nat) (tableOid : Nat)

omit [DecidableEq κ] in
theorem slotRow_compact (delivers : Delivers ops layout.sourceAttnums Shows view attrs Prepared) {batch : β}
    (shows : Shows batch) {row : Nat} (selected : (ops.selection batch).Selected row) :
    slotRow layout (slotBatch ops view tid tableOid batch) row = compactRow layout attrs tid tableOid (view batch row) := by
  have values : (List.range layout.sourceAttnums.length).map (fun column =>
      (slotBatch ops view tid tableOid batch).column column row) = layout.sourceAttnums.map (attrs (view batch row)) := by
    refine List.ext_getElem (by simp) fun column inside _ => ?_
    have inside : column < layout.sourceAttnums.length := by simpa using inside
    simp only [List.getElem_map,List.getElem_range,slotBatch,delivers.value batch column row shows inside selected]
    rw [List.getD_eq_getElem _ _ inside]
  rw [slotRow,Unary.Batch.tuple,values]
  rfl

theorem shown_compact (delivers : Delivers ops layout.sourceAttnums Shows view attrs Prepared) {batch : β}
    (shows : Shows batch) :
    (slotBatch ops view tid tableOid batch).selection.visits.map (slotRow layout (slotBatch ops view tid tableOid batch)) =
      (listed ops view batch).map (compactRow layout attrs tid tableOid) := by
  rw [listed,List.map_map]
  refine List.map_congr_left fun row member => ?_
  exact slotRow_compact tid tableOid delivers shows (mem_visits.mp member)

theorem tupleAttrs_compact {attnum : Nat} {row : ρ} (member : attnum ∈ layout.sourceAttnums) :
    tupleAttrs layout.sourceAttnums (compactRow layout attrs tid tableOid row) attnum = attrs row attnum := by
  have inside := List.idxOf_lt_length_of_mem member
  rw [tupleAttrs,if_pos member,compactRow,columnOf,List.getD_eq_getElem _ _ (by simpa using inside),List.getElem_map,
    List.getElem_idxOf inside]

/-- The filter finds in the compact layout all that its conditions read. -/
theorem satisfying_compact (planned : Planned conditions request plan) (row : ρ) :
    satisfying conditions plan.residual
        (tupleAttrs plan.layout.sourceAttnums (compactRow plan.layout attrs tid tableOid row)) =
      satisfying conditions plan.residual (attrs row) := by
  rw [Bool.eq_iff_iff]
  simp only [satisfying,List.all_eq_true,decide_eq_true_eq]
  refine forall₂_congr fun qual member => ?_
  rw [Conditions.Satisfies,Conditions.Satisfies,conditions.reads qual _ (attrs row) fun var read => ?_]
  exact tupleAttrs_compact tid tableOid (planned.columns qual (List.mem_append_right _ member) var read)

end Feed

/-! The two nodes together. -/

section Emits
variable [DecidableEq κ] {β ρ : Type}

/-- A whole scan: the batches of its source, and those that PgBatchScan returned. -/
structure Scanned (conditions : Conditions κ) (plan : ScanPlan κ) (ops : BatchOps β) (source : Source)
    (left : List (Bool × β)) (batches : List β) (last : ScanState β) : Prop where
  params : source.params = conditions.params
  calls : ∃ states, scanBegin conditions plan = .ok states ∧ Calls ops source ⟨states,left,[]⟩ batches last

variable {conditions : Conditions κ} {request : PlanRequest κ} {plan : ScanPlan κ} {ops : BatchOps β} {view : β → Nat → ρ}
  {attrs : ρ → Attrs} {Shows : β → Prop} {Prepared : β → Nat → Prop} {visible : List ρ} {source : Source}
  {left : List (Bool × β)} {batches : List β} {last : ScanState β}

theorem scanned_batches (planned : Planned conditions request plan)
    (delivers : Delivers ops plan.layout.sourceAttnums Shows view attrs Prepared)
    (feed : Feed conditions request ops view attrs Shows visible left)
    (scanned : Scanned conditions plan ops source left batches last) :
    (∀ run ∈ last.runs, run.column ∈ run.columns ∧ Prepared run.batch run.column ∧ Shows run.batch) ∧
      (∀ batch ∈ batches, Shows batch ∧ (ops.selection batch).rowCount ≠ 0) ∧
      batches.flatMap (listed ops view) = remaining ops view attrs conditions
        (recheckOnly request.mode request.bitmapqualorig) plan.batchQuals left := by
  obtain ⟨states,begun,calls⟩ := scanned.calls
  obtain ⟨states',begun',ready⟩ := scanBegin_ready planned
  cases begun.symm.trans begun'
  obtain ⟨scanning,shows,order⟩ := calls_ok delivers scanned.params
    ⟨ready,feed.shows,fun _ member => absurd member List.not_mem_nil⟩ calls
  exact ⟨scanning.runs,shows,order⟩

/-- The rows that the filter hands on are the visible rows that satisfy every condition. -/
theorem session_emits (planned : Planned conditions request plan)
    (delivers : Delivers ops plan.layout.sourceAttnums Shows view attrs Prepared)
    (feed : Feed conditions request ops view attrs Shows visible left)
    (scanned : Scanned conditions plan ops source left batches last) (tid : ρ → Nat × Nat) (tableOid : Nat)
    {spec childSpec : RequestSpec} {session : Session Unit Datum}
    (reached : session.Reached (filterConfig conditions plan (batches.map (slotBatch ops view tid tableOid)))
      () spec childSpec) (ended : session.ended = true) :
    session.delivered = (visible.filter fun row => satisfying conditions request.quals (attrs row)).map
      (compactRow plan.layout attrs tid tableOid) := by
  obtain ⟨_,shows,order⟩ := scanned_batches planned delivers feed scanned
  have clean (_request : RequestSpec) (_scan : Nat) (batch : Unary.Batch Datum)
      (member : batch ∈ batches.map (slotBatch ops view tid tableOid)) : batch.selection.Clean := by
    obtain ⟨own,among,rfl⟩ := List.mem_map.mp member
    exact delivers.clean own (shows own among).1
  obtain ⟨ideal,_⟩ := session_covers (filterBatch_covers conditions plan _) clean reached
  have child : (batches.map (slotBatch ops view tid tableOid)).flatMap
      (fun batch => batch.selection.visits.map (slotRow plan.layout batch)) =
      (remaining ops view attrs conditions (recheckOnly request.mode request.bitmapqualorig) plan.batchQuals left).map
        (compactRow plan.layout attrs tid tableOid) := by
    rw [← order,List.map_flatMap,List.flatMap_map]
    exact List.flatMap_congr fun batch member => shown_compact tid tableOid delivers (shows batch member).1
  obtain ⟨_,complete⟩ := session_serves (idealBatch_realises conditions plan _) (fun _ _ => child) rfl
    (fun _ => trivial) id ideal
  rw [complete ended,keepRows,List.filter_map,← feed_emits planned feed]
  congr 1
  refine List.filter_congr fun row _ => ?_
  exact satisfying_compact tid tableOid planned row

end Emits

end PgBatch.Filter
