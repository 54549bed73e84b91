import PgBatch.Nodes.Filter

/-! What a heap, a bitmap heap or a source delivers to PgBatchScan, and what
PgBatchFilterProject makes of it: the visible rows that satisfy every condition. -/
namespace PgBatch.Filter
open Scan Unary Words Results

/-! The pages of a heap, batch by batch. -/

section Pages
variable {layout : Layout} {tableOid : Nat}

theorem pageBatches_spec (maxRows : Nat) (tuples : List HeapTuple) :
    (pageBatches maxRows tuples).flatten = tuples ∧ ∀ part ∈ pageBatches maxRows tuples, part.length ≤ 64 := by
  induction size : tuples.length using Nat.strong_induction_on generalizing tuples with
  | _ size_ ih =>
    subst size
    rw [pageBatches]
    split
    · rename_i empty
      exact ⟨(List.isEmpty_iff.mp empty).symm,by simp⟩
    · rename_i filled
      have positive := batchSize_pos maxRows
      have some : 0 < tuples.length := List.length_pos_of_ne_nil fun empty => filled (List.isEmpty_iff.mpr empty)
      obtain ⟨whole,small⟩ := ih (tuples.drop (batchSize maxRows)).length (by rw [List.length_drop]; omega) _ rfl
      refine ⟨by rw [List.flatten_cons,whole,List.take_append_drop],List.forall_mem_cons.mpr ⟨?_,small⟩⟩
      exact Nat.le_trans (List.length_take_le ..) (batchSize_le maxRows)

theorem loadBatch_selected {tuples : List HeapTuple} {row : Nat} :
    (loadBatch layout tableOid tuples).selection.Selected row ↔ row < min tuples.length 64 := by
  refine ⟨And.left,fun inside => ⟨inside,?_⟩⟩
  have inside : row < min tuples.length 64 := inside
  rw [Nat.mod_eq_of_lt (by omega)]
  exact (getLsbD_wordMask ..).trans (decide_eq_true (by omega))

theorem loadBatch_shows (nodup : layout.sourceAttnums.Nodup) (positive : ∀ attnum ∈ layout.sourceAttnums, 0 < attnum)
    (tuples : List HeapTuple) : HeapShows layout.sourceAttnums (loadBatch layout tableOid tuples) where
  laid := ⟨nodup,positive⟩
  sound := by
    intro column row valid
    simp [loadBatch,HeapSlot.valid] at valid
  attnums := rfl
  small := Nat.min_le_right ..
  clean := by
    refine Selection.clean_iff.mpr fun word index inside set => ?_
    have first : word = 0 := by
      simp only [loadBatch,Selection.nwords] at inside
      omega
    have bounds : index < 64 ∧ index < tuples.length := of_decide_eq_true ((getLsbD_wordMask ..).symm.trans set)
    simp only [first,loadBatch]
    omega

theorem listed_loadBatch {tuples : List HeapTuple} (small : tuples.length ≤ 64) :
    listed heapOps HeapSlot.tuples (loadBatch layout tableOid tuples) = tuples := by
  have rows : (loadBatch layout tableOid tuples).selection.visits = List.range tuples.length := by
    refine sorted_ext (Selection.visits_sorted _) List.pairwise_lt_range fun row => ?_
    rw [mem_visits,loadBatch_selected,Nat.min_eq_left small,List.mem_range]
  change ((loadBatch layout tableOid tuples).selection.visits.map fun row => tuples.getD row _) = tuples
  rw [rows]
  refine List.ext_getElem (by simp) fun row inside _ => ?_
  have inside : row < tuples.length := by simpa using inside
  simp [List.getElem?_eq_getElem inside]

end Pages

section Feeds
variable {κ β ρ : Type} [DecidableEq κ] {conditions : Conditions κ} {request : PlanRequest κ} {plan : ScanPlan κ}

/-- The rows on which all conditions of the request are true. -/
def Matches (conditions : Conditions κ) (request : PlanRequest κ) (row : Attrs) : Prop :=
  ∀ qual ∈ request.quals, conditions.Satisfies row qual

/-- The pages of a heap or bitmap scan: no visible tuple that satisfies the conditions is
left out, and the tuples of an exact page satisfy the conditions of the bitmap. -/
structure HeapFeed (conditions : Conditions κ) (request : PlanRequest κ) (visible : List HeapTuple) (pages : List Page) :
    Prop where
  heap : request.support = none
  delivered : ∃ keep : HeapTuple → Bool, pages.flatMap Page.tuples = visible.filter keep ∧
    ∀ tuple ∈ visible, Matches conditions request tuple.attrs → keep tuple = true
  proved : request.mode = .bitmap → ∀ page ∈ pages, page.recheck = false → ∀ tuple ∈ page.tuples,
    ∀ qual ∈ request.bitmapqualorig, conditions.Satisfies tuple.attrs qual

omit [DecidableEq κ] in
theorem heapBatches_listed (layout : Layout) (mode : HeapScanMode) (tableOid maxRows : Nat) (pages : List Page) :
    ((heapBatches layout mode tableOid maxRows pages).flatMap fun item => listed heapOps HeapSlot.tuples item.2) =
      pages.flatMap Page.tuples := by
  rw [heapBatches,List.flatMap_assoc]
  refine List.flatMap_congr fun page _ => ?_
  obtain ⟨whole,small⟩ := pageBatches_spec maxRows page.tuples
  rw [List.flatMap_map,List.flatMap_congr fun part member => listed_loadBatch (small part member),List.flatMap_id',whole]

theorem heap_feed (planned : Planned conditions request plan) {visible : List HeapTuple} {pages : List Page}
    (feed : HeapFeed conditions request visible pages) (tableOid maxRows : Nat) :
    Feed conditions request heapOps HeapSlot.tuples HeapTuple.attrs (HeapShows plan.layout.sourceAttnums) visible
      (heapBatches plan.layout plan.mode tableOid maxRows pages) where
  shows := by
    intro item member
    simp only [heapBatches,List.mem_flatMap,List.mem_map] at member
    obtain ⟨_,_,tuples,_,rfl⟩ := member
    exact loadBatch_shows planned.nodup planned.positive tuples
  delivered := by
    rw [heapBatches_listed]
    exact feed.delivered
  applied := by
    intro _ _ _ _ index qual _ applied
    rw [feed.heap] at applied
    cases applied
  proved := by
    intro item member exactPage tuple listed_ qual _ recheck
    simp only [heapBatches,List.mem_flatMap,List.mem_map] at member
    obtain ⟨page,among,part,batch,rfl⟩ := member
    obtain ⟨whole,small⟩ := pageBatches_spec maxRows page.tuples
    rw [listed_loadBatch (small part batch)] at listed_
    obtain ⟨bitmap,own⟩ := Bool.and_eq_true_iff.mp recheck
    have mode := of_decide_eq_true bitmap
    rw [planned.mode,mode] at exactPage
    refine feed.proved mode page among exactPage tuple ?_ qual (of_decide_eq_true own)
    rw [← whole]
    exact List.mem_flatten_of_mem batch listed_

/-- The batches of a source: no visible row that satisfies the conditions is left out, and
the rows satisfy the conditions that the source calls exact. -/
structure SourceFeed (conditions : Conditions κ) (request : PlanRequest κ) (ops : BatchOps β) (view : β → Nat → ρ)
    (attrs : ρ → Attrs) (Shows : β → Prop) (visible : List ρ) (left : List β) : Prop where
  mode : request.mode = .seq
  shows : ∀ batch ∈ left, Shows batch
  delivered : ∃ keep : ρ → Bool, left.flatMap (listed ops view) = visible.filter keep ∧
    ∀ row ∈ visible, Matches conditions request (attrs row) → keep row = true
  applied : ∀ batch ∈ left, ∀ row ∈ listed ops view batch, ∀ index qual, request.quals[index]? = some qual →
    appliedBySource request.support index = true → conditions.Satisfies (attrs row) qual

theorem source_feed {ops : BatchOps β} {view : β → Nat → ρ} {attrs : ρ → Attrs} {Shows : β → Prop} {visible : List ρ}
    {left : List β} (feed : SourceFeed conditions request ops view attrs Shows visible left) :
    Feed conditions request ops view attrs Shows visible (left.map fun batch => (false,batch)) where
  shows := by
    intro item member
    obtain ⟨batch,among,rfl⟩ := List.mem_map.mp member
    exact feed.shows batch among
  delivered := by
    rw [List.flatMap_map]
    exact feed.delivered
  applied := by
    intro item member
    obtain ⟨batch,among,rfl⟩ := List.mem_map.mp member
    exact feed.applied batch among
  proved := by
    intro _ _ _ _ _ qual _ recheck
    rw [recheckOnly,feed.mode] at recheck
    cases recheck

end Feeds

/-! A scan comes to its end unless a condition fails on a row that it was delivered. -/

section Total
variable {κ β ρ : Type} {conditions : Conditions κ} {layout : Layout} {recheck : κ → Bool} {ops : BatchOps β}
  {Shows : β → Prop} {view : β → Nat → ρ} {attrs : ρ → Attrs} {Prepared : β → Nat → Prop} {source : Source}

/-- No condition of a list fails on a row. -/
def Fine (conditions : Conditions κ) (quals : List κ) (row : Attrs) : Prop :=
  ∀ qual ∈ quals, ∃ result, conditions.holds qual row = .ok result

theorem applyQual_total (delivers : Delivers ops layout.sourceAttnums Shows view attrs Prepared)
    (params : source.params = conditions.params) {qual : κ} {state : BatchQual}
    (ready : Ready conditions layout recheck qual state) {batch : β} (shows : Shows batch) {one : Nat}
    (selected : (ops.selection batch).Selected one)
    (fine : ∀ row, (ops.selection batch).Selected row → ∃ result, conditions.holds qual (attrs (view batch row)) = .ok result) :
    ∃ after filtered, applyQual ops source state batch = .ok (after,filtered) := by
  obtain ⟨prepared,prepare,shows,rows,same,own⟩ := delivers.prepare batch {state.column} shows
    (hasRows_of_selected selected) (by simpa using ready.inside)
  obtain ⟨read,vector,got,read_,rows',same',values⟩ := delivers.read prepared state.column shows ready.inside
    (own _ (Finset.mem_singleton_self _))
  have kept : (ops.selection read).Selected one := by
    rw [same',same]
    exact selected
  have seen (row : Nat) (member : (ops.selection read).Selected row) :
      vector.seen row = (attrs (view prepared row) (layout.sourceAttnums.getD state.column 0)).map datumGetInt32 :=
    values row (same' ▸ member)
  obtain ⟨machine,applied⟩ : ∃ machine, Expr.applyFilter conditions.params state.expr source.enableSimd source.simdAvailable
      (Expr.bind state.machine ⟨ops.selection read,fun _ => vector⟩) = .ok machine :=
    kernel_total ready.supported ready.column ready.compiled seen kept fun row member => by
      rw [rows]
      exact fine row (same ▸ same' ▸ member)
  obtain ⟨selection,bound,_⟩ := kernel_ok ready.supported ready.column ready.compiled seen applied
    (delivers.clean read read_)
  refine ⟨{state with machine := machine},ops.store read selection,
    bind_ok.mpr ⟨prepared,prepare,bind_ok.mpr ⟨_,got,bind_ok.mpr ⟨machine,params ▸ applied,?_⟩⟩⟩⟩
  simp only [bound]

theorem selected_of_hasRows {selection : Selection} (clean : selection.Clean) (some : selection.hasRows = true) :
    ∃ row, selection.Selected row := by
  simp only [Selection.hasRows,List.any_eq_true,List.mem_range,bne_iff_ne,ne_eq] at some
  obtain ⟨word,inside,nonzero⟩ := some
  obtain ⟨index,set⟩ : ∃ index, index ∈ rows (selection.words word) :=
    List.exists_mem_of_ne_nil _ fun empty => nonzero (rows_eq_nil.mp empty)
  have set := mem_rows.mp set
  have small : index < 64 := BitVec.lt_of_getLsbD set
  refine ⟨64 * word + index,Selection.clean_iff.mp clean word index inside set,?_⟩
  rw [show (64 * word + index) / 64 = word by omega,show (64 * word + index) % 64 = index by omega]
  exact set

theorem kernels_total (delivers : Delivers ops layout.sourceAttnums Shows view attrs Prepared)
    (params : source.params = conditions.params) {pageRecheck : Bool} {quals : List κ} {states : List BatchQual}
    (ready : List.Forall₂ (Ready conditions layout recheck) quals states) {batch : β} (shows : Shows batch)
    (fine : ∀ row, (ops.selection batch).Selected row → Fine conditions quals (attrs (view batch row))) :
    ∃ result, Scan.filterBatch ops source pageRecheck states batch = .ok result := by
  induction ready generalizing batch with
  | nil => exact ⟨_,rfl⟩
  | @cons qual state quals states head tail ih =>
    have others {row : Nat} (fine : Fine conditions (qual :: quals) (attrs (view batch row))) :
        Fine conditions quals (attrs (view batch row)) := fun other member => fine other (List.mem_cons_of_mem _ member)
    unfold Scan.filterBatch
    split
    · exact ⟨_,rfl⟩
    rename_i some
    split
    · obtain ⟨rest,ran⟩ := ih shows fun row selected => others (fine row selected)
      exact ⟨_,bind_ok.mpr ⟨rest,ran,rfl⟩⟩
    · rename_i taken
      have inside : ∀ column ∈ state.columns source pageRecheck, column < layout.sourceAttnums.length :=
        (head.prepared (Bool.eq_false_iff.mpr taken)).2
      have some : (ops.selection batch).hasRows = true := by simpa using some
      obtain ⟨prepared,prepare,shows',rows,same,_⟩ := delivers.prepare batch _ shows some inside
      obtain ⟨one,selected⟩ := selected_of_hasRows (delivers.clean batch shows) some
      obtain ⟨state',filtered,applied⟩ := applyQual_total delivers params head shows' (same ▸ selected)
        fun row member => by
          rw [rows]
          exact fine row (same ▸ member) qual (List.mem_cons_self ..)
      obtain ⟨shows'',rows',_,selects⟩ := applyQual_ok delivers params head shows' (same ▸ some) applied
      obtain ⟨rest,ran⟩ := ih shows'' fun row member => by
        rw [rows',rows]
        exact others (fine row (same ▸ ((selects row).mp member).1))
      exact ⟨_,bind_ok.mpr ⟨prepared,prepare,bind_ok.mpr ⟨_,applied,bind_ok.mpr ⟨rest,ran,rfl⟩⟩⟩⟩

theorem scanLoop_total (delivers : Delivers ops layout.sourceAttnums Shows view attrs Prepared)
    (params : source.params = conditions.params) {quals : List κ} {left : List (Bool × β)} {states : List BatchQual}
    {runs : List (KernelRun β)} (ready : List.Forall₂ (Ready conditions layout recheck) quals states)
    (shows : ∀ item ∈ left, Shows item.2)
    (fine : ∀ item ∈ left, ∀ row ∈ listed ops view item.2, Fine conditions quals (attrs row)) :
    ∃ after result, scanLoop ops source left states runs = .ok (after,result) ∧
      (result.isSome = true → after.left.length < left.length) ∧ ∀ item ∈ after.left, item ∈ left := by
  induction left generalizing states runs with
  | nil => exact ⟨_,none,rfl,by simp,by simp⟩
  | cons item left ih =>
    obtain ⟨pageRecheck,batch⟩ := item
    have shown := shows _ (List.mem_cons_self ..)
    obtain ⟨⟨states',filtered,more⟩,ran⟩ : ∃ result, Scan.filterBatch ops source pageRecheck states batch = .ok result :=
      kernels_total delivers params ready shown fun row selected =>
        fine _ (List.mem_cons_self ..) _ (List.mem_map_of_mem (mem_visits.mpr selected))
    obtain ⟨_,_,ready',_⟩ := filterBatch_ok delivers params ready shown ran
    obtain ⟨after,result,looped,shorter,among⟩ := @ih states' (runs ++ more) ready'
      (fun other member => shows other (List.mem_cons_of_mem _ member))
      fun other member => fine other (List.mem_cons_of_mem _ member)
    rw [scanLoop]
    by_cases empty : (ops.selection filtered).rowCount = 0
    · refine ⟨after,result,bind_ok.mpr ⟨_,ran,?_⟩,fun found => Nat.lt_succ_of_lt (shorter found),
        fun item member => List.mem_cons_of_mem _ (among item member)⟩
      dsimp only
      rw [if_pos empty]
      exact looped
    · refine ⟨⟨states',left,runs ++ more⟩,some filtered,bind_ok.mpr ⟨_,ran,?_⟩,fun _ => Nat.lt_succ_self _,
        fun item member => List.mem_cons_of_mem _ member⟩
      dsimp only
      rw [if_neg empty]

theorem calls_total (delivers : Delivers ops layout.sourceAttnums Shows view attrs Prepared)
    (params : source.params = conditions.params) {quals : List κ} {before : ScanState β}
    (scanning : Scanning conditions layout recheck quals Shows Prepared before)
    (fine : ∀ item ∈ before.left, ∀ row ∈ listed ops view item.2, Fine conditions quals (attrs row)) :
    ∃ batches after, Calls ops source before batches after := by
  induction size : before.left.length using Nat.strong_induction_on generalizing before with
  | _ size_ ih =>
    subst size
    obtain ⟨after,result,ran,shorter,among⟩ : ∃ after result, scanLoop ops source before.left before.quals before.runs =
        .ok (after,result) ∧ _ := scanLoop_total delivers params scanning.ready scanning.left fine
    cases result with
    | none => exact ⟨[],after,.ended _ _ ran⟩
    | some batch =>
      obtain ⟨scanning',_⟩ := scanLoop_ok delivers params scanning ran
      obtain ⟨batches,last,calls⟩ := ih _ (shorter rfl) scanning' (fun item member => fine item (among item member)) rfl
      exact ⟨batch :: batches,last,.batch _ _ _ _ _ ran calls⟩

end Total
/-! The filter above a scan comes to its end too. -/

section Ends
variable {κ : Type} {conditions : Conditions κ} {plan : ScanPlan κ} {child : List (Unary.Batch Datum)}

theorem execQual_total {quals : List κ} {row : Attrs} (fine : Fine conditions quals row) :
    ∃ kept, execQual conditions quals row = .ok kept := by
  induction quals with
  | nil => exact ⟨true,rfl⟩
  | cons qual rest ih =>
    obtain ⟨value,held⟩ := fine qual (List.mem_cons_self ..)
    obtain ⟨kept,ran⟩ := ih fun other member => fine other (List.mem_cons_of_mem _ member)
    by_cases true_ : value = some true
    · exact ⟨kept,bind_ok.mpr ⟨value,held,by rw [if_pos true_,ran]⟩⟩
    · exact ⟨false,bind_ok.mpr ⟨value,held,if_neg true_⟩⟩

/-- No condition of the filter fails on a selected row of a batch. -/
def FineBatch (conditions : Conditions κ) (plan : ScanPlan κ) (batch : Unary.Batch Datum) : Prop :=
  batch.selection.Clean ∧ ∀ row, batch.selection.Selected row →
    Fine conditions plan.residual (tupleAttrs plan.layout.sourceAttnums (slotRow plan.layout batch row))

theorem filterBatch_total {batch : Unary.Batch Datum} (fine : FineBatch conditions plan batch) :
    ∃ done, filterBatch conditions plan () batch = .ok done := by
  unfold filterBatch
  split
  · exact ⟨_,rfl⟩
  · obtain ⟨selection,ran,_⟩ := idealBatch_ok conditions plan batch
    obtain ⟨⟨selection,_⟩,sifted,_⟩ := bind_ok.mp ran
    have agrees (state : Unit) (row : Nat) (result : Unit × Bool)
        (good : Fine conditions plan.residual (tupleAttrs plan.layout.sourceAttnums (slotRow plan.layout batch row)))
        (one : idealRow conditions plan batch state row = .ok result) :
        filterRow conditions plan batch state row = .ok result := by
      obtain ⟨kept,evaluated⟩ := execQual_total good
      cases one
      exact bind_ok.mpr ⟨kept,evaluated,by rw [execQual_ok evaluated]⟩
    exact ⟨_,bind_ok.mpr ⟨_,sift_agrees agrees fine.2 sifted,rfl⟩⟩

theorem idealBatch_covers : Covers {filterConfig conditions plan child with process := some (idealBatch conditions plan)}
    (some (filterBatch conditions plan)) (FineBatch conditions plan) := by
  intro _ batch done fine ran
  obtain ⟨result,filtered⟩ := filterBatch_total fine
  have same := filterBatch_covers conditions plan child () batch result fine.1 filtered
  rw [Except.ok.inj (ran.symm.trans same)]
  exact filtered

/-- For every request of a consumer that goes on there is a session that ends. -/
theorem filter_ends {rows : List (Tuple Datum)} (fine : ∀ batch ∈ child, FineBatch conditions plan batch)
    (shown : child.flatMap (fun batch => batch.selection.visits.map (slotRow plan.layout batch)) = rows)
    (spec childSpec : RequestSpec) :
    ∃ session : Session Unit Datum, session.Reached (filterConfig conditions plan child) () spec childSpec ∧
      session.ended = true := by
  have grows (seen ahead : List (Tuple Datum)) :
      keepRows conditions plan seen <+: keepRows conditions plan (seen ++ ahead) := by
    rw [keepRows,keepRows,List.filter_append]
    exact List.prefix_append ..
  have realises := idealBatch_realises conditions plan child
  obtain ⟨serving,_⟩ := session_serves realises (fun _ _ => shown) rfl (fun _ => trivial) id
    (Relation.ReflTransGen.refl : Session.Reached _ () spec childSpec _)
  obtain ⟨last,steps,ended⟩ := session_ends realises (fun _ _ => shown) rfl grows serving
  obtain ⟨reached,_⟩ := session_covers idealBatch_covers (fun _ _ => fine) steps
  exact ⟨last,reached,ended⟩

end Ends

section Emits
variable {κ : Type} [DecidableEq κ] {β ρ : Type}

/-- What PgBatchScan and PgBatchFilterProject do with the batches of a feed. -/
structure EmitsMatching (conditions : Conditions κ) (request : PlanRequest κ) (plan : ScanPlan κ) (ops : BatchOps β)
    (source : Source) (view : β → Nat → ρ) (attrs : ρ → Attrs) (Prepared : β → Nat → Prop) (visible : List ρ)
    (left : List (Bool × β)) : Prop where
  prepared : ∀ batches last, Scanned conditions plan ops source left batches last →
    ∀ run ∈ last.runs, run.column ∈ run.columns ∧ Prepared run.batch run.column
  emits : ∀ batches last, Scanned conditions plan ops source left batches last → ∀ tid tableOid spec childSpec,
    ∀ session : Session Unit Datum,
      session.Reached (filterConfig conditions plan (batches.map (slotBatch ops view tid tableOid))) () spec childSpec →
      session.ended = true → session.delivered =
        (visible.filter fun row => satisfying conditions request.quals (attrs row)).map
          (compactRow plan.layout attrs tid tableOid)
  completes : (∀ row ∈ visible, Fine conditions request.quals (attrs row)) →
    (∃ batches last, Scanned conditions plan ops source left batches last) ∧
    ∀ batches last, Scanned conditions plan ops source left batches last → ∀ tid tableOid spec childSpec,
      ∃ session : Session Unit Datum,
        session.Reached (filterConfig conditions plan (batches.map (slotBatch ops view tid tableOid))) () spec childSpec ∧
        session.ended = true

variable {conditions : Conditions κ} {request : PlanRequest κ} {plan : ScanPlan κ} {ops : BatchOps β} {view : β → Nat → ρ}
  {attrs : ρ → Attrs} {Shows : β → Prop} {Prepared : β → Nat → Prop} {visible : List ρ} {source : Source}
  {left : List (Bool × β)}

omit [DecidableEq κ] in
/-- The filter reads of a compact row what its conditions read of the row. -/
theorem fine_compact {layout : Layout} {quals : List κ}
    (columns : ∀ qual ∈ quals, ∀ var ∈ conditions.vars qual, var.varattno.toNat ∈ layout.sourceAttnums)
    (tid : ρ → Nat × Nat) (tableOid : Nat) {row : ρ} (fine : Fine conditions quals (attrs row)) :
    Fine conditions quals (tupleAttrs layout.sourceAttnums (compactRow layout attrs tid tableOid row)) := by
  intro qual member
  rw [conditions.reads qual _ (attrs row) fun var read => ?_]
  · exact fine qual member
  · exact tupleAttrs_compact tid tableOid (columns qual member var read)

theorem feed_emitted (planned : Planned conditions request plan)
    (delivers : Delivers ops plan.layout.sourceAttnums Shows view attrs Prepared)
    (params : source.params = conditions.params) (feed : Feed conditions request ops view attrs Shows visible left) :
    EmitsMatching conditions request plan ops source view attrs Prepared visible left := by
  refine ⟨?_,?_,fun fine => ?_⟩
  · intro batches last scanned run member
    obtain ⟨inside,prepared,_⟩ := (scanned_batches planned delivers feed scanned).1 run member
    exact ⟨inside,prepared⟩
  · intro batches last scanned tid tableOid spec childSpec session reached ended
    exact session_emits planned delivers feed scanned tid tableOid reached ended
  -- every delivered row is visible, and the plan has no other conditions than the request
  obtain ⟨keep,delivered,_⟩ := feed.delivered
  have among {item : Bool × β} (member : item ∈ left) {row : ρ} (listed_ : row ∈ listed ops view item.2) : row ∈ visible := by
    have own : row ∈ left.flatMap fun item => listed ops view item.2 := List.mem_flatMap.mpr ⟨item,member,listed_⟩
    rw [delivered] at own
    exact List.mem_of_mem_filter own
  have own {qual : κ} (member : qual ∈ plan.batchQuals ++ plan.residual) : qual ∈ request.quals := by
    rw [planned.parts] at member
    obtain ⟨index,found,_⟩ := mem_localQuals.mp member
    exact List.mem_of_getElem? found
  refine ⟨?_,?_⟩
  · obtain ⟨states,begun,ready⟩ := scanBegin_ready planned
    have scanning : Scanning conditions plan.layout (recheckOnly request.mode request.bitmapqualorig) plan.batchQuals
        Shows Prepared (⟨states,left,[]⟩ : ScanState β) :=
      ⟨ready,feed.shows,fun _ member => absurd member List.not_mem_nil⟩
    obtain ⟨batches,last,calls⟩ := calls_total delivers params scanning fun item member row listed_ qual kernel =>
      fine row (among member listed_) qual (own (List.mem_append_left _ kernel))
    exact ⟨batches,last,params,states,begun,calls⟩
  · intro batches last scanned tid tableOid spec childSpec
    obtain ⟨_,shows,order⟩ := scanned_batches planned delivers feed scanned
    refine filter_ends ?_ rfl spec childSpec
    intro shown member
    obtain ⟨batch,from_,rfl⟩ := List.mem_map.mp member
    refine ⟨delivers.clean batch (shows batch from_).1,fun row selected => ?_⟩
    rw [slotRow_compact tid tableOid delivers (shows batch from_).1 selected]
    refine fine_compact (fun qual rest => planned.columns qual (List.mem_append_right _ rest)) tid tableOid ?_
    have emitted : view batch row ∈ batches.flatMap (listed ops view) :=
      List.mem_flatMap.mpr ⟨batch,from_,List.mem_map_of_mem (mem_visits.mpr selected)⟩
    rw [order,remaining] at emitted
    obtain ⟨item,member,passed⟩ := List.mem_flatMap.mp emitted
    exact fun qual rest => fine _ (among member (List.mem_of_mem_filter passed)) qual (own (List.mem_append_right _ rest))

/-- The conditions of a scan, divided between its source, the kernels and the filter: the
kernels' are a prefix of those left, each with its own flag, and the visible rows that are
emitted are those that satisfy all the conditions. -/
theorem conditions_divided (ran : planBase conditions request = .ok plan) :
    (plan.batchQuals ++ plan.residual = localQuals request.support request.quals ∧
      ∃ states, scanBegin conditions plan = .ok states ∧ List.Forall₂ (fun qual state =>
        Expr.compileFilter (conditions.tree qual) (resolveScanVar plan.layout.sourceAttnums) = .ok state.expr ∧
        state.recheckOnly = recheckOnly request.mode request.bitmapqualorig qual) plan.batchQuals states) ∧
    (∀ visible pages, HeapFeed conditions request visible pages → ∀ tableOid maxRows enableSimd simdAvailable,
      EmitsMatching conditions request plan heapOps ⟨false,plan.mode,conditions.params,enableSimd,simdAvailable⟩
        HeapSlot.tuples HeapTuple.attrs (fun slot column => slot.Covers column (slot.selection.words 0)) visible
        (heapBatches plan.layout plan.mode tableOid maxRows pages)) ∧
    ∀ (β ρ : Type) (ops : BatchOps β) (view : β → Nat → ρ) (attrs : ρ → Attrs) (Shows : β → Prop)
      (Prepared : β → Nat → Prop), Delivers ops plan.layout.sourceAttnums Shows view attrs Prepared →
      ∀ visible left, SourceFeed conditions request ops view attrs Shows visible left → ∀ enableSimd simdAvailable,
        EmitsMatching conditions request plan ops ⟨true,plan.mode,conditions.params,enableSimd,simdAvailable⟩
          view attrs Prepared visible (left.map fun batch => (false,batch)) := by
  have planned := planBase_planned ran
  refine ⟨⟨planned.parts,?_⟩,?_,?_⟩
  · obtain ⟨states,begun,ready⟩ := scanBegin_ready planned
    exact ⟨states,begun,ready.imp fun _ _ one => ⟨one.compiled,one.recheckOnly⟩⟩
  · intro visible pages feed tableOid maxRows enableSimd simdAvailable
    exact feed_emitted planned (heap_delivers plan.layout.sourceAttnums) rfl (heap_feed planned feed tableOid maxRows)
  · intro β ρ ops view attrs Shows Prepared delivers visible left feed enableSimd simdAvailable
    exact feed_emitted planned delivers rfl (source_feed feed)

/-- Two conditions on two columns: `a < 5`, and `a < b`, which no kernel supports. -/
def smallVar (attnum : Nat) : Expr.Node :=
  .var ⟨1,attnum,.int4,0,true⟩

def smallTree : Bool → Expr.Node
  | true => .binary .int4lt .bool (smallVar 1) (.const .int4 (some 5#32))
  | false => .binary .int4lt .bool (smallVar 1) (smallVar 2)

def smallConditions : Conditions Bool where
  relid := 1
  natts := 2
  params := fun _ _ => .ok none
  tree := smallTree
  vars := fun qual => Expr.treeVars (smallTree qual)
  holds := fun qual row => Expr.evaluateFilter (fun _ _ => .ok none) (rowVar row) (smallTree qual)
  pulled := fun _ _ member => member
  agrees := fun _ _ _ => rfl
  reads := by
    intro qual row other same
    refine Expr.evaluateFilter_congr _ fun var member => ?_
    simp only [rowVar,same var member]

def smallRequest : PlanRequest Bool :=
  ⟨.bitmap,[true,false],[true],none,[],[⟨1,2,.int4,0,true⟩]⟩

def smallPlan : ScanPlan Bool :=
  ⟨.bitmap,[true],[true],[false],⟨[1,2],2,[0,1],[1]⟩⟩

def smallTuple (one two : Nat) : HeapTuple :=
  ⟨(0,one),2,fun attnum => if attnum = 1 then some one else some two⟩

/-- An exact page, and a page that has to be checked again. -/
def smallPages : List Page :=
  [⟨false,[smallTuple 3 4,smallTuple 4 4]⟩,⟨true,[smallTuple 1 9,smallTuple 7 9]⟩]

theorem smallFine (row : Attrs) : Fine smallConditions smallRequest.quals row := by
  intro qual _
  cases qual <;> simp only [smallConditions,smallTree,smallVar,Expr.evaluateFilter,Expr.stripRelabel,Expr.evaluate] <;>
    cases rowVar row ⟨1,1,.int4,0,true⟩ <;> cases rowVar row ⟨1,2,.int4,0,true⟩ <;> exact ⟨_,rfl⟩

theorem smallPages_emitted : ∃ batches last, ∃ session : Session Unit Datum,
    Scanned smallConditions smallPlan heapOps ⟨false,.bitmap,smallConditions.params,true,true⟩
        (heapBatches smallPlan.layout .bitmap 0 0 smallPages) batches last ∧
      session.Reached (filterConfig smallConditions smallPlan
        (batches.map (slotBatch heapOps HeapSlot.tuples HeapTuple.tid 0))) () ⟨∅,∅,.rows,0⟩ ⟨∅,∅,.batch,0⟩ ∧
      session.delivered = [⟨[some 3,some 4],(0,3),0⟩,⟨[some 1,some 9],(0,1),0⟩] := by
  have feed : HeapFeed smallConditions smallRequest (smallPages.flatMap Page.tuples) smallPages :=
    ⟨rfl,⟨fun _ => true,rfl,fun _ _ _ => rfl⟩,by decide⟩
  have emitted := (conditions_divided (show planBase smallConditions smallRequest = .ok smallPlan from rfl)).2.1
    _ smallPages feed 0 0 true true
  obtain ⟨⟨batches,last,scanned⟩,ends⟩ := emitted.completes fun tuple _ => smallFine tuple.attrs
  obtain ⟨session,reached,ended⟩ := ends batches last scanned HeapTuple.tid 0 ⟨∅,∅,.rows,0⟩ ⟨∅,∅,.batch,0⟩
  exact ⟨batches,last,session,scanned,reached,emitted.emits batches last scanned _ _ _ _ session reached ended⟩

end Emits
end PgBatch.Filter
