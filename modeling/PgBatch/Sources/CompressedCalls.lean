import PgBatch.Sources.CompressedRun
import PgBatch.Nodes.FilterEmits

/-! The calls of a compressed scan: each brings the cursor to the next window that keeps a row
or to the end, and a scan publishes the same windows after every rescan. -/
namespace PgBatch.Compressed
open Sources Scan Expr Words Results

namespace Setting
variable {κ : Type} (set : Setting κ)

/-- No condition fails on a row of the windows that are still to be taken. -/
def Fine (cuts : List Cut) : Prop :=
  set.mode = .filter → ∀ cut ∈ cuts, ∀ values ∈ cut.rows set.relation.ncolumns, ∀ qual ∈ set.filters,
    ∃ result, set.conditions.holds qual values = .ok result

/-- The cursor between two calls. -/
structure Between (scan : CompressedScan) (cuts : List Cut) : Prop where
  fit : set.Fit scan
  place : set.At scan cuts

section Loop
variable {set : Setting κ} (fair : set.Fair)
include fair

/-- The loop of a call: the next window that keeps a row, or the end. -/
theorem scanLoop_ok {rounds : Nat} {scan after : CompressedScan} {cuts : List Cut} (between : set.Between scan cuts)
    (ready : scan.pruneQualsReady = true) {result : Option Window}
    (ran : scanLoop set.source rounds scan = .ok (after,result)) :
    ∃ later, set.Between after later ∧ after.pruneQualsReady = true ∧ later <:+ cuts ∧
      set.shown cuts = (result.elim [] fun window => [window.rows]) ++ set.shown later ∧
      (∀ window ∈ result, window.rows ≠ [] ∧ later.length < cuts.length) ∧ (result = none → later = []) := by
  induction rounds generalizing scan cuts with
  | zero => cases ran
  | succ rounds ih =>
    obtain ⟨⟨middle,turn⟩,one,rest⟩ := bind_ok.mp ran
    obtain ⟨fit,ready,right⟩ := turn_ok fair between.fit ready between.place one
    cases right with
    | again later place free among same _ =>
      obtain ⟨last,between',ready',among',order,found,final⟩ := ih ⟨fit,place⟩ ready rest
      refine ⟨last,between',ready',among'.trans among,same.trans order,fun window member => ?_,final⟩
      exact ⟨(found window member).1,Nat.lt_of_lt_of_le (found window member).2 among.length_le⟩
    | published window later place among some_ first fewer =>
      cases rest
      refine ⟨later,⟨fit,place⟩,ready,among,first,fun other member => ?_,fun none_ => by cases none_⟩
      cases member
      exact ⟨some_,fewer⟩
    | ended same none_ =>
      cases rest
      subst same none_
      exact ⟨[],⟨fit,between.place⟩,ready,List.suffix_rfl,rfl,by simp,fun _ => rfl⟩

/-- Enough rounds bring the loop to a window or to the end. -/
theorem scanLoop_total {rounds : Nat} {scan : CompressedScan} {cuts : List Cut} (between : set.Between scan cuts)
    (ready : scan.pruneQualsReady = true) (free : scan.active = none) (fine : set.Fine cuts)
    (enough : set.relation.groups.length - scan.groupIndex + cuts.length < rounds) :
    ∃ result, scanLoop set.source rounds scan = .ok result := by
  induction rounds generalizing scan cuts with
  | zero => exact absurd enough (Nat.not_lt_zero _)
  | succ rounds ih =>
    obtain ⟨⟨middle,turn⟩,one⟩ := turn_total fair between.fit ready free between.place fine
    obtain ⟨fit,ready',right⟩ := turn_ok fair between.fit ready between.place one
    cases right with
    | again later place free' among same less =>
      obtain ⟨result,rest⟩ := ih ⟨fit,place⟩ ready' (free' free) (fun mode cut member => fine mode cut (among.mem member)) (by omega)
      exact ⟨result,bind_ok.mpr ⟨_,one,rest⟩⟩
    | published window later place among some_ first fewer => exact ⟨_,bind_ok.mpr ⟨_,one,rfl⟩⟩
    | ended same none_ => exact ⟨_,bind_ok.mpr ⟨_,one,rfl⟩⟩

/-! The rounds that a call is given are enough. -/

omit fair in
theorem partCuts_length (part : List InputBatch) (row : Nat) :
    (set.partCuts part row).length ≤ (part.map InputBatch.nrows).sum := by
  cases part with
  | nil => exact Nat.le_refl _
  | cons input rest =>
    have first := windowsFrom_length set.maxRows input.nrows row
    have others : (rest.flatMap fun other => cutsFrom set.maxRows other 0).length ≤ (rest.map InputBatch.nrows).sum := by
      induction rest with
      | nil => exact Nat.le_refl _
      | cons other rest ih =>
        have one := windowsFrom_length set.maxRows other.nrows 0
        rw [List.flatMap_cons,List.length_append,cutsFrom,List.length_map,List.map_cons,List.sum_cons]
        omega
    rw [partCuts,List.length_append,cutsFrom,List.length_map,List.map_cons,List.sum_cons]
    omega

omit fair in
theorem leftCuts_length (groups : List StorageGroup) (parts : List (List InputBatch)) :
    (set.leftCuts groups parts).length ≤ (parts.flatten.map InputBatch.nrows).sum := by
  induction groups generalizing parts with
  | nil => exact Nat.zero_le _
  | cons group groups ih =>
    cases parts with
    | nil => exact Nat.zero_le _
    | cons part parts =>
      have one := @partCuts_length κ set part 0
      have rest := ih parts
      rw [leftCuts,List.length_append,List.flatten_cons,List.map_append,List.sum_append]
      split
      · rw [List.length_nil]
        omega
      · omega

omit fair in
theorem at_length {scan : CompressedScan} {cuts : List Cut} (place : set.At scan cuts) :
    cuts.length ≤ (set.inputs.map InputBatch.nrows).sum := by
  have drop (index : Nat) : ((set.inputs.drop index).map InputBatch.nrows).sum ≤ (set.inputs.map InputBatch.nrows).sum := by
    have whole := congrArg (fun items => (items.map InputBatch.nrows).sum) (List.take_append_drop index set.inputs)
    simp only [List.map_append,List.sum_append] at whole
    omega
  cases place with
  | before parts place =>
    have length := @leftCuts_length κ set (set.relation.groups.drop scan.groupIndex) parts
    rw [← place.whole] at length
    exact Nat.le_trans length (drop _)
  | inside group groups part parts place =>
    have first := @partCuts_length κ set part scan.batchRow
    have rest := @leftCuts_length κ set groups parts
    have all := drop scan.batchIndex
    rw [place.whole,List.map_append,List.sum_append] at all
    rw [List.length_append]
    omega

theorem rounds_enough {scan : CompressedScan} {cuts : List Cut} (fit : set.Fit scan) (place : set.At scan cuts) :
    set.relation.groups.length - scan.groupIndex + cuts.length < scan.relation.rounds := by
  have length := at_length place
  have rows : (set.relation.batches.map CompressedBatch.nrows).sum = (set.inputs.map InputBatch.nrows).sum := by
    rw [fair.stores.batches,List.map_map]
    exact congrArg List.sum (List.map_congr_left fun input _ => stored_nrows fair.few input)
  rw [fit.relation,CompressedRelation.rounds,rows]
  omega

/-! Calls. -/

omit fair in
theorem readyScan_ok {scan : CompressedScan} {cuts : List Cut} (between : set.Between scan cuts) :
    ∃ after, readyScan set.source scan = .ok after ∧ set.Between after cuts ∧ after.pruneQualsReady = true ∧
      after.active = scan.active ∧ after.groupIndex = scan.groupIndex := by
  obtain ⟨fit,place⟩ := between
  unfold readyScan
  by_cases ready : scan.pruneQualsReady = true
  · rw [if_pos ready]
    exact ⟨scan,rfl,⟨fit,place⟩,ready,rfl,rfl⟩
  · rw [if_neg ready]
    obtain ⟨quals,evaluated,parts,evaluates,exprs⟩ := fit.evaluates.prepare
    refine ⟨{scan with quals := quals, pruneQualsReady := true},bind_ok.mpr ⟨quals,evaluated,rfl⟩,⟨?_,?_⟩,rfl,rfl,rfl⟩
    · exact ⟨fit.relation,fit.maxRows,fit.sourceAttnums,fit.mode,evaluates,fun _ => parts,exprs ▸ fit.compiled⟩
    · cases place with
      | before parts place => exact .before parts ⟨place.ready,place.row,place.divided,place.whole⟩
      | inside group groups part parts place =>
        exact .inside group groups part parts ⟨place.ready,place.here,place.stop,place.row,place.whole,place.divided⟩

theorem scanNext_ok {scan after : CompressedScan} {cuts : List Cut} (between : set.Between scan cuts)
    {result : Option Window} (ran : scanNext set.source scan = .ok (after,result)) :
    ∃ later, set.Between after later ∧ later <:+ cuts ∧
      set.shown cuts = (result.elim [] fun window => [window.rows]) ++ set.shown later ∧
      (∀ window ∈ result, window.rows ≠ [] ∧ later.length < cuts.length) ∧ (result = none → later = []) := by
  obtain ⟨middle,readied,looped⟩ := bind_ok.mp ran
  obtain ⟨_,readied',between',ready,_⟩ := readyScan_ok between
  cases readied.symm.trans readied'
  obtain ⟨later,last,_,among,order,found,final⟩ := scanLoop_ok fair between' ready looped
  exact ⟨later,last,among,order,found,final⟩

theorem scanNext_total {scan : CompressedScan} {cuts : List Cut} (between : set.Between scan cuts)
    (free : scan.active = none) (fine : set.Fine cuts) : ∃ result, scanNext set.source scan = .ok result := by
  obtain ⟨middle,readied,between',ready,active,_⟩ := readyScan_ok between
  obtain ⟨result,looped⟩ := scanLoop_total fair between' ready (active.trans free) fine
    (rounds_enough fair between'.fit between'.place)
  exact ⟨result,bind_ok.mpr ⟨middle,readied,looped⟩⟩

omit fair in
theorem Between.release {scan : CompressedScan} {cuts : List Cut} (between : set.Between scan cuts) :
    set.Between (releaseBatch scan) cuts := by
  obtain ⟨fit,place⟩ := between
  refine ⟨⟨fit.relation,fit.maxRows,fit.sourceAttnums,fit.mode,fit.evaluates,fit.ready,fit.compiled⟩,?_⟩
  cases place with
  | before parts place => exact .before parts ⟨place.ready,place.row,place.divided,place.whole⟩
  | inside group groups part parts place =>
    exact .inside group groups part parts ⟨place.ready,place.here,place.stop,place.row,place.whole,place.divided⟩

/-- A whole scan publishes the windows that are still to be taken, but for the empty ones. -/
theorem calls_ok {scan after : CompressedScan} {windows : List Window} (calls : Calls set.source scan windows after)
    {cuts : List Cut} (between : set.Between scan cuts) :
    windows.map Window.rows = set.shown cuts ∧ ∀ window ∈ windows, window.rows ≠ [] := by
  induction calls generalizing cuts with
  | ended before after ran =>
    obtain ⟨later,_,_,order,_,final⟩ := scanNext_ok fair between ran
    rw [final rfl] at order
    exact ⟨order.symm,by simp⟩
  | window before middle after window windows ran rest ih =>
    obtain ⟨later,last,_,order,found,_⟩ := scanNext_ok fair between ran
    obtain ⟨others,filled⟩ := ih last.release
    refine ⟨?_,List.forall_mem_cons.mpr ⟨(found window rfl).1,filled⟩⟩
    rw [List.map_cons,others,order]
    rfl

theorem calls_total {scan : CompressedScan} {cuts : List Cut} (between : set.Between scan cuts)
    (free : scan.active = none) (fine : set.Fine cuts) : ∃ windows after, Calls set.source scan windows after := by
  induction size : cuts.length using Nat.strong_induction_on generalizing scan cuts with
  | _ size_ ih =>
    obtain ⟨⟨middle,result⟩,ran⟩ := scanNext_total fair between free fine
    cases result with
    | none => exact ⟨[],middle,.ended _ _ ran⟩
    | some window =>
      obtain ⟨later,last,among,_,found,_⟩ := scanNext_ok fair between ran
      obtain ⟨windows,after,calls⟩ := ih _ (size ▸ (found window rfl).2) last.release rfl
        (fun mode cut member => fine mode cut (among.mem member)) rfl
      exact ⟨window :: windows,after,.window _ _ _ _ _ ran calls⟩

end Loop

/-! The whole sequence, from the begin of a scan and after each rescan. -/

theorem shown_flatten (cuts : List Cut) :
    (set.shown cuts).flatten = (cuts.flatMap (Cut.rows set.relation.ncolumns)).filter set.keeps := by
  induction cuts with
  | nil => rfl
  | cons cut cuts ih =>
    rw [shown_cons,List.flatMap_cons,List.filter_append,← ih]
    split
    · rename_i empty
      rw [empty,List.nil_append]
    · rw [List.flatten_cons]

theorem partCuts_rows (part : List InputBatch) : (set.partCuts part 0).flatMap (Cut.rows set.relation.ncolumns) =
    part.flatMap (InputBatch.rows set.relation.ncolumns) := by
  rw [partCuts_zero]
  induction part with
  | nil => rfl
  | cons input part ih =>
    rw [List.flatMap_cons,List.flatMap_append,cutsFrom_rows,ih,List.flatMap_cons]

theorem leftCuts_rows {first : Nat} {groups : List StorageGroup} {parts : List (List InputBatch)}
    (divided : Divided set.relation.ncolumns first groups parts) (whole : set.inputs.drop first = parts.flatten) :
    (set.leftCuts groups parts).flatMap (Cut.rows set.relation.ncolumns) =
      (groups.flatMap fun group => if set.skips group then [] else
        (set.inputs.drop group.firstBatch).take group.nbatches).flatMap (InputBatch.rows set.relation.ncolumns) := by
  induction divided with
  | nil => rfl
  | cons first group groups part parts holds _ ih =>
    rw [List.flatten_cons] at whole
    have own : (set.inputs.drop group.firstBatch).take group.nbatches = part := by
      rw [holds.first,holds.count,whole,List.take_left]
    have rest : set.inputs.drop (first + part.length) = parts.flatten := by
      rw [← List.drop_drop,whole,List.drop_left]
    rw [leftCuts,List.flatMap_append,ih rest,List.flatMap_cons,List.flatMap_append,own]
    congr 1
    split
    · rfl
    · exact set.partCuts_rows part

/-- The windows of a whole scan. -/
theorem start_between (fair : set.Fair) : ∃ cuts,
    cuts.flatMap (Cut.rows set.relation.ncolumns) = set.visible.flatMap (InputBatch.rows set.relation.ncolumns) ∧
    ∀ scan, set.Fit scan → scan.groupIndex = 0 → scan.batchIndex = 0 → scan.batchRow = 0 → scan.groupReady = false →
      set.Between scan cuts := by
  obtain ⟨parts,whole,divided⟩ := fair.stores.groups
  refine ⟨set.leftCuts set.relation.groups parts,set.leftCuts_rows divided whole.symm,
    fun scan fit group batch row ready => ⟨fit,?_⟩⟩
  have place : set.Before scan parts := ⟨ready,row,by rw [group,batch]; exact divided,by rw [batch]; exact whole.symm⟩
  have at_ := At.before parts place
  rw [group] at at_
  exact at_

section Begin
variable {set : Setting κ} {specs : List (SourceSpec κ)} (supports : ∀ spec ∈ specs, ∀ qual ∈ spec.filterExpr,
    supported set.conditions qual = true ∧
      ∀ var ∈ treeVars (set.conditions.tree qual), var.varattno.toNat ∈ set.sourceAttnums)
include supports

theorem beginQuals_ok : ∃ quals, specs.mapM (beginQual set.conditions set.sourceAttnums) = .ok quals ∧
    List.Forall₂ (Compiled set.conditions set.sourceAttnums) (specs.filterMap SourceSpec.filterExpr)
      (quals.filterMap SourceQual.expr) := by
  induction specs with
  | nil => exact ⟨[],rfl,.nil⟩
  | cons spec specs ih =>
    obtain ⟨quals,others,compiled⟩ := ih fun other member => supports other (List.mem_cons_of_mem _ member)
    cases filter : spec.filterExpr with
    | none =>
      refine ⟨⟨none,spec.prunable,spec.attnum,spec.op,spec.scalarExpr,some 0#32⟩ :: quals,?_,?_⟩
      · rw [List.mapM_cons]
        refine bind_ok.mpr ⟨_,?_,bind_ok.mpr ⟨quals,others,rfl⟩⟩
        unfold beginQual
        rw [filter]
        rfl
      · rw [List.filterMap_cons,filter]
        exact compiled
    | some qual =>
      obtain ⟨supports_,columns⟩ := supports spec (List.mem_cons_self ..) qual filter
      obtain ⟨state,begun,own⟩ := beginSourceQual_ok supports_ columns
      refine ⟨⟨some state,spec.prunable,spec.attnum,spec.op,spec.scalarExpr,some 0#32⟩ :: quals,?_,?_⟩
      · rw [List.mapM_cons]
        refine bind_ok.mpr ⟨_,?_,bind_ok.mpr ⟨quals,others,rfl⟩⟩
        unfold beginQual
        rw [filter]
        dsimp only
        rw [begun]
        rfl
      · rw [List.filterMap_cons,filter]
        exact .cons own compiled

theorem begin_fit {begun : CompressedScan} (filters : set.filters = specs.filterMap SourceSpec.filterExpr)
    (began : beginScan set.conditions set.relation set.maxRows set.sourceAttnums set.mode specs = .ok begun)
    (prepared : begun.quals.mapM (prepareQual set.source.params) = .ok set.prepared) :
    set.Fit begun ∧ begun = rescan (releaseBatch begun) := by
  obtain ⟨quals,first,compiled⟩ := beginQuals_ok supports
  obtain ⟨_,first',done⟩ := bind_ok.mp began
  cases first.symm.trans first'
  cases done
  exact ⟨⟨rfl,rfl,rfl,rfl,evaluates_of_mapM prepared,fun ready => absurd ready Bool.false_ne_true,filters ▸ compiled⟩,rfl⟩

end Begin

theorem Fit.rescan {set : Setting κ} {scan : CompressedScan} (fit : set.Fit scan) : set.Fit (Compressed.rescan scan) :=
  ⟨fit.relation,fit.maxRows,fit.sourceAttnums,fit.mode,fit.evaluates,fun ready => absurd ready Bool.false_ne_true,fit.compiled⟩

/-- Wherever a scan has come to, its conditions are as they were begun, and a cursor is kept. -/
theorem reached_between {set : Setting κ} (fair : set.Fair) {begun scan : CompressedScan} {cuts : List Cut}
    (start : ∀ scan, set.Fit scan → scan.groupIndex = 0 → scan.batchIndex = 0 → scan.batchRow = 0 →
      scan.groupReady = false → set.Between scan cuts)
    (between : set.Between begun cuts) (reached : Reached set.source begun scan) : ∃ later, set.Between scan later := by
  induction reached with
  | begun => exact ⟨cuts,between⟩
  | next before after result _ ran ih =>
    obtain ⟨later,between⟩ := ih
    obtain ⟨last,between',_⟩ := scanNext_ok fair between ran
    exact ⟨last,between'⟩
  | release before _ ih =>
    obtain ⟨later,between⟩ := ih
    exact ⟨later,between.release⟩
  | rescan before _ ih =>
    obtain ⟨later,between⟩ := ih
    exact ⟨cuts,start _ between.fit.rescan rfl rfl rfl rfl⟩

end Setting

open Setting in
/-- From its begin, and again after a rescan at any point, a scan publishes the same windows:
none is empty, and together they hold the rows of the groups that were not skipped, in their
order and once each, in filter mode those that satisfy the conditions. -/
theorem scan_publishes {κ : Type} (set : Setting κ) (fair : set.Fair) {specs : List (SourceSpec κ)} {begun : CompressedScan}
    (supports : ∀ spec ∈ specs, ∀ qual ∈ spec.filterExpr, supported set.conditions qual = true ∧
      ∀ var ∈ treeVars (set.conditions.tree qual), var.varattno.toNat ∈ set.sourceAttnums)
    (filters : set.filters = specs.filterMap SourceSpec.filterExpr)
    (began : beginScan set.conditions set.relation set.maxRows set.sourceAttnums set.mode specs = .ok begun)
    (prepared : begun.quals.mapM (prepareQual set.source.params) = .ok set.prepared) :
    ∃ published : List (List Attrs),
      published.flatten = (set.visible.flatMap (InputBatch.rows set.relation.ncolumns)).filter set.keeps ∧
      (∀ rows ∈ published, rows ≠ []) ∧
      ∀ scan, scan = begun ∨ (∃ reached, Reached set.source begun reached ∧ scan = rescan (releaseBatch reached)) →
        (∀ windows after, Calls set.source scan windows after → windows.map Window.rows = published) ∧
        ((set.mode = .filter → ∀ values ∈ set.visible.flatMap (InputBatch.rows set.relation.ncolumns),
            ∀ qual ∈ set.filters, ∃ result, set.conditions.holds qual values = .ok result) →
          ∃ windows after, Calls set.source scan windows after) := by
  obtain ⟨cuts,rows,start⟩ := set.start_between fair
  obtain ⟨fit,own⟩ := begin_fit supports filters began prepared
  have first : set.Between begun cuts := by
    refine start begun fit ?_ ?_ ?_ ?_ <;> rw [own] <;> rfl
  refine ⟨set.shown cuts,by rw [shown_flatten,rows],fun published member => ?_,fun scan from_ => ?_⟩
  · have filled := (List.mem_filter.mp member).2
    rintro rfl
    cases filled
  · have between : set.Between scan cuts ∧ scan.active = none := by
      rcases from_ with rfl | ⟨reached,path,rfl⟩
      · exact ⟨first,by rw [own]; rfl⟩
      · obtain ⟨later,place⟩ := reached_between fair start first path
        exact ⟨start _ place.release.fit.rescan rfl rfl rfl rfl,rfl⟩
    refine ⟨fun windows after calls => (calls_ok fair calls between.1).1,fun fine => ?_⟩
    refine calls_total fair between.1 between.2 fun mode cut member values among qual filter => ?_
    exact fine mode values (rows ▸ List.mem_flatMap.mpr ⟨cut,member,among⟩) qual filter

theorem twoRows_small : 2 ≤ 64 := by decide

def pairBatch : InputBatch :=
  ⟨2,Nat.two_pos,twoRows_small,fun _ row => if row = 0 then 3#32 else 9#32,fun _ => 3#64⟩

/-- `one < 5`, which filters and prunes. -/
def belowFive : SourceSpec Bool :=
  ⟨some true,1,.lt,some (.const .int4 (some 5#32)),true⟩

def belowFiveQual : SourceQual :=
  ⟨some ⟨⟨some 0,none,[],some (.const .int4 (some 5#32)),.lt,true⟩,freshMachine,0,{0},∅,∅,false⟩,true,1,.lt,
    some (.const .int4 (some 5#32)),some 5#32⟩

def pairSetting : Setting Bool where
  conditions := Filter.smallConditions
  source := ⟨true,.seq,Filter.smallConditions.params,true,true⟩
  relation := compress 1 1 [pairBatch]
  inputs := [pairBatch]
  sourceAttnums := [1]
  maxRows := 1
  mode := .filter
  prepared := [belowFiveQual]
  filters := [true]

theorem pairSetting_fair : pairSetting.Fair :=
  ⟨compress_stores 1 1 [pairBatch],by decide,by decide,rfl⟩

theorem pair_published : ∃ begun windows after,
    beginScan pairSetting.conditions pairSetting.relation 1 [1] .filter [belowFive] = .ok begun ∧
      Calls pairSetting.source begun windows after ∧
      (windows.flatMap Window.rows).map (fun row => row 1) = [some 3#64] := by
  have began : beginScan pairSetting.conditions pairSetting.relation 1 [1] .filter [belowFive] =
      .ok ⟨pairSetting.relation,1,[1],.filter,[{belowFiveQual with scalar := some 0#32}],0,0,0,false,false,none⟩ := rfl
  obtain ⟨published,rows,_,runs⟩ := scan_publishes pairSetting pairSetting_fair
    (by simp [belowFive]; decide) rfl began rfl
  obtain ⟨shown,ends⟩ := runs _ (.inl rfl)
  obtain ⟨windows,after,calls⟩ := ends fun _ values _ qual member => by
    rw [List.mem_singleton.mp member]
    exact Filter.smallFine values true (List.mem_cons_self ..)
  refine ⟨_,windows,after,began,calls,?_⟩
  have flat : windows.flatMap Window.rows = published.flatten := by
    rw [← shown windows after calls]
    rfl
  rw [flat,rows]
  decide

end PgBatch.Compressed
