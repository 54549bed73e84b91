import PgBatch.Nodes.ScanPlan
import PgBatch.Library.Words
import Mathlib.Data.Finset.Sort

/-! The compact column list of a scan as `build_source_layout` (`nodes/planner.c`)
builds it: five passes over the attributes, of which three add columns and note
their positions, and two look positions up. -/
namespace PgBatch.Planner
open PgBatch.Expr

/-- What `makeVar` copies from an attribute. -/
structure Attribute where
  atttypid : Nat
  atttypmod : Int
  attcollation : Nat
deriving DecidableEq, Repr

/-- `desc->natts` and `TupleDescAttr (desc, attnum - 1)`. -/
structure TupleDesc where
  natts : Nat
  attr : Nat → Attribute

/-- `makeTargetEntry (makeVar (relid, attnum, …, 0), resno, NULL, false)`. -/
structure TargetEntry where
  varno : Nat
  varattno : Nat
  attr : Attribute
  resno : Nat
deriving DecidableEq, Repr

structure SourceLayout where
  targetlist : List TargetEntry
  sourceAttnums : List Nat
  projectColumns : List Int
  exactFilterColumns : List Int
  nfilterColumns : Nat
deriving DecidableEq, Repr

/-- The loop over what `pull_var_clause` found: a `Var`, or a node of another kind. -/
def collectRelationAttrs (relid natts : Nat) : List (Option Var) → (Nat → Bool) → Bool × (Nat → Bool)
  | [],attrs => (true,attrs)
  | none :: _,attrs => (false,attrs)
  | some var :: rest,attrs =>
    if var.varno ≠ relid ∨ var.varlevelsup ≠ 0 ∨ var.varattno ≤ 0 ∨ (natts : Int) < var.varattno ∨
        var.returningDefault = false then (false,attrs)
    else collectRelationAttrs relid natts rest (Function.update attrs var.varattno.toNat true)

/-- The locals of `build_source_layout`. -/
structure Building where
  layout : SourceLayout
  positions : Nat → Nat
  resno : Nat

section Passes
variable (relid : Nat) (desc : TupleDesc)

/-- What the three passes do with an attribute that they add. -/
def addColumn (state : Building) (attnum : Nat) : Building where
  layout := {state.layout with
    targetlist := state.layout.targetlist ++ [⟨relid,attnum,desc.attr (attnum - 1),state.resno⟩]
    sourceAttnums := state.layout.sourceAttnums ++ [attnum]}
  positions := Function.update state.positions attnum state.resno
  resno := state.resno + 1

def addFilter (filterAttrs : Nat → Bool) (state : Building) (attnum : Nat) : Building :=
  if filterAttrs attnum then
    let added := addColumn relid desc state attnum
    {added with layout := {added.layout with nfilterColumns := added.layout.nfilterColumns + 1}}
  else state

def addSurvivor (filterAttrs survivorAttrs : Nat → Bool) (state : Building) (attnum : Nat) : Building :=
  if survivorAttrs attnum && !filterAttrs attnum then addColumn relid desc state attnum else state

def addSource (sourceAttrs : Nat → Bool) (state : Building) (attnum : Nat) : Building :=
  if sourceAttrs attnum && decide (state.positions attnum = 0) then addColumn relid desc state attnum else state

end Passes

def addExact (exactFilterAttrs : Nat → Bool) (state : Building) (attnum : Nat) : Building :=
  if exactFilterAttrs attnum then
    {state with layout := {state.layout with
      exactFilterColumns := state.layout.exactFilterColumns ++ [(state.positions attnum : Int) - 1]}}
  else state

def addProject (survivorAttrs : Nat → Bool) (state : Building) (attnum : Nat) : Building :=
  if survivorAttrs attnum then
    {state with layout := {state.layout with
      projectColumns := state.layout.projectColumns ++ [(state.positions attnum : Int) - 1]}}
  else state

/-- The passes in their order. -/
def layOut (relid : Nat) (desc : TupleDesc) (filterAttrs sourceAttrs exactFilterAttrs survivorAttrs : Nat → Bool) :
    SourceLayout :=
  let attnums := List.range' 1 desc.natts
  let start : Building := ⟨⟨[],[],[],[],0⟩,fun _ => 0,1⟩
  let filtered := attnums.foldl (addFilter relid desc filterAttrs) start
  let exacted := attnums.foldl (addExact exactFilterAttrs) filtered
  let survived := attnums.foldl (addSurvivor relid desc filterAttrs survivorAttrs) exacted
  let sourced := attnums.foldl (addSource relid desc sourceAttrs) survived
  (attnums.foldl (addProject survivorAttrs) sourced).layout

def buildSourceLayout (relid : Nat) (desc : TupleDesc) (localQuals sourceExprs exactQuals targetlist : List (Option Var)) :
    Except String SourceLayout :=
  let filters := collectRelationAttrs relid desc.natts localQuals fun _ => false
  let sources := collectRelationAttrs relid desc.natts sourceExprs fun _ => false
  let exacts := collectRelationAttrs relid desc.natts exactQuals fun _ => false
  let survivors := collectRelationAttrs relid desc.natts targetlist fun _ => false
  if !filters.1 || !sources.1 || !exacts.1 || !survivors.1 then .error "pg_batch found an unsupported variable"
  else .ok (layOut relid desc filters.2 sources.2 exacts.2 survivors.2)

/-! What is collected. -/

/-- A `Var` of the relation itself. -/
def Supported (relid natts : Nat) (node : Option Var) : Prop :=
  ∃ var, node = some var ∧ var.varno = relid ∧ var.varlevelsup = 0 ∧ 0 < var.varattno ∧ var.varattno ≤ natts ∧
    var.returningDefault = true

/-- The attributes of an expression. -/
def attrsOf (nodes : List (Option Var)) : Finset Nat :=
  (nodes.filterMap fun node => node.map fun var => var.varattno.toNat).toFinset

theorem mem_attrsOf {nodes : List (Option Var)} {attnum : Nat} :
    attnum ∈ attrsOf nodes ↔ ∃ var, some var ∈ nodes ∧ var.varattno.toNat = attnum := by
  simp only [attrsOf,List.mem_toFinset,List.mem_filterMap,Option.map_eq_some_iff]
  constructor
  · rintro ⟨_,member,var,rfl,same⟩
    exact ⟨var,member,same⟩
  · rintro ⟨var,member,same⟩
    exact ⟨_,member,var,rfl,same⟩

theorem attrsOf_cons (var : Var) (rest : List (Option Var)) :
    attrsOf (some var :: rest) = insert var.varattno.toNat (attrsOf rest) := by
  simp [attrsOf]

theorem collectRelationAttrs_supported {relid natts : Nat} {nodes : List (Option Var)}
    (supported : ∀ node ∈ nodes, Supported relid natts node) (attrs : Nat → Bool) :
    collectRelationAttrs relid natts nodes attrs =
      (true,fun attnum => attrs attnum || decide (attnum ∈ attrsOf nodes)) := by
  induction nodes generalizing attrs with
  | nil => simp [collectRelationAttrs,attrsOf]
  | cons node rest ih =>
    obtain ⟨var,rfl,same,level,low,high,returning⟩ := supported _ (List.mem_cons_self ..)
    have accepted : ¬ (var.varno ≠ relid ∨ var.varlevelsup ≠ 0 ∨ var.varattno ≤ 0 ∨ (natts : Int) < var.varattno ∨
        var.returningDefault = false) := by
      simp only [same,level,returning,ne_eq,not_true_eq_false,false_or,Bool.true_eq_false,or_false]
      omega
    rw [collectRelationAttrs,if_neg accepted,ih fun node member => supported node (List.mem_cons_of_mem _ member)]
    congr 1
    funext attnum
    rw [attrsOf_cons]
    by_cases here : attnum = var.varattno.toNat
    · subst here
      simp
    · simp [here]

theorem attrsOf_inside {relid natts : Nat} {nodes : List (Option Var)}
    (supported : ∀ node ∈ nodes, Supported relid natts node) {attnum : Nat} (member : attnum ∈ attrsOf nodes) :
    1 ≤ attnum ∧ attnum ≤ natts := by
  obtain ⟨var,inside,rfl⟩ := mem_attrsOf.mp member
  obtain ⟨_,same,_,_,low,high,_⟩ := supported _ inside
  cases same
  omega

/-! What the passes have built. -/

/-- The entry of a column. -/
def entry (relid : Nat) (desc : TupleDesc) (column : Nat × Nat) : TargetEntry :=
  ⟨relid,column.1,desc.attr (column.1 - 1),column.2 + 1⟩

/-- The state in which the columns have been added. -/
def building (relid : Nat) (desc : TupleDesc) (columns : List Nat) (nfilterColumns : Nat)
    (exactFilterColumns : List Int) : Building where
  layout := ⟨columns.zipIdx.map (entry relid desc),columns,[],exactFilterColumns,nfilterColumns⟩
  positions := fun attnum => if attnum ∈ columns then columns.idxOf attnum + 1 else 0
  resno := columns.length + 1

section Building
variable {relid : Nat} {desc : TupleDesc} {columns : List Nat} {nfilterColumns : Nat} {exactFilterColumns : List Int}

theorem addColumn_building {attnum : Nat} (fresh : attnum ∉ columns) :
    addColumn relid desc (building relid desc columns nfilterColumns exactFilterColumns) attnum =
      building relid desc (columns ++ [attnum]) nfilterColumns exactFilterColumns := by
  have places : Function.update (building relid desc columns nfilterColumns exactFilterColumns).positions attnum
      (columns.length + 1) = (building relid desc (columns ++ [attnum]) nfilterColumns exactFilterColumns).positions := by
    funext other
    by_cases same : other = attnum
    · subst same
      simp [building,List.idxOf_append,fresh]
    · by_cases member : other ∈ columns
      · simp [building,same,member,List.idxOf_append]
      · simp [building,same,member]
  rw [addColumn]
  simp only [building] at places ⊢
  rw [places]
  simp [entry,List.zipIdx_append]

/-- A pass adds the wanted attributes, in ascending order. -/
theorem pass_adds {α : Type} {step : α → Nat → α} {held : List Nat → α} {wanted : Nat → Prop} [DecidablePred wanted]
    {attnums : List Nat} (distinct : attnums.Nodup)
    (each : ∀ done, ∀ attnum ∈ attnums, attnum ∉ done → (∀ other ∈ done, wanted other) →
      step (held (columns ++ done)) attnum = held (columns ++ done ++ if wanted attnum then [attnum] else [])) :
    attnums.foldl step (held columns) = held (columns ++ attnums.filter wanted) := by
  suffices from_ : ∀ done, (∀ attnum ∈ attnums, attnum ∉ done) → (∀ other ∈ done, wanted other) →
      attnums.foldl step (held (columns ++ done)) = held (columns ++ (done ++ attnums.filter wanted)) by
    simpa using from_ [] (by simp) (by simp)
  induction attnums with
  | nil => simp
  | cons attnum rest ih =>
    intro done apart all
    obtain ⟨here,others⟩ := List.nodup_cons.mp distinct
    rw [List.foldl_cons,each done attnum (List.mem_cons_self ..) (apart attnum (List.mem_cons_self ..)) all,
      List.append_assoc]
    have later := fun done attnum member => each done attnum (List.mem_cons_of_mem _ member)
    have behind : ∀ other ∈ rest, other ∉ done := fun other member => apart other (List.mem_cons_of_mem _ member)
    by_cases want : wanted attnum
    · have grown : done ++ attnum :: rest.filter (fun other => wanted other) =
          done ++ [attnum] ++ rest.filter (fun other => wanted other) := List.append_cons ..
      rw [if_pos want,List.filter_cons_of_pos (by simpa using want),grown]
      refine ih others later (done ++ [attnum]) ?_ ?_
      · intro other member
        rw [List.mem_append,List.mem_singleton,not_or]
        exact ⟨behind other member,fun same => here (same ▸ member)⟩
      · intro other member
        rcases List.mem_append.mp member with old | new
        · exact all other old
        · exact List.mem_singleton.mp new ▸ want
    · rw [if_neg want,List.append_nil,List.filter_cons_of_neg (by simpa using want)]
      exact ih others later done behind all

/-- A pass over the attributes that notes positions. -/
theorem addExact_building (exactFilterAttrs : Nat → Bool) (attnums : List Nat) :
    attnums.foldl (addExact exactFilterAttrs) (building relid desc columns nfilterColumns exactFilterColumns) =
      building relid desc columns nfilterColumns (exactFilterColumns ++ (attnums.filter exactFilterAttrs).map fun attnum =>
        ((building relid desc columns nfilterColumns exactFilterColumns).positions attnum : Int) - 1) := by
  induction attnums generalizing exactFilterColumns with
  | nil => simp
  | cons attnum rest ih =>
    rw [List.foldl_cons,addExact]
    by_cases noted : exactFilterAttrs attnum = true
    · rw [if_pos noted,List.filter_cons_of_pos noted,List.map_cons]
      have later := @ih (exactFilterColumns ++
        [((building relid desc columns nfilterColumns exactFilterColumns).positions attnum : Int) - 1])
      rw [List.append_assoc] at later
      exact later
    · rw [if_neg noted,List.filter_cons_of_neg noted]
      exact ih

theorem addProject_layout (survivorAttrs : Nat → Bool) (attnums : List Nat) (state : Building) :
    (attnums.foldl (addProject survivorAttrs) state).layout = {state.layout with
      projectColumns := state.layout.projectColumns ++ (attnums.filter survivorAttrs).map fun attnum =>
        (state.positions attnum : Int) - 1} := by
  induction attnums generalizing state with
  | nil => simp
  | cons attnum rest ih =>
    rw [List.foldl_cons,addProject]
    by_cases noted : survivorAttrs attnum = true
    · rw [if_pos noted,List.filter_cons_of_pos noted,List.map_cons,ih]
      simp
    · rw [if_neg noted,List.filter_cons_of_neg noted]
      exact ih state

end Building

/-- The columns in their order. -/
def columnsOf (natts : Nat) (filterAttrs sourceAttrs survivorAttrs : Nat → Bool) : List Nat :=
  let attnums := List.range' 1 natts
  attnums.filter filterAttrs ++ attnums.filter (fun attnum => survivorAttrs attnum && !filterAttrs attnum) ++
    attnums.filter (fun attnum => sourceAttrs attnum && !filterAttrs attnum && !survivorAttrs attnum)

theorem layOut_eq (relid : Nat) (desc : TupleDesc) (filterAttrs sourceAttrs exactFilterAttrs survivorAttrs : Nat → Bool) :
    layOut relid desc filterAttrs sourceAttrs exactFilterAttrs survivorAttrs =
      let attnums := List.range' 1 desc.natts
      let columns := columnsOf desc.natts filterAttrs sourceAttrs survivorAttrs
      let filters := attnums.filter filterAttrs
      ⟨columns.zipIdx.map (entry relid desc),columns,
        (attnums.filter survivorAttrs).map fun attnum => ((building relid desc columns 0 []).positions attnum : Int) - 1,
        (attnums.filter exactFilterAttrs).map fun attnum => ((building relid desc filters 0 []).positions attnum : Int) - 1,
        filters.length⟩ := by
  have distinct : (List.range' 1 desc.natts).Nodup := List.nodup_range'
  unfold layOut columnsOf
  generalize List.range' 1 desc.natts = attnums at distinct
  have filtered := @pass_adds [] Building (addFilter relid desc filterAttrs)
    (fun columns => building relid desc columns columns.length []) (fun attnum => filterAttrs attnum = true) _ attnums
    distinct fun done attnum _ fresh _ => by
      rw [addFilter]
      by_cases wanted : filterAttrs attnum = true
      · rw [if_pos wanted,if_pos wanted,List.nil_append]
        dsimp only
        rw [addColumn_building fresh]
        simp [building]
      · rw [if_neg wanted,if_neg wanted,List.append_nil]
  have start : (⟨⟨[],[],[],[],0⟩,fun _ => 0,1⟩ : Building) = building relid desc [] 0 [] := by simp [building]
  have survived (exacts : List Int) := @pass_adds (attnums.filter filterAttrs) Building
    (addSurvivor relid desc filterAttrs survivorAttrs)
    (fun columns => building relid desc columns (attnums.filter filterAttrs).length exacts)
    (fun attnum => (survivorAttrs attnum && !filterAttrs attnum) = true) _ attnums
    distinct fun done attnum _ fresh _ => by
      rw [addSurvivor]
      by_cases wanted : (survivorAttrs attnum && !filterAttrs attnum) = true
      · rw [if_pos wanted,if_pos wanted]
        refine addColumn_building fun member => ?_
        rcases List.mem_append.mp member with filter | survivor
        · simp [(List.mem_filter.mp filter).2] at wanted
        · exact fresh survivor
      · rw [if_neg wanted,if_neg wanted,List.append_nil]
  have sourced (exacts : List Int) := @pass_adds
    (attnums.filter filterAttrs ++ attnums.filter fun attnum => survivorAttrs attnum && !filterAttrs attnum) Building
    (addSource relid desc sourceAttrs)
    (fun columns => building relid desc columns (attnums.filter filterAttrs).length exacts)
    (fun attnum => (sourceAttrs attnum && !filterAttrs attnum && !survivorAttrs attnum) = true) _ attnums
    distinct fun done attnum inside fresh _ => by
      rw [addSource]
      -- An attribute without a position is in no column so far.
      have unplaced : decide ((building relid desc (attnums.filter filterAttrs ++
          attnums.filter (fun attnum => survivorAttrs attnum && !filterAttrs attnum) ++ done)
          (attnums.filter filterAttrs).length exacts).positions attnum = 0) =
          (!filterAttrs attnum && !survivorAttrs attnum) := by
        cases filter : filterAttrs attnum <;> cases survivor : survivorAttrs attnum <;>
          simp [building,inside,fresh,filter,survivor]
      rw [unplaced,← Bool.and_assoc]
      by_cases wanted : (sourceAttrs attnum && !filterAttrs attnum && !survivorAttrs attnum) = true
      · rw [if_pos wanted,if_pos wanted]
        refine addColumn_building fun member => ?_
        rcases List.mem_append.mp member with placed | source
        · simp only [List.mem_append,List.mem_filter,Bool.and_eq_true,Bool.not_eq_true'] at placed wanted
          rcases placed with filter | survivor
          · rw [filter.2] at wanted
            exact Bool.noConfusion wanted.1.2
          · rw [survivor.2.1] at wanted
            exact Bool.noConfusion wanted.2
        · exact fresh source
      · rw [if_neg wanted,if_neg wanted,List.append_nil]
  simp only [Bool.decide_eq_true,List.nil_append,List.length_nil] at filtered survived sourced
  dsimp only
  rw [start,filtered,addExact_building,survived,sourced,addProject_layout]
  rfl

/-- The passes build the layout with which the scan is planned. -/
theorem layOut_layoutOf (relid : Nat) (desc : TupleDesc) {filterAttrs exactFilterAttrs survivorAttrs : Finset Nat}
    (sourceAttrs : Finset Nat) (less : exactFilterAttrs ⊆ filterAttrs) :
    let layout := layOut relid desc (fun attnum => decide (attnum ∈ filterAttrs)) (fun attnum => decide (attnum ∈ sourceAttrs))
      (fun attnum => decide (attnum ∈ exactFilterAttrs)) fun attnum => decide (attnum ∈ survivorAttrs)
    let plan := Scan.layoutOf desc.natts filterAttrs sourceAttrs exactFilterAttrs survivorAttrs
    layout.sourceAttnums = plan.sourceAttnums ∧ layout.nfilterColumns = plan.nfilterColumns ∧
      layout.exactFilterColumns = plan.exactFilterColumns.map Int.ofNat ∧
      layout.projectColumns = plan.projectColumns.map Int.ofNat := by
  have columns : columnsOf desc.natts (fun attnum => decide (attnum ∈ filterAttrs))
      (fun attnum => decide (attnum ∈ sourceAttrs)) (fun attnum => decide (attnum ∈ survivorAttrs)) =
      (Scan.layoutOf desc.natts filterAttrs sourceAttrs exactFilterAttrs survivorAttrs).sourceAttnums := by
    simp only [columnsOf,Scan.layoutOf]
    congr 1
    · congr 1
      exact List.filter_congr fun attnum _ => by simp
    · refine List.filter_congr fun attnum member => ?_
      by_cases filter : attnum ∈ filterAttrs <;> by_cases survivor : attnum ∈ survivorAttrs <;>
        simp [member,filter,survivor]
  have noted {attnum : Nat} {among all : List Nat} (placed : attnum ∈ among) (first : ∃ after, all = among ++ after) :
      ((building relid desc among 0 []).positions attnum : Int) - 1 = Int.ofNat (Scan.columnOf all attnum) := by
    obtain ⟨after,rfl⟩ := first
    simp only [building,if_pos placed,Scan.columnOf,List.idxOf_append_of_mem placed,Int.ofNat_eq_natCast]
    omega
  rw [layOut_eq]
  dsimp only
  rw [columns]
  refine ⟨rfl,rfl,?_,?_⟩
  · simp only [Scan.layoutOf,List.map_map]
    refine List.map_congr_left fun attnum member => noted ?_ ⟨_,List.append_assoc ..⟩
    obtain ⟨inside,exact_⟩ := List.mem_filter.mp member
    exact List.mem_filter.mpr ⟨inside,decide_eq_true (less (of_decide_eq_true exact_))⟩
  · simp only [Scan.layoutOf,List.map_map]
    refine List.map_congr_left fun attnum member => noted ?_ ⟨[],(List.append_nil _).symm⟩
    obtain ⟨inside,survivor⟩ := List.mem_filter.mp member
    by_cases filter : attnum ∈ filterAttrs
    · simp [inside,filter]
    · simp [inside,filter,of_decide_eq_true survivor]

theorem attnums_sort {natts : Nat} {wanted : Nat → Bool} {attrs : Finset Nat}
    (same : ∀ attnum, attnum ∈ attrs ↔ (1 ≤ attnum ∧ attnum ≤ natts) ∧ wanted attnum = true) :
    (List.range' 1 natts).filter wanted = attrs.sort := by
  apply Words.sorted_ext (List.Pairwise.filter _ List.pairwise_lt_range') (Finset.sortedLT_sort attrs).pairwise
  intro attnum
  rw [List.mem_filter,List.mem_range'_1,Finset.mem_sort,same]
  constructor
  · rintro ⟨⟨low,high⟩,want⟩
    exact ⟨⟨low,by omega⟩,want⟩
  · rintro ⟨⟨low,high⟩,want⟩
    exact ⟨⟨low,by omega⟩,want⟩

/-- The noted positions are those of the attributes. -/
theorem mem_positions {relid : Nat} {desc : TupleDesc} {before after attrs : List Nat} (distinct : (before ++ after).Nodup)
    (placed : ∀ attnum ∈ attrs, attnum ∈ before) (column : Int) :
    column ∈ attrs.map (fun attnum => ((building relid desc before 0 []).positions attnum : Int) - 1) ↔
      ∃ position : Nat, ∃ attnum ∈ attrs, column = position ∧ (before ++ after)[position]? = some attnum := by
  have noted {attnum : Nat} (member : attnum ∈ attrs) :
      ((building relid desc before 0 []).positions attnum : Int) - 1 = ((before ++ after).idxOf attnum : Nat) := by
    simp only [building,if_pos (placed attnum member),List.idxOf_append_of_mem (placed attnum member)]
    omega
  rw [List.mem_map]
  constructor
  · rintro ⟨attnum,member,rfl⟩
    have inside : attnum ∈ before ++ after := List.mem_append_left _ (placed attnum member)
    have less := List.idxOf_lt_length_of_mem inside
    exact ⟨_,attnum,member,noted member,by rw [List.getElem?_eq_getElem less,List.getElem_idxOf less]⟩
  · rintro ⟨position,attnum,member,rfl,found⟩
    obtain ⟨less,here⟩ := List.getElem?_eq_some_iff.mp found
    exact ⟨attnum,member,by rw [noted member,← here,distinct.idxOf_getElem]⟩

theorem nodup_positions {relid : Nat} {desc : TupleDesc} {before attrs : List Nat} (once : attrs.Nodup)
    (placed : ∀ attnum ∈ attrs, attnum ∈ before) :
    (attrs.map fun attnum => ((building relid desc before 0 []).positions attnum : Int) - 1).Nodup := by
  refine once.map_on fun one first two second same => ?_
  simp only [building,if_pos (placed one first),if_pos (placed two second)] at same
  exact (List.idxOf_inj (placed one first)).mp (by omega)

/-- The column list of a scan has each attribute that a condition, the target list or the source needs, and no other,
once: first those of the local conditions, then those of the target list alone, last those of the source alone, in
ascending order each. The target list agrees with it, and the two maps hold the positions of their attributes. -/
theorem source_layout_right {relid : Nat} {desc : TupleDesc} {localQuals sourceExprs exactQuals targetlist : List (Option Var)}
    (supported : ∀ node ∈ localQuals ++ sourceExprs ++ exactQuals ++ targetlist, Supported relid desc.natts node)
    (exacts : attrsOf exactQuals ⊆ attrsOf localQuals) :
    ∃ layout, buildSourceLayout relid desc localQuals sourceExprs exactQuals targetlist = .ok layout ∧
      layout.sourceAttnums.Nodup ∧
      layout.sourceAttnums.toFinset =
        attrsOf localQuals ∪ attrsOf exactQuals ∪ attrsOf sourceExprs ∪ attrsOf targetlist ∧
      layout.sourceAttnums = (attrsOf localQuals).sort ++ (attrsOf targetlist \ attrsOf localQuals).sort ++
        (attrsOf sourceExprs \ (attrsOf localQuals ∪ attrsOf targetlist)).sort ∧
      layout.sourceAttnums.take layout.nfilterColumns = (attrsOf localQuals).sort ∧
      layout.targetlist = layout.sourceAttnums.zipIdx.map (entry relid desc) ∧
      layout.projectColumns.Nodup ∧ layout.exactFilterColumns.Nodup ∧
      (∀ column, column ∈ layout.projectColumns ↔ ∃ position : Nat, ∃ attnum ∈ attrsOf targetlist,
        column = position ∧ layout.sourceAttnums[position]? = some attnum) ∧
      ∀ column, column ∈ layout.exactFilterColumns ↔ ∃ position : Nat, ∃ attnum ∈ attrsOf exactQuals,
        column = position ∧ layout.sourceAttnums[position]? = some attnum := by
  have inside {nodes : List (Option Var)}
      (some : ∀ node ∈ nodes, node ∈ localQuals ++ sourceExprs ++ exactQuals ++ targetlist) :
      ∀ node ∈ nodes, Supported relid desc.natts node := fun node member => supported node (some node member)
  have locals : ∀ node ∈ localQuals, Supported relid desc.natts node := inside (by simp +contextual)
  have sources : ∀ node ∈ sourceExprs, Supported relid desc.natts node := inside (by simp +contextual)
  have exacted : ∀ node ∈ exactQuals, Supported relid desc.natts node := inside (by simp +contextual)
  have targets : ∀ node ∈ targetlist, Supported relid desc.natts node := inside (by simp +contextual)
  have built : buildSourceLayout relid desc localQuals sourceExprs exactQuals targetlist = .ok (layOut relid desc
      (fun attnum => decide (attnum ∈ attrsOf localQuals)) (fun attnum => decide (attnum ∈ attrsOf sourceExprs))
      (fun attnum => decide (attnum ∈ attrsOf exactQuals)) fun attnum => decide (attnum ∈ attrsOf targetlist)) := by
    simp [buildSourceLayout,collectRelationAttrs_supported locals,collectRelationAttrs_supported sources,
      collectRelationAttrs_supported exacted,collectRelationAttrs_supported targets]
  have first : (List.range' 1 desc.natts).filter (fun attnum => decide (attnum ∈ attrsOf localQuals)) =
      (attrsOf localQuals).sort := attnums_sort fun attnum => by
    rw [decide_eq_true_eq]
    exact ⟨fun member => ⟨attrsOf_inside locals member,member⟩,And.right⟩
  have target : (List.range' 1 desc.natts).filter (fun attnum => decide (attnum ∈ attrsOf targetlist)) =
      (attrsOf targetlist).sort := attnums_sort fun attnum => by
    rw [decide_eq_true_eq]
    exact ⟨fun member => ⟨attrsOf_inside targets member,member⟩,And.right⟩
  have exact_ : (List.range' 1 desc.natts).filter (fun attnum => decide (attnum ∈ attrsOf exactQuals)) =
      (attrsOf exactQuals).sort := attnums_sort fun attnum => by
    rw [decide_eq_true_eq]
    exact ⟨fun member => ⟨attrsOf_inside exacted member,member⟩,And.right⟩
  have columns : columnsOf desc.natts (fun attnum => decide (attnum ∈ attrsOf localQuals))
      (fun attnum => decide (attnum ∈ attrsOf sourceExprs)) (fun attnum => decide (attnum ∈ attrsOf targetlist)) =
      (attrsOf localQuals).sort ++ ((attrsOf targetlist \ attrsOf localQuals).sort ++
        (attrsOf sourceExprs \ (attrsOf localQuals ∪ attrsOf targetlist)).sort) := by
    rw [columnsOf,first,List.append_assoc]
    congr 2
    · refine attnums_sort fun attnum => ?_
      simp only [Finset.mem_sdiff,Bool.and_eq_true,decide_eq_true_eq,Bool.not_eq_true',decide_eq_false_iff_not]
      exact ⟨fun both => ⟨attrsOf_inside targets both.1,both⟩,And.right⟩
    · refine attnums_sort fun attnum => ?_
      simp only [Finset.mem_sdiff,Finset.mem_union,not_or,Bool.and_eq_true,decide_eq_true_eq,Bool.not_eq_true',
        decide_eq_false_iff_not,and_assoc]
      exact ⟨fun both => ⟨(attrsOf_inside sources both.1).1,(attrsOf_inside sources both.1).2,both⟩,fun both => both.2.2⟩
  have distinct : ((attrsOf localQuals).sort ++ ((attrsOf targetlist \ attrsOf localQuals).sort ++
      (attrsOf sourceExprs \ (attrsOf localQuals ∪ attrsOf targetlist)).sort)).Nodup := by
    refine List.Nodup.append (Finset.sort_nodup ..) (List.Nodup.append (Finset.sort_nodup ..) (Finset.sort_nodup ..) ?_) ?_
    · intro attnum one two
      simp only [Finset.mem_sort,Finset.mem_sdiff,Finset.mem_union,not_or] at one two
      exact two.2.2 one.1
    · intro attnum one two
      simp only [List.mem_append,Finset.mem_sort,Finset.mem_sdiff,Finset.mem_union,not_or] at one two
      rcases two with target | source
      · exact target.2 one
      · exact source.2.1 one
  refine ⟨_,built,?_⟩
  rw [layOut_eq]
  dsimp only
  rw [columns,first,target,exact_]
  have placed : ∀ attnum ∈ (attrsOf targetlist).sort, attnum ∈ (attrsOf localQuals).sort ++
      ((attrsOf targetlist \ attrsOf localQuals).sort ++
        (attrsOf sourceExprs \ (attrsOf localQuals ∪ attrsOf targetlist)).sort) := by
    intro attnum member
    simp only [List.mem_append,Finset.mem_sort,Finset.mem_sdiff] at member ⊢
    by_cases filter : attnum ∈ attrsOf localQuals
    · exact .inl filter
    · exact .inr (.inl ⟨member,filter⟩)
  have private_ : ∀ attnum ∈ (attrsOf exactQuals).sort, attnum ∈ (attrsOf localQuals).sort := by
    intro attnum member
    exact (Finset.mem_sort ..).mpr (exacts ((Finset.mem_sort ..).mp member))
  refine ⟨distinct,?_,(List.append_assoc ..).symm,List.take_left,rfl,nodup_positions (Finset.sort_nodup ..) placed,
    nodup_positions (Finset.sort_nodup ..) private_,fun column => ?_,fun column => ?_⟩
  · ext attnum
    simp only [List.mem_toFinset,List.mem_append,Finset.mem_sort,Finset.mem_sdiff,Finset.mem_union]
    have exact_ := @exacts attnum
    tauto
  · have positions := @mem_positions relid desc _ [] _ ((List.append_nil _).symm ▸ distinct) placed column
    simpa only [List.append_nil,Finset.mem_sort] using positions
  · simpa only [Finset.mem_sort] using mem_positions distinct private_ column

/-- A column of the relation. -/
def column (attnum : Nat) : Option Var := some ⟨1,attnum,.int4,0,true⟩

def fourInts : TupleDesc := ⟨4,fun _ => ⟨23,-1,0⟩⟩

theorem fourInts_layout : ∃ layout,
    buildSourceLayout 1 fourInts [column 3,column 2] [column 4] [column 3] [column 3,column 1] = .ok layout ∧
      layout.sourceAttnums.Nodup ∧
      ∀ position, position ∈ layout.exactFilterColumns ↔ ∃ index : Nat, ∃ attnum ∈ attrsOf [column 3],
        position = index ∧ layout.sourceAttnums[index]? = some attnum := by
  have supported : ∀ node ∈ [column 3,column 2] ++ [column 4] ++ [column 3] ++ [column 3,column 1],
      Supported 1 fourInts.natts node := by
    simp [Supported,column,fourInts]
  have exacts : attrsOf [column 3] ⊆ attrsOf [column 3,column 2] := by simp [attrsOf,column]
  obtain ⟨layout,built,distinct,_,_,_,_,_,_,_,noted⟩ := source_layout_right supported exacts
  exact ⟨layout,built,distinct,noted⟩

end PgBatch.Planner
