import PgBatch.Expr.Tree
import PgBatch.Library.Result
import Mathlib.Data.Finset.Basic
import Mathlib.Data.List.Basic

/-! How the planner (`plan_base` in `nodes/planner.c`) divides the conditions of a
scan: some are left to the source, some run as batch kernels in PgBatchScan, and
the rest are left to PgBatchFilterProject. -/
namespace PgBatch.Scan
open PgBatch.Expr Results

/-- `PgBatchHeapScanMode`. -/
inductive HeapScanMode where
  | seq | bitmap
deriving DecidableEq, Repr

/-- `PgBatchQualSupport`. -/
inductive QualSupport where
  | unsupported | pruneOnly | exact
deriving DecidableEq, Repr

/-- An attribute of a row, as a Datum or NULL. -/
abbrev Datum := BitVec 64

/-- The attributes of a row by their physical number. -/
abbrev Attrs := Nat → Option Datum

/-- The int4 value that a Var has in a row. -/
def rowVar (row : Attrs) (var : Var) : Option Int4 :=
  (row var.varattno.toNat).map datumGetInt32

/-- Conditions on the rows of a relation, for one execution: `tree` is what `expr.c`
reads of a condition, `vars` what `pull_var_clause` finds in it, and `holds` what the
scalar executor makes of it. A condition that `expr.c` supports is its tree. -/
structure Conditions (κ : Type) where
  relid : Nat
  natts : Nat
  params : Params
  tree : κ → Node
  vars : κ → List Var
  holds : κ → Attrs → Except String (Option Bool)
  pulled : ∀ qual, ∀ var ∈ treeVars (tree qual), var ∈ vars qual
  agrees : ∀ qual, supportsFilter (tree qual) relid = true →
    ∀ row, holds qual row = evaluateFilter params (rowVar row) (tree qual)
  reads : ∀ qual row other, (∀ var ∈ vars qual, row var.varattno.toNat = other var.varattno.toNat) →
    holds qual row = holds qual other

/-- A row satisfies a condition if the condition is true of it. -/
def Conditions.Satisfies {κ : Type} (conditions : Conditions κ) (row : Attrs) (qual : κ) : Prop :=
  conditions.holds qual row = .ok (some true)

instance {κ : Type} (conditions : Conditions κ) (row : Attrs) (qual : κ) : Decidable (conditions.Satisfies row qual) :=
  match same : conditions.holds qual row with
  | .ok (some true) => .isTrue same
  | .ok (some false) => .isFalse fun holds => by cases same.symm.trans holds
  | .ok none => .isFalse fun holds => by cases same.symm.trans holds
  | .error _ => .isFalse fun holds => by cases same.symm.trans holds

/-- The loop variables of `plan_base`. -/
structure Splitting (κ : Type) where
  qualno : Nat
  densePrefix : Bool
  batchQuals : List κ
  batchRecheckFlags : List Bool
  residual : List κ
  localQuals : List κ
  exactQuals : List κ

def Splitting.start {κ : Type} : Splitting κ :=
  ⟨0,true,[],[],[],[],[]⟩

section Split
variable {κ : Type} [DecidableEq κ] (conditions : Conditions κ) (mode : HeapScanMode) (bitmapqualorig : List κ)
  (support : Option (List QualSupport))

/-- A bitmap condition need only be checked again. -/
def recheckOnly (qual : κ) : Bool :=
  decide (mode = .bitmap) && decide (qual ∈ bitmapqualorig)

/-- `pg_batch_expr_supports_filter (qual, rel->relid)`. -/
def supported (qual : κ) : Bool :=
  supportsFilter (conditions.tree qual) conditions.relid

/-- The source applies the condition itself. -/
def appliedBySource (qualno : Nat) : Bool :=
  match support with
  | none => false
  | some supports => decide (supports[qualno]? = some .exact)

/-- One turn of the loop. -/
def splitQual (state : Splitting κ) (qual : κ) : Splitting κ :=
  if appliedBySource support state.qualno then {state with qualno := state.qualno + 1}
  else
    let recheck := recheckOnly mode bitmapqualorig qual
    if state.densePrefix && supported conditions qual then {state with
      qualno := state.qualno + 1
      localQuals := state.localQuals ++ [qual]
      batchQuals := state.batchQuals ++ [qual]
      batchRecheckFlags := state.batchRecheckFlags ++ [recheck]
      exactQuals := if recheck then state.exactQuals else state.exactQuals ++ [qual]}
    else {state with
      qualno := state.qualno + 1
      localQuals := state.localQuals ++ [qual]
      densePrefix := false
      residual := state.residual ++ [qual]
      exactQuals := state.exactQuals ++ [qual]}

def splitQuals (quals : List κ) : Splitting κ :=
  quals.foldl (splitQual conditions mode bitmapqualorig support) .start

end Split

/-- `SourceLayout`: the attributes of the compact batch, and columns of it. -/
structure Layout where
  sourceAttnums : List Nat
  nfilterColumns : Nat
  exactFilterColumns : List Nat
  projectColumns : List Nat
deriving DecidableEq, Repr

/-- `collect_relation_attrs` on the Vars of an expression. -/
def collectRelationAttrs (relid natts : Nat) (vars : List Var) : Option (Finset Nat) :=
  if vars.all fun var => decide (var.varno = relid) && var.varlevelsup == 0 && decide (0 < var.varattno) &&
      decide (var.varattno ≤ natts) && var.returningDefault
  then some (vars.map fun var => var.varattno.toNat).toFinset
  else none

def unsupportedVariable : String := "pg_batch found an unsupported variable"

/-- `positions[attnum] - 1`: the column of an attribute. -/
def columnOf (sourceAttnums : List Nat) (attnum : Nat) : Nat :=
  sourceAttnums.idxOf attnum

/-- The layout of given attributes: those of filters first, then those of the target
list, then the source's own. -/
def layoutOf (natts : Nat) (filterAttrs sourceAttrs exactFilterAttrs survivorAttrs : Finset Nat) : Layout :=
  let attnums := List.range' 1 natts
  let filters := attnums.filter (· ∈ filterAttrs)
  let survivors := attnums.filter fun attnum => attnum ∈ survivorAttrs ∧ attnum ∉ filterAttrs
  let sources := attnums.filter fun attnum => attnum ∈ sourceAttrs ∧ attnum ∉ filters ++ survivors
  let sourceAttnums := filters ++ survivors ++ sources
  { sourceAttnums := sourceAttnums
    nfilterColumns := filters.length
    exactFilterColumns := (attnums.filter (· ∈ exactFilterAttrs)).map (columnOf sourceAttnums)
    projectColumns := (attnums.filter (· ∈ survivorAttrs)).map (columnOf sourceAttnums) }

def buildSourceLayout (relid natts : Nat) (localVars sourceVars exactVars targetVars : List Var) : Except String Layout :=
  match collectRelationAttrs relid natts localVars,collectRelationAttrs relid natts sourceVars,
    collectRelationAttrs relid natts exactVars,collectRelationAttrs relid natts targetVars with
  | some filterAttrs,some sourceAttrs,some exactFilterAttrs,some survivorAttrs =>
    .ok (layoutOf natts filterAttrs sourceAttrs exactFilterAttrs survivorAttrs)
  | _,_,_,_ => .error unsupportedVariable

/-- What `plan_base` hands to the two nodes. -/
structure ScanPlan (κ : Type) where
  mode : HeapScanMode
  batchQuals : List κ
  batchRecheckFlags : List Bool
  residual : List κ
  layout : Layout

def invalidQualification : String := "pg_batch source returned an invalid qualification plan"

/-- The input of `plan_base`: `support` is the answer of a source, if there is one. -/
structure PlanRequest (κ : Type) where
  mode : HeapScanMode
  quals : List κ
  bitmapqualorig : List κ
  support : Option (List QualSupport)
  sourceVars : List Var
  targetVars : List Var

def planBase {κ : Type} [DecidableEq κ] (conditions : Conditions κ) (request : PlanRequest κ) :
    Except String (ScanPlan κ) :=
  if request.support.any fun supports => decide (supports.length ≠ request.quals.length) then .error invalidQualification
  else do
    let split := splitQuals conditions request.mode request.bitmapqualorig request.support request.quals
    let layout ← buildSourceLayout conditions.relid conditions.natts (split.localQuals.flatMap conditions.vars)
      request.sourceVars (split.exactQuals.flatMap conditions.vars) request.targetVars
    .ok ⟨request.mode,split.batchQuals,split.batchRecheckFlags,split.residual,layout⟩

/-! What the split guarantees. -/

section Spec
variable {κ : Type} [DecidableEq κ] {conditions : Conditions κ} {mode : HeapScanMode} {bitmapqualorig : List κ}
  {support : Option (List QualSupport)}

/-- The conditions left to the executor, in plan order. -/
def localQuals (support : Option (List QualSupport)) (quals : List κ) : List κ :=
  (quals.zipIdx.filter fun item => !appliedBySource support item.2).map Prod.fst

omit [DecidableEq κ] in
theorem localQuals_snoc (quals : List κ) (qual : κ) :
    localQuals support (quals ++ [qual]) =
      localQuals support quals ++ if appliedBySource support quals.length then [] else [qual] := by
  simp only [localQuals,List.zipIdx_append,List.filter_append,List.map_append,List.zipIdx_singleton,Nat.zero_add,
    List.append_cancel_left_eq]
  cases applied : appliedBySource support quals.length <;> simp [applied]

/-- The split of the conditions that the loop has passed. -/
structure Split (conditions : Conditions κ) (mode : HeapScanMode) (bitmapqualorig : List κ)
    (support : Option (List QualSupport)) (quals : List κ) (state : Splitting κ) : Prop where
  count : state.qualno = quals.length
  left : state.localQuals = localQuals support quals
  parts : state.batchQuals ++ state.residual = state.localQuals
  dense : state.densePrefix = true ↔ state.residual = []
  kernels : ∀ qual ∈ state.batchQuals, supported conditions qual = true
  first : ∀ qual ∈ state.residual.head?, supported conditions qual = false
  flags : state.batchRecheckFlags = state.batchQuals.map (recheckOnly mode bitmapqualorig)
  exact_ : state.exactQuals = state.batchQuals.filter (fun qual => !recheckOnly mode bitmapqualorig qual) ++ state.residual

theorem splitQual_split {quals : List κ} {state : Splitting κ}
    (split : Split conditions mode bitmapqualorig support quals state) (qual : κ) :
    Split conditions mode bitmapqualorig support (quals ++ [qual])
      (splitQual conditions mode bitmapqualorig support state qual) := by
  have snoc : localQuals support (quals ++ [qual]) = _ := localQuals_snoc quals qual
  unfold splitQual
  cases applied : appliedBySource support state.qualno with
  | true =>
    rw [split.count] at applied
    simp only [applied,if_true,List.append_nil] at snoc
    simp only [if_true]
    exact ⟨by simp [split.count],by rw [snoc,split.left],split.parts,split.dense,split.kernels,split.first,split.flags,
      split.exact_⟩
  | false =>
    rw [split.count] at applied
    simp only [applied,Bool.false_eq_true,if_false] at snoc
    simp only [Bool.false_eq_true,if_false]
    cases dense : state.densePrefix && supported conditions qual with
    | true =>
      obtain ⟨prefix_,kernel⟩ := Bool.and_eq_true_iff.mp dense
      have empty := split.dense.mp prefix_
      simp only [if_true]
      refine ⟨by simp [split.count],by rw [snoc,split.left],?_,split.dense,?_,split.first,?_,?_⟩
      · rw [← split.parts,empty]
        simp
      · intro other member
        rcases List.mem_append.mp member with earlier | last
        · exact split.kernels other earlier
        · rw [List.mem_singleton.mp last]
          exact kernel
      · simp [split.flags]
      · rw [split.exact_,empty]
        cases recheck : recheckOnly mode bitmapqualorig qual <;> simp [recheck]
    | false =>
      simp only [Bool.false_eq_true,if_false]
      refine ⟨by simp [split.count],by rw [snoc,split.left],?_,by simp,split.kernels,?_,split.flags,?_⟩
      · rw [← split.parts,List.append_assoc]
      · intro other head
        cases residual : state.residual with
        | nil =>
          simp only [residual,List.nil_append,List.head?_cons,Option.mem_some_iff] at head
          rw [split.dense.mpr residual,Bool.true_and] at dense
          rw [← head]
          exact dense
        | cons one rest =>
          have first := split.first
          simp only [residual,List.cons_append,List.head?_cons] at head first
          exact first other head
      · rw [split.exact_,List.append_assoc]

theorem splitQuals_split (quals : List κ) :
    Split conditions mode bitmapqualorig support quals (splitQuals conditions mode bitmapqualorig support quals) := by
  induction quals using List.reverseRecOn with
  | nil => exact ⟨rfl,rfl,rfl,by simp [splitQuals,Splitting.start],nofun,nofun,rfl,rfl⟩
  | append_singleton done qual ih =>
    unfold splitQuals at ih ⊢
    rw [List.foldl_append]
    exact splitQual_split ih qual

/-! What the layout guarantees. -/

/-- Distinct columns hold distinct attributes; those of filters and targets are among them. -/
structure LaidOut (filterAttrs exactFilterAttrs survivorAttrs : Finset Nat) (layout : Layout) : Prop where
  nodup : layout.sourceAttnums.Nodup
  positive : ∀ attnum ∈ layout.sourceAttnums, 0 < attnum
  filters : ∀ attnum ∈ filterAttrs, attnum ∈ layout.sourceAttnums
  survivors : ∀ attnum ∈ survivorAttrs, attnum ∈ layout.sourceAttnums
  exact_ : ∀ attnum ∈ exactFilterAttrs, columnOf layout.sourceAttnums attnum ∈ layout.exactFilterColumns

theorem layoutOf_laidOut {natts : Nat} {filterAttrs sourceAttrs exactFilterAttrs survivorAttrs : Finset Nat}
    (filtered : ∀ attnum ∈ filterAttrs, 1 ≤ attnum ∧ attnum ≤ natts)
    (survived : ∀ attnum ∈ survivorAttrs, 1 ≤ attnum ∧ attnum ≤ natts) (less : exactFilterAttrs ⊆ filterAttrs) :
    LaidOut filterAttrs exactFilterAttrs survivorAttrs
      (layoutOf natts filterAttrs sourceAttrs exactFilterAttrs survivorAttrs) := by
  have physical {attnum : Nat} (bounds : 1 ≤ attnum ∧ attnum ≤ natts) : attnum ∈ List.range' 1 natts :=
    List.mem_range'_1.mpr ⟨bounds.1,by omega⟩
  have distinct : (List.range' 1 natts).Nodup := List.nodup_range'
  refine ⟨?_,?_,?_,?_,?_⟩
  · simp only [layoutOf]
    refine List.Nodup.append (List.Nodup.append (distinct.filter _) (distinct.filter _) ?_) (distinct.filter _) ?_
    · intro attnum first second
      simp only [List.mem_filter,decide_eq_true_eq] at first second
      exact second.2.2 first.2
    · intro attnum first second
      have apart := (List.mem_filter.mp second).2
      simp only [decide_eq_true_eq] at apart
      exact apart.2 first
  · intro attnum member
    simp only [layoutOf,List.mem_append,List.mem_filter] at member
    have physical : attnum ∈ List.range' 1 natts := by
      rcases member with (one | two) | three
      · exact one.1
      · exact two.1
      · exact three.1
    exact (List.mem_range'_1.mp physical).1
  · intro attnum member
    simp only [layoutOf,List.mem_append,List.mem_filter,decide_eq_true_eq]
    exact .inl (.inl ⟨physical (filtered attnum member),member⟩)
  · intro attnum member
    simp only [layoutOf,List.mem_append,List.mem_filter,decide_eq_true_eq]
    have physical := physical (survived attnum member)
    by_cases filters : attnum ∈ filterAttrs
    · exact .inl (.inl ⟨physical,filters⟩)
    · exact .inl (.inr ⟨physical,member,filters⟩)
  · intro attnum member
    simp only [layoutOf]
    exact List.mem_map_of_mem (List.mem_filter.mpr ⟨physical (filtered attnum (less member)),decide_eq_true member⟩)

theorem collectRelationAttrs_some {relid natts : Nat} {vars : List Var} {attrs : Finset Nat}
    (collected : collectRelationAttrs relid natts vars = some attrs) :
    attrs = (vars.map fun var => var.varattno.toNat).toFinset ∧ ∀ attnum ∈ attrs, 1 ≤ attnum ∧ attnum ≤ natts := by
  unfold collectRelationAttrs at collected
  split at collected
  · rename_i valid
    cases collected
    refine ⟨rfl,fun attnum member => ?_⟩
    simp only [List.mem_toFinset,List.mem_map] at member
    obtain ⟨var,member,rfl⟩ := member
    have fine := List.all_eq_true.mp valid var member
    simp only [Bool.and_eq_true,decide_eq_true_eq] at fine
    omega
  · cases collected

/-- What `plan_base` has done with the conditions. -/
structure Planned (conditions : Conditions κ) (request : PlanRequest κ) (plan : ScanPlan κ) : Prop where
  mode : plan.mode = request.mode
  parts : plan.batchQuals ++ plan.residual = localQuals request.support request.quals
  kernels : ∀ qual ∈ plan.batchQuals, supported conditions qual = true
  first : ∀ qual ∈ plan.residual.head?, supported conditions qual = false
  flags : plan.batchRecheckFlags = plan.batchQuals.map (recheckOnly request.mode request.bitmapqualorig)
  nodup : plan.layout.sourceAttnums.Nodup
  positive : ∀ attnum ∈ plan.layout.sourceAttnums, 0 < attnum
  columns : ∀ qual ∈ plan.batchQuals ++ plan.residual, ∀ var ∈ conditions.vars qual,
    var.varattno.toNat ∈ plan.layout.sourceAttnums
  targets : ∀ var ∈ request.targetVars, var.varattno.toNat ∈ plan.layout.sourceAttnums
  exact_ : ∀ qual ∈ plan.batchQuals, recheckOnly request.mode request.bitmapqualorig qual = false →
    ∀ var ∈ conditions.vars qual, columnOf plan.layout.sourceAttnums var.varattno.toNat ∈ plan.layout.exactFilterColumns

theorem planBase_planned {request : PlanRequest κ} {plan : ScanPlan κ} (ran : planBase conditions request = .ok plan) :
    Planned conditions request plan := by
  unfold planBase at ran
  split at ran
  · cases ran
  · obtain ⟨layout,built,done⟩ := bind_ok.mp ran
    cases done
    have split : Split conditions request.mode request.bitmapqualorig request.support request.quals _ :=
      splitQuals_split request.quals
    revert built split
    generalize splitQuals conditions request.mode request.bitmapqualorig request.support request.quals = state
    intro built split
    unfold buildSourceLayout at built
    split at built
    · rename_i filterAttrs sourceAttrs exactFilterAttrs survivorAttrs filters sources exacts survivors
      cases built
      obtain ⟨filters,filtered⟩ := collectRelationAttrs_some filters
      obtain ⟨exacts,_⟩ := collectRelationAttrs_some exacts
      obtain ⟨survivors,survived⟩ := collectRelationAttrs_some survivors
      have less : ∀ qual ∈ state.exactQuals, qual ∈ state.localQuals := by
        intro qual member
        rw [split.exact_] at member
        rw [← split.parts]
        rcases List.mem_append.mp member with kernel | residual
        · exact List.mem_append_left _ (List.mem_of_mem_filter kernel)
        · exact List.mem_append_right _ residual
      have fewer : exactFilterAttrs ⊆ filterAttrs := by
        intro attnum member
        simp only [exacts,filters,List.mem_toFinset,List.mem_map,List.mem_flatMap] at member ⊢
        obtain ⟨var,⟨qual,member,read⟩,same⟩ := member
        exact ⟨var,⟨qual,less qual member,read⟩,same⟩
      have laid : LaidOut filterAttrs exactFilterAttrs survivorAttrs
          (layoutOf conditions.natts filterAttrs sourceAttrs exactFilterAttrs survivorAttrs) :=
        layoutOf_laidOut filtered survived fewer
      refine ⟨rfl,split.parts.trans split.left,split.kernels,split.first,split.flags,laid.nodup,laid.positive,?_,?_,?_⟩
      · intro qual member var read
        apply laid.filters
        simp only [filters,List.mem_toFinset,List.mem_map,List.mem_flatMap]
        exact ⟨var,⟨qual,split.parts ▸ member,read⟩,rfl⟩
      · intro var read
        apply laid.survivors
        rw [survivors,List.mem_toFinset]
        exact List.mem_map_of_mem read
      · intro qual member proved var read
        apply laid.exact_
        simp only [exacts,List.mem_toFinset,List.mem_map,List.mem_flatMap]
        refine ⟨var,⟨qual,?_,read⟩,rfl⟩
        rw [split.exact_]
        exact List.mem_append_left _ (List.mem_filter.mpr ⟨member,by simp [proved]⟩)
    · cases built

end Spec

end PgBatch.Scan
