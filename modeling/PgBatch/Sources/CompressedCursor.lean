import PgBatch.Sources.CompressedScan

/-! What the scan of a compressed relation publishes: the rows of the groups that were not
skipped, in storage order, cut into windows. -/
namespace PgBatch.Compressed
open Sources Scan Expr Words Results

/-- The attributes of a row that was stored. -/
def InputBatch.row (ncolumns : Nat) (input : InputBatch) (row : Nat) : Attrs :=
  fun attnum => if 0 < attnum ∧ attnum ≤ ncolumns then (input.cell (attnum - 1) row).map int32GetDatum else none

def InputBatch.rows (ncolumns : Nat) (input : InputBatch) : List Attrs :=
  (List.range input.nrows).map (input.row ncolumns)

/-- The windows of a stored batch from a row on, each as its first row and its size. -/
def windowsFrom (maxRows nrows start : Nat) : List (Nat × Nat) :=
  if start < nrows then
    (start,min (batchSize maxRows) (nrows - start)) ::
      windowsFrom maxRows nrows (start + min (batchSize maxRows) (nrows - start))
  else []
termination_by nrows - start
decreasing_by
  have := batchSize_pos maxRows
  omega

/-- A window that is still to be taken. -/
structure Cut where
  input : InputBatch
  start : Nat
  nrows : Nat

def cutsFrom (maxRows : Nat) (input : InputBatch) (start : Nat) : List Cut :=
  (windowsFrom maxRows input.nrows start).map fun window => ⟨input,window.1,window.2⟩

def Cut.rows (ncolumns : Nat) (cut : Cut) : List Attrs :=
  (List.range' cut.start cut.nrows).map (cut.input.row ncolumns)

/-- The windows hold the rows of the batch once each, and none is empty. -/
theorem windowsFrom_rows (maxRows nrows start : Nat) :
    (windowsFrom maxRows nrows start).flatMap (fun window => List.range' window.1 window.2) =
      List.range' start (nrows - start) := by
  fun_induction windowsFrom maxRows nrows start with
  | case1 start inside ih =>
    have less : min (batchSize maxRows) (nrows - start) ≤ nrows - start := Nat.min_le_right ..
    rw [List.flatMap_cons,ih]
    have rest : nrows - (start + min (batchSize maxRows) (nrows - start)) =
        nrows - start - min (batchSize maxRows) (nrows - start) := by omega
    rw [rest,List.range'_append_1]
    congr 1
    omega
  | case2 start outside =>
    rw [Nat.sub_eq_zero_of_le (Nat.not_lt.mp outside)]
    rfl

theorem windowsFrom_length (maxRows nrows start : Nat) : (windowsFrom maxRows nrows start).length ≤ nrows - start := by
  fun_induction windowsFrom maxRows nrows start with
  | case1 start inside ih =>
    have := batchSize_pos maxRows
    rw [List.length_cons]
    omega
  | case2 start outside => exact Nat.zero_le _

theorem cutsFrom_rows (ncolumns maxRows : Nat) (input : InputBatch) :
    (cutsFrom maxRows input 0).flatMap (Cut.rows ncolumns) = input.rows ncolumns := by
  have whole := windowsFrom_rows maxRows input.nrows 0
  rw [Nat.sub_zero,← List.range_eq_range'] at whole
  rw [InputBatch.rows,← whole,cutsFrom,List.flatMap_map,List.map_flatMap]
  rfl

/-! One window. -/

section Window
variable {ncolumns : Nat} (few : ncolumns ≤ 1600) {sourceAttnums : List Nat}
  (attnums : ∀ attnum ∈ sourceAttnums, 0 < attnum ∧ attnum ≤ ncolumns) (input : InputBatch)

def InputBatch.stored (ncolumns : Nat) (input : InputBatch) : CompressedBatch :=
  buildCompressedBatch input.values input.nonnullRows input.nrows ncolumns

def loadedWindow (ncolumns : Nat) (sourceAttnums : List Nat) (input : InputBatch) (start nrows : Nat) : Window :=
  openWindow sourceAttnums (decodeColumn ncolumns (input.stored ncolumns) start nrows) nrows

include few

theorem stored_nrows : (input.stored ncolumns).nrows = input.nrows := by
  obtain ⟨rows,_⟩ := @buildCompressedBatch_encoded input.values input.nonnullRows input.nrows ncolumns input.positive
    input.small few
  exact rows

theorem loaded_row {start nrows : Nat} (within : start + nrows ≤ input.nrows) {row : Nat} (below : row < nrows) :
    (loadedWindow ncolumns sourceAttnums input start nrows).row row = input.row ncolumns (start + row) := by
  obtain ⟨rows,_,columns⟩ := @buildCompressedBatch_encoded input.values input.nonnullRows input.nrows ncolumns
    input.positive input.small few
  funext attnum
  unfold Window.row loadedWindow openWindow decodeColumn InputBatch.row
  dsimp only
  by_cases known : 0 < attnum ∧ attnum ≤ ncolumns
  · rw [if_pos known,if_pos known]
    dsimp only
    have cell := arrowColumn_cell rows (columns (attnum - 1) (by omega)) within below
    rw [Nat.sub_add_cancel known.1] at cell
    exact congrArg (Option.map int32GetDatum) cell
  · rw [if_neg known,if_neg known]

theorem loaded_rows {start nrows : Nat} (within : start + nrows ≤ input.nrows) :
    (loadedWindow ncolumns sourceAttnums input start nrows).rows = Cut.rows ncolumns ⟨input,start,nrows⟩ := by
  have small := input.small
  rw [loadedWindow,openWindow_rows _ _ (by omega),Cut.rows,List.range'_eq_map_range,List.map_map]
  refine List.map_congr_left fun row member => ?_
  exact loaded_row few input within (List.mem_range.mp member)

include attnums

omit few in
theorem loaded_shows {start nrows : Nat} (positive : 0 < nrows) (within : start + nrows ≤ input.nrows) :
    Shows sourceAttnums (loadedWindow ncolumns sourceAttnums input start nrows) := by
  have small := input.small
  refine openWindow_shows (fun attnum member => ?_) positive (by omega)
  exact ⟨arrowColumn (input.stored ncolumns) attnum start nrows,if_pos (attnums attnum member),
    arrowColumn_counted _ _ _ _,rfl⟩

omit attnums few in
/-- Every row finds its validity bit: the offset of a window is below 64. -/
theorem loaded_finds {κ : Type} (conditions : Conditions κ) {start nrows : Nat} (within : start + nrows ≤ input.nrows)
    {row : Nat} (below : row < nrows) (filters : List κ) :
    Finds conditions (loadedWindow ncolumns sourceAttnums input start nrows) row filters := by
  intro before qual after _ _ var _ array decoded
  unfold loadedWindow openWindow decodeColumn at decoded
  dsimp only at decoded
  split at decoded
  · cases decoded
    have small := input.small
    exact Int4Vector.addressed_iff.mp (@int4Vector_addressed (arrowColumn (input.stored ncolumns) var.varattno.toNat start nrows)
      (show start + nrows ≤ 2 ^ 31 by omega)) row below
  · cases decoded

end Window

/-! The conditions during a scan. -/

/-- What a filter does not change of a condition. -/
def SourceQual.part (qual : SourceQual) : SourceQual :=
  {qual with expr := none}

theorem groupMayMatch_part (group : StorageGroup) (quals : List SourceQual) :
    groupMayMatch group (quals.map SourceQual.part) = groupMayMatch group quals := by
  induction quals with
  | nil => rfl
  | cons qual quals ih =>
    rw [List.map_cons,groupMayMatch,groupMayMatch,ih]
    rfl

/-- Conditions that the evaluation of their scalars turns into given ones, but for the buffers
of their expressions. -/
def Evaluates (params : Params) (prepared quals : List SourceQual) : Prop :=
  List.Forall₂ (fun known qual => ∃ after, prepareQual params qual = .ok after ∧ after.part = known.part) prepared quals

theorem prepareQual_again {params : Params} {qual after : SourceQual} (ran : prepareQual params qual = .ok after) :
    prepareQual params after = .ok after ∧ after.expr = qual.expr := by
  obtain ⟨expr,prunable,attnum,op,scalarExpr,scalar⟩ := qual
  cases scalarExpr with
  | none =>
    cases ran
    exact ⟨rfl,rfl⟩
  | some node =>
    obtain ⟨value,evaluated,done⟩ := bind_ok.mp ran
    cases done
    exact ⟨bind_ok.mpr ⟨value,evaluated,rfl⟩,rfl⟩

theorem prepareQual_expr {params : Params} {qual after : SourceQual} (other : Option BatchQual)
    (ran : prepareQual params qual = .ok after) :
    prepareQual params {qual with expr := other} = .ok {after with expr := other} := by
  obtain ⟨expr,prunable,attnum,op,scalarExpr,scalar⟩ := qual
  cases scalarExpr with
  | none =>
    cases ran
    rfl
  | some node =>
    obtain ⟨value,evaluated,done⟩ := bind_ok.mp ran
    cases done
    exact bind_ok.mpr ⟨value,evaluated,rfl⟩

/-- The evaluation, whenever it is run. -/
theorem Evaluates.prepare {params : Params} {prepared quals : List SourceQual} (evaluates : Evaluates params prepared quals) :
    ∃ after, quals.mapM (prepareQual params) = .ok after ∧ after.map SourceQual.part = prepared.map SourceQual.part ∧
      Evaluates params prepared after ∧ after.filterMap SourceQual.expr = quals.filterMap SourceQual.expr := by
  induction evaluates with
  | nil => exact ⟨[],rfl,rfl,.nil,rfl⟩
  | @cons known qual prepared quals head tail ih =>
    obtain ⟨one,ran,same⟩ := head
    obtain ⟨after,rest,parts,evaluates,exprs⟩ := ih
    obtain ⟨again,expr⟩ := prepareQual_again ran
    refine ⟨one :: after,?_,?_,.cons ⟨one,again,same⟩ evaluates,?_⟩
    · rw [List.mapM_cons]
      exact bind_ok.mpr ⟨one,ran,bind_ok.mpr ⟨after,rest,rfl⟩⟩
    · rw [List.map_cons,List.map_cons,same,parts]
    · rw [List.filterMap_cons,List.filterMap_cons,expr,exprs]

theorem evaluates_of_mapM {params : Params} {quals prepared : List SourceQual}
    (ran : quals.mapM (prepareQual params) = .ok prepared) : Evaluates params prepared quals := by
  induction quals generalizing prepared with
  | nil =>
    cases ran
    exact .nil
  | cons qual quals ih =>
    rw [List.mapM_cons] at ran
    obtain ⟨one,first,others⟩ := bind_ok.mp ran
    obtain ⟨rest,more,done⟩ := bind_ok.mp others
    cases done
    exact .cons ⟨one,first,rfl⟩ (ih more)

/-- A filter keeps the conditions up to the buffers of their expressions. -/
theorem filterBatch_parts {source : Source} {quals afters : List SourceQual} {window filtered : Window}
    (ran : filterBatch source quals window = .ok (afters,filtered)) :
    List.Forall₂ (fun after qual => ∃ expr, after = {qual with expr := expr}) afters quals := by
  have own (qual : SourceQual) : ∃ expr, qual = {qual with expr := expr} := ⟨qual.expr,rfl⟩
  unfold filterBatch at ran
  induction quals generalizing afters window with
  | nil =>
    cases ran
    exact .nil
  | cons qual quals ih =>
    unfold filterWindow at ran
    split at ran
    · cases ran
      exact List.forall₂_same.mpr fun other _ => own other
    split at ran
    · obtain ⟨⟨others,last⟩,rest,done⟩ := bind_ok.mp ran
      cases done
      exact .cons (own qual) (ih rest)
    · obtain ⟨⟨state,middle⟩,_,rest⟩ := bind_ok.mp ran
      obtain ⟨⟨others,last⟩,rest,done⟩ := bind_ok.mp rest
      cases done
      exact .cons ⟨some state,rfl⟩ (ih rest)

theorem Evaluates.filtered {params : Params} {prepared quals afters : List SourceQual}
    (evaluates : Evaluates params prepared quals)
    (parts : List.Forall₂ (fun after qual => ∃ expr, after = {qual with expr := expr}) afters quals) :
    Evaluates params prepared afters ∧ afters.map SourceQual.part = quals.map SourceQual.part := by
  induction evaluates generalizing afters with
  | nil =>
    cases parts
    exact ⟨.nil,rfl⟩
  | cons head tail ih =>
    cases parts with
    | cons changed rest =>
    obtain ⟨expr,rfl⟩ := changed
    obtain ⟨one,ran,same⟩ := head
    obtain ⟨evaluates,more⟩ := ih rest
    refine ⟨.cons ⟨_,prepareQual_expr expr ran,same⟩ evaluates,?_⟩
    rw [List.map_cons,List.map_cons,more]
    rfl

end PgBatch.Compressed
