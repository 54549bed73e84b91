import PgBatch.Sources.CompressedGroups

/-! Group pruning: `group_may_match` skips a group only when the statistics of a column
rule out its condition, so no row of the group is lost. -/
namespace PgBatch.Compressed
open PgBatch.Expr Words

/-- `SourceQual`; a condition may prune groups, filter rows, or both. -/
structure SourceQual where
  expr : Option Scan.BatchQual
  prunable : Bool
  attnum : Nat
  op : Int4Op
  scalarExpr : Option Node
  scalar : Option Int4

inductive GroupMatch where
  | match_ | skipMinmax | skipMembership
deriving DecidableEq, Repr

def groupContains (column : GroupColumn) (value : Int4) : Bool :=
  column.distinct.any fun known => known == value

/-- The `switch` of `group_may_match`. -/
def boundsMatch (column : GroupColumn) (scalar : Int4) : Int4Op → Bool
  | .eq => column.minimum.sle scalar && scalar.sle column.maximum
  | .ne => column.minimum != scalar || column.maximum != scalar
  | .lt => column.minimum.slt scalar
  | .le => column.minimum.sle scalar
  | .gt => scalar.slt column.maximum
  | .ge => scalar.sle column.maximum

def groupMayMatch (group : StorageGroup) : List SourceQual → GroupMatch
  | [] => .match_
  | qual :: quals =>
    if !qual.prunable then groupMayMatch group quals
    else match qual.scalar with
    | none => .skipMinmax
    | some scalar =>
      if !(group.columns (qual.attnum - 1)).hasNonnull then .skipMinmax
      else if !boundsMatch (group.columns (qual.attnum - 1)) scalar qual.op then .skipMinmax
      else if qual.op = .eq && !(group.columns (qual.attnum - 1)).distinctOverflow &&
          !groupContains (group.columns (qual.attnum - 1)) scalar then .skipMembership
      else groupMayMatch group quals

/-- The condition is true of a row. -/
def SourceQual.Satisfied (qual : SourceQual) (row : Nat → Option Int4) : Prop :=
  compareCells qual.op (row (qual.attnum - 1)) qual.scalar = some true

theorem SourceQual.Satisfied.value {qual : SourceQual} {row : Nat → Option Int4} (satisfied : qual.Satisfied row) :
    ∃ value scalar, row (qual.attnum - 1) = some value ∧ qual.scalar = some scalar ∧
      int4Compare value scalar qual.op = true := by
  unfold SourceQual.Satisfied at satisfied
  cases cell : row (qual.attnum - 1) with
  | none =>
    rw [cell] at satisfied
    cases satisfied
  | some value =>
    cases scalar : qual.scalar with
    | none =>
      rw [cell,scalar] at satisfied
      cases satisfied
    | some scalar_ =>
      rw [cell,scalar] at satisfied
      exact ⟨value,scalar_,rfl,rfl,Option.some.inj satisfied⟩

/-! A value that satisfies a condition keeps its group. -/

theorem boundsMatch_of_value {column : GroupColumn} {values : List Int4} (describes : Describes column values)
    {value scalar : Int4} (member : value ∈ values) {op : Int4Op} (holds : int4Compare value scalar op = true) :
    boundsMatch column scalar op = true := by
  have least := describes.least value member
  have greatest := describes.greatest value member
  cases op with
  | eq =>
    have same : value = scalar := by simpa [int4Compare] using holds
    simp only [boundsMatch,BitVec.sle,Bool.and_eq_true,decide_eq_true_eq]
    exact ⟨same ▸ least,same ▸ greatest⟩
  | ne =>
    -- Equal bounds leave one value.
    by_contra equal
    simp only [boundsMatch,Bool.or_eq_true,bne_iff_ne,ne_eq,not_or,not_not] at equal
    rw [equal.1] at least
    rw [equal.2] at greatest
    have same : value = scalar := BitVec.toInt_inj.mp (by omega)
    simp [int4Compare,same] at holds
  | lt =>
    simp only [int4Compare,boundsMatch,BitVec.slt,decide_eq_true_eq] at holds ⊢
    exact Int.lt_of_le_of_lt least holds
  | le =>
    simp only [int4Compare,boundsMatch,BitVec.sle,decide_eq_true_eq] at holds ⊢
    exact Int.le_trans least holds
  | gt =>
    simp only [int4Compare,boundsMatch,BitVec.slt,decide_eq_true_eq] at holds ⊢
    exact Int.lt_of_lt_of_le holds greatest
  | ge =>
    simp only [int4Compare,boundsMatch,BitVec.sle,decide_eq_true_eq] at holds ⊢
    exact Int.le_trans holds greatest

theorem groupContains_of_value {column : GroupColumn} {values : List Int4} (describes : Describes column values)
    {value : Int4} (member : value ∈ values) (clear : column.distinctOverflow = false) :
    groupContains column value = true :=
  List.any_eq_true.mpr ⟨value,describes.exact_ clear value member,beq_self_eq_true value⟩

theorem mem_seen {part : List InputBatch} {input : InputBatch} (among : input ∈ part) {column row : Nat}
    (inside : row < input.nrows) {value : Int4} (found : input.cell column row = some value) : value ∈ seen part column :=
  List.mem_flatMap.mpr ⟨input,among,List.mem_filterMap.mpr ⟨row,List.mem_range.mpr inside,found⟩⟩

/-- A group with a row on which every prunable condition is true is not skipped. -/
theorem groupMayMatch_row {ncolumns first : Nat} {group : StorageGroup} {part : List InputBatch}
    (holds : Holds ncolumns first group part) {input : InputBatch} (among : input ∈ part) {row : Nat}
    (inside : row < input.nrows) {quals : List SourceQual}
    (columns : ∀ qual ∈ quals, qual.prunable = true → 0 < qual.attnum ∧ qual.attnum ≤ ncolumns)
    (satisfied : ∀ qual ∈ quals, qual.prunable = true → qual.Satisfied fun column => input.cell column row) :
    groupMayMatch group quals = .match_ := by
  induction quals with
  | nil => rfl
  | cons qual quals ih =>
    have rest := ih (fun other member => columns other (List.mem_cons_of_mem _ member))
      fun other member => satisfied other (List.mem_cons_of_mem _ member)
    unfold groupMayMatch
    split
    · exact rest
    rename_i prunable
    have prunable : qual.prunable = true := by simpa using prunable
    obtain ⟨positive,small⟩ := columns qual (List.mem_cons_self ..) prunable
    obtain ⟨value,scalar,found,bound,true_⟩ := (satisfied qual (List.mem_cons_self ..) prunable).value
    have describes := holds.describes (qual.attnum - 1) (by omega)
    have member := mem_seen among inside found
    have nonnull := describes.some_.mpr (List.ne_nil_of_mem member)
    have bounds := boundsMatch_of_value describes member true_
    simp only [bound,nonnull,bounds,Bool.not_true,Bool.false_eq_true,if_false]
    split
    · rename_i absent
      simp only [Bool.and_eq_true,decide_eq_true_eq,Bool.not_eq_true'] at absent
      have same : value = scalar := by simpa [int4Compare,absent.1.1] using true_
      rw [← same,groupContains_of_value describes member absent.1.2] at absent
      cases absent.2
    · exact rest

/-- The batches that a group covers. -/
theorem Divided.part {ncolumns first : Nat} {groups : List StorageGroup} {parts : List (List InputBatch)}
    (divided : Divided ncolumns first groups parts) {group : StorageGroup} (member : group ∈ groups) :
    ∃ part, first ≤ group.firstBatch ∧ Holds ncolumns group.firstBatch group part ∧
      (parts.flatten.drop (group.firstBatch - first)).take group.nbatches = part := by
  induction divided with
  | nil => cases member
  | cons first head groups part parts holds _ ih =>
    rcases List.mem_cons.mp member with rfl | later
    · refine ⟨part,Nat.le_of_eq holds.first.symm,holds.first.symm ▸ holds,?_⟩
      rw [holds.first,Nat.sub_self,List.drop_zero,holds.count,List.flatten_cons,List.take_left]
    · obtain ⟨other,after,own,covered⟩ := ih later
      refine ⟨other,Nat.le_trans (Nat.le_add_right _ _) after,own,?_⟩
      have past : group.firstBatch - first = part.length + (group.firstBatch - (first + part.length)) := by omega
      rw [List.flatten_cons,past,List.drop_length_add_append]
      exact covered

/-- No row of a group that is skipped satisfies all the conditions. -/
theorem skipped_group_empty (ncolumns groupBatches : Nat) (inputs : List InputBatch) (quals : List SourceQual)
    (columns : ∀ qual ∈ quals, qual.prunable = true → 0 < qual.attnum ∧ qual.attnum ≤ ncolumns) :
    ∀ group ∈ (compress ncolumns groupBatches inputs).groups, groupMayMatch group quals ≠ .match_ →
      ∀ input ∈ (inputs.drop group.firstBatch).take group.nbatches, ∀ row, row < input.nrows →
        ¬∀ qual ∈ quals, qual.prunable = true → qual.Satisfied fun column => input.cell column row := by
  intro group member skipped input among row inside satisfied
  obtain ⟨parts,whole,divided⟩ := (compress_stores ncolumns groupBatches inputs).groups
  rw [compress_ncolumns] at divided
  obtain ⟨part,_,holds,covered⟩ := divided.part member
  rw [Nat.sub_zero,whole] at covered
  exact skipped (groupMayMatch_row holds (covered ▸ among) inside columns satisfied)

theorem oneRow_small : 1 ≤ 64 := by decide

def fiveBatch : InputBatch :=
  ⟨1,Nat.one_pos,oneRow_small,fun _ _ => 5#32,fun _ => 1#64⟩

def equalsSeven : SourceQual :=
  ⟨none,true,1,.eq,none,some 7#32⟩

theorem fiveBatch_skipped : groupMayMatch (updateGroup 1 (emptyGroup 0) fiveBatch) [equalsSeven] = .skipMinmax ∧
    ¬∀ qual ∈ [equalsSeven], qual.prunable = true → qual.Satisfied fun column => fiveBatch.cell column 0 := by
  have skips : groupMayMatch (updateGroup 1 (emptyGroup 0) fiveBatch) [equalsSeven] = .skipMinmax := by decide
  refine ⟨skips,?_⟩
  exact skipped_group_empty 1 1 [fiveBatch] [equalsSeven] (by simp [equalsSeven]) _ (List.mem_singleton.mpr rfl)
    (by decide) fiveBatch (List.mem_singleton.mpr rfl) 0 Nat.one_pos

end PgBatch.Compressed
