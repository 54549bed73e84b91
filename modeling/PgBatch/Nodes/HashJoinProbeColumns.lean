import PgBatch.Nodes.HashJoinProbeBuffer
import Mathlib.Data.Finset.Basic

/-! The columns of the probe batch that a hash join has bound, and those that its
residual conditions read: `bind_input_column` and `prepare_qual_columns` in
`nodes/hash_join.c`. Raw columns are numbered by the join, and so are the columns
of its spill blocks; a batch of the outer child has columns of its own. -/
namespace PgBatch.HashJoin
open Words Columnar Bitmaps

variable {ι : Type} {config : Config}

/-! The columns of the conditions. -/

structure JoinVar where
  varno : Int
  varattno : Int
deriving DecidableEq, Repr

/-- `INDEX_VAR`. -/
def indexVar : Int := -3

/-- `expression_raw_columns`, given the Vars that `pull_var_clause` finds. -/
def expressionRawColumns (vars : List JoinVar) : Except String (Finset Nat) :=
  vars.foldlM (fun columns var =>
    if var.varno ≠ indexVar ∨ var.varattno ≤ 0 then .error "pg_batch hash join expression has an invalid variable"
    else .ok (insert (var.varattno - 1).toNat columns)) ∅

structure Conditions where
  qualRawColumns : Finset Nat
  qualProbeColumns : Finset Nat

/-- What the loops over a set of raw columns visit: they stop at the first inner one. -/
def outerMembers (config : Config) (columns : Finset Nat) : List Nat :=
  (List.range config.nouterColumns).filter (· ∈ columns)

/-- What `hash_join_begin` keeps of the conditions. -/
def beginConditions (config : Config) (qual customExprs : List JoinVar) : Except String Conditions := do
  let scalar ← expressionRawColumns qual
  let batched ← expressionRawColumns customExprs
  let raw := scalar ∪ batched
  .ok ⟨raw,(outerMembers config raw).foldl (fun columns column => insert (config.outerBatchColumns column) columns) ∅⟩

/-! The probe batch and what is bound of it. -/

/-- Where a bound vector points: into a batch of the outer child or into the arrays of a block. -/
inductive BoundVector where
  | input (column : Column)
  | resident (column : Nat)
  | spilled (column : Nat)

structure InputColumn where
  vector : BoundVector
  prepared : Bool
  availableRows : BitVec 64

/-- The columns after `MemSet`. -/
def noColumns : Nat → InputColumn :=
  fun _ => ⟨.input fun _ => none,false,0#64⟩

/-- The batch that is probed. -/
inductive ProbeSource (ι : Type) where
  | input (batch : Batch ι)
  | resident
  | spilled

/-- The probe side with its two blocks, that of the resident rows and the one that
borrows what the reader of a partition has read. -/
structure ProbeSide (config : Config) (ι : Type) where
  source : ProbeSource ι
  residentBlock : ProbeBlock ι
  probeBlock : Columnar.Store ι (BitVec 32) Int4
  columns : Nat → InputColumn
  wide : residentBlock.ncolumns = config.nouterColumns

namespace ProbeSide

/-- `probe_from_spill`, which is set together with the batch. -/
def fromSpill (side : ProbeSide config ι) : Bool :=
  match side.source with
  | .input _ => false
  | .resident | .spilled => true

/-- What a bound vector holds now. -/
def read (side : ProbeSide config ι) : BoundVector → Column
  | .input column => column
  | .resident column => fun row =>
    if bitAt (side.residentBlock.validity column) row then some (side.residentBlock.values column row) else none
  | .spilled column => fun row =>
    if side.probeBlock.valid column row then some (side.probeBlock.values column row) else none

/-- The column of the batch in which it has a raw column. -/
def batchColumn (side : ProbeSide config ι) (column : Nat) : Nat :=
  if side.fromSpill then column else config.outerBatchColumns column

/-- `get_column` of the batch; for a block it is `spill_get_int4_column`. -/
def getColumn (side : ProbeSide config ι) (column : Nat) : Except String BoundVector :=
  match side.source with
  | .input batch => .ok (.input (batch.column column))
  | .resident =>
    if side.residentBlock.ncolumns ≤ column then .error "pg_batch spill column is out of range"
    else .ok (.resident column)
  | .spilled =>
    if config.nouterColumns ≤ column then .error "pg_batch spill column is out of range"
    else .ok (.spilled column)

end ProbeSide

structure ColumnAccess where
  columns : Finset Nat
  rows : BitVec 64

/-- `pg_batch_column_get_int4`. -/
def columnGetInt4 (side : ProbeSide config ι) (access : ColumnAccess) (column : Nat) : Except String BoundVector :=
  if column ∉ access.columns then .error s!"pg_batch column {column + 1} was not requested"
  else side.getColumn column

/-- The entry of a raw column points to the vector; rows that it had before stay available. -/
def ProbeSide.bind (side : ProbeSide config ι) (column : Nat) (vector : BoundVector) (rows : BitVec 64) :
    ProbeSide config ι :=
  {side with columns :=
    Function.update side.columns column ⟨vector,true,(side.columns column).availableRows ||| rows⟩}

theorem bind_self (side : ProbeSide config ι) (column : Nat) (vector : BoundVector) (rows : BitVec 64) :
    (side.bind column vector rows).columns column = ⟨vector,true,(side.columns column).availableRows ||| rows⟩ :=
  Function.update_self ..

theorem bind_other (side : ProbeSide config ι) {column other : Nat} (vector : BoundVector) (rows : BitVec 64)
    (apart : other ≠ column) : (side.bind column vector rows).columns other = side.columns other :=
  Function.update_of_ne apart ..

/-- `bind_input_column` for the raw column `column`. -/
def bindInputColumn (access : ColumnAccess) (side : ProbeSide config ι) (column : Nat) :
    Except String (ProbeSide config ι) := do
  let vector ← columnGetInt4 side access (side.batchColumn column)
  .ok (side.bind column vector access.rows)

/-- `hash_join_load_input_column` for a column of the probe batch. -/
def loadInputColumn (rows : BitVec 64) (side : ProbeSide config ι) (column : Nat) : Except String (ProbeSide config ι) :=
  bindInputColumn ⟨{side.batchColumn column},rows⟩ side column

/-- The selection of the probe batch. -/
def ProbeSide.selection (side : ProbeSide config ι) : BitVec 64 :=
  match side.source with
  | .input batch => batch.selection
  | .resident => side.residentBlock.selection
  | .spilled => wordMask side.probeBlock.nrows

/-- `outer_key_columns` and `spill_outer_key_columns`. -/
def keyColumns (config : Config) (fromSpill : Bool) : Finset Nat :=
  if fromSpill then config.outerKeys.toFinset else (config.outerKeys.map config.outerBatchColumns).toFinset

/-- `hash_join_prepare_probe_keys`. -/
def prepareProbeKeys (side : ProbeSide config ι) : Except String (ProbeSide config ι) :=
  config.outerKeys.foldlM (bindInputColumn ⟨keyColumns config side.fromSpill,side.selection⟩) side

/-- `ensure_probe_raw_column`: a block owns all its values, so that all its rows are bound at once. -/
def ensureProbeRawColumn (side : ProbeSide config ι) (column row : Nat) : Except String (ProbeSide config ι) :=
  let entry := side.columns column
  if entry.prepared = true ∧ entry.availableRows.getLsbD (row % 64) = true then .ok side
  else loadInputColumn (if side.fromSpill then side.selection else bit 64 (row % 64)) side column

/-- The probe rows of some rows of the output. -/
def outputRows (outputProbeRows : Nat → Nat) (first last : Nat) : BitVec 64 :=
  (List.range' first (last - first)).foldl (fun rows row => rows ||| bit 64 (outputProbeRows row)) 0#64

def prepareQualColumns (conditions : Conditions) (side : ProbeSide config ι) (outputProbeRows : Nat → Nat)
    (first last : Nat) : Except String (ProbeSide config ι) :=
  if conditions.qualProbeColumns = ∅ then .ok side
  else (outerMembers config conditions.qualRawColumns).foldlM
    (bindInputColumn ⟨conditions.qualProbeColumns,outputRows outputProbeRows first last⟩) side

/-! What the batch has. -/

/-- A raw column of the batch. -/
def ProbeSide.current (side : ProbeSide config ι) (column : Nat) : Column :=
  match side.source with
  | .input batch => batch.column (config.outerBatchColumns column)
  | .resident => side.read (.resident column)
  | .spilled => side.read (.spilled column)

/-- Where a raw column of the batch is. -/
def ProbeSide.pointer (side : ProbeSide config ι) (column : Nat) : BoundVector :=
  match side.source with
  | .input batch => .input (batch.column (config.outerBatchColumns column))
  | .resident => .resident column
  | .spilled => .spilled column

@[simp] theorem read_pointer (side : ProbeSide config ι) (column : Nat) :
    side.read (side.pointer column) = side.current column := by
  unfold ProbeSide.pointer ProbeSide.current
  cases side.source <;> rfl

/-- What a column is after it has been bound to the batch for these rows. -/
def BoundTo (side : ProbeSide config ι) (rows : BitVec 64) (column : Nat) (entry : InputColumn) : Prop :=
  entry.prepared = true ∧ (∀ row, rows.getLsbD row = true → entry.availableRows.getLsbD row = true) ∧
    entry.vector = side.pointer column

/-- The outer columns of the conditions are bound to the batch. -/
structure QualsBound (conditions : Conditions) (rows : BitVec 64) (side after : ProbeSide config ι) : Prop where
  same : after.source = side.source ∧ after.residentBlock = side.residentBlock ∧ after.probeBlock = side.probeBlock
  bound : ∀ column ∈ outerMembers config conditions.qualRawColumns, (after.columns column).prepared = true ∧
    (∀ row, rows.getLsbD row = true → (after.columns column).availableRows.getLsbD row = true) ∧
    after.read (after.columns column).vector = side.current column

@[simp] theorem mem_outerMembers {columns : Finset Nat} {column : Nat} :
    column ∈ outerMembers config columns ↔ column < config.nouterColumns ∧ column ∈ columns := by
  simp [outerMembers]

theorem mem_probeColumns {columns : List Nat} {found : Finset Nat} {column : Nat} :
    column ∈ columns.foldl (fun found column => insert (config.outerBatchColumns column) found) found ↔
      column ∈ found ∨ ∃ raw ∈ columns, config.outerBatchColumns raw = column := by
  induction columns generalizing found with
  | nil => simp
  | cons first rest ih =>
    rw [List.foldl_cons,ih,Finset.mem_insert,List.exists_mem_cons_iff]
    exact ⟨by tauto,by tauto⟩

section Quals
variable {qual customExprs : List JoinVar} {conditions : Conditions} {side : ProbeSide config ι}

/-- The mask has what the batches of the outer child have for the outer columns of the conditions. -/
theorem beginConditions_mask (begun : beginConditions config qual customExprs = .ok conditions) {column : Nat} :
    column ∈ conditions.qualProbeColumns ↔
      ∃ raw ∈ outerMembers config conditions.qualRawColumns, config.outerBatchColumns raw = column := by
  obtain ⟨scalar,_,rest⟩ := Results.bind_ok.mp begun
  obtain ⟨batched,_,same⟩ := Results.bind_ok.mp rest
  cases same
  have found : column ∈ (outerMembers config (scalar ∪ batched)).foldl
      (fun columns column => insert (config.outerBatchColumns column) columns) ∅ ↔ _ := mem_probeColumns
  simpa using found

/-- A column that is asked for is the current one of the batch. -/
theorem getColumn_pointer {column : Nat} (inside : column < config.nouterColumns) :
    side.getColumn (side.batchColumn column) = .ok (side.pointer column) := by
  unfold ProbeSide.getColumn ProbeSide.batchColumn ProbeSide.fromSpill ProbeSide.pointer
  cases side.source with
  | input batch => rfl
  | resident =>
    have wide := side.wide
    exact if_neg (by simp only [if_true]; omega)
  | spilled => exact if_neg (by simp only [if_true]; omega)

/-- One column is bound, the others stay. -/
theorem bindInputColumn_ok {access : ColumnAccess} {column : Nat} (inside : column < config.nouterColumns)
    (requested : side.batchColumn column ∈ access.columns) :
    bindInputColumn access side column = .ok (side.bind column (side.pointer column) access.rows) := by
  unfold bindInputColumn columnGetInt4
  rw [if_neg (not_not_intro requested),getColumn_pointer inside]
  rfl

theorem bindInputColumn_error {access : ColumnAccess} {column : Nat} (missing : side.batchColumn column ∉ access.columns) :
    bindInputColumn access side column = .error s!"pg_batch column {side.batchColumn column + 1} was not requested" := by
  unfold bindInputColumn columnGetInt4
  rw [if_pos missing]
  rfl

/-- The loop binds its columns and leaves the others as they were. -/
theorem bindInputColumns_ok {access : ColumnAccess} {columns : List Nat}
    (inside : ∀ column ∈ columns, column < config.nouterColumns)
    (requested : ∀ column ∈ columns, side.batchColumn column ∈ access.columns) :
    ∃ bound, columns.foldlM (bindInputColumn access) side = .ok {side with columns := bound} ∧
      (∀ column ∈ columns, BoundTo side access.rows column (bound column)) ∧
      ∀ column, column ∉ columns → bound column = side.columns column := by
  induction columns generalizing side with
  | nil => exact ⟨side.columns,rfl,by simp,by simp⟩
  | cons first rest ih =>
    have one := bindInputColumn_ok (inside first (List.mem_cons_self ..)) (requested first (List.mem_cons_self ..))
    obtain ⟨bound,all,those,others⟩ := @ih (side.bind first (side.pointer first) access.rows)
      (fun column member => inside column (List.mem_cons_of_mem _ member))
      (fun column member => requested column (List.mem_cons_of_mem _ member))
    refine ⟨bound,by rw [List.foldlM_cons,one]; exact all,?_,?_⟩
    · intro column member
      by_cases later : column ∈ rest
      · exact those column later
      · have here : column = first := (List.mem_cons.mp member).resolve_right later
        subst here
        rw [others column later,bind_self]
        exact ⟨rfl,fun row asked => by simp [asked],rfl⟩
    · intro column away
      rw [List.mem_cons,not_or] at away
      rw [others column away.2,bind_other side _ _ away.1]

/-- A loop that ends has asked for columns of the mask only. -/
theorem bindInputColumns_requested {access : ColumnAccess} {columns : List Nat} {after : ProbeSide config ι}
    (ran : columns.foldlM (bindInputColumn access) side = .ok after) :
    ∀ column ∈ columns, side.batchColumn column ∈ access.columns := by
  induction columns generalizing side with
  | nil => simp
  | cons first rest ih =>
    rw [List.foldlM_cons] at ran
    obtain ⟨middle,one,more⟩ := Results.bind_ok.mp ran
    by_cases asked : side.batchColumn first ∈ access.columns
    · obtain ⟨vector,got,_⟩ := Results.bind_ok.mp one
      cases Except.ok.inj ‹_›
      intro column member
      rcases List.mem_cons.mp member with rfl | later
      · exact asked
      · exact ih more column later
    · rw [bindInputColumn_error asked] at one
      cases one

theorem prepareQualColumns_empty (begun : beginConditions config qual customExprs = .ok conditions)
    (none : conditions.qualProbeColumns = ∅) : outerMembers config conditions.qualRawColumns = [] := by
  apply List.eq_nil_iff_forall_not_mem.mpr
  intro column member
  have mask := (beginConditions_mask begun).mpr ⟨column,member,rfl⟩
  rw [none] at mask
  exact Finset.notMem_empty _ mask

/-- The conditions bind the columns they may ask for, and leave the others as they were. -/
theorem prepareQualColumns_ok (begun : beginConditions config qual customExprs = .ok conditions)
    (requested : ∀ column ∈ outerMembers config conditions.qualRawColumns,
      side.batchColumn column ∈ conditions.qualProbeColumns) (outputProbeRows : Nat → Nat) (first last : Nat) :
    ∃ bound, prepareQualColumns conditions side outputProbeRows first last = .ok {side with columns := bound} ∧
      (∀ column ∈ outerMembers config conditions.qualRawColumns,
        BoundTo side (outputRows outputProbeRows first last) column (bound column)) ∧
      ∀ column, column ∉ outerMembers config conditions.qualRawColumns → bound column = side.columns column := by
  unfold prepareQualColumns
  split
  · rename_i none
    have nothing := prepareQualColumns_empty begun none
    exact ⟨side.columns,rfl,by simp [nothing],fun _ _ => rfl⟩
  · let access : ColumnAccess := ⟨conditions.qualProbeColumns,outputRows outputProbeRows first last⟩
    exact @bindInputColumns_ok _ _ _ access _ (fun column member => (mem_outerMembers.mp member).1) requested

/-- Of a batch of the outer child they may ask for all their columns. -/
theorem requested_direct (begun : beginConditions config qual customExprs = .ok conditions)
    (direct : side.fromSpill = false) {column : Nat} (member : column ∈ outerMembers config conditions.qualRawColumns) :
    side.batchColumn column ∈ conditions.qualProbeColumns := by
  apply (beginConditions_mask begun).mpr
  rw [ProbeSide.batchColumn,if_neg (by simp [direct])]
  exact ⟨column,member,rfl⟩

/-- The conditions may ask for their columns of a batch of the outer child; for those of a block
they may if each has the number that a batch has for one of them. -/
theorem quals_bound_iff (begun : beginConditions config qual customExprs = .ok conditions)
    (side : ProbeSide config ι) (outputProbeRows : Nat → Nat) (first last : Nat) :
    (∃ after, prepareQualColumns conditions side outputProbeRows first last = .ok after ∧
      QualsBound conditions (outputRows outputProbeRows first last) side after) ↔
    (side.fromSpill = true → ∀ column ∈ outerMembers config conditions.qualRawColumns,
      ∃ other ∈ outerMembers config conditions.qualRawColumns, config.outerBatchColumns other = column) := by
  constructor
  · rintro ⟨after,ran,_⟩ spilled column member
    unfold prepareQualColumns at ran
    split at ran
    · rename_i none
      exact absurd (prepareQualColumns_empty begun none ▸ member) List.not_mem_nil
    · have requested := bindInputColumns_requested ran column member
      rw [ProbeSide.batchColumn,if_pos spilled] at requested
      exact (beginConditions_mask begun).mp requested
  · intro numbered
    have requested (column : Nat) (member : column ∈ outerMembers config conditions.qualRawColumns) :
        side.batchColumn column ∈ conditions.qualProbeColumns := by
      cases spilled : side.fromSpill with
      | false => exact requested_direct begun spilled member
      | true =>
        apply (beginConditions_mask begun).mpr
        rw [ProbeSide.batchColumn,if_pos spilled]
        exact numbered spilled column member
    obtain ⟨bound,ran,those,_⟩ := prepareQualColumns_ok begun requested outputProbeRows first last
    refine ⟨_,ran,⟨rfl,rfl,rfl⟩,fun column member => ?_⟩
    obtain ⟨prepared,available,vector⟩ := those column member
    exact ⟨prepared,available,by rw [vector]; exact read_pointer side column⟩

end Quals

theorem one_key : ([0] : List Nat) ≠ [] := List.cons_ne_nil _ _

theorem one_key_each : ([0] : List Nat).length = ([0] : List Nat).length := rfl

theorem first_of_two : ∀ key ∈ ([0] : List Nat), key < 2 := by simp

theorem first_of_one : ∀ key ∈ ([0] : List Nat), key < 1 := by simp

theorem limit_given : 0 < 1000000 := Nat.succ_pos _

theorem one_row : 1 ≤ pgBatchSize := Nat.succ_le_succ (Nat.zero_le _)

/-- The outer child has its two columns at 1 and 2; the join is on the first, and the second is compared. -/
def shifted : Config :=
  ⟨2,1,(· + 1),id,[0],[0],one_key,one_key_each,first_of_two,first_of_one,1000000,limit_given,1,2⟩

def shiftedVars : List JoinVar := [⟨indexVar,2⟩,⟨indexVar,3⟩]

/-- One row that was read from a partition. -/
def shiftedBlock : ProbeSide shifted Unit :=
  ⟨.spilled,initResidentBlock 2,⟨1,fun _ => (),fun _ => keyHash [7#32],fun _ _ => 7#32,fun _ _ => true⟩,noColumns,rfl⟩

theorem shifted_refused : ∃ conditions, beginConditions shifted [] shiftedVars = .ok conditions ∧
    prepareQualColumns conditions shiftedBlock (fun _ => 0) 0 1 = .error "pg_batch column 2 was not requested" ∧
    ¬ ∃ after, prepareQualColumns conditions shiftedBlock (fun _ => 0) 0 1 = .ok after ∧
      QualsBound conditions (outputRows (fun _ => 0) 0 1) shiftedBlock after := by
  have refused : (do
      let conditions ← beginConditions shifted [] shiftedVars
      prepareQualColumns conditions shiftedBlock (fun _ => 0) 0 1) = .error "pg_batch column 2 was not requested" := rfl
  refine ⟨_,rfl,refused,?_⟩
  rintro ⟨after,ran,_⟩
  cases refused.symm.trans ran

/-- The same columns of a batch. -/
def shiftedBatch : ProbeSide shifted Unit :=
  {shiftedBlock with source := .input ⟨1,one_row,1#64,fun _ _ => some 7#32,fun _ => ()⟩}

theorem shiftedBatch_bound : ∃ conditions, beginConditions shifted [] shiftedVars = .ok conditions ∧
    ∃ after, prepareQualColumns conditions shiftedBatch (fun _ => 0) 0 1 = .ok after ∧
      QualsBound conditions (outputRows (fun _ => 0) 0 1) shiftedBatch after := by
  have begun : beginConditions shifted [] shiftedVars = .ok _ := rfl
  exact ⟨_,begun,(quals_bound_iff begun shiftedBatch (fun _ => 0) 0 1).mpr fun spilled => Bool.noConfusion spilled⟩

end PgBatch.HashJoin
