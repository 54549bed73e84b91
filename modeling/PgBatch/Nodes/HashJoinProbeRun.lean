import PgBatch.Nodes.HashJoinProbeColumns
import Mathlib.Logic.Relation

/-! What the entries of `probe_columns` are worth while a probe batch is held: they
point to that batch as long as the resident block is not published over entries that
an outer batch has left. -/
namespace PgBatch.HashJoin
open Words Columnar

variable {ι : Type} {config : Config} {side : ProbeSide config ι}

/-- An entry that is available for a row of the probe batch points to the column of that batch. -/
def Coherent (side : ProbeSide config ι) : Prop :=
  ∀ column, column < config.nouterColumns → ∀ row, side.selection.getLsbD row = true →
    (side.columns column).prepared = true → (side.columns column).availableRows.getLsbD row = true →
    (side.columns column).vector = side.pointer column

/-- Entries that are bound to the batch or stay as they were keep what there is. -/
theorem Coherent.bound (coherent : Coherent side) {bound : Nat → InputColumn}
    (each : ∀ column, column < config.nouterColumns →
      (bound column).vector = side.pointer column ∨ bound column = side.columns column) :
    Coherent {side with columns := bound} := by
  intro column inside row selected prepared available
  rcases each column inside with same | same
  · exact same
  · dsimp only at prepared available ⊢
    rw [same] at prepared available ⊢
    exact coherent column inside row selected prepared available

/-- No entry is left of an earlier batch. -/
theorem coherent_noColumns (none : side.columns = noColumns) : Coherent side := by
  intro column _ row _ prepared
  rw [none] at prepared
  cases prepared

/-- The keys of the batch are bound. -/
theorem prepareProbeKeys_ok (side : ProbeSide config ι) :
    ∃ bound, prepareProbeKeys side = .ok {side with columns := bound} ∧
      (∀ key ∈ config.outerKeys, BoundTo side side.selection key (bound key)) ∧
      ∀ column, column ∉ config.outerKeys → bound column = side.columns column := by
  apply @bindInputColumns_ok _ _ _ ⟨keyColumns config side.fromSpill,side.selection⟩ _ config.outerInside
  intro key member
  unfold ProbeSide.batchColumn
  unfold keyColumns
  cases side.fromSpill with
  | false => exact List.mem_toFinset.mpr (List.mem_map_of_mem member)
  | true => exact List.mem_toFinset.mpr member

theorem prepareProbeKeys_coherent (others : ∀ column, column < config.nouterColumns → column ∉ config.outerKeys →
    ∀ row, side.selection.getLsbD row = true → (side.columns column).prepared = true →
    (side.columns column).availableRows.getLsbD row = true → (side.columns column).vector = side.pointer column) :
    ∃ bound, prepareProbeKeys side = .ok {side with columns := bound} ∧ Coherent {side with columns := bound} ∧
      ∀ key ∈ config.outerKeys, (bound key).vector = side.pointer key := by
  obtain ⟨bound,ran,keys,rest⟩ := prepareProbeKeys_ok side
  refine ⟨bound,ran,?_,fun key member => (keys key member).2.2⟩
  intro column inside row selected prepared available
  by_cases key : column ∈ config.outerKeys
  · exact (keys column key).2.2
  · have same := rest column key
    dsimp only at prepared available ⊢
    rw [same] at prepared available ⊢
    exact others column inside key row selected prepared available

/-- A column that is asked for is there, and it is that of the batch. -/
theorem ensureProbeRawColumn_ok (coherent : Coherent side) {column row : Nat} (inside : column < config.nouterColumns)
    (selected : side.selection.getLsbD row = true) :
    ∃ bound, ensureProbeRawColumn side column row = .ok {side with columns := bound} ∧
      Coherent {side with columns := bound} ∧ (bound column).prepared = true ∧
      (bound column).availableRows.getLsbD row = true ∧ (bound column).vector = side.pointer column := by
  have small : row % 64 = row := Nat.mod_eq_of_lt (BitVec.lt_of_getLsbD selected)
  unfold ensureProbeRawColumn
  dsimp only
  rw [small]
  split
  · rename_i there
    exact ⟨side.columns,rfl,coherent,there.1,there.2,coherent column inside row selected there.1 there.2⟩
  · generalize asked : (if side.fromSpill then side.selection else bit 64 row) = rows
    have here : rows.getLsbD row = true := by
      rw [← asked]
      split
      · exact selected
      · simpa using BitVec.lt_of_getLsbD selected
    refine ⟨_,bindInputColumn_ok inside (Finset.mem_singleton_self _),coherent.bound fun other _ => ?_,?_⟩
    · by_cases same : other = column
      · subst same
        exact .inl (congrArg InputColumn.vector (bind_self side other _ _))
      · exact .inr (bind_other side _ _ same)
    · change ((side.bind column _ rows).columns column).prepared = true ∧
        ((side.bind column _ rows).columns column).availableRows.getLsbD row = true ∧
        ((side.bind column (side.pointer column) rows).columns column).vector = side.pointer column
      rw [bind_self]
      exact ⟨rfl,by simp [here],rfl⟩

/-! The run. -/

/-- `survivors`: the rows of a batch that pass the filters. -/
def survivors (spill : BuildSpill ι) (buildRows : Nat) (config : Config) (batch : Batch ι) : BitVec 64 :=
  ((rows (outerHashed config batch).2).filter fun row => survives spill buildRows ((outerHashed config batch).1 row)).foldl
    (fun survivors row => survivors ||| bit 64 row) 0#64

/-- What the first loop of `fetch_probe_batch` leaves in `probe_columns` of a batch that it divides: the keys
of all its rows, and the other columns of the rows that survive the filters, if there are any. -/
def routeColumns (spill : BuildSpill ι) (buildRows : Nat) (side : ProbeSide config ι) (batch : Batch ι) :
    Except String (Nat → InputColumn) := do
  let side ← config.outerKeys.foldlM (loadInputColumn batch.selection)
    ⟨.input batch,side.residentBlock,side.probeBlock,noColumns,side.wide⟩
  let side ← (List.range config.nouterColumns).foldlM
    (fun side column =>
      if survivors spill buildRows config batch = 0#64 ∨ (side.columns column).prepared = true then .ok side
      else loadInputColumn (survivors spill buildRows config batch) side column) side
  .ok side.columns

/-- The probe side of a serial join; `held` says that there is a probe batch. -/
structure ProbeJoin (config : Config) (ι : Type) where
  state : ProbeState ι
  side : ProbeSide config ι
  held : Bool

/-- The steps of the probe side. A join that has spilled has a `BuildSpill` and its number of build rows. -/
inductive ProbeStep [Inhabited ι] (spilled : Option (BuildSpill ι × Nat)) (conditions : Conditions) :
    ProbeJoin config ι → ProbeJoin config ι → Prop
  /-- A batch of the outer child is the probe batch. -/
  | input {join next : ProbeJoin config ι} {middle : ProbeSide config ι} {batch : Batch ι} {rest : List (Batch ι)}
      (memory : spilled = none) (free : join.held = false) (more : join.state.input = batch :: rest)
      (source : middle.source = .input batch) (cleared : middle.columns = noColumns)
      (block : middle.residentBlock = join.side.residentBlock) (keys : prepareProbeKeys middle = .ok next.side)
      (state : next.state = {join.state with input := rest}) (held : next.held = true) :
      ProbeStep spilled conditions join next
  /-- The outer child is at its end, or a batch of it is divided. -/
  | route {join next : ProbeJoin config ι} {spill : BuildSpill ι} {buildRows : Nat}
      (spills : spilled = some (spill,buildRows)) (free : join.held = false)
      (turn : fetchTurn config spill buildRows (outerHashed config) join.state = .ok (next.state,.again))
      (columns : match join.state.input with
        | [] => next.side.columns = join.side.columns
        | batch :: _ => routeColumns spill buildRows join.side batch = .ok next.side.columns)
      (block : next.side.residentBlock = next.state.block) (held : next.held = false) :
      ProbeStep spilled conditions join next
  /-- The block of resident rows is the probe batch. -/
  | publish {join next : ProbeJoin config ι} {middle : ProbeSide config ι} {spill : BuildSpill ι} {buildRows : Nat}
      (spills : spilled = some (spill,buildRows)) (free : join.held = false)
      (turn : fetchTurn config spill buildRows (outerHashed config) join.state = .ok (next.state,.delivered))
      (source : middle.source = .resident) (kept : middle.columns = join.side.columns)
      (block : middle.residentBlock = next.state.block) (keys : prepareProbeKeys middle = .ok next.side)
      (held : next.held = true) : ProbeStep spilled conditions join next
  /-- A block of a partition is the probe batch. -/
  | fetch {join next : ProbeJoin config ι} {middle : ProbeSide config ι} {spill : BuildSpill ι} {buildRows : Nat}
      (spills : spilled = some (spill,buildRows)) (free : join.held = false)
      (turn : fetchTurn config spill buildRows (outerHashed config) join.state = .ok (next.state,.partitions))
      (source : middle.source = .spilled) (cleared : middle.columns = noColumns)
      (block : middle.residentBlock = next.state.block) (keys : prepareProbeKeys middle = .ok next.side)
      (held : next.held = true) : ProbeStep spilled conditions join next
  /-- `finish_probe_batch`. -/
  | finish {join next : ProbeJoin config ι} (waits : join.held = true)
      (state : next.state = if join.state.fromResident then finishProbe join.state else join.state)
      (kept : next.side.columns = join.side.columns) (block : next.side.residentBlock = next.state.block)
      (held : next.held = false) : ProbeStep spilled conditions join next
  /-- A column is read in a row of the probe batch. -/
  | read {join next : ProbeJoin config ι} {column row : Nat} (waits : join.held = true)
      (inside : column < config.nouterColumns) (selected : join.side.selection.getLsbD row = true)
      (ran : ensureProbeRawColumn join.side column row = .ok next.side) (state : next.state = join.state)
      (held : next.held = true) : ProbeStep spilled conditions join next
  /-- The conditions are looked at for some rows of the output. -/
  | quals {join next : ProbeJoin config ι} {outputProbeRows : Nat → Nat} {first last : Nat} (waits : join.held = true)
      (ran : prepareQualColumns conditions join.side outputProbeRows first last = .ok next.side)
      (state : next.state = join.state) (held : next.held = true) : ProbeStep spilled conditions join next

/-- A block of resident rows is only published when no column that is not a key is available for one of its
rows of an outer batch. -/
def Unstale [Inhabited ι] (spilled : Option (BuildSpill ι × Nat)) (join : ProbeJoin config ι) : Prop :=
  ∀ spill buildRows next, spilled = some (spill,buildRows) →
    fetchTurn config spill buildRows (outerHashed config) join.state = .ok (next,.delivered) →
    ∀ column, column < config.nouterColumns → column ∉ config.outerKeys → ∀ row, next.block.selection.getLsbD row = true →
      (join.side.columns column).prepared = true → (join.side.columns column).availableRows.getLsbD row = true →
      (join.side.columns column).vector = .resident column

/-- A run from one state to another, with all its steps from states that meet the condition. -/
def ProbeRun [Inhabited ι] (spilled : Option (BuildSpill ι × Nat)) (conditions : Conditions) :
    ProbeJoin config ι → ProbeJoin config ι → Prop :=
  Relation.ReflTransGen fun join next => ProbeStep spilled conditions join next ∧ Unstale spilled join

variable [Inhabited ι] {spilled : Option (BuildSpill ι × Nat)} {conditions : Conditions} {join next : ProbeJoin config ι}

/-- What there is of a held batch is of that batch. -/
def Current (join : ProbeJoin config ι) : Prop :=
  join.held = true → Coherent join.side

omit [Inhabited ι] in
theorem coherent_cleared {middle : ProbeSide config ι} (cleared : middle.columns = noColumns)
    (keys : prepareProbeKeys middle = .ok side) : Coherent side := by
  have fresh : Coherent middle := coherent_noColumns cleared
  obtain ⟨bound,ran,coherent,_⟩ := prepareProbeKeys_coherent fun column inside _ => fresh column inside
  rw [ran] at keys
  cases keys
  exact coherent

omit [Inhabited ι] in
/-- A condition binds its columns to the batch, or it fails. -/
theorem prepareQualColumns_coherent (coherent : Coherent side) {outputProbeRows : Nat → Nat} {first last : Nat}
    {after : ProbeSide config ι} (ran : prepareQualColumns conditions side outputProbeRows first last = .ok after) :
    Coherent after := by
  unfold prepareQualColumns at ran
  split at ran
  · cases ran
    exact coherent
  · obtain ⟨bound,ran',those,others⟩ := bindInputColumns_ok
      (fun column member => (mem_outerMembers.mp member).1) (bindInputColumns_requested ran)
    rw [ran'] at ran
    cases ran
    refine coherent.bound fun column _ => ?_
    by_cases member : column ∈ outerMembers config conditions.qualRawColumns
    · exact .inl (those column member).2.2
    · exact .inr (others column member)

/-- Every step from a state that meets the condition keeps it so. -/
theorem ProbeStep.current (step : ProbeStep spilled conditions join next) (unstale : Unstale spilled join)
    (current : Current join) : Current next := by
  intro holds
  cases step with
  | input _ _ _ _ cleared _ keys => exact coherent_cleared cleared keys
  | route _ _ _ _ _ held => exact absurd holds (by simp [held])
  | @publish middle spill buildRows spills _ turn source kept block keys _ =>
    have same : middle.selection = next.state.block.selection := by
      unfold ProbeSide.selection
      rw [source,← block]
    have others : ∀ column, column < config.nouterColumns → column ∉ config.outerKeys → ∀ row,
        middle.selection.getLsbD row = true → (middle.columns column).prepared = true →
        (middle.columns column).availableRows.getLsbD row = true → (middle.columns column).vector = middle.pointer column := by
      intro column inside other row selected prepared available
      rw [kept] at prepared available ⊢
      rw [ProbeSide.pointer,source]
      exact unstale spill buildRows next.state spills turn column inside other row (same ▸ selected) prepared available
    obtain ⟨bound,ran,coherent,_⟩ := prepareProbeKeys_coherent others
    rw [ran] at keys
    cases next
    cases keys
    exact coherent
  | fetch _ _ _ _ cleared _ keys => exact coherent_cleared cleared keys
  | finish _ _ _ _ held => exact absurd holds (by simp [held])
  | read waits inside selected ran =>
    obtain ⟨bound,ran',coherent,_⟩ := ensureProbeRawColumn_ok (current waits) inside selected
    rw [ran'] at ran
    cases next
    cases ran
    exact coherent
  | quals waits ran => exact prepareQualColumns_coherent (current waits) ran

theorem ProbeRun.current (free : join.held = false) (run : ProbeRun spilled conditions join next) : Current next := by
  induction run with
  | refl => exact fun holds => absurd holds (by simp [free])
  | tail _ last ih => exact last.1.current last.2 ih

/-- In a run that never publishes a block over entries of an outer batch, an entry that is available for a row of
the probe batch points to the column of that batch, and every value that is read is the one of that batch. -/
theorem probe_values_right (free : join.held = false) (run : ProbeRun spilled conditions join next)
    (held : next.held = true) {column row : Nat} (inside : column < config.nouterColumns)
    (selected : next.side.selection.getLsbD row = true) :
    ((next.side.columns column).prepared = true → (next.side.columns column).availableRows.getLsbD row = true →
      next.side.read (next.side.columns column).vector = next.side.current column) ∧
    ∃ after, ensureProbeRawColumn next.side column row = .ok after ∧
      after.read (after.columns column).vector row = next.side.current column row := by
  have coherent := run.current free held
  obtain ⟨bound,ran,_,_,_,vector⟩ := ensureProbeRawColumn_ok coherent inside selected
  refine ⟨fun prepared available => ?_,_,ran,?_⟩
  · rw [coherent column inside row selected prepared available,read_pointer]
  · dsimp only
    rw [vector]
    exact congrFun (read_pointer next.side column) row

/-! Two batches of one row each, for a join on the first of two columns with both partitions of its keys in memory. -/

def payload : Config :=
  ⟨2,1,id,id,[0],[0],one_key,one_key_each,first_of_two,first_of_one,1000000,limit_given,1,2⟩

/-- The keys 0 and 2 are in the resident one of two partitions. -/
def payloadSpill : BuildSpill Unit :=
  {halfResident with residentPartitionRows := fun _ => 2, residentBuildRows := 2}

def payloadBuild : BuildStore Unit :=
  {twoRows.2 with
    hashes := fun row => keyHash [BitVec.ofNat 32 (2 * row)]
    values := fun _ row => BitVec.ofNat 32 (2 * row)}

def payloadBatch (key value : Int4) : Batch Unit :=
  ⟨1,one_row,1#64,fun column _ => if column = 0 then some key else some value,fun _ => ()⟩

def payloadTurn (state : ProbeState Unit) : ProbeState Unit :=
  match fetchTurn payload payloadSpill 2 (outerHashed payload) state with
  | .ok (next,_) => next
  | .error _ => state

def payloadStart (input : List (Batch Unit)) : ProbeState Unit :=
  probeStart payload payloadBuild ⟨fun _ => none,{Spill.create 2 2 250000 with frozen := false, position := fun _ => 0}⟩ input

def payloadSide (state : ProbeState Unit) (wide : state.block.ncolumns = 2) (columns : Nat → InputColumn) :
    ProbeSide payload Unit :=
  ⟨.resident,state.block,⟨0,fun _ => (),fun _ => 0#32,fun _ _ => 0#32,fun _ _ => false⟩,columns,wide⟩

/-- The entries that the division of a batch leaves. -/
def payloadColumns (batch : Batch Unit) : Nat → InputColumn :=
  match routeColumns payloadSpill 2 (payloadSide (payloadStart []) rfl noColumns) batch with
  | .ok columns => columns
  | .error _ => noColumns

def payloadBatches : List (Batch Unit) := [payloadBatch 0 10,payloadBatch 2 20]

/-- Both batches are divided, the outer child is at its end, and the block of the two rows is published. -/
def payloadDivided : ProbeState Unit := payloadTurn (payloadTurn (payloadStart payloadBatches))

def payloadEnded : ProbeState Unit := payloadTurn payloadDivided

def payloadPublished : ProbeSide payload Unit :=
  match prepareProbeKeys (payloadSide (payloadTurn payloadEnded) rfl (payloadColumns (payloadBatch 2 20))) with
  | .ok side => side
  | .error _ => payloadSide (payloadTurn payloadEnded) rfl noColumns

def noConditions : Conditions := ⟨∅,∅⟩

/-- The join after some of its batches were divided, with what the last one of them has left. -/
def payloadJoin (state : ProbeState Unit) (wide : state.block.ncolumns = 2) (columns : Nat → InputColumn) :
    ProbeJoin payload Unit :=
  ⟨state,payloadSide state wide columns,false⟩

theorem payload_run : Relation.ReflTransGen (ProbeStep (some (payloadSpill,2)) noConditions)
    (payloadJoin (payloadStart payloadBatches) rfl noColumns) ⟨payloadTurn payloadEnded,payloadPublished,true⟩ := by
  have first : ProbeStep (some (payloadSpill,2)) noConditions (payloadJoin (payloadStart payloadBatches) rfl noColumns)
      (payloadJoin (payloadTurn (payloadStart payloadBatches)) rfl (payloadColumns (payloadBatch 0 10))) :=
    .route rfl rfl rfl rfl rfl rfl
  have second : ProbeStep (some (payloadSpill,2)) noConditions
      (payloadJoin (payloadTurn (payloadStart payloadBatches)) rfl (payloadColumns (payloadBatch 0 10)))
      (payloadJoin payloadDivided rfl (payloadColumns (payloadBatch 2 20))) :=
    .route rfl rfl rfl rfl rfl rfl
  have ended : ProbeStep (some (payloadSpill,2)) noConditions
      (payloadJoin payloadDivided rfl (payloadColumns (payloadBatch 2 20)))
      (payloadJoin payloadEnded rfl (payloadColumns (payloadBatch 2 20))) :=
    .route rfl rfl rfl rfl rfl rfl
  have cleared : (payloadSide (payloadTurn payloadEnded) rfl (payloadColumns (payloadBatch 2 20))).source = .resident := rfl
  have published : ProbeStep (some (payloadSpill,2)) noConditions
      (payloadJoin payloadEnded rfl (payloadColumns (payloadBatch 2 20))) ⟨payloadTurn payloadEnded,payloadPublished,true⟩ :=
    .publish rfl rfl rfl cleared rfl rfl rfl rfl
  exact .tail (.tail (.tail (.tail .refl first) second) ended) published

/-- The first row matches a build row, and its second column is read from the second batch. -/
theorem payload_stale : ∃ join next : ProbeJoin payload Unit, join.held = false ∧
    Relation.ReflTransGen (ProbeStep (some (payloadSpill,2)) noConditions) join next ∧ next.held = true ∧
    next.side.selection.getLsbD 0 = true ∧ next.side.current 0 0 = some (payloadBuild.values 0 0) ∧
    (next.side.columns 1).prepared = true ∧ (next.side.columns 1).availableRows.getLsbD 0 = true ∧
    ensureProbeRawColumn next.side 1 0 = .ok next.side ∧
    next.side.read (next.side.columns 1).vector 0 = some 20#32 ∧ next.side.current 1 0 = some 10#32 :=
  ⟨_,_,rfl,payload_run,rfl,rfl,rfl,rfl,rfl,rfl,rfl,rfl⟩

/-- A row without a key, which leaves no column but the key. -/
def keylessBatch : Batch Unit :=
  ⟨1,one_row,1#64,fun column _ => if column = 0 then none else some 20#32,fun _ => ()⟩

def keylessDivided : ProbeState Unit := payloadTurn (payloadTurn (payloadStart [payloadBatch 0 10,keylessBatch]))

def keylessEnded : ProbeState Unit := payloadTurn keylessDivided

def keylessPublished : ProbeSide payload Unit :=
  match prepareProbeKeys (payloadSide (payloadTurn keylessEnded) rfl (payloadColumns keylessBatch)) with
  | .ok side => side
  | .error _ => payloadSide (payloadTurn keylessEnded) rfl noColumns

theorem unstale_again {state next : ProbeState Unit} (wide : state.block.ncolumns = 2) (columns : Nat → InputColumn)
    (turn : fetchTurn payload payloadSpill 2 (outerHashed payload) state = .ok (next,.again)) :
    Unstale (some (payloadSpill,2)) (payloadJoin state wide columns) := by
  rintro spill buildRows other ⟨⟩ delivered
  rw [show (payloadJoin state wide columns).state = state from rfl,turn] at delivered
  cases delivered

theorem keyless_run : ProbeRun (some (payloadSpill,2)) noConditions
    (payloadJoin (payloadStart [payloadBatch 0 10,keylessBatch]) rfl noColumns)
    ⟨payloadTurn keylessEnded,keylessPublished,true⟩ := by
  have first : ProbeStep (some (payloadSpill,2)) noConditions
      (payloadJoin (payloadStart [payloadBatch 0 10,keylessBatch]) rfl noColumns)
      (payloadJoin (payloadTurn (payloadStart [payloadBatch 0 10,keylessBatch])) rfl (payloadColumns (payloadBatch 0 10))) :=
    .route rfl rfl rfl rfl rfl rfl
  have second : ProbeStep (some (payloadSpill,2)) noConditions
      (payloadJoin (payloadTurn (payloadStart [payloadBatch 0 10,keylessBatch])) rfl (payloadColumns (payloadBatch 0 10)))
      (payloadJoin keylessDivided rfl (payloadColumns keylessBatch)) := .route rfl rfl rfl rfl rfl rfl
  have ended : ProbeStep (some (payloadSpill,2)) noConditions
      (payloadJoin keylessDivided rfl (payloadColumns keylessBatch))
      (payloadJoin keylessEnded rfl (payloadColumns keylessBatch)) := .route rfl rfl rfl rfl rfl rfl
  have resident : (payloadSide (payloadTurn keylessEnded) rfl (payloadColumns keylessBatch)).source = .resident := rfl
  have published : ProbeStep (some (payloadSpill,2)) noConditions
      (payloadJoin keylessEnded rfl (payloadColumns keylessBatch)) ⟨payloadTurn keylessEnded,keylessPublished,true⟩ :=
    .publish rfl rfl rfl resident rfl rfl rfl rfl
  have unstale : Unstale (some (payloadSpill,2)) (payloadJoin keylessEnded rfl (payloadColumns keylessBatch)) := by
    rintro spill buildRows next ⟨⟩ _ column inside other row _ prepared
    have one : column = 1 := by
      have apart : column ≠ 0 := fun zero => other (zero ▸ List.mem_singleton.mpr rfl)
      have below : column < 2 := inside
      omega
    subst one
    cases prepared
  exact .tail (.tail (.tail (.tail .refl ⟨first,unstale_again rfl _ rfl⟩) ⟨second,unstale_again rfl _ rfl⟩)
    ⟨ended,unstale_again rfl _ rfl⟩) ⟨published,unstale⟩

/-- After a batch without a surviving row the block is read. -/
theorem keyless_read : ∃ after, ensureProbeRawColumn keylessPublished 1 0 = .ok after ∧
    after.read (after.columns 1).vector 0 = keylessPublished.current 1 0 :=
  (probe_values_right rfl keyless_run rfl (by decide : 1 < 2) rfl).2

end PgBatch.HashJoin
