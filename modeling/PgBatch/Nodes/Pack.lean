import PgBatch.Runtime.Builder

/-! `PgBatchPack` (`nodes/pack.c`) over an arbitrary scalar child.
The child is a step machine: what it answers after its first end-of-rows is left
open until it is rescanned, and a child may well start over. -/
namespace PgBatch.Pack
open DatumBuilder

def batchSize : Nat := 64

/-- A scalar plan child. Its result descriptor is the builder's `tuple_desc`. -/
structure Child (σ Payload : Type) where
  next : σ → Option (Slot Payload) × σ
  rescan : σ → σ
  desc : TupleDesc
  natts : ∀ state slot, (next state).1 = some slot → slot.natts = desc.natts

variable {σ Payload : Type}

/-- The child's state after `count` calls of `ExecProcNode`. -/
def Child.after (child : Child σ Payload) (start : σ) : Nat → σ
  | 0 => start
  | count + 1 => (child.next (child.after start count)).2

/-- The child's answer to call number `count`. -/
def Child.answer (child : Child σ Payload) (start : σ) (count : Nat) : Option (Slot Payload) :=
  (child.next (child.after start count)).1

/-- `rows` are the rows the child delivers before its first end-of-rows. -/
def Child.Produces (child : Child σ Payload) (ncolumns : Nat) (start : σ)
    (rows : List (List (Value Payload))) : Prop :=
  (∀ index row, rows[index]? = some row →
    ∃ slot, child.answer start index = some slot ∧ slot.row child.desc ncolumns = row) ∧
  child.answer start rows.length = none

/-- The node state with the part of its output binding that it consults.
`asked` is a ghost: the `ExecProcNode` calls made since the last (re)start. -/
structure PackState (σ Payload : Type) where
  child : σ
  builder : Builder Payload
  maxRows : Nat
  batchMode : Bool
  bound : Option (DatumBatch Payload)
  finished : Bool
  published : Bool
  packedBatches : Nat
  packedRows : Nat
  asked : Nat

def limit (state : PackState σ Payload) : Nat :=
  if 0 < state.maxRows then min state.maxRows batchSize else batchSize

/-- The loop of `fill_batch`; `remaining` is `limit - nrows`. -/
def fillRows (child : Child σ Payload) : Nat → PackState σ Payload → Except String (PackState σ Payload)
  | 0, state => .ok state
  | remaining + 1, state =>
    if builderIsFull state.builder then .ok state
    else
      let answer := child.next state.child
      let state := {state with child := answer.2, asked := state.asked + 1}
      match answer.1 with
      | none => .ok state
      | some slot => do
        let builder ← builderAppendSlot state.builder slot
        fillRows child remaining {state with builder := builder}

def fillBatch (child : Child σ Payload) (state : PackState σ Payload) :
    Except String (PackState σ Payload × Option (DatumBatch Payload)) := do
  let state ← fillRows child (limit state) {state with builder := builderReset state.builder}
  let (builder,batch) := builderFinish state.builder
  return ({state with builder := builder},batch)

/-- `api->finished` on the node's binding. -/
def bindingFinished (state : PackState σ Payload) : Bool :=
  state.bound.isNone || state.finished

/-- `pg_batch_output_clear`, which releases the bound batch. -/
def outputClear (state : PackState σ Payload) : PackState σ Payload :=
  {state with bound := none, finished := false}

/-- `pg_batch_output_publish`, with the checks of the bridge that depend on the batch. -/
def outputPublish (state : PackState σ Payload) (batch : DatumBatch Payload) :
    Except String (PackState σ Payload) :=
  if !bindingFinished state then .error "pg_batch parent requested a new batch too early"
  else if batch.nrows = 0 ∨ batch.words.length ≠ (batch.nrows + 63) / 64 then
    .error "pg_batch source published an invalid batch"
  else if 0 < state.maxRows ∧ state.maxRows < batch.nrows then
    .error "pg_batch source exceeded the requested batch size"
  else .ok {state with bound := some batch, finished := false}

/-- The first half of `pack_exec`: let go of the batch the parent has finished. -/
def packRecycle (state : PackState σ Payload) : Except String (PackState σ Payload) :=
  if !state.batchMode then .error "pg_batch pack requires a batch-aware parent"
  else if state.published then
    if !bindingFinished state then .error "pg_batch parent requested a new packed batch too early"
    else .ok {outputClear state with published := false}
  else .ok state

def packExec (child : Child σ Payload) (state : PackState σ Payload) :
    Except String (PackState σ Payload × Option (DatumBatch Payload)) := do
  let state ← packRecycle state
  let (state,batch) ← fillBatch child state
  match batch with
  | none => return (outputClear state,none)
  | some batch =>
    let state ← outputPublish state batch
    return ({state with
      published := true
      packedBatches := state.packedBatches + 1
      packedRows := state.packedRows + batch.nrows},some batch)

def packRescan (child : Child σ Payload) (state : PackState σ Payload) : PackState σ Payload :=
  {outputClear state with
    builder := builderReset state.builder
    published := false
    packedBatches := 0
    packedRows := 0
    child := child.rescan state.child
    asked := 0}

/-- `finish` on the node's binding, called by the parent. -/
def packFinish (state : PackState σ Payload) : Except String (PackState σ Payload) :=
  if bindingFinished state then .error "pg_batch cannot finish a slot without an active batch"
  else .ok {state with finished := true}

/-- The state `pack_begin` leaves, with a request for batches of at most `maxRows` rows. -/
def packBegin (child : Child σ Payload) (start : σ) (ncolumns maxRows : Nat)
    (values : Nat → Stored Payload) (isnull : Nat → Bool) : Except String (PackState σ Payload) := do
  let builder ← builderCreate child.desc ncolumns batchSize values isnull
  return {
    child := start, builder, maxRows, batchMode := true, bound := none, finished := false,
    published := false, packedBatches := 0, packedRows := 0, asked := 0 }

/-- A node together with what its parent has seen since the last (re)start. -/
structure Session (σ Payload : Type) where
  node : PackState σ Payload
  start : σ
  delivered : List (DatumBatch Payload)
  stopped : Bool

/-- The moves of a parent that finishes each batch before it asks for the next
one, stops at the first empty result, and may rescan at any point. -/
inductive Step (child : Child σ Payload) : Session σ Payload → Session σ Payload → Prop
  | exec (session node result) (running : session.stopped = false)
      (released : bindingFinished session.node = true)
      (ran : packExec child session.node = .ok (node,result)) :
      Step child session {session with
        node := node
        delivered := session.delivered ++ result.toList
        stopped := result.isNone}
  | finish (session node) (closed : packFinish session.node = .ok node) :
      Step child session {session with node := node}
  | rescan (session) :
      Step child session {
        node := packRescan child session.node
        start := child.rescan session.node.child
        delivered := []
        stopped := false }

inductive Reach (child : Child σ Payload) (first : Session σ Payload) : Session σ Payload → Prop
  | refl : Reach child first first
  | tail (middle last) (before : Reach child first middle) (step : Step child middle last) :
      Reach child first last

def openSession (node : PackState σ Payload) : Session σ Payload :=
  ⟨node,node.child,[],false⟩

/-- The node has read the child's stream exactly once so far: what it delivered
is an initial part of the child's rows, all of them once it reported the end,
no call has asked past the end, and the next call does not fail. -/
structure ReadsOnce (child : Child σ Payload) (session : Session σ Payload)
    (rows : List (List (Value Payload))) : Prop where
  order : (session.delivered.map DatumBatch.rows).flatten <+: rows
  complete : session.stopped = true → (session.delivered.map DatumBatch.rows).flatten = rows
  sized : ∀ batch ∈ session.delivered, batch.rows ≠ [] ∧ batch.rows.length ≤ limit session.node
  once : session.node.asked ≤ rows.length + 1
  answers : session.stopped = false → bindingFinished session.node = true →
    ∃ outcome, packExec child session.node = .ok outcome

/-! One call of `pack_exec`, with the child's rows given. -/

/-- What holds of the node between any two calls; `start` is where the scan began. -/
structure Ready (child : Child σ Payload) (ncolumns : Nat) (start : σ) (node : PackState σ Payload) : Prop where
  builder : node.builder.Valid
  desc : node.builder.desc = child.desc
  columns : node.builder.ncolumns = ncolumns
  enough : ncolumns ≤ child.desc.natts
  size : node.builder.capacity = batchSize
  mode : node.batchMode = true
  position : node.child = child.after start node.asked
  binding : node.published = node.bound.isSome

/-- The fields that filling a batch leaves alone. -/
structure SameBinding (before after : PackState σ Payload) : Prop where
  maxRows : after.maxRows = before.maxRows
  bound : after.bound = before.bound
  finished : after.finished = before.finished
  published : after.published = before.published

theorem limit_pos (state : PackState σ Payload) : 0 < limit state := by
  unfold limit batchSize
  split <;> omega

theorem limit_le (state : PackState σ Payload) : limit state ≤ batchSize := by
  unfold limit batchSize
  split <;> omega

theorem builder_rows_length (builder : Builder Payload) : builder.rows.length = builder.nrows := by
  simp [Builder.rows]

theorem Child.Produces.slot {child : Child σ Payload} {ncolumns : Nat} {start : σ}
    {rows : List (List (Value Payload))} (produces : child.Produces ncolumns start rows) {index : Nat}
    (inside : index < rows.length) :
    ∃ slot, child.answer start index = some slot ∧ slot.row child.desc ncolumns = rows[index] :=
  produces.1 index rows[index] (List.getElem?_eq_getElem inside)

/-- The fill loop never fails, asks at least once, and appends the child's next
rows; the end of the child costs one more call than the rows it gave. -/
theorem fillRows_spec (child : Child σ Payload) (ncolumns : Nat) (start : σ) (remaining : Nat)
    (state : PackState σ Payload) (ready : Ready child ncolumns start state)
    (opened : state.builder.isSealed = false)
    (room : state.builder.nrows + remaining ≤ state.builder.capacity) :
    ∃ result, fillRows child remaining state = .ok result ∧ Ready child ncolumns start result ∧
      SameBinding state result ∧ result.builder.nrows ≤ state.builder.nrows + remaining ∧
      state.asked + min remaining 1 ≤ result.asked ∧
      ∀ rows, child.Produces ncolumns start rows → state.asked ≤ rows.length →
        result.builder.rows = state.builder.rows ++ (rows.drop state.asked).take remaining ∧
        result.asked = state.asked + min remaining (rows.length - state.asked) +
          (if rows.length - state.asked < remaining then 1 else 0) := by
  induction remaining generalizing state with
  | zero =>
    refine ⟨state,rfl,ready,⟨rfl,rfl,rfl,rfl⟩,by omega,by simp,?_⟩
    intro rows _ _
    simp
  | succ remaining ih =>
    have space : state.builder.nrows < state.builder.capacity := by omega
    have open_ : builderIsFull state.builder = false := by
      simp [builderIsFull,opened,Nat.ne_of_lt space]
    have answered : (child.next state.child).1 = child.answer start state.asked := by
      rw [ready.position]
      rfl
    have moved : (child.next state.child).2 = child.after start (state.asked + 1) := by
      rw [ready.position]
      rfl
    simp only [fillRows,open_,Bool.false_eq_true,if_false]
    cases given : (child.next state.child).1 with
    | none =>
      refine ⟨_,rfl,⟨ready.builder,ready.desc,ready.columns,ready.enough,ready.size,ready.mode,moved,
        ready.binding⟩,⟨rfl,rfl,rfl,rfl⟩,by simp,by simp,?_⟩
      intro rows produces within
      have last : state.asked = rows.length := by
        by_contra different
        obtain ⟨slot,found,_⟩ := produces.slot (by omega : state.asked < rows.length)
        rw [← answered,given] at found
        contradiction
      simp [last]
    | some slot =>
      have natts := child.natts state.child slot given
      have fits : state.builder.ncolumns ≤ slot.natts := by
        rw [natts,ready.columns]
        exact ready.enough
      obtain ⟨builder,appended,spec⟩ :=
        builderAppendSlot_spec state.builder slot ready.builder opened space fits
      let next : PackState σ Payload := {state with
        child := (child.next state.child).2, asked := state.asked + 1, builder := builder}
      have ready' : Ready child ncolumns start next :=
        ⟨spec.valid,spec.desc.trans ready.desc,spec.columns.trans ready.columns,ready.enough,
          spec.size.trans ready.size,ready.mode,moved,ready.binding⟩
      have room' : next.builder.nrows + remaining ≤ next.builder.capacity := by
        simp only [next,spec.count,spec.size]
        omega
      obtain ⟨result,ran,done,same,bound,asks,delivers⟩ := ih next ready' spec.opened room'
      refine ⟨result,?_,done,⟨same.maxRows,same.bound,same.finished,same.published⟩,?_,?_,?_⟩
      · simp only [appended]
        exact ran
      · simp only [next,spec.count] at bound
        omega
      · simp only [next] at asks
        omega
      · intro rows produces within
        have inside : state.asked < rows.length := by
          by_contra beyond
          have last : state.asked = rows.length := by omega
          rw [answered,last,produces.2] at given
          contradiction
        obtain ⟨found,answer,row⟩ := produces.slot inside
        rw [← answered,given] at answer
        cases Option.some.inj answer
        obtain ⟨gained,count⟩ := delivers rows produces inside
        constructor
        · rw [gained]
          simp only [next,spec.rows,ready.desc,ready.columns,row]
          rw [List.drop_eq_getElem_cons inside,List.take_succ_cons,List.append_assoc,List.singleton_append]
        · rw [count]
          simp only [next]
          split <;> split <;> omega

/-- `packExec` once its fill loop has run. -/
private theorem packExec_filled (child : Child σ Payload) {node state filled : PackState σ Payload}
    (recycle : packRecycle node = .ok state)
    (ran : fillRows child (limit state) {state with builder := builderReset state.builder} = .ok filled) :
    packExec child node =
      match (builderFinish filled.builder).2 with
      | none => .ok (outputClear {filled with builder := (builderFinish filled.builder).1},none)
      | some batch => (do
        let state ← outputPublish {filled with builder := (builderFinish filled.builder).1} batch
        return ({state with
          published := true
          packedBatches := state.packedBatches + 1
          packedRows := state.packedRows + batch.nrows},some batch)) := by
  unfold packExec fillBatch
  rw [recycle]
  change (fillRows child (limit state) {state with builder := builderReset state.builder} >>= _) >>= _ = _
  rw [ran]
  rfl

/-- One call by a parent that has finished its batch. -/
theorem packExec_spec (child : Child σ Payload) (ncolumns : Nat) (start : σ) (node : PackState σ Payload)
    (ready : Ready child ncolumns start node) (released : bindingFinished node = true) :
    ∃ next result, packExec child node = .ok (next,result) ∧ Ready child ncolumns start next ∧
      next.maxRows = node.maxRows ∧ node.asked + 1 ≤ next.asked ∧
      (∀ batch, result = some batch → next.bound = some batch ∧ next.finished = false ∧
        batch.rows ≠ [] ∧ batch.rows.length ≤ limit node) ∧
      (result = none → next.bound = none) ∧
      ∀ rows, child.Produces ncolumns start rows → node.asked ≤ rows.length →
        (result.toList.map DatumBatch.rows).flatten = (rows.drop node.asked).take (limit node) ∧
        (result = none ↔ node.asked = rows.length) ∧
        next.asked = node.asked + min (limit node) (rows.length - node.asked) +
          (if rows.length - node.asked < limit node then 1 else 0) := by
  let recycled : PackState σ Payload := {outputClear node with published := false}
  have recycling : ∃ state, packRecycle node = .ok state ∧ state.bound = none ∧
      state.published = false ∧ state.child = node.child ∧ state.builder = node.builder ∧
      state.maxRows = node.maxRows ∧ state.batchMode = true ∧ state.asked = node.asked := by
    unfold packRecycle
    simp only [ready.mode,Bool.not_true,Bool.false_eq_true,if_false,released]
    cases held : node.published with
    | true => exact ⟨recycled,rfl,rfl,rfl,rfl,rfl,rfl,ready.mode,rfl⟩
    | false =>
      have unbound : node.bound = none := by
        have := ready.binding
        rw [held] at this
        simpa using this.symm
      exact ⟨node,rfl,unbound,held,rfl,rfl,rfl,ready.mode,rfl⟩
  obtain ⟨state,recycle,unbound,unpublished,sameChild,sameBuilder,sameMax,sameMode,sameAsked⟩ := recycling
  let begun : PackState σ Payload := {state with builder := builderReset state.builder}
  have sameLimit : limit begun = limit node := by
    simp only [limit,begun,sameMax]
  have ready' : Ready child ncolumns start begun := by
    refine ⟨?_,?_,?_,ready.enough,?_,sameMode,?_,?_⟩
    · exact builderReset_valid _ (sameBuilder ▸ ready.builder)
    · exact (congrArg Builder.desc sameBuilder).trans ready.desc
    · exact (congrArg Builder.ncolumns sameBuilder).trans ready.columns
    · exact (congrArg Builder.capacity sameBuilder).trans ready.size
    · simp only [begun,sameChild,sameAsked]
      exact ready.position
    · simp only [begun,unbound,unpublished]
      rfl
  obtain ⟨filled,ran,done,same,bound,asks,delivers⟩ :=
    fillRows_spec child ncolumns start (limit node) begun ready' rfl (by
      rw [ready'.size]
      simpa [begun,builderReset] using limit_le node)
  have count : filled.builder.nrows ≤ limit node := by simpa [begun,builderReset] using bound
  have asked : node.asked + 1 ≤ filled.asked := by
    have := limit_pos node
    simp only [begun,sameAsked] at asks
    omega
  have steps := packExec_filled child recycle (by rw [show limit state = limit node from sameLimit]; exact ran)
  have emptied (rows) (produces : child.Produces ncolumns start rows) (within : node.asked ≤ rows.length) :
      filled.builder.rows = (rows.drop node.asked).take (limit node) ∧
      filled.asked = node.asked + min (limit node) (rows.length - node.asked) +
        (if rows.length - node.asked < limit node then 1 else 0) := by
    have := delivers rows produces (by simpa [begun,sameAsked] using within)
    simpa [begun,builderReset_rows,sameAsked] using this
  have drained (rows) (produces : child.Produces ncolumns start rows) (within : node.asked ≤ rows.length) :
      filled.builder.nrows = 0 ↔ node.asked = rows.length := by
    have size := congrArg List.length (emptied rows produces within).1
    rw [builder_rows_length,List.length_take,List.length_drop] at size
    have := limit_pos node
    omega
  cases sealing : (builderFinish filled.builder).2 with
  | none =>
    have empty := (builderFinish_none filled.builder).mp sealing
    refine ⟨outputClear {filled with builder := (builderFinish filled.builder).1},none,?_,?_,
      same.maxRows.trans sameMax,asked,by simp,fun _ => rfl,?_⟩
    · rw [steps]
      simp only [sealing]
    · refine ⟨builderFinish_valid _ done.builder,done.desc,done.columns,done.enough,done.size,done.mode,
        done.position,?_⟩
      rw [show (outputClear {filled with builder := (builderFinish filled.builder).1}).published =
        filled.published from rfl,same.published]
      exact unpublished
    · intro rows produces within
      obtain ⟨gained,total⟩ := emptied rows produces within
      refine ⟨?_,by simpa using (drained rows produces within).mp empty,total⟩
      rw [← gained]
      simp [Builder.rows,empty]
  | some batch =>
    obtain ⟨content,size⟩ := builderFinish_rows filled.builder batch sealing
    have nonempty : filled.builder.nrows ≠ 0 := by
      intro empty
      rw [(builderFinish_none filled.builder).mpr empty] at sealing
      contradiction
    have length : batch.rows.length = filled.builder.nrows := by rw [content,builder_rows_length]
    have words : batch.words.length = (batch.nrows + 63) / 64 := by
      have made : batch = builderBatch filled.builder := by
        unfold builderFinish at sealing
        simpa [nonempty] using sealing.symm
      simp only [made,builderBatch,List.length_map,List.length_range,wordsForRows]
      split <;> omega
    have fits : ¬ (0 < filled.maxRows ∧ filled.maxRows < batch.nrows) := by
      have same := same.maxRows.trans sameMax
      rintro ⟨positive,beyond⟩
      rw [same] at positive beyond
      have bounded : limit node ≤ node.maxRows := by
        unfold limit
        rw [if_pos positive]
        exact Nat.min_le_left _ _
      omega
    have free : bindingFinished {filled with builder := (builderFinish filled.builder).1} = true := by
      simp [bindingFinished,same.bound,begun,unbound]
    have publish : outputPublish {filled with builder := (builderFinish filled.builder).1} batch =
        .ok {filled with
          builder := (builderFinish filled.builder).1, bound := some batch, finished := false} := by
      unfold outputPublish
      simp only [free,Bool.not_true,Bool.false_eq_true,if_false,size,nonempty,false_or,words,ne_eq,
        not_true_eq_false]
      rw [if_neg (by simpa only [size] using fits)]
    refine ⟨{filled with
      builder := (builderFinish filled.builder).1, bound := some batch, finished := false, published := true
      packedBatches := filled.packedBatches + 1, packedRows := filled.packedRows + batch.nrows},some batch,?_,?_,?_,asked,?_,by simp,?_⟩
    · rw [steps]
      simp only [sealing,publish]
      rfl
    · exact ⟨builderFinish_valid _ done.builder,done.desc,done.columns,done.enough,done.size,done.mode,
        done.position,rfl⟩
    · exact same.maxRows.trans sameMax
    · intro other equal
      cases Option.some.inj equal
      refine ⟨rfl,rfl,?_,by omega⟩
      intro nil
      rw [nil] at length
      exact nonempty length.symm
    · intro rows produces within
      obtain ⟨gained,total⟩ := emptied rows produces within
      refine ⟨by simp [content,gained],?_,total⟩
      simpa using fun last => nonempty ((drained rows produces within).mpr last)
/-! Whole runs of a parent. -/

theorem packBegin_ready {child : Child σ Payload} {start : σ} {ncolumns maxRows : Nat}
    {values : Nat → Stored Payload} {isnull : Nat → Bool} {node : PackState σ Payload}
    (began : packBegin child start ncolumns maxRows values isnull = .ok node) :
    Ready child ncolumns node.child node ∧ node.asked = 0 ∧ node.bound = none := by
  unfold packBegin builderCreate at began
  split at began
  · contradiction
  · rename_i columns
    push Not at columns
    cases began
    exact ⟨⟨⟨Nat.pos_of_ne_zero columns.1,Nat.zero_le _,rfl⟩,rfl,rfl,columns.2,rfl,rfl,rfl,rfl⟩,rfl,rfl⟩

theorem packFinish_ready {child : Child σ Payload} {ncolumns : Nat} {start : σ} {node closed : PackState σ Payload}
    (ready : Ready child ncolumns start node) (done : packFinish node = .ok closed) :
    Ready child ncolumns start closed ∧ limit closed = limit node ∧ closed.asked = node.asked := by
  unfold packFinish at done
  split at done
  · contradiction
  · cases done
    exact ⟨⟨ready.builder,ready.desc,ready.columns,ready.enough,ready.size,ready.mode,ready.position,
      ready.binding⟩,rfl,rfl⟩

theorem packRescan_ready {child : Child σ Payload} {ncolumns : Nat} {start : σ} {node : PackState σ Payload}
    (ready : Ready child ncolumns start node) :
    Ready child ncolumns (child.rescan node.child) (packRescan child node) :=
  ⟨builderReset_valid _ ready.builder,ready.desc,ready.columns,ready.enough,ready.size,ready.mode,rfl,rfl⟩

/-- The invariant of a run. Of the child's rows it speaks only for scans whose
row count the limit divides. -/
structure Running (child : Child σ Payload) (ncolumns size : Nat) (session : Session σ Payload) : Prop where
  ready : Ready child ncolumns session.start session.node
  limited : limit session.node = size
  sized : ∀ batch ∈ session.delivered, batch.rows ≠ [] ∧ batch.rows.length ≤ size
  progress : ∀ rows, child.Produces ncolumns session.start rows → size ∣ rows.length →
    ∃ taken, size ∣ taken ∧ taken ≤ rows.length ∧
      (session.delivered.map DatumBatch.rows).flatten = rows.take taken ∧
      session.node.asked = taken + (if session.stopped then 1 else 0) ∧
      (session.stopped = true → taken = rows.length)

theorem opened_running {child : Child σ Payload} {ncolumns : Nat} (session : Session σ Payload)
    (ready : Ready child ncolumns session.start session.node) (unread : session.node.asked = 0)
    (undelivered : session.delivered = []) (running : session.stopped = false) :
    Running child ncolumns (limit session.node) session := by
  refine ⟨ready,rfl,by simp [undelivered],?_⟩
  intro rows _ _
  refine ⟨0,Nat.dvd_zero _,Nat.zero_le _,?_,?_,?_⟩
  · simp [undelivered]
  · simp [unread,running]
  · simp [running]

theorem exec_running {child : Child σ Payload} {ncolumns size : Nat} {session : Session σ Payload}
    (run : Running child ncolumns size session) (going : session.stopped = false)
    (released : bindingFinished session.node = true) {node : PackState σ Payload}
    {result : Option (DatumBatch Payload)} (ran : packExec child session.node = .ok (node,result)) :
    Running child ncolumns size {session with
      node := node
      delivered := session.delivered ++ result.toList
      stopped := result.isNone} := by
  obtain ⟨next,given,execution,ready,sameMax,_,published,_,delivers⟩ :=
    packExec_spec child ncolumns session.start session.node run.ready released
  rw [execution] at ran
  cases ran
  refine ⟨ready,?_,?_,?_⟩
  · rw [← run.limited]
    simp only [limit,sameMax]
  · intro batch member
    rcases List.mem_append.mp member with old | new
    · exact run.sized batch old
    · rw [← run.limited]
      exact (published batch (by simpa using new)).2.2
  · intro rows produces divides
    obtain ⟨taken,whole,inside,gained,asked,_⟩ := run.progress rows produces divides
    simp only [going,Bool.false_eq_true,if_false,Nat.add_zero] at asked
    obtain ⟨content,last,total⟩ := delivers rows produces (by omega)
    rw [asked,run.limited] at content total
    rw [asked] at last
    simp only [List.map_append,List.flatten_append,gained,content]
    by_cases stop : taken = rows.length
    · have ended := last.mpr stop
      have positive := run.limited ▸ limit_pos session.node
      refine ⟨taken,whole,inside,?_,?_,fun _ => stop⟩
      · simp [stop]
      · rw [total,ended,stop]
        simp [positive]
    · have going : result ≠ none := fun ended => stop (last.mp ended)
      obtain ⟨rest,split⟩ : size ∣ rows.length - taken := Nat.dvd_sub divides whole
      have more : size ≤ rows.length - taken := Nat.le_of_dvd (by omega) ⟨rest,split⟩
      refine ⟨taken + size,Nat.dvd_add whole (Nat.dvd_refl _),by omega,?_,?_,?_⟩
      · rw [List.take_add]
      · rw [total,if_neg (by omega),Nat.min_eq_left more]
        cases result with
        | none => contradiction
        | some batch => rfl
      · cases result with
        | none => contradiction
        | some batch => simp

theorem step_running {child : Child σ Payload} {ncolumns size : Nat} {before after : Session σ Payload}
    (run : Running child ncolumns size before) (step : Step child before after) :
    Running child ncolumns size after := by
  cases step with
  | exec node result going released ran => exact exec_running run going released ran
  | finish node closed =>
    obtain ⟨ready,same,asked⟩ := packFinish_ready run.ready closed
    refine ⟨ready,same.trans run.limited,run.sized,?_⟩
    simp only [asked]
    exact run.progress
  | rescan =>
    have ready := packRescan_ready run.ready
    rw [← run.limited]
    exact opened_running ⟨packRescan child before.node,_,[],false⟩ ready rfl rfl rfl

theorem reach_running {child : Child σ Payload} {ncolumns size : Nat} {first session : Session σ Payload}
    (reached : Reach child first session) (run : Running child ncolumns size first) :
    Running child ncolumns size session := by
  induction reached with
  | refl => exact run
  | tail middle last _ step ih => exact step_running ih step

theorem running_reads_once {child : Child σ Payload} {ncolumns size : Nat} {session : Session σ Payload}
    (run : Running child ncolumns size session) {rows : List (List (Value Payload))}
    (produces : child.Produces ncolumns session.start rows) (divides : size ∣ rows.length) :
    ReadsOnce child session rows := by
  obtain ⟨taken,_,inside,gained,asked,complete⟩ := run.progress rows produces divides
  refine ⟨?_,?_,?_,?_,?_⟩
  · rw [gained]
    exact List.take_prefix _ _
  · intro stopped
    rw [gained,complete stopped,List.take_length]
  · rw [run.limited]
    exact run.sized
  · rw [asked]
    split <;> omega
  · intro _ released
    obtain ⟨next,result,ran,_⟩ := packExec_spec child ncolumns session.start session.node run.ready released
    exact ⟨_,ran⟩

/-- The session in which the scan that `session` belongs to was opened. -/
theorem scan_opened {child : Child σ Payload} {first session : Session σ Payload}
    (reached : Reach child first session)
    (fresh : first.stopped = false ∧ first.node.asked = 0 ∧ first.node.bound = none) :
    ∃ opening, Reach child first opening ∧ opening.start = session.start ∧
      opening.stopped = false ∧ opening.node.asked = 0 ∧ opening.node.bound = none := by
  induction reached with
  | refl => exact ⟨first,.refl,rfl,fresh⟩
  | tail middle last before step ih =>
    cases step with
    | exec => exact ih
    | finish => exact ih
    | rescan => exact ⟨_,.tail _ _ before (.rescan _),rfl,rfl,rfl,rfl⟩

/-- A call that delivers a batch, followed by the parent finishing it. -/
theorem exec_finish {child : Child σ Payload} {session : Session σ Payload} {next : PackState σ Payload}
    {batch : DatumBatch Payload} (going : session.stopped = false)
    (released : bindingFinished session.node = true)
    (ran : packExec child session.node = .ok (next,some batch)) (bound : next.bound = some batch)
    (unfinished : next.finished = false) {first : Session σ Payload} (reached : Reach child first session) :
    Reach child first ⟨{next with finished := true},session.start,session.delivered ++ [batch],false⟩ := by
  refine .tail _ _ (.tail _ _ reached (.exec session next (some batch) going released ran)) ?_
  refine .finish ⟨next,session.start,session.delivered ++ [batch],false⟩ _ ?_
  simp [packFinish,bindingFinished,bound,unfinished]

/-- When the rows left are no multiple of the limit, the node asks past the end:
its last batch is cut short by the end of the child, and the call after it asks again. -/
theorem overrun {child : Child σ Payload} {ncolumns size : Nat} {first : Session σ Payload}
    (run : Running child ncolumns size first) {rows : List (List (Value Payload))} (left : Nat) :
    ∀ session, Reach child first session → session.stopped = false → bindingFinished session.node = true →
      child.Produces ncolumns session.start rows → session.node.asked + left = rows.length → ¬ size ∣ left →
      ∃ later, Reach child first later ∧ later.start = session.start ∧ rows.length + 1 < later.node.asked := by
  induction left using Nat.strong_induction_on with
  | _ left ih =>
    intro session reached going released produces position indivisible
    have here := reach_running reached run
    have nonzero : left ≠ 0 := by
      rintro rfl
      exact indivisible (Nat.dvd_zero _)
    obtain ⟨next,result,ran,ready,sameMax,_,published,_,delivers⟩ :=
      packExec_spec child ncolumns session.start session.node here.ready released
    obtain ⟨_,last,total⟩ := delivers rows produces (by omega)
    cases result with
    | none => exact absurd (last.mp rfl) (by omega)
    | some batch =>
      obtain ⟨bound,unfinished,_⟩ := published batch rfl
      have reached' := exec_finish going released ran bound unfinished reached
      have released' : bindingFinished {next with finished := true} = true := by simp only [bindingFinished,Bool.or_true]
      rw [here.limited] at total
      by_cases more : size ≤ left
      · have asked : next.asked = session.node.asked + size := by
          rw [total,if_neg (by omega),Nat.min_eq_left (by omega),Nat.add_zero]
        have positive := here.limited ▸ limit_pos session.node
        refine ih (left - size) (by omega) ⟨_,_,_,false⟩ reached' rfl released' produces ?_ ?_
        · simp only [asked]
          omega
        · intro divides
          exact indivisible ((Nat.dvd_sub_iff_left more (Nat.dvd_refl _)).mp divides)
      · have asked : next.asked = rows.length + 1 := by
          rw [total,if_pos (by omega)]
          omega
        obtain ⟨again,answer,ranAgain,_,_,asks,_⟩ := packExec_spec child ncolumns session.start
          {next with finished := true} (reach_running reached' run).ready released'
        refine ⟨_,.tail _ _ reached' (.exec ⟨_,_,_,false⟩ again answer rfl released' ranAgain),rfl,?_⟩
        simp only [asked] at asks
        exact asks

/-- A scan reads its child exactly once, in every run, if and only if the batch
limit divides the number of rows the child has for it. -/
theorem pack_reads_once_iff (child : Child σ Payload) (start : σ) (ncolumns maxRows : Nat)
    (values : Nat → Stored Payload) (isnull : Nat → Bool) (node : PackState σ Payload)
    (began : packBegin child start ncolumns maxRows values isnull = .ok node) (session : Session σ Payload)
    (reached : Reach child (openSession node) session) (rows : List (List (Value Payload)))
    (produces : child.Produces ncolumns session.start rows) :
    (∀ other, Reach child (openSession node) other → other.start = session.start →
      ReadsOnce child other rows) ↔ limit node ∣ rows.length := by
  obtain ⟨ready,unread,unbound⟩ := packBegin_ready began
  have run : Running child ncolumns (limit node) (openSession node) :=
    opened_running (openSession node) ready unread rfl rfl
  constructor
  · intro once
    by_contra indivisible
    obtain ⟨opening,opened,same,going,fresh,free⟩ := scan_opened reached ⟨rfl,unread,unbound⟩
    obtain ⟨later,before,scan,beyond⟩ := overrun run rows.length opening opened going
      (by simp [bindingFinished,free]) (same ▸ produces) (by omega) indivisible
    have := (once later before (scan.trans same)).once
    omega
  · intro divides other before same
    exact running_reads_once (reach_running before run) (same ▸ produces) divides

/-- A child of one row that starts over when it is asked again after its end. -/
def restarting : Child Nat Unit where
  next := fun state => if state = 0 then
    (some ⟨1,fun _ => 7#64,fun _ => false,fun _ => ()⟩,1) else (none,0)
  rescan := fun _ => 0
  desc := ⟨1,fun _ => true⟩
  natts := by
    intro state slot given
    split at given
    · cases given
      rfl
    · contradiction

theorem restarting_produces : restarting.Produces 1 0 [[.word 7#64]] := by
  refine ⟨?_,rfl⟩
  intro index row found
  match index with
  | 0 =>
    cases found
    exact ⟨_,rfl,rfl⟩
  | index + 1 => contradiction

def restartingNode : PackState Nat Unit where
  child := 0
  builder := ⟨⟨1,fun _ => true⟩,1,64,false,fun _ => .datum 0#64,fun _ => false,0,false⟩
  maxRows := 1
  batchMode := true
  bound := none
  finished := false
  published := false
  packedBatches := 0
  packedRows := 0
  asked := 0

theorem restarting_reads_once :
    packBegin restarting 0 1 1 (fun _ => .datum 0#64) (fun _ => false) = .ok restartingNode ∧
      restarting.Produces 1 0 [[.word 7#64]] ∧
      ((∀ other, Reach restarting (openSession restartingNode) other → other.start = 0 →
        ReadsOnce restarting other [[.word 7#64]]) ↔ limit restartingNode ∣ 1) :=
  ⟨rfl,restarting_produces,pack_reads_once_iff restarting 0 1 1 _ _ restartingNode rfl
    (openSession restartingNode) .refl _ restarting_produces⟩

/-- The node with the default limit, after `asked` calls of the child and with
the child's row in its builder. -/
def restartedNode (child asked batches : Nat) (bound : Option (DatumBatch Unit)) (values : Nat → Stored Unit)
    (isnull : Nat → Bool) (finished : Bool) : PackState Nat Unit :=
  {restartingNode with
    child := child, asked := asked, maxRows := 0, bound := bound, finished := finished, published := bound.isSome
    packedBatches := batches, packedRows := batches
    builder := {restartingNode.builder with values := values, isnull := isnull, nrows := 1, isSealed := true}}

def restartingBatch (values : Nat → Stored Unit) (isnull : Nat → Bool) : DatumBatch Unit :=
  ⟨1,(List.range 1).map (denseWord 1),1,64,values,isnull⟩

/-- With the default limit of 64 rows the child's only row is delivered twice. -/
theorem pack_repeats_row : ∃ node session,
    packBegin restarting 0 1 0 (fun _ => .datum 0#64) (fun _ => false) = .ok node ∧
      Reach restarting (openSession node) session ∧ restarting.Produces 1 session.start [[.word 7#64]] ∧
      (session.delivered.map DatumBatch.rows).flatten = [[.word 7#64],[.word 7#64]] ∧
      ¬ ReadsOnce restarting session [[.word 7#64]] := by
  let node : PackState Nat Unit := {restartingNode with maxRows := 0}
  let values : Nat → Stored Unit := Function.update (fun _ => .datum 0#64) 0 (.datum 7#64)
  let isnull : Nat → Bool := Function.update (fun _ => false) 0 false
  let values' : Nat → Stored Unit := Function.update values 0 (.datum 7#64)
  let isnull' : Nat → Bool := Function.update isnull 0 false
  let batch := restartingBatch values isnull
  let batch' := restartingBatch values' isnull'
  have first : packExec restarting node = .ok (restartedNode 0 2 1 batch values isnull false,some batch) := by
    simp [packExec,packRecycle,fillBatch,limit,batchSize,fillRows,builderIsFull,builderReset,restarting,
      builderAppendSlot,builderFinish,builderBatch,outputPublish,bindingFinished,restartedNode,restartingNode,
      restartingBatch,wordsForRows,node,values,isnull,batch,pure,Except.pure,bind,Except.bind]
  have closed : packFinish (restartedNode 0 2 1 batch values isnull false) =
      .ok (restartedNode 0 2 1 batch values isnull true) := rfl
  have second : packExec restarting (restartedNode 0 2 1 batch values isnull true) =
      .ok (restartedNode 0 4 2 batch' values' isnull' false,some batch') := by
    simp [packExec,packRecycle,fillBatch,limit,batchSize,fillRows,builderIsFull,builderReset,restarting,
      builderAppendSlot,builderFinish,builderBatch,outputPublish,outputClear,bindingFinished,restartedNode,
      restartingNode,restartingBatch,wordsForRows,values',isnull',batch',pure,Except.pure,bind,Except.bind]
  have delivered : ([batch,batch'].map DatumBatch.rows).flatten = [[.word 7#64],[.word 7#64]] := by decide
  let opened : Session Nat Unit := ⟨restartedNode 0 2 1 batch values isnull false,0,[batch],false⟩
  let released : Session Nat Unit := ⟨restartedNode 0 2 1 batch values isnull true,0,[batch],false⟩
  let repeated : Session Nat Unit := ⟨restartedNode 0 4 2 batch' values' isnull' false,0,[batch,batch'],false⟩
  have one : Step restarting (openSession node) opened := .exec (openSession node) _ (some batch) rfl rfl first
  have two : Step restarting opened released := .finish opened _ closed
  have three : Step restarting released repeated := .exec released _ (some batch') rfl rfl second
  refine ⟨node,repeated,rfl,.tail _ _ (.tail _ _ (.tail _ _ .refl one) two) three,restarting_produces,
    delivered,?_⟩
  intro once
  have short := once.order.length_le
  rw [delivered] at short
  contradiction

end PgBatch.Pack
