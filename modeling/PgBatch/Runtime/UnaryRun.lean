import PgBatch.Runtime.Unary

/-! What a unary node delivers: its process works on the stream of the child's rows,
whichever batches they come in and whichever mode its consumer asked for. -/
namespace PgBatch.Unary
variable {π δ : Type}

/-- A row as the consumer sees it. -/
def Config.view (config : Config π δ) (batch : Batch δ) (row : Nat) : Tuple δ :=
  match config.rowMode with
  | .copyRow batchColumns => batch.tuple batchColumns row
  | .inputRow project => project batch row

def Config.shown (config : Config π δ) (batch : Batch δ) : List (Tuple δ) :=
  batch.selection.visits.map (config.view batch)

/-- The rows that the child has returned in this scan, and those it still has. -/
def Config.seen (config : Config π δ) (input : Input δ) : List (Tuple δ) :=
  input.fetched.flatMap config.shown

def Config.ahead (config : Config π δ) (input : Input δ) : List (Tuple δ) :=
  input.left.flatMap config.shown

def Result.tuples (config : Config π δ) : Result δ → List (Tuple δ)
  | .empty => []
  | .batch handed => config.shown handed
  | .row tuple => [tuple]

/-- A process computes `keep` of the stream of rows, batch by batch: `tracks` ties its
private data to the rows seen so far, and it stops when these are `satisfied`. -/
structure Realises (config : Config π δ) (keep : List (Tuple δ) → List (Tuple δ)) (satisfied : List (Tuple δ) → Prop)
    (tracks : π → List (Tuple δ) → Prop) : Prop where
  nothing : keep [] = []
  final : ∀ seen more, satisfied seen → keep (seen ++ more) = keep seen
  runs : ∀ privateData seen batch, tracks privateData seen → ¬ satisfied seen →
    ∃ done, config.run privateData batch = .ok done ∧ tracks done.priv (seen ++ config.shown batch) ∧
      keep (seen ++ config.shown batch) = keep seen ++ config.shown done.batch ∧
      (done.rows = 0 ↔ done.batch.selection.visits = []) ∧
      (done.stop = true ↔ satisfied (seen ++ config.shown batch))

section Fetch
variable {config : Config π δ} {keep : List (Tuple δ) → List (Tuple δ)} {satisfied : List (Tuple δ) → Prop}
  {tracks : π → List (Tuple δ) → Prop}

/-- The child has been asked only for rows that were wanted, and with its batch finished. -/
def Lazy (config : Config π δ) (satisfied : List (Tuple δ) → Prop) (input : Input δ) : Prop :=
  ∀ asked ∈ input.asked, asked.unfinished = false ∧ ¬ satisfied (asked.before.flatMap config.shown)

/-- What holds of the node whenever the child is not being asked. -/
structure Fetching (config : Config π δ) (satisfied : List (Tuple δ) → Prop) (tracks : π → List (Tuple δ) → Prop)
    (state : State π δ) : Prop where
  tracked : tracks state.privateData (config.seen state.input)
  stop : state.stopped = true ↔ satisfied (config.seen state.input)
  attached : state.input.unfinished = true → state.input.active.isSome = true
  wanted : Lazy config satisfied state.input

/-- The fields that fetching leaves alone, and the rows of the scan. -/
structure SameScan (config : Config π δ) (before after : State π δ) : Prop where
  request : after.request = before.request
  forwarded : after.requestForwarded = before.requestForwarded
  rows : config.seen after.input ++ config.ahead after.input = config.seen before.input ++ config.ahead before.input

theorem SameScan.refl (state : State π δ) : SameScan config state state := ⟨rfl,rfl,rfl⟩

theorem SameScan.trans {first second third : State π δ} (one : SameScan config first second)
    (two : SameScan config second third) : SameScan config first third :=
  ⟨two.request.trans one.request,two.forwarded.trans one.forwarded,two.rows.trans one.rows⟩

theorem inputNext_released {input : Input δ} (released : input.unfinished = false) :
    inputNext input = .ok (inputFetch {input with active := none}) := by
  unfold inputNext
  cases held : input.active with
  | none => cases input; cases held; rfl
  | some batch => simp [released]

/-- A batch has been fetched, and rows of it are left. -/
structure Fetched (config : Config π δ) (keep : List (Tuple δ) → List (Tuple δ)) (before after : State π δ)
    (batch : Batch δ) : Prop where
  active : after.activeBatch = some batch
  input : after.input.active = some batch
  unfinished : after.input.unfinished = true
  nextRow : after.nextRow = batch.selection.next 0
  nonempty : batch.selection.visits ≠ []
  keeps : keep (config.seen after.input) = keep (config.seen before.input) ++ config.shown batch

/-- No row is wanted any more, or the child has no more. -/
structure Exhausted (config : Config π δ) (keep : List (Tuple δ) → List (Tuple δ)) (before after : State π δ) : Prop where
  active : after.activeBatch = before.activeBatch
  nextRow : after.nextRow = before.nextRow
  unfinished : after.input.unfinished = false
  keeps : keep (config.seen after.input) = keep (config.seen before.input)
  complete : keep (config.seen after.input ++ config.ahead after.input) = keep (config.seen after.input)

theorem fetchBatch_spec (realises : Realises config keep satisfied tracks) (state : State π δ)
    (fetching : Fetching config satisfied tracks state) (released : state.input.unfinished = false) :
    ∃ next more, fetchBatch config state = .ok (next,more) ∧ Fetching config satisfied tracks next ∧
      SameScan config state next ∧
      (more = false → Exhausted config keep state next) ∧
      (more = true → ∃ batch, Fetched config keep state next batch) := by
  induction size : state.input.left.length using Nat.strong_induction_on generalizing state with
  | _ size_ ih =>
    subst size
    rw [fetchBatch_eq]
    cases halted : state.stopped with
    | true =>
      have final := realises.final _ (config.ahead state.input) (fetching.stop.mp halted)
      exact ⟨state,false,rfl,fetching,.refl state,fun _ => ⟨rfl,rfl,released,rfl,final⟩,by simp⟩
    | false =>
      have unsatisfied : ¬ satisfied (config.seen state.input) := fun done => by
        rw [fetching.stop.mpr done] at halted
        cases halted
      have wanted : Lazy config satisfied {state.input with
          asked := state.input.asked ++ [⟨state.input.fetched,state.input.unfinished⟩]} := by
        intro asked member
        rcases List.mem_append.mp member with earlier | now
        · exact fetching.wanted asked earlier
        · rw [List.mem_singleton.mp now]
          exact ⟨released,unsatisfied⟩
      rw [if_neg Bool.false_ne_true,inputNext_released released]
      cases left : state.input.left with
      | nil =>
        simp only [inputFetch]
        refine ⟨_,false,rfl,⟨fetching.tracked,⟨by simp,fun done => absurd done unsatisfied⟩,fun held => ?_,wanted⟩,
          ⟨rfl,rfl,by simp [Config.seen,Config.ahead,left]⟩,fun _ => ?_,by simp⟩
        · rw [released] at held
          cases held
        · refine ⟨rfl,rfl,released,rfl,?_⟩
          simp [Config.ahead]
      | cons batch rest =>
        simp only [inputFetch]
        obtain ⟨done,ran,tracked,kept,empty,stop⟩ := realises.runs _ _ batch fetching.tracked unsatisfied
        simp only [ran,Bool.false_or]
        have seen : (state.input.fetched ++ [batch]).flatMap config.shown =
            config.seen state.input ++ config.shown batch := by
          simp [Config.seen]
        have rows : (state.input.fetched ++ [batch]).flatMap config.shown ++ rest.flatMap config.shown =
            config.seen state.input ++ config.ahead state.input := by
          simp [Config.seen,Config.ahead,left]
        by_cases none_ : done.rows = 0
        · -- The batch was emptied: it is finished, and the loop goes on.
          have shown : config.shown done.batch = [] := by
            rw [Config.shown,empty.mp none_,List.map_nil]
          rw [shown,List.append_nil] at kept
          simp only [if_pos none_,inputFinish,if_true]
          let emptied : State π δ := {state with
            input := {state.input with
              left := rest
              active := none
              unfinished := false
              fetched := state.input.fetched ++ [batch]
              asked := state.input.asked ++ [⟨state.input.fetched,state.input.unfinished⟩]}
            privateData := done.priv
            stopped := done.stop
            stats := {state.stats with
              inputBatches := state.stats.inputBatches + 1
              inputRows := state.stats.inputRows + batch.rowCount}}
          have fetching' : Fetching config satisfied tracks emptied := by
            refine ⟨?_,?_,by simp [emptied],wanted⟩
            · rw [Config.seen,seen]
              exact tracked
            · rw [Config.seen,seen]
              exact stop
          obtain ⟨next,more,fetched,again,same,stopped,found⟩ := ih _ (by rw [left]; exact Nat.lt_succ_self _) emptied fetching' rfl rfl
          refine ⟨next,more,fetched,again,?_,fun ended => ?_,fun got => ?_⟩
          · have entered : SameScan config state emptied := ⟨rfl,rfl,rows⟩
            exact entered.trans same
          · have exhausted := stopped ended
            refine ⟨exhausted.active,exhausted.nextRow,exhausted.unfinished,exhausted.keeps.trans ?_,exhausted.complete⟩
            rw [Config.seen,seen,kept]
          · obtain ⟨batch,fetched⟩ := found got
            refine ⟨batch,fetched.active,fetched.input,fetched.unfinished,fetched.nextRow,fetched.nonempty,?_⟩
            rw [fetched.keeps,Config.seen,seen,kept]
        · rw [if_neg none_]
          refine ⟨_,true,rfl,⟨?_,?_,fun _ => rfl,wanted⟩,⟨rfl,rfl,rows⟩,by simp,
            fun _ => ⟨done.batch,rfl,rfl,rfl,rfl,fun nothing => none_ (empty.mpr nothing),?_⟩⟩
          · rw [Config.seen,seen]
            exact tracked
          · rw [Config.seen,seen]
            exact stop
          · rw [Config.seen,seen,kept]

/-- The rows of the batch at hand that are still to be returned. -/
def pending (config : Config π δ) (state : State π δ) : List (Tuple δ) :=
  match state.request.outputMode, state.activeBatch with
  | .rows, some batch => (state.nextRow.elim [] batch.selection.rowsFrom).map (config.view batch)
  | _, _ => []

/-- What holds of a node that has delivered some rows of the scan. In row mode the
batch at hand is the input's; in batch mode it is the consumer's to finish. -/
structure Serving (config : Config π δ) (keep : List (Tuple δ) → List (Tuple δ)) (satisfied : List (Tuple δ) → Prop)
    (tracks : π → List (Tuple δ) → Prop) (rows : List (Tuple δ)) (state : State π δ) (delivered : List (Tuple δ)) :
    Prop where
  fetching : Fetching config satisfied tracks state
  delivers : delivered ++ pending config state = keep (config.seen state.input)
  held : state.request.outputMode = .rows → ∀ batch, state.activeBatch = some batch →
    state.input.active = some batch ∧ state.input.unfinished = true ∧
      ∀ row, state.nextRow = some row → batch.selection.Selected row
  free : state.request.outputMode = .rows → state.activeBatch = none → state.input.unfinished = false
  whole : if state.requestForwarded then config.seen state.input ++ config.ahead state.input = rows
    else state.input.fetched = []

variable {rows delivered : List (Tuple δ)}

theorem next_selected {selection : Selection} {row found : Nat} (next : selection.next row = some found) :
    selection.Selected found := by
  have member : found ∈ selection.rowsFrom row := by
    rw [(Selection.rowsFrom_some next).1]
    exact List.mem_cons_self ..
  exact (Selection.mem_rowsFrom.mp member).2

theorem inputSelectRow_ok {input : Input δ} {batch : Batch δ} {row : Nat} (active : input.active = some batch)
    (unfinished : input.unfinished = true) (selected : batch.selection.Selected row) :
    inputSelectRow input row = .ok batch := by
  have inside := selected.1
  have set : batch.selection.contains row = true := selected.2
  simp only [inputSelectRow,active,unfinished,set]
  rw [if_neg (by simpa using inside)]

theorem takeRow_ok {input : Input δ} {batch : Batch δ} {row : Nat} (active : input.active = some batch)
    (unfinished : input.unfinished = true) (selected : batch.selection.Selected row) :
    takeRow config input row = .ok (config.view batch row) := by
  have chosen := inputSelectRow_ok active unfinished selected
  unfold takeRow Config.view
  cases config.rowMode with
  | inputRow project => simp only [chosen]; rfl
  | copyRow batchColumns => simp only [inputCopyRow,chosen]; rfl

/-- What one call gives: more rows, or the end once all have been delivered. -/
structure Answered (config : Config π δ) (keep : List (Tuple δ) → List (Tuple δ)) (rows delivered : List (Tuple δ))
    (request : RequestSpec) (after : State π δ) (result : Result δ) : Prop where
  request : after.request = request
  forwarded : after.requestForwarded = true
  more : result = .empty ∧ delivered = keep rows ∨ result ≠ .empty ∧ result.tuples config ≠ []

theorem execBatch_fetched {state next : State π δ} {more : Bool}
    (fetched : fetchBatch config {state with activeBatch := none} = .ok (next,more)) :
    execBatch config state = if !more then .ok (next,.empty)
      else match next.activeBatch, next.nextRow with
        | some batch, some row => do
          let _ ← inputSelectRow next.input row
          .ok (next,.batch batch)
        | _, _ => .error "pg_batch cannot select row -1" := by
  unfold execBatch
  rw [fetched]
  rfl

theorem execBatch_spec (realises : Realises config keep satisfied tracks) {state : State π δ}
    (serving : Serving config keep satisfied tracks rows state delivered) (mode : state.request.outputMode = .batch)
    (forwarded : state.requestForwarded = true) (released : state.input.unfinished = false) :
    ∃ next result, execBatch config state = .ok (next,result) ∧
      Serving config keep satisfied tracks rows next (delivered ++ result.tuples config) ∧
      Answered config keep rows delivered state.request next result := by
  have fetching := serving.fetching
  have delivers := serving.delivers
  have whole := serving.whole
  rw [if_pos forwarded] at whole
  simp only [pending,mode,List.append_nil] at delivers
  obtain ⟨next,more,fetched,again,same,ended,found⟩ := fetchBatch_spec realises {state with activeBatch := none}
    ⟨fetching.tracked,fetching.stop,fetching.attached,fetching.wanted⟩ released
  have request : next.request = state.request := same.request
  have mode' : next.request.outputMode ≠ .rows := by
    rw [request,mode]
    decide
  have pending_ : pending config next = [] := by
    simp [pending,request,mode]
  have forwarded' : next.requestForwarded = true := same.forwarded.trans forwarded
  have whole' : config.seen next.input ++ config.ahead next.input = rows := same.rows.trans whole
  rw [execBatch_fetched fetched]
  cases more with
  | false =>
    have exhausted := ended rfl
    have keeps : keep (config.seen next.input) = delivered := exhausted.keeps.trans delivers.symm
    refine ⟨next,.empty,rfl,⟨again,?_,fun rows_ => absurd rows_ mode',fun rows_ => absurd rows_ mode',?_⟩,⟨request,forwarded',.inl ⟨rfl,?_⟩⟩⟩
    · rw [pending_,keeps]
      simp [Result.tuples]
    · rw [if_pos forwarded',whole']
    · rw [← keeps,← exhausted.complete,whole']
  | true =>
    obtain ⟨batch,fetched⟩ := found rfl
    have visits := fetched.nonempty
    cases first : batch.selection.next 0 with
    | none => exact absurd (batch.selection.visits_eq.trans (Selection.rowsFrom_none first)) visits
    | some row =>
      have selected := inputSelectRow_ok fetched.input fetched.unfinished (next_selected first)
      refine ⟨next,.batch batch,?_,⟨again,?_,fun rows_ => absurd rows_ mode',fun rows_ => absurd rows_ mode',?_⟩,
        ⟨request,forwarded',.inr ⟨nofun,?_⟩⟩⟩
      · simp only [fetched.active,fetched.nextRow,first,selected]
        rfl
      · rw [pending_,fetched.keeps,List.append_nil,Result.tuples]
        exact congrArg (· ++ config.shown batch) delivers
      · rw [if_pos forwarded',whole']
      · simpa [Result.tuples,Config.shown] using visits

theorem execRow_eq (config : Config π δ) (state : State π δ) :
    execRow config state =
      match if state.activeBatch.isSome then .ok (state,true) else fetchBatch config state with
      | .error message => .error message
      | .ok (next,false) => .ok (next,.empty)
      | .ok (next,true) =>
        match next.activeBatch, next.nextRow with
        | some batch, some row =>
          match takeRow config next.input row with
          | .error message => .error message
          | .ok tuple => .ok ({next with nextRow := batch.selection.next (row + 1)},.row tuple)
        | _, _ =>
          match inputFinish next.input with
          | .error message => .error message
          | .ok input => execRow config {next with input := input, activeBatch := none} := by
  rw [execRow]
  split <;> rename_i result <;> simp only [result]
  split
  · rename_i next _ _ batch row active nextRow
    cases taken : takeRow config next.input row <;> simp only [active,nextRow,taken]
  · split <;> rename_i finished <;> simp only [finished]

/-- The row at hand is returned, and the next one found. -/
theorem serving_row {state : State π δ} (serving : Serving config keep satisfied tracks rows state delivered)
    (mode : state.request.outputMode = .rows) {batch : Batch δ} {row : Nat} (active : state.activeBatch = some batch)
    (nextRow : state.nextRow = some row) :
    takeRow config state.input row = .ok (config.view batch row) ∧
      Serving config keep satisfied tracks rows {state with nextRow := batch.selection.next (row + 1)}
        (delivered ++ [config.view batch row]) := by
  obtain ⟨input,unfinished,selects⟩ := serving.held mode batch active
  have selected := selects row nextRow
  have fetching := serving.fetching
  refine ⟨takeRow_ok input unfinished selected,⟨fetching.tracked,fetching.stop,fetching.attached,fetching.wanted⟩,
    ?_,?_,?_,serving.whole⟩
  · rw [← serving.delivers]
    simp only [pending,mode,active,nextRow,Option.elim_some,Selection.rowsFrom_self selected,Selection.rowsFrom_next,
      List.map_cons,List.append_assoc,List.singleton_append]
  · intro _ other same
    cases active.symm.trans same
    exact ⟨input,unfinished,fun found next => next_selected next⟩
  · intro _ none_
    cases active.symm.trans none_

theorem execRow_fetch (realises : Realises config keep satisfied tracks) {state : State π δ}
    (serving : Serving config keep satisfied tracks rows state delivered) (mode : state.request.outputMode = .rows)
    (forwarded : state.requestForwarded = true) (inactive : state.activeBatch = none) :
    ∃ next result, execRow config state = .ok (next,result) ∧
      Serving config keep satisfied tracks rows next (delivered ++ result.tuples config) ∧
      Answered config keep rows delivered state.request next result := by
  have delivers := serving.delivers
  have whole := serving.whole
  rw [if_pos forwarded] at whole
  simp only [pending,mode,inactive,List.append_nil] at delivers
  obtain ⟨next,more,fetched,again,same,ended,found⟩ :=
    fetchBatch_spec realises state serving.fetching (serving.free mode inactive)
  have request : next.request = state.request := same.request
  have mode' : next.request.outputMode = .rows := by rw [request,mode]
  have forwarded' : next.requestForwarded = true := same.forwarded.trans forwarded
  have whole' : if next.requestForwarded then config.seen next.input ++ config.ahead next.input = rows
      else next.input.fetched = [] := by
    rw [if_pos forwarded',same.rows,whole]
  rw [execRow_eq,inactive,Option.isSome_none,if_neg Bool.false_ne_true,fetched]
  cases more with
  | false =>
    have exhausted := ended rfl
    have inactive' : next.activeBatch = none := exhausted.active.trans inactive
    have keeps : keep (config.seen next.input) = delivered := exhausted.keeps.trans delivers.symm
    refine ⟨next,.empty,rfl,⟨again,?_,fun _ batch active => ?_,fun _ _ => exhausted.unfinished,whole'⟩,⟨request,forwarded',.inl ⟨rfl,?_⟩⟩⟩
    · simp [pending,mode',inactive',keeps,Result.tuples]
    · cases inactive'.symm.trans active
    · rw [if_pos forwarded'] at whole'
      rw [← keeps,← exhausted.complete,whole']
  | true =>
    obtain ⟨batch,fetched⟩ := found rfl
    cases first : batch.selection.next 0 with
    | none => exact absurd (batch.selection.visits_eq.trans (Selection.rowsFrom_none first)) fetched.nonempty
    | some row =>
      have nextRow := fetched.nextRow.trans first
      -- The batch is at hand, and none of its rows has been returned.
      have serving' : Serving config keep satisfied tracks rows next delivered := by
        refine ⟨again,?_,?_,?_,whole'⟩
        · simp only [pending,mode',fetched.active,fetched.nextRow,Selection.rowsFrom_next]
          rw [fetched.keeps,← delivers,Config.shown,Selection.visits_eq]
        · intro _ other active
          cases fetched.active.symm.trans active
          exact ⟨fetched.input,fetched.unfinished,fun found next => by
            rw [fetched.nextRow] at next
            exact next_selected next⟩
        · intro _ none_
          cases fetched.active.symm.trans none_
      obtain ⟨taken,served⟩ := serving_row serving' mode' fetched.active nextRow
      refine ⟨_,.row (config.view batch row),?_,served,⟨request,forwarded',.inr ⟨nofun,by simp [Result.tuples]⟩⟩⟩
      simp only [fetched.active,nextRow,taken]

theorem execRow_spec (realises : Realises config keep satisfied tracks) {state : State π δ}
    (serving : Serving config keep satisfied tracks rows state delivered) (mode : state.request.outputMode = .rows)
    (forwarded : state.requestForwarded = true) :
    ∃ next result, execRow config state = .ok (next,result) ∧
      Serving config keep satisfied tracks rows next (delivered ++ result.tuples config) ∧
      Answered config keep rows delivered state.request next result := by
  cases active : state.activeBatch with
  | none => exact execRow_fetch realises serving mode forwarded active
  | some batch =>
    obtain ⟨input,unfinished,selects⟩ := serving.held mode batch active
    cases nextRow : state.nextRow with
    | some row =>
      obtain ⟨taken,served⟩ := serving_row serving mode active nextRow
      refine ⟨_,.row (config.view batch row),?_,served,⟨rfl,forwarded,.inr ⟨nofun,by simp [Result.tuples]⟩⟩⟩
      rw [execRow_eq,active,Option.isSome_some,if_pos rfl]
      simp only [active,nextRow,taken]
    | none =>
      -- The batch is finished, and the next one fetched.
      have finished : inputFinish state.input = .ok {state.input with active := none, unfinished := false} := by
        simp only [inputFinish,input,unfinished,if_true]
      have delivers := serving.delivers
      simp only [pending,mode,active,nextRow,Option.elim_none,List.map_nil,List.append_nil] at delivers
      have serving' : Serving config keep satisfied tracks rows {state with
          input := {state.input with active := none, unfinished := false}
          activeBatch := none} delivered := by
        refine ⟨⟨serving.fetching.tracked,serving.fetching.stop,nofun,serving.fetching.wanted⟩,?_,nofun,fun _ _ => rfl,
          serving.whole⟩
        simp only [pending,mode,List.append_nil]
        exact delivers
      obtain ⟨next,result,ran,served,answered⟩ := execRow_fetch realises serving' mode forwarded rfl
      refine ⟨next,result,?_,served,answered⟩
      rw [execRow_eq,active,Option.isSome_some,if_pos rfl]
      simp only [active,nextRow,finished]
      simpa only [nextRow] using ran

/-- The first call forwards the request, and the child starts its scan under it. -/
theorem open_spec (child : ∀ request scan, (config.child request scan).flatMap config.shown = rows)
    (columns : config.childColumns = config.ncolumns) {state : State π δ}
    (serving : Serving config keep satisfied tracks rows state delivered) :
    ∃ opened, (if state.requestForwarded then .ok state else forwardRequest config state) = .ok opened ∧
      Serving config keep satisfied tracks rows opened delivered ∧ opened.request = state.request ∧
      opened.input.unfinished = state.input.unfinished ∧ opened.requestForwarded = true := by
  cases forwarded : state.requestForwarded with
  | true => exact ⟨state,if_pos rfl,serving,rfl,rfl,forwarded⟩
  | false =>
    rw [if_neg Bool.false_ne_true,forwardRequest,if_neg (not_not.mpr columns)]
    have fetching := serving.fetching
    have unread := serving.whole
    rw [forwarded,if_neg Bool.false_ne_true] at unread
    refine ⟨_,rfl,⟨⟨fetching.tracked,fetching.stop,fetching.attached,fetching.wanted⟩,serving.delivers,serving.held,
      serving.free,?_⟩,rfl,rfl,rfl⟩
    rw [if_pos rfl]
    simp only [Config.seen,Config.ahead,unread,List.flatMap_nil,List.nil_append]
    exact child _ _

theorem exec_opened {state opened : State π δ}
    (ready : (if state.requestForwarded then .ok state else forwardRequest config state) = .ok opened) :
    exec config state = match opened.request.outputMode with
      | .batch => execBatch config opened
      | .rows => execRow config opened := by
  unfold exec
  cases mode : opened.request.outputMode <;> simp only [ready,mode]

/-- One call of `pg_batch_unary_exec`, by a consumer that has finished its batch. -/
theorem exec_spec (realises : Realises config keep satisfied tracks)
    (child : ∀ request scan, (config.child request scan).flatMap config.shown = rows)
    (columns : config.childColumns = config.ncolumns) {state : State π δ}
    (serving : Serving config keep satisfied tracks rows state delivered)
    (released : state.request.outputMode = .batch → state.input.unfinished = false) :
    ∃ next result, exec config state = .ok (next,result) ∧
      Serving config keep satisfied tracks rows next (delivered ++ result.tuples config) ∧
      Answered config keep rows delivered state.request next result := by
  obtain ⟨opened,ready,serving',request,released',forwarded⟩ := open_spec child columns serving
  rw [exec_opened ready,← request]
  cases mode : opened.request.outputMode with
  | batch => exact execBatch_spec realises serving' mode forwarded (released'.trans (released (request ▸ mode)))
  | rows => exact execRow_spec realises serving' mode forwarded

/-- A consumer that has not finished its batch gets an error, or the end of a scan
that has been stopped. -/
theorem exec_unreleased (realises : Realises config keep satisfied tracks)
    (child : ∀ request scan, (config.child request scan).flatMap config.shown = rows)
    (columns : config.childColumns = config.ncolumns) {state next : State π δ} {result : Result δ}
    (serving : Serving config keep satisfied tracks rows state delivered) (mode : state.request.outputMode = .batch)
    (unfinished : state.input.unfinished = true) (ran : exec config state = .ok (next,result)) :
    Serving config keep satisfied tracks rows next (delivered ++ result.tuples config) ∧
      Answered config keep rows delivered state.request next result := by
  obtain ⟨opened,ready,serving',request,same,forwarded⟩ := open_spec child columns serving
  have fetching := serving'.fetching
  have mode' : opened.request.outputMode = .batch := by rw [request,mode]
  have apart : opened.request.outputMode ≠ .rows := by
    rw [mode']
    decide
  have delivers := serving'.delivers
  simp only [pending,mode',List.append_nil] at delivers
  have whole := serving'.whole
  rw [if_pos forwarded] at whole
  rw [exec_opened ready,mode'] at ran
  rcases Bool.eq_false_or_eq_true opened.stopped with stopped | going
  · have fetched : fetchBatch config {opened with activeBatch := none} = .ok ({opened with activeBatch := none},false) := by
      rw [fetchBatch_eq]
      exact if_pos stopped
    rw [execBatch_fetched fetched] at ran
    obtain ⟨rfl,rfl⟩ := Prod.mk.inj (Except.ok.inj ran)
    refine ⟨⟨⟨fetching.tracked,fetching.stop,fetching.attached,fetching.wanted⟩,?_,fun rows_ => absurd rows_ apart,
      fun rows_ => absurd rows_ apart,serving'.whole⟩,⟨request,forwarded,.inl ⟨rfl,?_⟩⟩⟩
    · simp only [Result.tuples,pending,mode',List.append_nil]
      exact delivers
    · rw [delivers,← whole]
      exact (realises.final _ _ (fetching.stop.mp stopped)).symm
  · -- The input refuses to go on.
    have held := fetching.attached (same.trans unfinished)
    have refused : fetchBatch config {opened with activeBatch := none} =
        .error "pg_batch input requested a new batch before finishing the previous one" := by
      rw [fetchBatch_eq]
      simp only [going,Bool.false_eq_true,if_false,inputNext,held,same.trans unfinished,if_true]
    unfold execBatch at ran
    rw [refused] at ran
    cases ran

theorem exec_served (realises : Realises config keep satisfied tracks)
    (child : ∀ request scan, (config.child request scan).flatMap config.shown = rows)
    (columns : config.childColumns = config.ncolumns) {state next : State π δ} {result : Result δ}
    (serving : Serving config keep satisfied tracks rows state delivered) (ran : exec config state = .ok (next,result)) :
    Serving config keep satisfied tracks rows next (delivered ++ result.tuples config) ∧
      Answered config keep rows delivered state.request next result := by
  by_cases held : state.request.outputMode = .batch ∧ state.input.unfinished = true
  · exact exec_unreleased realises child columns serving held.1 held.2 ran
  · obtain ⟨_,_,same,served⟩ := exec_spec realises child columns serving
      (fun mode => Bool.eq_false_iff.mpr fun unfinished => held ⟨mode,unfinished⟩)
    obtain ⟨rfl,rfl⟩ := Prod.mk.inj (Except.ok.inj (ran.symm.trans same))
    exact served

/-- The consumer has finished the batch it was handed. -/
theorem Serving.finish {state : State π δ} (serving : Serving config keep satisfied tracks rows state delivered)
    (mode : state.request.outputMode = .batch) :
    Serving config keep satisfied tracks rows {state with input := {state.input with unfinished := false}} delivered := by
  have fetching := serving.fetching
  have apart : state.request.outputMode ≠ .rows := by
    rw [mode]
    decide
  exact ⟨⟨fetching.tracked,fetching.stop,nofun,fetching.wanted⟩,serving.delivers,fun same => absurd same apart,
    fun same => absurd same apart,serving.whole⟩

/-- A node that has not begun its scan. -/
structure Idle (config : Config π δ) (satisfied : List (Tuple δ) → Prop) (rows : List (Tuple δ)) (state : State π δ) :
    Prop where
  fetched : state.input.fetched = []
  released : state.input.unfinished = false
  inactive : state.activeBatch = none
  running : state.stopped = false
  wanted : Lazy config satisfied state.input
  whole : state.requestForwarded = true → config.ahead state.input = rows

theorem create_idle (privateData : π) (request childRequest : RequestSpec) :
    Idle config satisfied rows (create privateData request childRequest) :=
  ⟨rfl,rfl,rfl,rfl,fun _ member => absurd member (List.not_mem_nil),nofun⟩

theorem rescan_idle {state : State π δ} (child : ∀ request scan, (config.child request scan).flatMap config.shown = rows)
    (wanted : Lazy config satisfied state.input) : Idle config satisfied rows (rescan config state) :=
  ⟨rfl,rfl,rfl,rfl,wanted,fun _ => child _ _⟩

theorem Idle.serving (realises : Realises config keep satisfied tracks) {state : State π δ}
    (idle : Idle config satisfied rows state) {privateData : π} {stopped : Bool} (tracked : tracks privateData [])
    (stop : stopped = true ↔ satisfied []) :
    Serving config keep satisfied tracks rows {state with privateData := privateData, stopped := stopped} [] := by
  have seen : config.seen state.input = [] := by
    rw [Config.seen,idle.fetched,List.flatMap_nil]
  refine ⟨⟨seen ▸ tracked,seen ▸ stop,?_,idle.wanted⟩,?_,?_,fun _ _ => idle.released,?_⟩
  · intro unfinished
    cases idle.released.symm.trans unfinished
  · have nothing : pending config {state with privateData := privateData, stopped := stopped} = [] := by
      unfold pending
      rw [idle.inactive]
      split
      · rename_i active
        cases active
      · rfl
    rw [nothing,seen,realises.nothing,List.nil_append]
  · intro _ batch active
    cases idle.inactive.symm.trans active
  · by_cases forwarded : state.requestForwarded = true
    · rw [if_pos forwarded,seen,idle.whole forwarded,List.nil_append]
    · rw [if_neg forwarded]
      exact idle.fetched

end Fetch

end PgBatch.Unary
