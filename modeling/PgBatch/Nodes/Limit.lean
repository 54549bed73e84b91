import PgBatch.Runtime.UnaryRun
import Mathlib.Logic.Relation

/-! `PgBatchLimit` (`examples/limit_node/executor.c`) over the unary runtime. -/
namespace PgBatch.Limit
open Unary
variable {δ : Type}

/-- The counters of `BatchLimitState`. -/
structure Counters where
  offsetRemaining : Int
  countRemaining : Int
  noCount : Bool
deriving DecidableEq, Repr

/-- The body of the loop of `trim_batch`, with `remaining`: whether the row stays selected. -/
def trimRow (state : Counters × Nat) (_row : Nat) : Except String ((Counters × Nat) × Bool) :=
  let (counters,remaining) := state
  if 0 < counters.offsetRemaining then
    .ok (({counters with offsetRemaining := counters.offsetRemaining - 1},remaining),false)
  else if !counters.noCount && counters.countRemaining == 0 then .ok ((counters,remaining),false)
  else if !counters.noCount then
    .ok (({counters with countRemaining := counters.countRemaining - 1},remaining + 1),true)
  else .ok ((counters,remaining + 1),true)

def trimBatch (counters : Counters) (batch : Unary.Batch δ) : Except String (Processed Counters δ) := do
  let (selection,counters,remaining) ← batch.selection.sift trimRow batch.selection.nrows 0 (counters,0)
  .ok ⟨counters,{batch with selection := selection},remaining,!counters.noCount && counters.countRemaining == 0⟩

/-- What `limit_begin` sets up: the child, the layout's target columns, and the two
expressions, each absent or with a value that may be NULL. -/
structure Plan (δ : Type) where
  child : RequestSpec → Nat → List (Unary.Batch δ)
  childColumns : Nat
  ncolumns : Nat
  targets : List Nat
  offset : Option (Option Int)
  count : Option (Option Int)

def Plan.config (plan : Plan δ) : Config Counters δ where
  child := plan.child
  childColumns := plan.childColumns
  ncolumns := plan.ncolumns
  filterColumns := ∅
  projectColumns := plan.targets.toFinset
  maxRows := 0
  rowMode := .copyRow plan.targets
  process := some trimBatch

/-- `BatchLimitState`; `tupleBound` is what the child was told by `ExecSetTupleBound`. -/
structure LimitState (δ : Type) where
  unary : State Counters δ
  tupleBound : Int
  limitsReady : Bool

def computeLimits (plan : Plan δ) (state : LimitState δ) : Except String (LimitState δ) :=
  let offsetRemaining := plan.offset.join.getD 0
  if offsetRemaining < 0 then .error "OFFSET must not be negative"
  else
    let noCount := plan.count.join.isNone
    let countRemaining := plan.count.join.getD 0
    if countRemaining < 0 then .error "LIMIT must not be negative"
    else .ok {
      unary := {state.unary with
        privateData := ⟨offsetRemaining,countRemaining,noCount⟩
        stopped := state.unary.stopped || (!noCount && countRemaining == 0)}
      tupleBound := if noCount || decide (2 ^ 63 - 1 - offsetRemaining < countRemaining) then -1
        else offsetRemaining + countRemaining
      limitsReady := true}

def limitExec (plan : Plan δ) (state : LimitState δ) : Except String (LimitState δ × Result δ) :=
  match if state.limitsReady then .ok state else computeLimits plan state with
  | .error message => .error message
  | .ok state => match exec plan.config state.unary with
    | .error message => .error message
    | .ok (unary,result) => .ok ({state with unary := unary},result)

def limitRescan (plan : Plan δ) (state : LimitState δ) : LimitState δ :=
  {state with unary := rescan plan.config state.unary, limitsReady := false}

/-- The state `limit_begin` leaves, with the requests of the consumer and of the child. -/
def limitBegin (request childRequest : RequestSpec) : LimitState δ :=
  ⟨create ⟨0,0,false⟩ request childRequest,-1,false⟩

/-- The node with what its consumer was given since the last (re)start of the scan. -/
structure Session (δ : Type) where
  node : LimitState δ
  delivered : List (Tuple δ)
  ended : Bool

/-- A consumer that stops at the end of the scan, finishes the batches it was handed,
and may rescan at any point. -/
inductive Step (plan : Plan δ) : Session δ → Session δ → Prop
  | exec (session node result) (going : session.ended = false) (ran : limitExec plan session.node = .ok (node,result)) :
      Step plan session ⟨node,session.delivered ++ result.tuples plan.config,result.isEmpty⟩
  | finish (session) (mode : session.node.unary.request.outputMode = .batch)
      (held : session.node.unary.input.unfinished = true) :
      Step plan session {session with node := {session.node with
        unary := {session.node.unary with input := {session.node.unary.input with unfinished := false}}}}
  | rescan (session) : Step plan session ⟨limitRescan plan session.node,[],false⟩

/-- The sessions of a node whose consumer asked for `request`. -/
def Reached (plan : Plan δ) (request childRequest : RequestSpec) (session : Session δ) : Prop :=
  Relation.ReflTransGen (Step plan) ⟨limitBegin request childRequest,[],false⟩ session

/-- The rows behind the first `skip`, and of these the first `take`. -/
def window {α : Type} (skip : Nat) (take : Option Nat) (rows : List α) : List α :=
  take.elim (rows.drop skip) (rows.drop skip).take

def Plan.skip (plan : Plan δ) : Nat := (plan.offset.join.getD 0).toNat

def Plan.take (plan : Plan δ) : Option Nat := plan.count.join.map Int.toNat

/-- The rows hold all that the limit lets through. -/
def Plan.Satisfied (plan : Plan δ) (rows : List (Tuple δ)) : Prop :=
  ∃ limit, plan.take = some limit ∧ limit ≤ rows.length - plan.skip

/-- What a consumer may rely on, with the rows of the child given. -/
structure Delivers (plan : Plan δ) (rows : List (Tuple δ)) (session : Session δ) : Prop where
  order : session.delivered <+: window plan.skip plan.take rows
  complete : session.ended = true → session.delivered = window plan.skip plan.take rows
  wanted : ∀ asked ∈ session.node.unary.input.asked, asked.unfinished = false ∧
    ¬ plan.Satisfied (asked.before.flatMap (Unary.Batch.tuples plan.targets))
  answers : session.ended = false →
    (session.node.unary.request.outputMode = .batch → session.node.unary.input.unfinished = false) →
    ∃ node result, limitExec plan session.node = .ok (node,result) ∧
      (result = .empty ∨ result.tuples plan.config ≠ [])

/-- The counters once `seen` rows have gone by. -/
def countersAt (skip : Nat) (take : Option Nat) (seen : Nat) : Counters :=
  ⟨(skip - seen : Nat),((take.map (· - (seen - skip))).getD 0 : Nat),take.isNone⟩

theorem countersAt_add (skip : Nat) (take : Option Nat) (seen more : Nat) :
    countersAt (skip - seen) (take.map (· - (seen - skip))) more = countersAt skip take (seen + more) := by
  cases take with
  | none => simp [countersAt,Nat.sub_sub]
  | some limit =>
    simp only [countersAt,Option.map_some,Option.getD_some,Option.isNone_some,Counters.mk.injEq,and_true]
    constructor <;> omega

theorem window_append {α : Type} (skip : Nat) (take : Option Nat) (seen more : List α) :
    window skip take (seen ++ more) =
      window skip take seen ++ window (skip - seen.length) (take.map (· - (seen.length - skip))) more := by
  cases take with
  | none => simp [window,List.drop_append]
  | some limit => simp [window,List.drop_append,List.take_append]

theorem trimRow_eq (skip : Nat) (take : Option Nat) (remaining row : Nat) :
    trimRow (countersAt skip take 0,remaining) row =
      .ok ((countersAt skip take 1,remaining + (window skip take [row]).length),!(window skip take [row]).isEmpty) := by
  rcases skip with _ | skip
  · rcases take with _ | _ | limit
    · simp [trimRow,countersAt,window]
    · simp [trimRow,countersAt,window]
    · have positive : ((limit : Int) + 1 == 0) = false := by
        rw [beq_eq_false_iff_ne]
        omega
      simp [trimRow,countersAt,window,positive]
  · have positive : (0 : Int) < (skip : Int) + 1 := by omega
    cases take <;> simp [trimRow,countersAt,window,positive]

/-- The loop of `trim_batch` over a list of rows. -/
theorem siftRows_trim (rows : List Nat) (skip : Nat) (take : Option Nat) (remaining : Nat) :
    Selection.siftRows trimRow rows (countersAt skip take 0,remaining) =
      .ok (window skip take rows,countersAt skip take rows.length,remaining + (window skip take rows).length) := by
  induction rows generalizing skip take remaining with
  | nil => cases take <;> simp [Selection.siftRows,window]
  | cons row rest ih =>
    have first := countersAt_add skip take 1 0
    have counters := countersAt_add skip take 1 rest.length
    have rows := window_append skip take [row] rest
    simp only [List.length_singleton,List.singleton_append] at rows
    unfold Selection.siftRows
    rw [trimRow_eq]
    change (Selection.siftRows trimRow rest (countersAt skip take (1 + 0),_) >>= _) = _
    rw [← first,ih,rows,counters,List.length_cons,Nat.add_comm 1]
    change Except.ok _ = Except.ok _
    congr 1
    refine Prod.ext ?_ (Prod.ext rfl ?_)
    · cases kept : window skip take [row] with
      | nil => rfl
      | cons one more =>
        have alone : one :: more = [row] := by
          have sub : (window skip take [row]).Sublist [row] := by
            cases take with
            | none => exact List.drop_sublist ..
            | some limit => exact (List.take_sublist ..).trans (List.drop_sublist ..)
          rw [kept] at sub
          exact sub.eq_of_length_le (Nat.succ_le_succ (Nat.zero_le _))
        rw [alone]
        rfl
    · simp only [List.length_append]
      omega

theorem window_map {α β : Type} (view : α → β) (skip : Nat) (take : Option Nat) (rows : List α) :
    window skip take (rows.map view) = (window skip take rows).map view := by
  cases take with
  | none => exact (List.map_drop ..).symm
  | some limit => simp [window]

theorem stops_iff (skip : Nat) (take : Option Nat) (seen : Nat) :
    (!(countersAt skip take seen).noCount && (countersAt skip take seen).countRemaining == 0) = true ↔
      ∃ limit, take = some limit ∧ limit ≤ seen - skip := by
  cases take with
  | none => simp [countersAt]
  | some limit =>
    simp only [countersAt,Option.isNone_some,Option.map_some,Option.getD_some,Bool.not_false,Bool.true_and,beq_iff_eq,
      Option.some.injEq,exists_eq_left']
    omega

/-- One batch, once `seen` rows have gone by. -/
theorem trimBatch_spec (skip : Nat) (take : Option Nat) (seen : Nat) (batch : Unary.Batch δ) :
    ∃ selection, selection.visits = window (skip - seen) (take.map (· - (seen - skip))) batch.selection.visits ∧
      trimBatch (countersAt skip take seen) batch =
        .ok ⟨countersAt skip take (seen + batch.selection.visits.length),{batch with selection := selection},
          selection.visits.length,!(countersAt skip take (seen + batch.selection.visits.length)).noCount &&
            (countersAt skip take (seen + batch.selection.visits.length)).countRemaining == 0⟩ := by
  have start := countersAt_add skip take seen 0
  have after := countersAt_add skip take seen batch.selection.visits.length
  have sifted := siftRows_trim batch.selection.visits (skip - seen) (take.map (· - (seen - skip))) 0
  rw [start,after,Nat.add_zero,Nat.zero_add] at sifted
  obtain ⟨selection,ran,_,visits⟩ := Selection.sift_visits sifted
  refine ⟨selection,visits,?_⟩
  unfold trimBatch
  rw [ran,visits]
  rfl

/-- `trim_batch` computes the window, whatever batches the rows come in. -/
theorem trimBatch_realises (plan : Plan δ) : Realises plan.config (window plan.skip plan.take) plan.Satisfied
    (fun counters seen => counters = countersAt plan.skip plan.take seen.length) where
  nothing := by cases plan.take <;> simp [window]
  final := by
    rintro seen more ⟨limit,take,enough⟩
    rw [window_append,take]
    simp [window,Nat.sub_eq_zero_of_le enough]
  runs := by
    rintro counters seen batch rfl _
    obtain ⟨selection,visits,ran⟩ := trimBatch_spec plan.skip plan.take seen.length batch
    have count : (seen ++ plan.config.shown batch).length = seen.length + batch.selection.visits.length := by
      simp [Config.shown]
    refine ⟨_,ran,by rw [count],?_,List.length_eq_zero_iff,?_⟩
    · rw [window_append]
      congr 1
      change window _ _ (batch.selection.visits.map (batch.tuple plan.targets)) =
        selection.visits.map (batch.tuple plan.targets)
      rw [window_map,visits]
    · rw [Plan.Satisfied,count]
      exact stops_iff ..

/-- `compute_limits`, for an OFFSET and a LIMIT that are not negative. -/
theorem computeLimits_spec {plan : Plan δ} (offset : 0 ≤ plan.offset.join.getD 0) (count : 0 ≤ plan.count.join.getD 0)
    (state : LimitState δ) :
    ∃ limits, computeLimits plan state = .ok limits ∧ limits.limitsReady = true ∧
      limits.unary = {state.unary with
        privateData := countersAt plan.skip plan.take 0
        stopped := state.unary.stopped || (!(countersAt plan.skip plan.take 0).noCount &&
          (countersAt plan.skip plan.take 0).countRemaining == 0)} := by
  have counters : (⟨plan.offset.join.getD 0,plan.count.join.getD 0,plan.count.join.isNone⟩ : Counters) =
      countersAt plan.skip plan.take 0 := by
    simp only [countersAt,Plan.skip,Plan.take,Nat.sub_zero,Int.toNat_of_nonneg offset,Option.isNone_map,Option.map_map,
      Counters.mk.injEq,true_and,and_true]
    cases given : plan.count.join with
    | none => rfl
    | some limit =>
      rw [given] at count
      simp only [Option.map_some,Option.getD_some,Function.comp_apply,Nat.zero_sub,Nat.sub_zero]
      exact (Int.toNat_of_nonneg count).symm
  unfold computeLimits
  dsimp only
  rw [if_neg (by omega),if_neg (by omega)]
  refine ⟨_,rfl,rfl,?_⟩
  rw [← counters]

/-- What holds of a session: the node serves its scan, or has yet to begin it. -/
def Running (plan : Plan δ) (rows : List (Tuple δ)) (session : Session δ) : Prop :=
  if session.node.limitsReady then
    Serving plan.config (window plan.skip plan.take) plan.Satisfied
      (fun counters seen => counters = countersAt plan.skip plan.take seen.length) rows session.node.unary session.delivered ∧
      (session.ended = true → session.delivered = window plan.skip plan.take rows)
  else Idle plan.config plan.Satisfied rows session.node.unary ∧ session.delivered = [] ∧ session.ended = false

section Run
variable {plan : Plan δ} {rows : List (Tuple δ)}

theorem Running.wanted {session : Session δ} (running : Running plan rows session) :
    Lazy plan.config plan.Satisfied session.node.unary.input := by
  unfold Running at running
  split at running
  · exact running.1.fetching.wanted
  · exact running.1.wanted

/-- The limits are computed by the first call of the scan. -/
theorem ready_spec (offset : 0 ≤ plan.offset.join.getD 0) (count : 0 ≤ plan.count.join.getD 0) {session : Session δ}
    (running : Running plan rows session) :
    ∃ opened, (if session.node.limitsReady then .ok session.node else computeLimits plan session.node) = .ok opened ∧
      opened.limitsReady = true ∧ opened.unary.request = session.node.unary.request ∧
      opened.unary.input.unfinished = session.node.unary.input.unfinished ∧
      Serving plan.config (window plan.skip plan.take) plan.Satisfied
        (fun counters seen => counters = countersAt plan.skip plan.take seen.length) rows opened.unary session.delivered := by
  unfold Running at running
  split at running
  · rename_i limits
    exact ⟨session.node,if_pos limits,limits,rfl,rfl,running.1⟩
  · rename_i limits
    obtain ⟨idle,fresh,_⟩ := running
    obtain ⟨opened,ran,ready,unary⟩ := computeLimits_spec offset count session.node
    refine ⟨opened,by rw [if_neg limits,ran],ready,by rw [unary],by rw [unary],?_⟩
    rw [unary,fresh,idle.running,Bool.false_or]
    exact idle.serving (trimBatch_realises plan) rfl (stops_iff plan.skip plan.take 0)

theorem limitExec_opened {state opened : LimitState δ}
    (ready : (if state.limitsReady then .ok state else computeLimits plan state) = .ok opened) :
    limitExec plan state = match exec plan.config opened.unary with
      | .error message => .error message
      | .ok (unary,result) => .ok ({opened with unary := unary},result) := by
  unfold limitExec
  rw [ready]

theorem step_running (child : ∀ request scan, (plan.child request scan).flatMap (Unary.Batch.tuples plan.targets) = rows)
    (columns : plan.childColumns = plan.ncolumns) (offset : 0 ≤ plan.offset.join.getD 0)
    (count : 0 ≤ plan.count.join.getD 0) {before after : Session δ} (running : Running plan rows before)
    (step : Step plan before after) : Running plan rows after := by
  cases step with
  | exec node result going ran =>
    obtain ⟨opened,ready,limits,_,_,serving⟩ := ready_spec offset count running
    rw [limitExec_opened ready] at ran
    split at ran
    · cases ran
    · rename_i unary answer answered
      obtain ⟨rfl,rfl⟩ := Prod.mk.inj (Except.ok.inj ran)
      obtain ⟨served,answers⟩ := exec_served (trimBatch_realises plan) child columns serving answered
      unfold Running
      rw [if_pos limits]
      refine ⟨served,fun ended => ?_⟩
      rcases answers.more with ⟨rfl,complete⟩ | ⟨more,_⟩
      · simpa [Result.tuples] using complete
      · cases answer with
        | empty => exact absurd rfl more
        | batch => cases ended
        | row => cases ended
  | finish mode held =>
    unfold Running at running ⊢
    split at running
    · rename_i limits
      rw [if_pos limits]
      exact ⟨running.1.finish mode,running.2⟩
    · rename_i limits
      rw [if_neg limits]
      obtain ⟨idle,fresh,going⟩ := running
      exact ⟨⟨idle.fetched,rfl,idle.inactive,idle.running,idle.wanted,idle.whole⟩,fresh,going⟩
  | rescan =>
    unfold Running
    exact ⟨rescan_idle child running.wanted,rfl,rfl⟩

theorem reached_running (child : ∀ request scan, (plan.child request scan).flatMap (Unary.Batch.tuples plan.targets) = rows)
    (columns : plan.childColumns = plan.ncolumns) (offset : 0 ≤ plan.offset.join.getD 0)
    (count : 0 ≤ plan.count.join.getD 0) {request childRequest : RequestSpec} {session : Session δ}
    (reached : Reached plan request childRequest session) : Running plan rows session := by
  induction reached with
  | refl => exact ⟨create_idle _ _ _,rfl,rfl⟩
  | tail _ step ih => exact step_running child columns offset count ih step

theorem Running.order {session : Session δ} (running : Running plan rows session) :
    session.delivered <+: window plan.skip plan.take rows := by
  unfold Running at running
  split at running
  · have serving := running.1
    have initial : session.delivered <+: window plan.skip plan.take (plan.config.seen session.node.unary.input) := by
      rw [← serving.delivers]
      exact List.prefix_append ..
    have whole := serving.whole
    split at whole
    · rw [← whole,window_append]
      exact initial.trans (List.prefix_append ..)
    · have nothing : plan.config.seen session.node.unary.input = [] := by
        rw [Config.seen,whole,List.flatMap_nil]
      rw [nothing,(trimBatch_realises plan).nothing] at initial
      rw [List.prefix_nil.mp initial]
      exact List.nil_prefix
  · rw [running.2.1]
    exact List.nil_prefix

theorem limitExec_answers (child : ∀ request scan, (plan.child request scan).flatMap (Unary.Batch.tuples plan.targets) = rows)
    (columns : plan.childColumns = plan.ncolumns) (offset : 0 ≤ plan.offset.join.getD 0)
    (count : 0 ≤ plan.count.join.getD 0) {session : Session δ} (running : Running plan rows session)
    (released : session.node.unary.request.outputMode = .batch → session.node.unary.input.unfinished = false) :
    ∃ node result, limitExec plan session.node = .ok (node,result) ∧
      (result = .empty ∨ result.tuples plan.config ≠ []) := by
  obtain ⟨opened,ready,_,mode,unfinished,serving⟩ := ready_spec offset count running
  obtain ⟨unary,result,ran,_,answered⟩ := exec_spec (trimBatch_realises plan) child columns serving
    (fun same => unfinished.trans (released (mode ▸ same)))
  refine ⟨{opened with unary := unary},result,?_,answered.more.imp And.left And.right⟩
  rw [limitExec_opened ready,ran]

/-- A consumer that goes on comes to the end. -/
theorem limit_ends (child : ∀ request scan, (plan.child request scan).flatMap (Unary.Batch.tuples plan.targets) = rows)
    (columns : plan.childColumns = plan.ncolumns) (offset : 0 ≤ plan.offset.join.getD 0)
    (count : 0 ≤ plan.count.join.getD 0) {session : Session δ} (running : Running plan rows session) :
    ∃ last, Relation.ReflTransGen (Step plan) session last ∧ last.ended = true := by
  induction left : (window plan.skip plan.take rows).length - session.delivered.length using Nat.strong_induction_on
    generalizing session with
  | _ left_ ih =>
    subst left
    cases going : session.ended with
    | true => exact ⟨session,.refl,going⟩
    | false =>
      -- The consumer first finishes the batch it holds.
      obtain ⟨free,steps,running',same,ended,released⟩ : ∃ free, Relation.ReflTransGen (Step plan) session free ∧
          Running plan rows free ∧ free.delivered = session.delivered ∧ free.ended = false ∧
          (free.node.unary.request.outputMode = .batch → free.node.unary.input.unfinished = false) := by
        by_cases held : session.node.unary.request.outputMode = .batch ∧ session.node.unary.input.unfinished = true
        · have finish := @Step.finish _ plan session held.1 held.2
          exact ⟨_,.single finish,step_running child columns offset count running finish,rfl,going,fun _ => rfl⟩
        · exact ⟨session,.refl,running,rfl,going,
            fun mode => Bool.eq_false_iff.mpr fun unfinished => held ⟨mode,unfinished⟩⟩
      obtain ⟨node,result,ran,more⟩ := limitExec_answers child columns offset count running' released
      have exec := @Step.exec _ plan free node result ended ran
      have running'' := step_running child columns offset count running' exec
      rcases more with rfl | more
      · exact ⟨_,steps.tail exec,rfl⟩
      · have bound := running''.order.length_le
        have longer : 0 < (result.tuples plan.config).length := List.length_pos_of_ne_nil more
        simp only [List.length_append,same] at bound
        obtain ⟨last,rest,ended'⟩ := ih _ (by simp only [List.length_append,same]; omega) running'' rfl
        exact ⟨last,(steps.tail exec).trans rest,ended'⟩

end Run

/-- Two batches of two rows; OFFSET 1 LIMIT 2. -/
def twoBatches : Plan Nat where
  child := fun _ _ => [⟨⟨2,by decide,fun _ => 3#64⟩,0,fun row => (0,row),fun _ row => some row⟩,
    ⟨⟨2,by decide,fun _ => 3#64⟩,0,fun row => (1,row),fun _ row => some (row + 2)⟩]
  childColumns := 1
  ncolumns := 1
  targets := [0]
  offset := some (some 1)
  count := some (some 2)

/-- A request for rows. -/
def rowRequest : RequestSpec :=
  ⟨∅,∅,.rows,0⟩

end PgBatch.Limit
