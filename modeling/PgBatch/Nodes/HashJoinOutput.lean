import PgBatch.Library.Chain
import PgBatch.Library.Joining
import PgBatch.Kernels.Selection

/-! The machine that turns probe batches into output batches: `produce_output` in
`nodes/hash_join.c` with `load_probe_window`, `probe_unique_rows`, `probe_round` and
`qualify_output`. What a probe batch finds in its table is left to the source of the
batches. -/
namespace PgBatch.HashJoin
open Words Chains

/-- How one turn of the loops of `fetch_probe_batch` ends. -/
inductive Fetched
  /-- It goes round again. -/
  | again
  /-- There is a probe batch. -/
  | found
  /-- There are no more. -/
  | ended
deriving DecidableEq, Repr

/-- Where the probe batches come from, and what their rows find. -/
structure Probes (σ : Type) where
  /-- One turn of `fetch_probe_batch`. -/
  fetch : σ → Except String (σ × Fetched)
  /-- `finish_probe_batch`. -/
  finish : σ → σ
  selection : σ → Selection
  /-- `load_probe_hash`. -/
  probeHash : σ → Nat → Option (BitVec 32)
  /-- `find_build_head`. -/
  findHead : σ → BitVec 32 → Nat → Nat
  /-- The link behind a build row. -/
  next : σ → Nat → Nat → Nat
  hasDuplicates : σ → Bool
  /-- `qualify_output` behind its first row: what it makes of the output. -/
  qualify : σ → Nat → List (Nat × Nat) → Except String (σ × List (Nat × Nat))

/-- An entry of `probe_rows` and `probe_build_rows`. -/
structure Lane where
  row : Nat
  link : Nat
deriving DecidableEq, Repr

/-- `lanes` are the active ones, `output` the rows up to `output_count`, and `nextRow` is the
row behind `next_probe_row`. -/
structure OutputState (σ : Type) where
  source : σ
  held : Bool
  nextRow : Nat
  lanes : List Lane
  probeDonePending : Bool
  output : List (Nat × Nat)
  outputQualified : Nat

/-- `output_capacity`. -/
def outputCapacity (maxRows : Int) : Nat :=
  if 0 < maxRows then (min maxRows pgBatchSize).toNat else pgBatchSize

section Machine
variable {σ : Type} (probes : Probes σ) (capacity : Nat)

/-- The loop of `load_probe_window`, over at most `left` rows. -/
def windowLoop (source : σ) : Nat → Nat → List Lane → Nat × List Lane
  | 0, nextRow, lanes => (nextRow,lanes)
  | left + 1, nextRow, lanes =>
    if pgBatchSize ≤ lanes.length then (nextRow,lanes)
    else match (probes.selection source).next nextRow with
      | none => (nextRow,lanes)
      | some row => match probes.probeHash source row with
        | some hash => windowLoop source left (row + 1) (lanes ++ [⟨row,probes.findHead source hash row⟩])
        | none => windowLoop source left (row + 1) lanes

def loadProbeWindow (state : OutputState σ) : OutputState σ :=
  let (nextRow,lanes) := windowLoop probes state.source (probes.selection state.source).nrows state.nextRow []
  {state with nextRow := nextRow, lanes := lanes}

/-- The loop of `probe_unique_rows`, over at most `left` rows. -/
def uniqueLoop (source : σ) : Nat → Nat → List (Nat × Nat) → Nat × List (Nat × Nat)
  | 0, nextRow, output => (nextRow,output)
  | left + 1, nextRow, output =>
    if capacity ≤ output.length then (nextRow,output)
    else match (probes.selection source).next nextRow with
      | none => (nextRow,output)
      | some row => match probes.probeHash source row with
        | none => uniqueLoop source left (row + 1) output
        | some hash =>
          let link := probes.findHead source hash row
          uniqueLoop source left (row + 1) (if link ≠ 0 then output ++ [(row,link - 1)] else output)

def probeUniqueRows (state : OutputState σ) : OutputState σ :=
  let (nextRow,output) :=
    uniqueLoop probes capacity state.source (probes.selection state.source).nrows state.nextRow state.output
  {state with nextRow := nextRow, output := output}

/-- The first loop of `probe_round`: the lanes it has been through, those it has not, and the output. -/
def roundLoop (next : Nat → Nat → Nat) : List Lane → List (Nat × Nat) → List Lane × List Lane × List (Nat × Nat)
  | [], output => ([],[],output)
  | lane :: rest, output =>
    if lane.link = 0 then
      let (done,others,output) := roundLoop next rest output
      (lane :: done,others,output)
    else
      let output := output ++ [(lane.row,lane.link - 1)]
      let moved : Lane := ⟨lane.row,next (lane.link - 1) lane.row⟩
      if output.length = capacity then ([moved],rest,output)
      else
        let (done,others,output) := roundLoop next rest output
        (moved :: done,others,output)

/-- `probe_round`; its second loop drops the lanes that are at their end. -/
def probeRound (state : OutputState σ) : OutputState σ :=
  let (done,others,output) := roundLoop capacity (probes.next state.source) state.lanes state.output
  {state with lanes := done.filter (fun lane => lane.link ≠ 0) ++ others, output := output}

def qualifyOutput (state : OutputState σ) : Except String (OutputState σ) :=
  if state.outputQualified = state.output.length then .ok state
  else do
    let (source,output) ← probes.qualify state.source state.outputQualified state.output
    .ok {state with source := source, output := output, outputQualified := output.length}

/-- How a turn of the loop of `produce_output` ends: with another one, or with its result. -/
inductive OutputTurn (σ : Type) where
  | again (state : OutputState σ)
  | done (state : OutputState σ) (found : Bool)

/-- The output is full: return it if it still is behind the conditions. -/
def fullOutput (state : OutputState σ) : Except String (OutputTurn σ) := do
  let state ← qualifyOutput probes state
  .ok (if state.output.length = capacity then .done state true else .again state)

/-- The probe batch is at its end: return what has come together of it, or let it go. -/
def batchEnd (state : OutputState σ) : Except String (OutputTurn σ) := do
  let state ← if state.output = [] then .ok state else qualifyOutput probes state
  if state.output = [] then .ok (.again {state with source := probes.finish state.source, held := false})
  else .ok (.done {state with probeDonePending := true} true)

/-- The part of a turn that has a probe batch, but no lanes. -/
def probeTurn (state : OutputState σ) : Except String (OutputTurn σ) :=
  if probes.hasDuplicates state.source then
    let state := loadProbeWindow probes state
    if state.lanes ≠ [] then .ok (.again state) else batchEnd probes state
  else
    let state := probeUniqueRows probes capacity state
    if state.output.length = capacity then fullOutput probes capacity state else batchEnd probes state

/-- The part of a turn that has no probe batch. -/
def fetchedTurn (state : OutputState σ) : Except String (OutputTurn σ) := do
  let (source,fetched) ← probes.fetch state.source
  match fetched with
  | .again => .ok (.again {state with source := source})
  | .found => probeTurn probes capacity {state with source := source, held := true, nextRow := 0}
  | .ended => .ok (.done {state with source := source} (decide (state.output ≠ [])))

/-- Let go of a batch whose last rows were returned by the call before. -/
def releasePending (state : OutputState σ) : OutputState σ :=
  if state.probeDonePending then
    {state with source := probes.finish state.source, held := false, probeDonePending := false}
  else state

/-- One turn of the loop of `produce_output`; the turns of `fetch_probe_batch` count as its own. -/
def outputTurn (state : OutputState σ) : Except String (OutputTurn σ) :=
  let state := releasePending probes state
  if state.lanes ≠ [] then
    let state := probeRound probes capacity state
    if state.output.length = capacity then fullOutput probes capacity state else .ok (.again state)
  else if state.held then probeTurn probes capacity state
  else fetchedTurn probes capacity state

/-- The loop, for at most `fuel` turns. -/
def outputLoop : Nat → OutputState σ → Option (Except String (OutputState σ × Bool))
  | 0, _ => none
  | fuel + 1, state =>
    match outputTurn probes capacity state with
    | .error message => some (.error message)
    | .ok (.done state found) => some (.ok (state,found))
    | .ok (.again state) => outputLoop fuel state

def produceOutput (fuel : Nat) (state : OutputState σ) : Option (Except String (OutputState σ × Bool)) :=
  outputLoop probes capacity fuel {state with output := [], outputQualified := 0}

end Machine

/-- Before the first call. -/
def outputStart {σ : Type} (source : σ) : OutputState σ :=
  ⟨source,false,0,[],false,[],0⟩

/-! What is to come out of it. -/

/-- A probe batch with what its rows find, the pairs that pass and the names of the pairs. -/
structure Content (κ : Type) where
  selection : Selection
  found : Nat → List Nat
  next : Nat → Nat → Nat
  passes : Nat × Nat → Bool
  name : Nat × Nat → κ

/-- The pairs of some rows and what they find. -/
def pairsOf (found : Nat → List Nat) (visits : List Nat) : List (Nat × Nat) :=
  visits.flatMap fun row => (found row).map (row,·)

namespace Content
variable {κ : Type}

def pairs (content : Content κ) : List (Nat × Nat) :=
  pairsOf content.found (content.selection.rowsFrom 0)

def names (content : Content κ) (pairs : List (Nat × Nat)) : List κ :=
  (pairs.filter content.passes).map content.name

/-- What the batch contributes to the output. -/
def emits (content : Content κ) : List κ :=
  content.names content.pairs

@[simp] theorem names_append (content : Content κ) (left right : List (Nat × Nat)) :
    content.names (left ++ right) = content.names left ++ content.names right := by
  simp [names]

theorem names_perm (content : Content κ) {left right : List (Nat × Nat)} (perm : left.Perm right) :
    (content.names left).Perm (content.names right) :=
  (perm.filter _).map _

end Content

/-- The lanes with what is left of their chains. -/
abbrev Work := List (Nat × List Nat)

def workPairs (work : Work) : List (Nat × Nat) :=
  work.flatMap fun item => item.2.map (item.1,·)

@[simp] theorem workPairs_append (left right : Work) : workPairs (left ++ right) = workPairs left ++ workPairs right :=
  List.flatMap_append ..

@[simp] theorem workPairs_cons (item : Nat × List Nat) (work : Work) :
    workPairs (item :: work) = item.2.map (item.1,·) ++ workPairs work := rfl

@[simp] theorem workPairs_nil : workPairs [] = [] := rfl

@[simp] theorem pairsOf_cons (found : Nat → List Nat) (row : Nat) (visits : List Nat) :
    pairsOf found (row :: visits) = (found row).map (row,·) ++ pairsOf found visits := rfl

@[simp] theorem pairsOf_append (found : Nat → List Nat) (left right : List Nat) :
    pairsOf found (left ++ right) = pairsOf found left ++ pairsOf found right :=
  List.flatMap_append ..

/-- A lane is linked to what is left of its chain. -/
def LaneLinked (next : Nat → Nat → Nat) (lane : Lane) (item : Nat × List Nat) : Prop :=
  lane.row = item.1 ∧ Chain (· + 1) (fun build => next build item.1) lane.link item.2

section Round
variable {next : Nat → Nat → Nat} {capacity : Nat}

/-- A lane is kept if something is left of its chain. -/
theorem linked_kept {lane : Lane} {item : Nat × List Nat} (linked : LaneLinked next lane item) :
    ∃ kept : Work, List.Forall₂ (LaneLinked next) ([lane].filter fun lane => lane.link ≠ 0) kept ∧
      workPairs kept = item.2.map (item.1,·) ∧ kept.length ≤ 1 := by
  have ends := linked.2.empty fun _ _ => Nat.succ_ne_zero _
  by_cases zero : lane.link = 0
  · exact ⟨[],by simp [zero],by simp [ends.mp zero],Nat.zero_le 1⟩
  · exact ⟨[item],by simpa [zero] using linked,by simp,Nat.le_refl 1⟩

theorem perm_between {α : Type} {others whole : List α} (first taken : List α) (perm : (taken ++ others).Perm whole) :
    (taken ++ (first ++ others)).Perm (first ++ whole) := by
  rw [← List.append_assoc]
  refine (List.perm_append_comm.append_right _).trans ?_
  rw [List.append_assoc]
  exact perm.append_left first

/-- A round moves heads of chains to the output, up to its capacity. -/
theorem roundLoop_spec {lanes : List Lane} {work : Work} (linked : List.Forall₂ (LaneLinked next) lanes work)
    {output : List (Nat × Nat)} (room : output.length < capacity) {done others : List Lane}
    {after : List (Nat × Nat)} (ran : roundLoop capacity next lanes output = (done,others,after)) :
    ∃ (kept : Work) (taken : List (Nat × Nat)), after = output ++ taken ∧ after.length ≤ capacity ∧
      List.Forall₂ (LaneLinked next) (done.filter (fun lane => lane.link ≠ 0) ++ others) kept ∧
      (taken ++ workPairs kept).Perm (workPairs work) ∧
      (workPairs kept).length + kept.length + (if lanes = [] then 0 else 1) ≤ (workPairs work).length + work.length := by
  induction linked generalizing output done others after with
  | nil =>
    cases ran
    exact ⟨[],[],by simp,Nat.le_of_lt room,.nil,.refl _,Nat.le_refl _⟩
  | @cons lane item lanes work one rest ih =>
    unfold roundLoop at ran
    obtain ⟨row,link⟩ := lane
    obtain ⟨row',items⟩ := item
    obtain ⟨same,chain⟩ := one
    dsimp only at same chain ran
    subst same
    cases chain with
    | nil =>
      rw [if_pos rfl] at ran
      cases inner : roundLoop capacity next lanes output with
      | mk done' more =>
        obtain ⟨others',after'⟩ := more
        rw [inner] at ran
        cases ran
        obtain ⟨kept,taken,grown,bounded,linked,perm,less⟩ := ih room inner
        refine ⟨kept,taken,grown,bounded,by simpa using linked,by simpa using perm,?_⟩
        simp only [workPairs_cons,List.map_nil,List.nil_append,List.length_cons,List.cons_ne_nil,if_false]
        omega
    | cons node items tail =>
      rw [if_neg (Nat.succ_ne_zero node),Nat.add_sub_cancel] at ran
      have behind : LaneLinked next ⟨row,next node row⟩ (row,items) := ⟨rfl,tail⟩
      obtain ⟨keep,linkedKeep,pairsKeep,fewKeep⟩ := linked_kept behind
      dsimp only at pairsKeep
      split at ran
      · rename_i full
        cases ran
        refine ⟨keep ++ work,[(row,node)],rfl,Nat.le_of_eq full,List.rel_append linkedKeep rest,?_,?_⟩
        · simp [pairsKeep]
        · simp only [workPairs_append,workPairs_cons,pairsKeep,List.length_append,List.map_cons,List.length_cons,
            List.length_map,List.cons_ne_nil,if_false]
          omega
      · rename_i notFull
        have room' : (output ++ [(row,node)]).length < capacity := by
          rw [List.length_append,List.length_singleton] at notFull ⊢
          omega
        cases inner : roundLoop capacity next lanes (output ++ [(row,node)]) with
        | mk done' more =>
          obtain ⟨others',after'⟩ := more
          rw [inner] at ran
          cases ran
          obtain ⟨kept,taken,grown,bounded,linked,perm,less⟩ := ih room' inner
          refine ⟨keep ++ kept,(row,node) :: taken,by simp [grown],bounded,?_,?_,?_⟩
          · rw [← List.singleton_append,List.filter_append,List.append_assoc]
            exact List.rel_append linkedKeep linked
          · rw [workPairs_append,pairsKeep,workPairs_cons,List.map_cons,List.cons_append,List.cons_append]
            exact (perm_between _ taken perm).cons _
          · simp only [workPairs_append,workPairs_cons,pairsKeep,List.length_append,List.map_cons,List.length_cons,
              List.length_map,List.cons_ne_nil,if_false]
            omega

end Round

section Batch
variable {σ κ : Type} {probes : Probes σ} {name : σ → Nat × Nat → κ} {source : σ} {content : Content κ} {capacity : Nat}

/-- The probe batch of a source has this content. -/
structure Serves (probes : Probes σ) (name : σ → Nat × Nat → κ) (source : σ) (content : Content κ) : Prop where
  selection : probes.selection source = content.selection
  next : probes.next source = content.next
  name : name source = content.name
  nothing : ∀ row ∈ content.selection.rowsFrom 0, probes.probeHash source row = none → content.found row = []
  chain : ∀ row ∈ content.selection.rowsFrom 0, ∀ hash, probes.probeHash source row = some hash →
    Chain (· + 1) (fun build => content.next build row) (probes.findHead source hash row) (content.found row)
  unique : probes.hasDuplicates source = false → ∀ row ∈ content.selection.rowsFrom 0, (content.found row).length ≤ 1

theorem rowsFrom_subset (selection : Selection) (row : Nat) : ∀ index ∈ selection.rowsFrom row, index ∈ selection.rowsFrom 0 := by
  intro index member
  exact Selection.mem_rowsFrom.mpr ⟨Nat.zero_le _,(Selection.mem_rowsFrom.mp member).2⟩

theorem length_rowsFrom (selection : Selection) (row : Nat) : (selection.rowsFrom row).length ≤ selection.nrows := by
  refine (List.length_filter_le ..).trans ?_
  rw [List.length_range']
  exact Nat.sub_le ..

/-- The window takes some of the next rows; without lanes there were none with a hash left. -/
theorem windowLoop_spec (serves : Serves probes name source content) {left row : Nat}
    (enough : (content.selection.rowsFrom row).length ≤ left) {lanes : List Lane} {work : Work}
    (linked : List.Forall₂ (LaneLinked content.next) lanes work) {after : Nat} {lanes' : List Lane}
    (ran : windowLoop probes source left row lanes = (after,lanes')) :
    ∃ (visits : List Nat) (added : Work), content.selection.rowsFrom row = visits ++ content.selection.rowsFrom after ∧
      List.Forall₂ (LaneLinked content.next) lanes' (work ++ added) ∧
      workPairs added = pairsOf content.found visits ∧ added.length ≤ visits.length ∧
      (lanes' = [] → content.selection.rowsFrom after = []) := by
  induction left generalizing row lanes work with
  | zero =>
    cases ran
    have none := List.length_eq_zero_iff.mp (Nat.le_zero.mp enough)
    exact ⟨[],[],rfl,by simpa using linked,rfl,Nat.le_refl 0,fun _ => none⟩
  | succ left ih =>
    unfold windowLoop at ran
    split at ran
    · rename_i full
      cases ran
      refine ⟨[],[],rfl,by simpa using linked,rfl,Nat.le_refl 0,fun empty => ?_⟩
      rw [empty] at full
      exact absurd full (by decide)
    · rw [serves.selection] at ran
      cases found : content.selection.next row with
      | none =>
        rw [found] at ran
        cases ran
        exact ⟨[],[],rfl,by simpa using linked,rfl,Nat.le_refl 0,fun _ => Selection.rowsFrom_none found⟩
      | some index =>
        obtain ⟨rows_,_,_⟩ := Selection.rowsFrom_some found
        have here := rowsFrom_subset content.selection row index (by rw [rows_]; exact List.mem_cons_self ..)
        rw [rows_,List.length_cons] at enough
        rw [found] at ran
        dsimp only at ran
        cases hashed : probes.probeHash source index with
        | none =>
          rw [hashed] at ran
          obtain ⟨visits,added,rest,linked',pairs,few,empty⟩ := ih (by omega) linked ran
          refine ⟨index :: visits,added,by rw [rows_,rest,List.cons_append],linked',?_,?_,empty⟩
          · rw [pairsOf_cons,serves.nothing index here hashed,pairs]
            rfl
          · exact Nat.le_succ_of_le few
        | some hash =>
          rw [hashed] at ran
          have one : List.Forall₂ (LaneLinked content.next) [⟨index,probes.findHead source hash index⟩]
              [(index,content.found index)] := .cons ⟨rfl,serves.chain index here hash hashed⟩ .nil
          obtain ⟨visits,added,rest,linked',pairs,few,empty⟩ := ih (by omega) (List.rel_append linked one) ran
          refine ⟨index :: visits,(index,content.found index) :: added,by rw [rows_,rest,List.cons_append],?_,?_,?_,empty⟩
          · rwa [List.append_assoc] at linked'
          · rw [workPairs_cons,pairsOf_cons,pairs]
          · exact Nat.succ_le_succ few

/-- A chain of at most one row is its head. -/
theorem single_chain {next : Nat → Nat} {link row : Nat} {items : List Nat} (chain : Chain (· + 1) next link items)
    (few : items.length ≤ 1) (output : List (Nat × Nat)) :
    (if link ≠ 0 then output ++ [(row,link - 1)] else output) = output ++ items.map (row,·) := by
  cases chain with
  | nil => simp
  | cons node items tail =>
    have single : items = [] := List.length_eq_zero_iff.mp (by rw [List.length_cons] at few; omega)
    simp [single]

/-- Without duplicates the rows go straight to the output. -/
theorem uniqueLoop_spec (serves : Serves probes name source content) (unique : probes.hasDuplicates source = false)
    {left row : Nat} (enough : (content.selection.rowsFrom row).length ≤ left) {output : List (Nat × Nat)}
    (room : output.length ≤ capacity) {after : Nat} {output' : List (Nat × Nat)}
    (ran : uniqueLoop probes capacity source left row output = (after,output')) :
    ∃ visits, content.selection.rowsFrom row = visits ++ content.selection.rowsFrom after ∧
      output' = output ++ pairsOf content.found visits ∧ output'.length ≤ capacity ∧
      (output'.length < capacity → content.selection.rowsFrom after = []) := by
  induction left generalizing row output with
  | zero =>
    cases ran
    have none := List.length_eq_zero_iff.mp (Nat.le_zero.mp enough)
    exact ⟨[],rfl,by simp [pairsOf],room,fun _ => none⟩
  | succ left ih =>
    unfold uniqueLoop at ran
    split at ran
    · rename_i full
      cases ran
      exact ⟨[],rfl,by simp [pairsOf],room,fun less => absurd full (Nat.not_le.mpr less)⟩
    · rename_i notFull
      rw [serves.selection] at ran
      cases found : content.selection.next row with
      | none =>
        rw [found] at ran
        cases ran
        exact ⟨[],rfl,by simp [pairsOf],room,fun _ => Selection.rowsFrom_none found⟩
      | some index =>
        obtain ⟨rows_,_,_⟩ := Selection.rowsFrom_some found
        have here := rowsFrom_subset content.selection row index (by rw [rows_]; exact List.mem_cons_self ..)
        rw [rows_,List.length_cons] at enough
        rw [found] at ran
        dsimp only at ran
        cases hashed : probes.probeHash source index with
        | none =>
          rw [hashed] at ran
          obtain ⟨visits,rest,grown,bounded,empty⟩ := ih (by omega) room ran
          refine ⟨index :: visits,by rw [rows_,rest,List.cons_append],?_,bounded,empty⟩
          rw [pairsOf_cons,serves.nothing index here hashed,grown]
          rfl
        | some hash =>
          rw [hashed] at ran
          dsimp only at ran
          have few := serves.unique unique index here
          rw [single_chain (serves.chain index here hash hashed) few output] at ran
          obtain ⟨visits,rest,grown,bounded,empty⟩ := ih (by omega) (by
            rw [List.length_append,List.length_map]
            omega) ran
          refine ⟨index :: visits,by rw [rows_,rest,List.cons_append],?_,bounded,empty⟩
          rw [pairsOf_cons,grown,List.append_assoc]

theorem pairsOf_visits {row after : Nat} {visits : List Nat} {pair : Nat × Nat}
    (rows_ : content.selection.rowsFrom row = visits ++ content.selection.rowsFrom after)
    (member : pair ∈ pairsOf content.found visits) : pair ∈ content.pairs := by
  obtain ⟨index,visited,here⟩ := List.mem_flatMap.mp member
  refine List.mem_flatMap.mpr ⟨index,rowsFrom_subset _ row index ?_,here⟩
  rw [rows_]
  exact List.mem_append_left _ visited

end Batch

end PgBatch.HashJoin
