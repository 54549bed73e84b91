import PgBatch.Library.Chain
import PgBatch.Nodes.ParallelBuild

/-! Linking the shared build rows (`build_or_spill_chunks` and
`detect_build_duplicate` in `nodes/parallel_hash_join.c`), one atomic step of a
participant at a time: it reads the head of a bucket, stores the link of its row,
and swaps the head. -/
namespace PgBatch.SharedChains
open Parallel Chains

/-- `MaxAllocSize`, above which `dsa_allocate` refuses, and the most backends a
parallel query has. -/
def maxAllocSize : Nat := 0x3fffffff
def maxBackends : Nat := 1025

/-- The published chunks, in the order of the directory. The directory and the bucket
array have been allocated; a backend publishes at most one chunk that is not full. -/
structure Table (τ : Type) where
  config : Config
  chunks : List (Store τ)
  backends : Nat
  sized : ∀ chunk ∈ chunks, chunk.nrows ≤ chunkRows
  hashed : ∀ chunk ∈ chunks, ∀ row, row < chunk.nrows →
    chunk.hashes row = keyHash (config.innerKeys.map fun key => chunk.values key row)
  directory : 8 * chunks.length ≤ maxAllocSize
  buckets : 4 * chooseBucketCount (chunks.map (·.nrows)).sum ≤ maxAllocSize
  full : chunkRows * chunks.length ≤ (chunks.map (·.nrows)).sum + chunkRows * backends
  few : backends ≤ maxBackends

variable {τ ι : Type} [Inhabited τ]

namespace Table

def nbuckets (table : Table τ) : Nat :=
  chooseBucketCount (table.chunks.map (·.nrows)).sum

/-- A row is known by its chunk and its place there. -/
def chunk (table : Table τ) (index : Nat) : Store τ :=
  table.chunks.getD index .zero

def hash (table : Table τ) (place : Nat × Nat) : BitVec 32 :=
  (table.chunk place.1).hashes place.2

def bucket (table : Table τ) (hash : BitVec 32) : Nat :=
  hash.toNat &&& (table.nbuckets - 1)

/-- What a link to the row is: its number plus one, as a `uint32`. -/
def code (place : Nat × Nat) : Nat :=
  (rowId place.1 place.2 + 1) % 2 ^ 32

/-- `row_chunk`. -/
def rowChunk (table : Table τ) (row : Nat) : Except String (Nat × Nat) :=
  if table.chunks.length ≤ row / chunkRows then .error "invalid pg_batch shared hash row"
  else .ok (row / chunkRows,row % chunkRows)

/-- The rows of the build side. -/
def Holds (table : Table τ) (place : Nat × Nat) : Prop :=
  place.1 < table.chunks.length ∧ place.2 < (table.chunk place.1).nrows

def keys (table : Table τ) (place : Nat × Nat) : List Int4 :=
  table.config.innerKeys.map fun key => (table.chunk place.1).values key place.2

/-- The test of `detect_build_duplicate`. -/
def duplicate (table : Table τ) (left right : Nat × Nat) : Bool :=
  sameKeyPrefix table.config (table.chunk left.1) left.2 (table.chunk right.1) right.2

end Table

/-- The shared memory that linking writes. `pushed` is a ghost: the rows that have
been swapped in, the last one first. -/
structure Shared where
  heads : Nat → Nat
  links : Nat × Nat → Nat
  hasDuplicates : Bool
  nextChunk : Nat
  pushed : List (Nat × Nat)

/-- Where a participant stands in `build_or_spill_chunks`. -/
inductive Pc where
  | claim
  | row (index row : Nat)
  | store (index row head : Nat)
  | swap (index row head : Nat)
  | inspect (index row : Nat)
  | detect (index row link : Nat)
  | done
  | stuck (message : String)
deriving DecidableEq, Repr

/-- A participant's next atomic step. -/
def execute (table : Table τ) (shared : Shared) : Pc → Shared × Pc
  | .claim =>
    ({shared with nextChunk := shared.nextChunk + 1},
      if table.chunks.length ≤ shared.nextChunk then .done else .row shared.nextChunk 0)
  | .row index row =>
    if (table.chunk index).nrows ≤ row then (shared,.claim)
    else (shared,.store index row (shared.heads (table.bucket (table.hash (index,row)))))
  | .store index row head =>
    ({shared with links := Function.update shared.links (index,row) head},.swap index row head)
  | .swap index row head =>
    let bucket := table.bucket (table.hash (index,row))
    if shared.heads bucket = head then
      ({shared with
        heads := Function.update shared.heads bucket (Table.code (index,row))
        pushed := (index,row) :: shared.pushed},.inspect index row)
    else (shared,.store index row (shared.heads bucket))
  | .inspect index row =>
    (shared,if shared.hasDuplicates then .row index (row + 1) else .detect index row (shared.links (index,row)))
  | .detect index row link =>
    if link = 0 then (shared,.row index (row + 1))
    else match table.rowChunk (link - 1) with
      | .error message => (shared,.stuck message)
      | .ok other =>
        if table.duplicate (index,row) other then ({shared with hasDuplicates := true},.row index (row + 1))
        else (shared,.detect index row (shared.links other))
  | .done => (shared,.done)
  | .stuck message => (shared,.stuck message)

structure State (ι : Type) where
  shared : Shared
  pcs : ι → Pc

/-- Nothing has been linked: `dsa_allocate0` and `initialize_shared_state`. -/
def State.initial : State ι where
  shared := ⟨fun _ => 0,fun _ => 0,false,0,[]⟩
  pcs := fun _ => .claim

def State.act [DecidableEq ι] (table : Table τ) (state : State ι) (id : ι) : State ι :=
  let (shared,pc) := execute table state.shared (state.pcs id)
  ⟨shared,Function.update state.pcs id pc⟩

/-- The state after a run, given by the order in which the participants move. -/
def State.after [DecidableEq ι] (table : Table τ) (run : List ι) : State ι :=
  run.foldl (State.act table) .initial

/-- The chunk a participant works on, and how many of its rows are linked. -/
def Pc.place : Pc → Option (Nat × Nat)
  | .row index count | .store index count _ | .swap index count _ => some (index,count)
  | .inspect index last | .detect index last _ => some (index,last + 1)
  | .claim | .done | .stuck _ => none

/-- All chunks have been claimed and linked. -/
def State.Linked (table : Table τ) (state : State ι) : Prop :=
  table.chunks.length ≤ state.shared.nextChunk ∧ ∀ id, (state.pcs id).place = none

/-- The key columns of a probe row, as `hash_join_input_value` reads them. -/
def matchesKeys (table : Table τ) (outerKeys : List Nat) (probe : Nat → Option Int4) (hash : BitVec 32)
    (place : Nat × Nat) : Bool :=
  table.hash place == hash && (table.config.innerKeys.zip outerKeys).dropLast.all fun (inner,outer) =>
    (probe outer).elim false fun value => (table.chunk place.1).values inner place.2 == value

/-- `parallel_hash_join_find_head` in the shared buckets. -/
def findHead (table : Table τ) (shared : Shared) (outerKeys : List Nat) (probe : Nat → Option Int4) (hash : BitVec 32)
    (fuel : Nat) : Option (Except String Nat) :=
  seek (fun link => table.rowChunk (link - 1)) shared.links (matchesKeys table outerKeys probe hash) fuel
    (shared.heads (table.bucket hash))

/-- `parallel_hash_join_next`, which takes the hash from the build row. -/
def nextMatch (table : Table τ) (shared : Shared) (outerKeys : List Nat) (probe : Nat → Option Int4) (buildRow : Nat)
    (fuel : Nat) : Option (Except String Nat) :=
  match table.rowChunk buildRow with
  | .error message => some (.error message)
  | .ok place =>
    seek (fun link => table.rowChunk (link - 1)) shared.links (matchesKeys table outerKeys probe (table.hash place)) fuel
      (shared.links place)

/-- The build rows that a probe row is joined with, from a first link on. -/
def matchesFrom (table : Table τ) (shared : Shared) (outerKeys : List Nat) (probe : Nat → Option Int4) (fuel : Nat) :
    Nat → Nat → Option (Except String (List Nat))
  | 0, _ => none
  | left + 1, link =>
    if link = 0 then some (.ok [])
    else match nextMatch table shared outerKeys probe (link - 1) fuel with
      | none => none
      | some (.error message) => some (.error message)
      | some (.ok link') => (matchesFrom table shared outerKeys probe fuel left link').map fun result => do
        let rest ← result
        .ok ((link - 1) :: rest)

def lookup (table : Table τ) (shared : Shared) (outerKeys : List Nat) (probe : Nat → Option Int4) (hash : BitVec 32)
    (fuel : Nat) : Option (Except String (List Nat)) :=
  match findHead table shared outerKeys probe hash fuel with
  | none => none
  | some (.error message) => some (.error message)
  | some (.ok link) => matchesFrom table shared outerKeys probe fuel fuel link

end PgBatch.SharedChains
