import PgBatch.Library.Result
import Mathlib.Data.Finset.Sort

/-! Named fields in the private data of a plan (`runtime/plan.c`): what a writer
has put together, a reader with the same kind and version takes apart. -/
namespace PgBatch.PlanData
variable {δ : Type}

/-- A PostgreSQL node. A pointer is `none` for `NULL`, which is the empty list of either kind too; `δ` stands
for the nodes that the codec does not look into. -/
inductive Node (δ : Type) where
  | integer (ival : Int)
  | string (sval : String)
  | list (first : Option (Node δ)) (rest : List (Option (Node δ)))
  | intList (first : Int) (rest : List Int)
  | other (node : δ)

def makeList : List (Option (Node δ)) → Option (Node δ)
  | [] => none
  | first :: rest => some (.list first rest)

def makeIntList : List Int → Option (Node δ)
  | [] => none
  | first :: rest => some (.intList first rest)

/-- A `List`, with `NIL` for the empty one. -/
def cells : Option (Node δ) → Option (List (Option (Node δ)))
  | none => some []
  | some (.list first rest) => some (first :: rest)
  | _ => none

def intCells : Option (Node δ) → Option (List Int)
  | none => some []
  | some (.intList first rest) => some (first :: rest)
  | _ => none

/-- The name and the value of a field: a list of two cells, of which the first is a `String`. -/
def fieldParts (field : Option (Node δ)) : Option (String × Option (Node δ)) :=
  match cells field with
  | some [some (.string name),value] => some (name,value)
  | _ => none

structure PlanWriter (δ : Type) where
  kind : String
  version : Int
  fields : List (Option (Node δ))
  finished : Bool

structure PlanReader (δ : Type) where
  kind : String
  fields : List (Option (Node δ))
  readNames : List String

def checkName (name : String) : Except String Unit :=
  if name = "" then .error "pg_batch plan field requires a name" else .ok ()

/-- The value of the field, where there is one. -/
def findField (name : String) : List (Option (Node δ)) → Except String (Option (Option (Node δ)))
  | [] => .ok none
  | field :: rest =>
    match fieldParts field with
    | none => .error "pg_batch received malformed plan data"
    | some (other,value) => if other = name then .ok (some value) else findField name rest

def writeField (writer : PlanWriter δ) (name : String) (value : Option (Node δ)) : Except String (PlanWriter δ) := do
  checkName name
  if writer.finished then .error "pg_batch plan writer is not active"
  else match ← findField name writer.fields with
    | some _ => .error s!"pg_batch plan field \"{name}\" is duplicated"
    | none => .ok {writer with fields := writer.fields ++ [makeList [some (.string name),value]]}

def planWriterCreate (kind : String) (version : Int) : Except String (PlanWriter δ) :=
  if kind = "" ∨ version ≤ 0 then .error "pg_batch plan writer requires a kind and version"
  else .ok ⟨kind,version,[],false⟩

def planWriteInt (writer : PlanWriter δ) (name : String) (value : Int) : Except String (PlanWriter δ) :=
  writeField writer name (some (.integer value))

def planWriteString (writer : PlanWriter δ) (name : String) (value : Option String) : Except String (PlanWriter δ) :=
  match value with
  | none => .error s!"pg_batch plan string field \"{name}\" is NULL"
  | some value => writeField writer name (some (.string value))

def planWriteNode (writer : PlanWriter δ) (name : String) (value : Option (Node δ)) : Except String (PlanWriter δ) :=
  writeField writer name value

def planWriteList (writer : PlanWriter δ) (name : String) (value : Option (Node δ)) : Except String (PlanWriter δ) :=
  match cells value with
  | none => .error s!"pg_batch plan field \"{name}\" is not a List"
  | some _ => writeField writer name value

def planWriteIntList (writer : PlanWriter δ) (name : String) (value : Option (Node δ)) : Except String (PlanWriter δ) :=
  match intCells value with
  | none => .error s!"pg_batch plan field \"{name}\" is not an IntList"
  | some _ => writeField writer name value

/-- `bms_next_member` visits the members in ascending order. -/
def planWriteBitmap (writer : PlanWriter δ) (name : String) (value : Finset Nat) : Except String (PlanWriter δ) :=
  writeField writer name (makeIntList (value.sort.map Int.ofNat))

def planWriterFinish (writer : PlanWriter δ) : Except String (PlanWriter δ × Option (Node δ)) :=
  if writer.finished then .error "pg_batch plan writer is not active"
  else .ok ({writer with finished := true},
    makeList [some (.string writer.kind),some (.integer writer.version),makeList writer.fields])

/-- The loop over the fields. The fields of a node tree are objects of their own, so the inner loop, which
stops where `other == field`, has gone through the earlier ones. -/
def checkFields (kind : String) (earlier : List String) : List (Option (Node δ)) → Except String Unit
  | [] => .ok ()
  | field :: rest =>
    match fieldParts field with
    | none => .error s!"pg_batch received malformed {kind} plan field"
    | some (name,_) =>
      if name ∈ earlier then .error s!"pg_batch {kind} plan field \"{name}\" is duplicated"
      else checkFields kind (earlier ++ [name]) rest

def planReaderCreate (data : Option (Node δ)) (kind : String) (version : Int) : Except String (PlanReader δ) :=
  if kind = "" ∨ version ≤ 0 then .error "pg_batch plan reader requires a kind and version"
  else match cells data with
    | some [some (.string found),some (.integer number),fields] =>
      if found ≠ kind then .error s!"pg_batch expected {kind} plan data, got {found}"
      else if number ≠ version then .error s!"pg_batch expected {kind} plan version {version}, got {number}"
      else match cells fields with
        | none => .error s!"pg_batch received malformed {kind} plan fields"
        | some fields => do
          checkFields kind [] fields
          .ok ⟨kind,fields,[]⟩
    | _ => .error s!"pg_batch received malformed {kind} plan data"

def readField (reader : PlanReader δ) (name : String) : Except String (PlanReader δ × Option (Node δ)) := do
  checkName name
  if name ∈ reader.readNames then .error s!"pg_batch {reader.kind} plan field \"{name}\" was read twice"
  else match ← findField name reader.fields with
    | none => .error s!"pg_batch {reader.kind} plan field \"{name}\" is missing"
    | some value => .ok ({reader with readNames := reader.readNames ++ [name]},value)

def planReadInt (reader : PlanReader δ) (name : String) : Except String (PlanReader δ × Int) := do
  let (after,value) ← readField reader name
  match value with
  | some (.integer ival) => .ok (after,ival)
  | _ => .error s!"pg_batch {reader.kind} plan field \"{name}\" is not an integer"

def planReadString (reader : PlanReader δ) (name : String) : Except String (PlanReader δ × String) := do
  let (after,value) ← readField reader name
  match value with
  | some (.string sval) => .ok (after,sval)
  | _ => .error s!"pg_batch {reader.kind} plan field \"{name}\" is not a string"

def planReadNode (reader : PlanReader δ) (name : String) : Except String (PlanReader δ × Option (Node δ)) :=
  readField reader name

def planReadList (reader : PlanReader δ) (name : String) :
    Except String (PlanReader δ × List (Option (Node δ))) := do
  let (after,value) ← readField reader name
  match cells value with
  | some items => .ok (after,items)
  | none => .error s!"pg_batch {reader.kind} plan field \"{name}\" is not a List"

def planReadIntList (reader : PlanReader δ) (name : String) : Except String (PlanReader δ × List Int) := do
  let (after,value) ← readField reader name
  match intCells value with
  | some items => .ok (after,items)
  | none => .error s!"pg_batch {reader.kind} plan field \"{name}\" is not an IntList"

def bmsAddMember (members : Finset Nat) (member : Int) : Except String (Finset Nat) :=
  if member < 0 then .error "negative bitmapset member not allowed" else .ok (insert member.toNat members)

def planReadBitmap (reader : PlanReader δ) (name : String) : Except String (PlanReader δ × Finset Nat) := do
  let (after,members) ← planReadIntList reader name
  let value ← members.foldlM bmsAddMember ∅
  .ok (after,value)

def planReaderFinish (reader : PlanReader δ) : Except String Unit :=
  if reader.readNames.length = reader.fields.length then .ok ()
  else match (reader.fields.filterMap fieldParts).find? fun field => decide (field.1 ∉ reader.readNames) with
    | some (name,_) => .error s!"pg_batch {reader.kind} plan field \"{name}\" was not read"
    | none => .ok ()

end PgBatch.PlanData
