import PgBatch.Runtime.PlanData

/-! A writer and a reader of plan data agree: fields come back as they were written,
in any order, each once. -/
namespace PgBatch.PlanData
variable {δ : Type}

/-- A field with the type under which it is written. -/
inductive Value (δ : Type) where
  | int (value : Int)
  | string (value : String)
  | node (value : Option (Node δ))
  | list (value : List (Option (Node δ)))
  | intList (value : List Int)
  | bitmap (value : Finset Nat)

inductive Accessor where
  | int
  | string
  | node
  | list
  | intList
  | bitmap

def Value.accessor : Value δ → Accessor
  | .int _ => .int
  | .string _ => .string
  | .node _ => .node
  | .list _ => .list
  | .intList _ => .intList
  | .bitmap _ => .bitmap

def Value.write (writer : PlanWriter δ) (name : String) : Value δ → Except String (PlanWriter δ)
  | .int value => planWriteInt writer name value
  | .string value => planWriteString writer name (some value)
  | .node value => planWriteNode writer name value
  | .list value => planWriteList writer name (makeList value)
  | .intList value => planWriteIntList writer name (makeIntList value)
  | .bitmap value => planWriteBitmap writer name value

def Accessor.read (reader : PlanReader δ) (name : String) : Accessor → Except String (PlanReader δ × Value δ)
  | .int => (fun (after,value) => (after,.int value)) <$> planReadInt reader name
  | .string => (fun (after,value) => (after,.string value)) <$> planReadString reader name
  | .node => (fun (after,value) => (after,.node value)) <$> planReadNode reader name
  | .list => (fun (after,value) => (after,.list value)) <$> planReadList reader name
  | .intList => (fun (after,value) => (after,.intList value)) <$> planReadIntList reader name
  | .bitmap => (fun (after,value) => (after,.bitmap value)) <$> planReadBitmap reader name

/-- The writes of a plan. -/
def writeFields (writer : PlanWriter δ) (fields : List (String × Value δ)) : Except String (PlanWriter δ) :=
  fields.foldlM (fun writer field => field.2.write writer field.1) writer

def encode (kind : String) (version : Int) (fields : List (String × Value δ)) : Except String (Option (Node δ)) := do
  let writer ← planWriterCreate kind version
  let writer ← writeFields writer fields
  let finished ← planWriterFinish writer
  .ok finished.2

/-- A sequence of reads, with what they return. -/
def readFields (reader : PlanReader δ) : List (String × Accessor) → Except String (PlanReader δ × List (Value δ))
  | [] => .ok (reader,[])
  | request :: rest => do
    let (reader,value) ← request.2.read reader request.1
    let (reader,values) ← readFields reader rest
    .ok (reader,value :: values)

def Refused {α : Type} (result : Except String α) : Prop :=
  ∃ message, result = .error message

/-- The node that a field is stored as. -/
def Value.stored : Value δ → Option (Node δ)
  | .int value => some (.integer value)
  | .string value => some (.string value)
  | .node value => value
  | .list value => makeList value
  | .intList value => makeIntList value
  | .bitmap value => makeIntList (value.sort.map Int.ofNat)

def stored (field : String × Value δ) : Option (Node δ) :=
  makeList [some (.string field.1),field.2.stored]

@[simp] theorem cells_makeList (items : List (Option (Node δ))) : cells (makeList items) = some items := by
  cases items <;> rfl

@[simp] theorem intCells_makeIntList (items : List Int) : intCells (makeIntList items : Option (Node δ)) = some items := by
  cases items <;> rfl

@[simp] theorem fieldParts_stored (field : String × Value δ) : fieldParts (stored field) = some (field.1,field.2.stored) := rfl

theorem write_stored (writer : PlanWriter δ) (name : String) (value : Value δ) :
    value.write writer name = writeField writer name value.stored := by
  cases value with
  | list value => simp only [Value.write,planWriteList,cells_makeList,Value.stored]
  | intList value => simp only [Value.write,planWriteIntList,intCells_makeIntList,Value.stored]
  | _ => rfl

theorem findField_stored (name : String) (fields : List (String × Value δ)) :
    findField name (fields.map stored) =
      .ok ((fields.find? fun field => decide (field.1 = name)).map fun field => field.2.stored) := by
  induction fields with
  | nil => rfl
  | cons field rest ih =>
    rw [List.map_cons,findField,fieldParts_stored]
    by_cases same : field.1 = name
    · simp [same]
    · simp [same,ih]

theorem findField_absent {name : String} {fields : List (String × Value δ)} (absent : name ∉ fields.map Prod.fst) :
    findField name (fields.map stored) = .ok none := by
  have missing : fields.find? (fun field => decide (field.1 = name)) = none := by
    rw [List.find?_eq_none]
    intro field member same
    exact absent (List.mem_map.mpr ⟨field,member,of_decide_eq_true same⟩)
  rw [findField_stored,missing]
  rfl

theorem findField_present {field : String × Value δ} {fields : List (String × Value δ)}
    (distinct : (fields.map Prod.fst).Nodup) (member : field ∈ fields) :
    findField field.1 (fields.map stored) = .ok (some field.2.stored) := by
  obtain ⟨other,found⟩ : ∃ other, fields.find? (fun other => decide (other.1 = field.1)) = some other := by
    rw [← Option.isSome_iff_exists,List.find?_isSome]
    exact ⟨field,member,decide_eq_true rfl⟩
  have same : other = field := by
    have named : other.1 = field.1 := by simpa using List.find?_some found
    exact List.inj_on_of_nodup_map distinct (List.mem_of_find?_eq_some found) member named
  rw [findField_stored,found,same]
  rfl

/-- What a writer holds after it was given the fields. -/
def Wrote (fields : List (String × Value δ)) (writer : PlanWriter δ) : Prop :=
  writer.fields = fields.map stored ∧ writer.finished = false

theorem writeField_fresh {fields : List (String × Value δ)} {writer : PlanWriter δ} (wrote : Wrote fields writer)
    {field : String × Value δ} (named : field.1 ≠ "") (fresh : field.1 ∉ fields.map Prod.fst) :
    field.2.write writer field.1 = .ok {writer with fields := (fields ++ [field]).map stored} := by
  have absent := findField_absent fresh
  rw [write_stored]
  simp only [writeField,checkName,if_neg named,wrote.1,wrote.2,absent]
  simp only [List.map_append]
  rfl

theorem writeField_duplicate {fields : List (String × Value δ)} {writer : PlanWriter δ} (wrote : Wrote fields writer)
    {name : String} (value : Value δ) (named : name ≠ "") (again : name ∈ fields.map Prod.fst) :
    value.write writer name = .error s!"pg_batch plan field \"{name}\" is duplicated" := by
  obtain ⟨found,some⟩ : ∃ found, fields.find? (fun field => decide (field.1 = name)) = some found := by
    obtain ⟨field,member,same⟩ := List.mem_map.mp again
    rw [← Option.isSome_iff_exists,List.find?_isSome]
    exact ⟨field,member,decide_eq_true same⟩
  have present := findField_stored name fields
  rw [some] at present
  rw [write_stored]
  simp only [writeField,checkName,if_neg named,wrote.1,wrote.2,present]
  rfl

/-- A write that succeeds adds a field with a new name. -/
theorem write_ok {fields : List (String × Value δ)} {writer after : PlanWriter δ} (wrote : Wrote fields writer)
    {field : String × Value δ} (ran : field.2.write writer field.1 = .ok after) :
    field.1 ≠ "" ∧ field.1 ∉ fields.map Prod.fst ∧ Wrote (fields ++ [field]) after := by
  have named : field.1 ≠ "" := by
    intro empty
    rw [write_stored,writeField,checkName,if_pos empty] at ran
    cases ran
  have fresh : field.1 ∉ fields.map Prod.fst := by
    intro again
    rw [writeField_duplicate wrote field.2 named again] at ran
    cases ran
  rw [writeField_fresh wrote named fresh] at ran
  cases ran
  exact ⟨named,fresh,rfl,wrote.2⟩

/-- Any writes that succeed have written their fields. -/
theorem writeFields_ok {writer after : PlanWriter δ} {earlier fields : List (String × Value δ)}
    (wrote : Wrote earlier writer) (ran : writeFields writer fields = .ok after) :
    Wrote (earlier ++ fields) after ∧ ∀ field ∈ fields, field.1 ≠ "" := by
  induction fields generalizing writer earlier with
  | nil =>
    cases ran
    rw [List.append_nil]
    exact ⟨wrote,by simp⟩
  | cons field rest ih =>
    rw [writeFields,List.foldlM_cons] at ran
    obtain ⟨middle,first,others⟩ := Results.bind_ok.mp ran
    obtain ⟨named,_,held⟩ := write_ok wrote first
    obtain ⟨all,nonempty⟩ := ih held others
    rw [List.append_assoc] at all
    exact ⟨all,List.forall_mem_cons.mpr ⟨named,nonempty⟩⟩

/-- Fields with distinct names are accepted. -/
theorem writeFields_distinct (kind : String) (version : Int) {fields : List (String × Value δ)}
    (named : ∀ field ∈ fields, field.1 ≠ "") (distinct : (fields.map Prod.fst).Nodup) :
    writeFields ⟨kind,version,[],false⟩ fields = .ok ⟨kind,version,fields.map stored,false⟩ := by
  obtain ⟨last,ran,same⟩ : ∃ last, writeFields ⟨kind,version,[],false⟩ fields = .ok last ∧ _ :=
    Results.foldlM_rule (fun done writer => writer = ⟨kind,version,done.map stored,false⟩) rfl
      (fun done field rest writer split inv => by
        subst inv
        have wrote : Wrote done (⟨kind,version,done.map stored,false⟩ : PlanWriter δ) := ⟨rfl,rfl⟩
        have fresh : field.1 ∉ done.map Prod.fst := by
          rw [split,List.map_append,List.map_cons] at distinct
          exact fun again => (List.nodup_append.mp distinct).2.2 _ again _ (List.mem_cons_self ..) rfl
        exact ⟨_,writeField_fresh wrote (named field (split ▸ by simp)) fresh,rfl⟩)
  rw [ran,same]

theorem encode_ok {kind : String} {version : Int} (kinded : kind ≠ "") (positive : 0 < version)
    {fields : List (String × Value δ)} (named : ∀ field ∈ fields, field.1 ≠ "")
    (distinct : (fields.map Prod.fst).Nodup) :
    encode kind version fields =
      .ok (makeList [some (.string kind),some (.integer version),makeList (fields.map stored)]) := by
  have created : (planWriterCreate kind version : Except String (PlanWriter δ)) = .ok ⟨kind,version,[],false⟩ := by
    rw [planWriterCreate,if_neg (by simp [kinded,positive])]
  simp only [encode,created]
  change (writeFields ⟨kind,version,[],false⟩ fields >>= _) = _
  rw [writeFields_distinct kind version named distinct]
  rfl

theorem checkFields_distinct (kind : String) {earlier : List String} {fields : List (String × Value δ)}
    (distinct : (earlier ++ fields.map Prod.fst).Nodup) : checkFields kind earlier (fields.map stored) = .ok () := by
  induction fields generalizing earlier with
  | nil => rfl
  | cons field rest ih =>
    rw [List.map_cons,List.append_cons] at distinct
    have fresh : field.1 ∉ earlier := by
      intro again
      have apart := (List.nodup_append.mp distinct).1
      exact (List.nodup_append.mp apart).2.2 _ again _ (List.mem_singleton.mpr rfl) rfl
    rw [List.map_cons,checkFields,fieldParts_stored]
    simp only [if_neg fresh]
    exact ih distinct

theorem reader_ok {kind : String} {version : Int} (kinded : kind ≠ "") (positive : 0 < version)
    {fields : List (String × Value δ)} (distinct : (fields.map Prod.fst).Nodup) :
    planReaderCreate (makeList [some (.string kind),some (.integer version),makeList (fields.map stored)]) kind version =
      .ok ⟨kind,fields.map stored,[]⟩ := by
  have valid : ¬ (kind = "" ∨ version ≤ 0) := by simp [kinded,positive]
  have checked : checkFields kind [] (fields.map stored) = .ok () := checkFields_distinct kind distinct
  simp only [planReaderCreate,if_neg valid,cells_makeList,ne_eq,not_true_eq_false,if_false,checked]
  rfl

/-- A field with the name of an earlier one is refused. -/
theorem checkFields_again {kind name : String} {earlier : List String} (again : name ∈ earlier)
    {second other : Option (Node δ)} (named : fieldParts second = some (name,other))
    (middle after : List (Option (Node δ))) : Refused (checkFields kind earlier (middle ++ second :: after)) := by
  induction middle generalizing earlier with
  | nil =>
    rw [List.nil_append,checkFields,named]
    exact ⟨_,if_pos again⟩
  | cons field rest ih =>
    rw [List.cons_append,checkFields]
    cases fieldParts field with
    | none => exact ⟨_,rfl⟩
    | some parts =>
      dsimp only
      split
      · exact ⟨_,rfl⟩
      · exact ih (List.mem_append_left _ again)

theorem checkFields_shared {kind name : String} {first value second other : Option (Node δ)}
    (one : fieldParts first = some (name,value)) (two : fieldParts second = some (name,other))
    (earlier : List String) (before middle after : List (Option (Node δ))) :
    Refused (checkFields kind earlier (before ++ first :: (middle ++ second :: after))) := by
  induction before generalizing earlier with
  | nil =>
    rw [List.nil_append,checkFields,one]
    dsimp only
    split
    · exact ⟨_,rfl⟩
    · exact checkFields_again (List.mem_append_right _ (List.mem_singleton.mpr rfl)) two middle after
  | cons field rest ih =>
    rw [List.cons_append,checkFields]
    cases fieldParts field with
    | none => exact ⟨_,rfl⟩
    | some parts =>
      dsimp only
      split
      · exact ⟨_,rfl⟩
      · exact ih _

/-- Two fields of one name make a reader refuse the data. -/
theorem reader_shared {name : String} {first value second other : Option (Node δ)}
    (one : fieldParts first = some (name,value)) (two : fieldParts second = some (name,other))
    (before middle after : List (Option (Node δ))) (found kind : String) (number version : Int) :
    Refused (planReaderCreate (makeList [some (.string found),some (.integer number),
      makeList (before ++ first :: (middle ++ second :: after))]) kind version) := by
  obtain ⟨message,refused⟩ : Refused (checkFields kind [] _) := checkFields_shared one two [] before middle after
  unfold planReaderCreate
  split
  · exact ⟨_,rfl⟩
  · simp only [cells_makeList,refused]
    split
    · exact ⟨_,rfl⟩
    · split
      · exact ⟨_,rfl⟩
      · exact ⟨_,rfl⟩

/-- So does another kind or version. -/
theorem reader_differs {found kind : String} {number version : Int} (differ : (kind,version) ≠ (found,number))
    (fields : Option (Node δ)) :
    Refused (planReaderCreate (makeList [some (.string found),some (.integer number),fields]) kind version) := by
  unfold planReaderCreate
  split
  · exact ⟨_,rfl⟩
  · simp only [cells_makeList]
    split
    · exact ⟨_,rfl⟩
    · rename_i same
      split
      · exact ⟨_,rfl⟩
      · rename_i equal
        simp only [ne_eq,Decidable.not_not] at same equal
        exact absurd (by rw [same,equal]) differ

/-- A reader of the fields, in some state. -/
structure Reading (kind : String) (fields : List (String × Value δ)) (reader : PlanReader δ) : Prop where
  labelled : reader.kind = kind
  holds : reader.fields = fields.map stored
  once : reader.readNames.Nodup
  known : ∀ name ∈ reader.readNames, name ∈ fields.map Prod.fst

theorem readField_fresh {kind : String} {fields : List (String × Value δ)} {reader : PlanReader δ}
    (reading : Reading kind fields reader) (distinct : (fields.map Prod.fst).Nodup) {field : String × Value δ}
    (member : field ∈ fields) (named : field.1 ≠ "") (fresh : field.1 ∉ reader.readNames) :
    readField reader field.1 = .ok ({reader with readNames := reader.readNames ++ [field.1]},field.2.stored) := by
  have present := findField_present distinct member
  simp only [readField,checkName,if_neg named,reading.holds,if_neg fresh,present]
  rfl

/-- A field that was read, and a name that no field has, are refused. -/
theorem readField_refused {kind : String} {fields : List (String × Value δ)} {reader : PlanReader δ}
    (reading : Reading kind fields reader) {name : String}
    (bad : name ∈ reader.readNames ∨ name ∉ fields.map Prod.fst) : Refused (readField reader name) := by
  unfold readField
  by_cases named : name = ""
  · rw [checkName,if_pos named]
    exact ⟨_,rfl⟩
  · rw [checkName,if_neg named]
    by_cases again : name ∈ reader.readNames
    · exact ⟨_,if_pos again⟩
    · have absent := findField_absent (bad.resolve_left again)
      rw [if_neg again,reading.holds,absent]
      exact ⟨_,rfl⟩

theorem readField_ok {kind : String} {fields : List (String × Value δ)} {reader after : PlanReader δ}
    (reading : Reading kind fields reader) {name : String} {value : Option (Node δ)}
    (ran : readField reader name = .ok (after,value)) :
    after = {reader with readNames := reader.readNames ++ [name]} ∧ Reading kind fields after := by
  have good : name ∉ reader.readNames ∧ name ∈ fields.map Prod.fst := by
    by_contra bad
    rw [not_and_or,Decidable.not_not] at bad
    obtain ⟨message,refused⟩ := readField_refused reading bad
    rw [refused] at ran
    cases ran
  unfold readField at ran
  obtain ⟨_,_,ran⟩ := Results.bind_ok.mp ran
  rw [if_neg good.1] at ran
  obtain ⟨found,_,ran⟩ := Results.bind_ok.mp ran
  cases found with
  | none => cases ran
  | some stored =>
    cases ran
    refine ⟨rfl,reading.labelled,reading.holds,?_,?_⟩
    · exact List.nodup_append.mpr ⟨reading.once,List.nodup_singleton _,fun one first two second same =>
        good.1 (List.mem_singleton.mp second ▸ same ▸ first)⟩
    · intro other member
      rcases List.mem_append.mp member with old | new
      · exact reading.known other old
      · exact List.mem_singleton.mp new ▸ good.2


theorem map_ok {α β : Type} {convert : α → β} {result : Except String α} {value : β} :
    convert <$> result = .ok value ↔ ∃ inner, result = .ok inner ∧ convert inner = value := by
  cases result with
  | error message => exact ⟨by rintro ⟨⟩,by rintro ⟨_,⟨⟩,_⟩⟩
  | ok inner => exact ⟨by rintro ⟨⟩; exact ⟨inner,rfl,rfl⟩,by rintro ⟨_,⟨⟩,rfl⟩; rfl⟩

theorem bmsAddMember_all (members : List Nat) (start : Finset Nat) :
    (members.map Int.ofNat).foldlM bmsAddMember start = .ok (start ∪ members.toFinset) := by
  induction members generalizing start with
  | nil => simp; rfl
  | cons member rest ih =>
    have one : bmsAddMember start (Int.ofNat member) = .ok (insert member start) := by
      rw [bmsAddMember,if_neg (by simp)]
      rfl
    rw [List.map_cons,List.foldlM_cons,one]
    change (rest.map Int.ofNat).foldlM bmsAddMember (insert member start) = _
    rw [ih,List.toFinset_cons,Finset.insert_union,Finset.union_insert]

theorem planReadIntList_own {reader after : PlanReader δ} {name : String} {items : List Int}
    (ran : readField reader name = .ok (after,makeIntList items)) : planReadIntList reader name = .ok (after,items) := by
  have same := @intCells_makeIntList δ items
  refine Results.bind_ok.mpr ⟨(after,makeIntList items),ran,?_⟩
  dsimp only
  rw [same]

/-- The accessor of its type gives a stored value back. -/
theorem read_own {reader after : PlanReader δ} {name : String} {value : Value δ}
    (ran : readField reader name = .ok (after,value.stored)) :
    value.accessor.read reader name = .ok (after,value) := by
  cases value with
  | int value => simp only [Value.accessor,Accessor.read,planReadInt,ran]; rfl
  | string value => simp only [Value.accessor,Accessor.read,planReadString,ran]; rfl
  | node value => simp only [Value.accessor,Accessor.read,planReadNode,ran]; rfl
  | list value =>
    have items := cells_makeList value
    refine map_ok.mpr ⟨(after,value),Results.bind_ok.mpr ⟨(after,makeList value),ran,?_⟩,rfl⟩
    dsimp only
    rw [items]
  | intList value => exact map_ok.mpr ⟨(after,value),planReadIntList_own ran,rfl⟩
  | bitmap value =>
    have members := bmsAddMember_all value.sort ∅
    rw [Finset.empty_union,Finset.sort_toFinset] at members
    refine map_ok.mpr ⟨(after,value),?_,rfl⟩
    simp only [planReadBitmap,planReadIntList_own ran]
    change ((value.sort.map Int.ofNat).foldlM bmsAddMember ∅ >>= _) = _
    rw [members]
    rfl

/-- Every accessor reads the field, and fails where that fails. -/
theorem read_ok {reader after : PlanReader δ} {name : String} {accessor : Accessor} {value : Value δ}
    (ran : accessor.read reader name = .ok (after,value)) : ∃ inner, readField reader name = .ok (after,inner) := by
  have typed {α : Type} {decode : PlanReader δ × Option (Node δ) → Except String (PlanReader δ × α)} {item : α}
      (kept : ∀ pair result, decode pair = .ok result → result.1 = pair.1)
      (read : (readField reader name >>= decode) = .ok (after,item)) :
      ∃ inner, readField reader name = .ok (after,inner) := by
    obtain ⟨⟨middle,inner⟩,field,decoded⟩ := Results.bind_ok.mp read
    have same : after = middle := kept _ _ decoded
    exact ⟨inner,same ▸ field⟩
  have ints {items : List Int} (read : planReadIntList reader name = .ok (after,items)) :
      ∃ inner, readField reader name = .ok (after,inner) := by
    refine typed (fun pair result decoded => ?_) read
    dsimp only at decoded
    split at decoded <;> cases decoded
    rfl
  cases accessor with
  | int =>
    obtain ⟨⟨_,_⟩,inside,same⟩ := map_ok.mp ran
    obtain ⟨rfl,_⟩ := Prod.mk.inj same
    refine typed (fun pair result decoded => ?_) inside
    dsimp only at decoded
    split at decoded <;> cases decoded
    rfl
  | string =>
    obtain ⟨⟨_,_⟩,inside,same⟩ := map_ok.mp ran
    obtain ⟨rfl,_⟩ := Prod.mk.inj same
    refine typed (fun pair result decoded => ?_) inside
    dsimp only at decoded
    split at decoded <;> cases decoded
    rfl
  | node =>
    obtain ⟨⟨_,inner⟩,inside,same⟩ := map_ok.mp ran
    obtain ⟨rfl,_⟩ := Prod.mk.inj same
    exact ⟨inner,inside⟩
  | list =>
    obtain ⟨⟨_,_⟩,inside,same⟩ := map_ok.mp ran
    obtain ⟨rfl,_⟩ := Prod.mk.inj same
    refine typed (fun pair result decoded => ?_) inside
    dsimp only at decoded
    split at decoded <;> cases decoded
    rfl
  | intList =>
    obtain ⟨⟨_,_⟩,inside,same⟩ := map_ok.mp ran
    obtain ⟨rfl,_⟩ := Prod.mk.inj same
    exact ints inside
  | bitmap =>
    obtain ⟨⟨_,_⟩,inside,same⟩ := map_ok.mp ran
    obtain ⟨rfl,_⟩ := Prod.mk.inj same
    obtain ⟨⟨_,_⟩,read,later⟩ := Results.bind_ok.mp inside
    obtain ⟨_,_,ended⟩ := Results.bind_ok.mp later
    obtain ⟨rfl,_⟩ := Prod.mk.inj (Except.ok.inj ended)
    exact ints read

theorem read_refused {reader : PlanReader δ} {name : String} (accessor : Accessor)
    (refused : Refused (readField reader name)) : Refused (accessor.read reader name) := by
  cases read : accessor.read reader name with
  | error message => exact ⟨message,rfl⟩
  | ok result =>
    obtain ⟨after,value⟩ := result
    obtain ⟨_,ran⟩ := read_ok read
    obtain ⟨message,failed⟩ := refused
    rw [failed] at ran
    cases ran

/-- What a sequence of reads leaves: the names in their order. -/
theorem readFields_ok {kind : String} {fields : List (String × Value δ)} {reader after : PlanReader δ}
    (reading : Reading kind fields reader) {requests : List (String × Accessor)} {values : List (Value δ)}
    (ran : readFields reader requests = .ok (after,values)) :
    Reading kind fields after ∧ after.readNames = reader.readNames ++ requests.map Prod.fst := by
  induction requests generalizing reader values with
  | nil =>
    cases ran
    exact ⟨reading,(List.append_nil _).symm⟩
  | cons request rest ih =>
    obtain ⟨⟨middle,value⟩,first,ran⟩ := Results.bind_ok.mp ran
    obtain ⟨⟨last,others⟩,later,same⟩ := Results.bind_ok.mp ran
    cases same
    obtain ⟨inner,read⟩ := read_ok first
    obtain ⟨rfl,reading'⟩ := readField_ok reading read
    obtain ⟨reading'',names⟩ := ih reading' later
    exact ⟨reading'',names.trans (by simp)⟩

/-- Fields are read back in any order. -/
theorem readFields_own {kind : String} {fields : List (String × Value δ)} {reader : PlanReader δ}
    (reading : Reading kind fields reader) (distinct : (fields.map Prod.fst).Nodup)
    (named : ∀ field ∈ fields, field.1 ≠ "") {order : List (String × Value δ)} (known : order ⊆ fields)
    (once : (reader.readNames ++ order.map Prod.fst).Nodup) :
    ∃ after, readFields reader (order.map fun field => (field.1,field.2.accessor)) = .ok (after,order.map Prod.snd) := by
  induction order generalizing reader with
  | nil => exact ⟨reader,rfl⟩
  | cons field rest ih =>
    have member := known (List.mem_cons_self ..)
    rw [List.map_cons,List.append_cons] at once
    have fresh : field.1 ∉ reader.readNames := by
      intro again
      have apart := (List.nodup_append.mp once).1
      exact (List.nodup_append.mp apart).2.2 _ again _ (List.mem_singleton.mpr rfl) rfl
    have read := readField_fresh reading distinct member (named field member) fresh
    obtain ⟨after,ran⟩ := ih (readField_ok reading read).2 (fun _ inside => known (List.mem_cons_of_mem _ inside)) once
    refine ⟨after,?_⟩
    simp only [List.map_cons,readFields,read_own read]
    change (readFields _ _ >>= _) = _
    rw [ran]
    rfl

/-- The counts agree just when every name was read. -/
theorem planReaderFinish_ok {kind : String} {fields : List (String × Value δ)} {reader : PlanReader δ}
    (reading : Reading kind fields reader) (distinct : (fields.map Prod.fst).Nodup) :
    planReaderFinish reader = .ok () ↔ ∀ field ∈ fields, field.1 ∈ reader.readNames := by
  have parts : (fields.map stored).filterMap fieldParts = fields.map fun field => (field.1,field.2.stored) := by
    rw [List.filterMap_map,← List.filterMap_eq_map]
    rfl
  have size : reader.fields.length = (fields.map Prod.fst).length := by
    rw [reading.holds,List.length_map,List.length_map]
  unfold planReaderFinish
  constructor
  · intro finished field member
    split at finished
    · rename_i counted
      have inside : List.Subperm reader.readNames (fields.map Prod.fst) :=
        List.subperm_of_subset reading.once reading.known
      have all := inside.perm_of_length_le (by rw [counted,size])
      exact all.symm.subset (List.mem_map_of_mem member)
    · split at finished
      · cases finished
      · rename_i none_
        rw [reading.holds,parts,List.find?_eq_none] at none_
        simpa using none_ (field.1,field.2.stored) (List.mem_map.mpr ⟨field,member,rfl⟩)
  · intro read
    have all : reader.readNames.Perm (fields.map Prod.fst) := by
      apply (List.perm_ext_iff_of_nodup reading.once distinct).mpr
      intro name
      refine ⟨reading.known name,fun named => ?_⟩
      obtain ⟨field,member,rfl⟩ := List.mem_map.mp named
      exact read field member
    rw [if_pos (all.length_eq.trans size.symm)]

/-- Fields with distinct names are written, accepted by a reader of their kind and version and no other, and read
back in any order; the reader is finished just when each was read once. What is written twice, read twice or not
there is refused in every state, and so are data of which two fields share a name. -/
theorem plan_round_trip {kind : String} {version : Int} (kinded : kind ≠ "") (positive : 0 < version)
    {fields : List (String × Value δ)} (named : ∀ field ∈ fields, field.1 ≠ "")
    (distinct : (fields.map Prod.fst).Nodup) :
    (∃ data reader, encode kind version fields = .ok data ∧ planReaderCreate data kind version = .ok reader ∧
      (∀ order ⊆ fields, (order.map Prod.fst).Nodup →
        ∃ after, readFields reader (order.map fun field => (field.1,field.2.accessor)) =
          .ok (after,order.map Prod.snd)) ∧
      (∀ requests after values, readFields reader requests = .ok (after,values) →
        (planReaderFinish after = .ok () ↔ ∀ field ∈ fields, (requests.map Prod.fst).count field.1 = 1) ∧
        ∀ name accessor, name ∈ requests.map Prod.fst ∨ name ∉ fields.map Prod.fst →
          Refused (Accessor.read after name accessor)) ∧
      ∀ other number, (other,number) ≠ (kind,version) → Refused (planReaderCreate data other number)) ∧
    (∀ (sequence : List (String × Value δ)) writer, writeFields ⟨kind,version,[],false⟩ sequence = .ok writer →
      ∀ name value, name ∈ sequence.map Prod.fst → Refused (Value.write writer name value)) ∧
    ∀ (before middle after : List (Option (Node δ))) first second name value other,
      fieldParts first = some (name,value) → fieldParts second = some (name,other) →
      Refused (planReaderCreate (makeList [some (.string kind),some (.integer version),
        makeList (before ++ first :: (middle ++ second :: after))]) kind version) := by
  have reading : Reading kind fields ⟨kind,fields.map stored,[]⟩ := ⟨rfl,rfl,List.nodup_nil,by simp⟩
  refine ⟨⟨_,_,encode_ok kinded positive named distinct,reader_ok kinded positive distinct,?_,?_,?_⟩,?_,?_⟩
  · intro order known once
    exact readFields_own reading distinct named known once
  · intro requests after values ran
    obtain ⟨reading',names⟩ := readFields_ok reading ran
    rw [List.nil_append] at names
    refine ⟨?_,fun name accessor bad => read_refused accessor (readField_refused reading' (names ▸ bad))⟩
    have once := reading'.once
    rw [planReaderFinish_ok reading' distinct,names] at *
    simp only [once.count,ite_eq_left_iff,Nat.zero_ne_one,imp_false,Decidable.not_not]
  · exact fun other number differ => reader_differs differ _
  · intro sequence writer ran name value again
    obtain ⟨wrote,nonempty⟩ := writeFields_ok (⟨rfl,rfl⟩ : Wrote [] (⟨kind,version,[],false⟩ : PlanWriter δ)) ran
    obtain ⟨field,member,rfl⟩ := List.mem_map.mp again
    exact ⟨_,writeField_duplicate wrote value (nonempty field member) again⟩
  · intro before middle after first second name value other one two
    exact reader_shared one two before middle after kind kind version version

/-- The data of a scan, with a field of each type. -/
def scanFields : List (String × Value Unit) :=
  [("source_attnums",.intList [3,1]),("nfilter_columns",.int 1),("source_name",.string "heap"),
    ("source_private",.node none),("columns",.bitmap {0,2}),("exprs",.list [some (.other ()),none])]

theorem scanFields_round_trip : ∃ data reader, encode "scan" 1 scanFields = .ok data ∧
    planReaderCreate data "scan" 1 = .ok reader ∧
    ∃ after, readFields reader (scanFields.reverse.map fun field => (field.1,field.2.accessor)) =
      .ok (after,scanFields.reverse.map Prod.snd) := by
  have named : ∀ field ∈ scanFields, field.1 ≠ "" := by simp [scanFields]
  have distinct : (scanFields.map Prod.fst).Nodup := by simp [scanFields]
  obtain ⟨⟨data,reader,written,opened,order,_⟩,_⟩ :=
    plan_round_trip (by decide : "scan" ≠ "") (by decide : (0 : Int) < 1) named distinct
  have once : (scanFields.reverse.map Prod.fst).Nodup := by simp [scanFields]
  exact ⟨data,reader,written,opened,order _ (fun _ => List.mem_reverse.mp) once⟩

end PgBatch.PlanData
