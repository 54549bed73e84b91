import PgBatch.Nodes.Scan

/-! Any run of requests to a heap batch (`heap_prepare_columns`, `heap_get_datum_column`):
each one makes the cells that it asks for valid, and a valid cell is the tuple's
attribute for good. -/
namespace PgBatch.Scan
open Words Results

inductive HeapRequest where
  | prepareColumns (columns : Finset Nat) (wanted : BitVec 64) (phase : Phase)
  | getDatumColumn (column : Nat) (wanted : BitVec 64) (phase : Phase)

def HeapRequest.columns : HeapRequest → Finset Nat
  | .prepareColumns columns _ _ => columns
  | .getDatumColumn column _ _ => {column}

def HeapRequest.wanted : HeapRequest → BitVec 64
  | .prepareColumns _ wanted _ | .getDatumColumn _ wanted _ => wanted

/-- What a request leaves in the slot. -/
def serve (slot : HeapSlot) : HeapRequest → Except String HeapSlot
  | .prepareColumns columns wanted phase => heapPrepareColumns slot columns wanted phase
  | .getDatumColumn column wanted phase => (heapGetDatumColumn slot column wanted phase).map Prod.fst

/-- A batch that was loaded, after any requests. -/
structure Loaded (layout : Layout) (tuples : List HeapTuple) (slot : HeapSlot) : Prop where
  laid : slot.Laid
  sound : slot.Sound
  attnums : slot.sourceAttnums = layout.sourceAttnums
  tuples : slot.tuples = fun row => tuples.getD row ⟨(0,0),0,fun _ => none⟩

theorem loadBatch_loaded {layout : Layout} (nodup : layout.sourceAttnums.Nodup)
    (positive : ∀ attnum ∈ layout.sourceAttnums, 0 < attnum) (tableOid : Nat) (tuples : List HeapTuple) :
    Loaded layout tuples (loadBatch layout tableOid tuples) where
  laid := ⟨nodup,positive⟩
  sound := by
    intro column row valid
    simp [loadBatch,HeapSlot.valid] at valid
  attnums := rfl
  tuples := rfl

theorem Loaded.filled {layout : Layout} {tuples : List HeapTuple} {before after : HeapSlot}
    (loaded : Loaded layout tuples before) (filled : Filled before after) : Loaded layout tuples after :=
  ⟨loaded.laid.filled filled,filled.sound loaded.sound,filled.attnums.trans loaded.attnums,
    filled.tuples.trans loaded.tuples⟩

/-- The attribute that a valid cell holds. -/
theorem Loaded.cell {layout : Layout} {tuples : List HeapTuple} {slot : HeapSlot} (loaded : Loaded layout tuples slot)
    {column row : Nat} (valid : slot.valid column row = true) :
    (slot.columns column).cell row =
      (tuples.getD row ⟨(0,0),0,fun _ => none⟩).attrs (layout.sourceAttnums.getD column 0) := by
  rw [loaded.sound column row valid,loaded.tuples,HeapSlot.attnum,loaded.attnums]

/-- The two errors differ behind the word "column". -/
theorem outOfRange_ne (column : Nat) : outOfRange column ≠ notInOrder := by
  intro same
  have parts : (outOfRange column).toList =
      ("pg_batch column ".toList ++ (toString (column + 1)).toList) ++ " is out of range".toList :=
    String.toList_append.trans (congrArg (· ++ _) String.toList_append)
  have letters : (outOfRange column).toList[15]? = notInOrder.toList[15]? := congrArg (fun text => text.toList[15]?) same
  rw [parts,List.append_assoc,List.getElem?_append_left (by decide)] at letters
  exact absurd letters (by decide)

/-- What a column that is read has made valid. -/
theorem heapGetDatumColumn_covers {slot : HeapSlot} (laid : slot.Laid) {column : Nat} (wanted : BitVec 64) (phase : Phase)
    (inside : column < slot.sourceAttnums.length) :
    ∃ after, heapGetDatumColumn slot column wanted phase = .ok (after,after.columns column) ∧ Filled slot after ∧
      after.Covers column wanted := by
  unfold heapGetDatumColumn
  rw [if_neg (Nat.not_le.mpr inside)]
  by_cases missing : wanted &&& ~~~(slot.columns column).validRows = 0#64
  · rw [if_pos missing]
    refine ⟨slot,rfl,.refl slot,fun row member => ?_⟩
    by_contra invalid
    have among : row ∈ rows (wanted &&& ~~~(slot.columns column).validRows) :=
      mem_missing.mpr ⟨member,Bool.eq_false_iff.mpr invalid⟩
    rw [missing,rows_zero] at among
    cases among
  · rw [if_neg missing]
    have single : ∀ other ∈ ({column} : Finset Nat), other < slot.sourceAttnums.length := by simpa using inside
    obtain ⟨after,ran,filled,covers⟩ := heapPrepareColumns_ok laid wanted phase single
    exact ⟨after,bind_ok.mpr ⟨after,ran,rfl⟩,filled,covers column (Finset.mem_singleton_self column)⟩

/-- A request for columns of the batch is served. -/
theorem serve_ok {slot : HeapSlot} (laid : slot.Laid) {request : HeapRequest}
    (inside : ∀ column ∈ request.columns, column < slot.sourceAttnums.length) :
    ∃ after, serve slot request = .ok after ∧ Filled slot after ∧
      ∀ column ∈ request.columns, after.Covers column request.wanted := by
  cases request with
  | prepareColumns columns wanted phase => exact heapPrepareColumns_ok laid wanted phase inside
  | getDatumColumn column wanted phase =>
    obtain ⟨after,ran,filled,covers⟩ :=
      heapGetDatumColumn_covers laid wanted phase (inside column (Finset.mem_singleton_self column))
    refine ⟨after,by rw [serve,ran]; rfl,filled,fun other member => ?_⟩
    rw [Finset.mem_singleton.mp member]
    exact covers

theorem heapPrepareColumns_outside {slot : HeapSlot} {columns : Finset Nat} {wanted : BitVec 64} {phase : Phase}
    {column : Nat} (member : column ∈ columns) (outside : slot.sourceAttnums.length ≤ column) :
    heapPrepareColumns slot columns wanted phase = .ok slot ∨
      ∃ other, heapPrepareColumns slot columns wanted phase = .error (outOfRange other) := by
  unfold heapPrepareColumns
  by_cases empty : wanted = 0#64
  · exact .inl (if_pos empty)
  · rw [if_neg empty]
    have found : (columns.sort.find? fun column => decide (slot.sourceAttnums.length ≤ column)).isSome = true :=
      List.find?_isSome.mpr ⟨column,(Finset.mem_sort _).mpr member,decide_eq_true outside⟩
    obtain ⟨other,first⟩ := Option.isSome_iff_exists.mp found
    refine .inr ⟨other,?_⟩
    dsimp only
    rw [first]

/-- Any other request is refused for a column that the batch does not have, or asks for no row. -/
theorem serve_outside {slot : HeapSlot} {request : HeapRequest} {column : Nat} (member : column ∈ request.columns)
    (outside : slot.sourceAttnums.length ≤ column) :
    serve slot request = .ok slot ∨ ∃ other, serve slot request = .error (outOfRange other) := by
  cases request with
  | prepareColumns columns wanted phase => exact heapPrepareColumns_outside member outside
  | getDatumColumn other wanted phase =>
    rw [HeapRequest.columns,Finset.mem_singleton] at member
    subst member
    refine .inr ⟨column,?_⟩
    rw [serve,heapGetDatumColumn,if_pos outside]
    rfl

theorem serve_cases {slot : HeapSlot} (laid : slot.Laid) (request : HeapRequest) :
    (∃ after, serve slot request = .ok after ∧ Filled slot after) ∨
      ∃ other, serve slot request = .error (outOfRange other) := by
  by_cases inside : ∀ column ∈ request.columns, column < slot.sourceAttnums.length
  · obtain ⟨after,ran,filled,_⟩ := serve_ok laid inside
    exact .inl ⟨after,ran,filled⟩
  · push Not at inside
    obtain ⟨column,member,outside⟩ := inside
    exact (serve_outside member outside).imp (fun ran => ⟨slot,ran,.refl slot⟩) id

/-- For every batch and every run of requests: the requests served so far left in every
valid cell the attribute of its tuple; the next request does not find the columns out of
order, and if the batch has its columns it is served, makes all cells that it asks for
valid, and changes no valid cell. -/
theorem requests_materialize (layout : Layout) (nodup : layout.sourceAttnums.Nodup)
    (positive : ∀ attnum ∈ layout.sourceAttnums, 0 < attnum) (tableOid : Nat) (tuples : List HeapTuple)
    (requests : List HeapRequest) (slot : HeapSlot)
    (served : requests.foldlM serve (loadBatch layout tableOid tuples) = .ok slot) (request : HeapRequest) :
    (∀ column row, slot.valid column row = true → (slot.columns column).cell row =
      (tuples.getD row ⟨(0,0),0,fun _ => none⟩).attrs (layout.sourceAttnums.getD column 0)) ∧
    serve slot request ≠ .error notInOrder ∧
    ((∀ column ∈ request.columns, column < layout.sourceAttnums.length) →
      ∃ after, serve slot request = .ok after ∧
        (∀ column ∈ request.columns, ∀ row ∈ rows request.wanted, after.valid column row = true) ∧
        ∀ column row, slot.valid column row = true → after.valid column row = true ∧
          (after.columns column).cell row = (slot.columns column).cell row) := by
  have loaded : Loaded layout tuples slot := by
    refine foldlM_keeps (Loaded layout tuples) ?_ served (loadBatch_loaded nodup positive tableOid tuples)
    intro before request after ran loaded
    rcases serve_cases loaded.laid request with ⟨other,same,filled⟩ | ⟨column,refused⟩
    · cases ran.symm.trans same
      exact loaded.filled filled
    · cases ran.symm.trans refused
  refine ⟨fun column row valid => loaded.cell valid,fun failed => ?_,fun inside => ?_⟩
  · rcases serve_cases loaded.laid request with ⟨after,ran,_⟩ | ⟨column,refused⟩
    · cases failed.symm.trans ran
    · exact outOfRange_ne column (Except.error.inj (refused.symm.trans failed))
  · rw [← loaded.attnums] at inside
    obtain ⟨after,ran,filled,covers⟩ := serve_ok loaded.laid inside
    refine ⟨after,ran,covers,fun column row valid => ⟨filled.keeps column row valid,?_⟩⟩
    rw [loaded.cell valid,(loaded.filled filled).cell (filled.keeps column row valid)]

/-- Two columns, the second attribute first. -/
def twoBack : Layout :=
  ⟨[2,1],1,[0],[0,1]⟩

/-- A tuple that ends before its second attribute. -/
def oneAttribute : HeapTuple :=
  ⟨(0,1),1,fun attnum => some (BitVec.ofNat 64 attnum)⟩

/-- The first attribute is read for a filter, and both for the projection. -/
theorem twoBack_materialized :
    ∃ slot, [HeapRequest.getDatumColumn 1 1#64 .filter].foldlM serve (loadBatch twoBack 0 [oneAttribute]) = .ok slot ∧
      ∃ after, serve slot (.prepareColumns {0,1} 1#64 .project) = .ok after ∧ after.valid 0 0 = true ∧
        after.valid 1 0 = true := by
  have nodup : twoBack.sourceAttnums.Nodup := by decide
  have positive : ∀ attnum ∈ twoBack.sourceAttnums, 0 < attnum := by decide
  obtain ⟨slot,ran,_⟩ := serve_ok (loadBatch_loaded nodup positive 0 [oneAttribute]).laid
    (show ∀ column ∈ (HeapRequest.getDatumColumn 1 1#64 .filter).columns, column < 2 by decide)
  have served : [HeapRequest.getDatumColumn 1 1#64 .filter].foldlM serve (loadBatch twoBack 0 [oneAttribute]) = .ok slot := by
    rw [List.foldlM_cons,ran]
    rfl
  obtain ⟨_,_,next⟩ := requests_materialize twoBack nodup positive 0 [oneAttribute] _ slot served
    (.prepareColumns {0,1} 1#64 .project)
  obtain ⟨after,prepared,valid,_⟩ := next (by decide)
  have first : 0 ∈ rows 1#64 := by decide
  exact ⟨slot,served,after,prepared,valid 0 (by decide) 0 first,valid 1 (by decide) 0 first⟩

end PgBatch.Scan
