import PgBatch.Expr.Projection

/-! What a projection returns is its expressions on the batch that it is bound to, in
whatever order the rows and columns are asked for. -/
namespace PgBatch.Expr
open Words Results

theorem nwords_mono {one two : Nat} (le : one ≤ two) : (one + 63) / 64 ≤ (two + 63) / 64 :=
  Nat.div_le_div_right (by omega)

theorem validityBytes_mono {one two : Nat} (le : one ≤ two) : validityBytes one ≤ validityBytes two :=
  Nat.div_le_div_right (by omega)

/-! The buffers of an expression always have room for the batch. -/

/-- A buffer was never allocated, or it was for the capacity. -/
def Storage.Holds (storage : Storage) (index : Bool) : Prop :=
  (storage.values index = none ∧ storage.capacity = 0) ∨
    (storage.values index = some storage.capacity ∧ storage.validity index = validityBytes storage.capacity)

def Storage.Sized (storage : Storage) (expr : Program) : Prop :=
  ∀ index ∈ expr.buffers, storage.Holds index

theorem Storage.Sized.hasRoom {storage : Storage} {expr : Program} (sized : storage.Sized expr) {nrows : Nat}
    (fits : nrows ≤ storage.capacity) : storage.hasRoom expr nrows = true := by
  refine List.all_eq_true.mpr fun index member => ?_
  have bytes := validityBytes_mono fits
  rcases sized index member with ⟨unset,zero⟩ | ⟨values,validity⟩
  · have none_ : nrows = 0 := by omega
    simp [unset,none_,validityBytes]
  · simp [values,validity,fits,bytes]

theorem growBuffer_ok {nrows : Nat} {storage : Storage} (index : Bool) (more : storage.capacity < nrows) :
    growBuffer nrows storage index = .ok {storage with
      values := Function.update storage.values index (some nrows)
      validity := Function.update storage.validity index (validityBytes nrows)} := by
  unfold growBuffer
  cases storage.values index with
  | none => rfl
  | some size => exact if_neg (Nat.not_lt.mpr (validityBytes_mono (Nat.le_of_lt more)))

theorem growBuffers_ok {nrows : Nat} {storage : Storage} (indices : List Bool) (more : storage.capacity < nrows) :
    ∃ grown, indices.foldlM (growBuffer nrows) storage = .ok grown ∧
      ∀ index ∈ indices, grown.values index = some nrows ∧ grown.validity index = validityBytes nrows := by
  obtain ⟨grown,ran,_,sized⟩ : ∃ grown, indices.foldlM (growBuffer nrows) storage = .ok grown ∧
      (grown.capacity = storage.capacity ∧
        ∀ index ∈ indices, grown.values index = some nrows ∧ grown.validity index = validityBytes nrows) := by
    refine foldlM_rule (fun done (state : Storage) => state.capacity = storage.capacity ∧
      ∀ index ∈ done, state.values index = some nrows ∧ state.validity index = validityBytes nrows) ⟨rfl,nofun⟩ ?_
    intro done index rest state _ inv
    refine ⟨_,growBuffer_ok index (inv.1 ▸ more),inv.1,fun other member => ?_⟩
    by_cases same : other = index
    · rw [same]
      simp
    · rw [List.mem_append,List.mem_singleton] at member
      obtain ⟨values,validity⟩ := inv.2 other (member.resolve_right same)
      simp [same,values,validity]
  exact ⟨grown,ran,sized⟩

theorem ensureCapacity_ok {storage : Storage} {expr : Program} (sized : storage.Sized expr) (nrows : Nat) :
    ∃ after, ensureCapacity expr nrows storage = .ok after ∧ after.Sized expr ∧ nrows ≤ after.capacity := by
  unfold ensureCapacity
  by_cases fits : nrows ≤ storage.capacity
  · exact ⟨storage,if_pos fits,sized,fits⟩
  · rw [if_neg fits]
    obtain ⟨grown,ran,allocated⟩ := growBuffers_ok expr.buffers (Nat.lt_of_not_le fits)
    exact ⟨_,bind_ok.mpr ⟨grown,ran,rfl⟩,fun index member => .inr (allocated index member),Nat.le_refl nrows⟩

/-- Its buffers change nothing in what an expression computes. -/
theorem exprGetInt4_eq {storage : Storage} {expr : Program} (sized : storage.Sized expr) (params : Params)
    (machine : Machine) (batch : Input) :
    ∃ after, after.Sized expr ∧ exprGetInt4 params expr (bind machine batch) storage =
      (getInt4 params expr (bind machine batch)).map fun result => (result.1,result.2,after) := by
  have same (after : Storage) : (getInt4 params expr (bind machine batch) >>= fun result =>
      Except.ok (result.1,result.2,after)) =
      (getInt4 params expr (bind machine batch)).map fun result => (result.1,result.2,after) := by
    cases getInt4 params expr (bind machine batch) <;> rfl
  unfold exprGetInt4
  simp only [bind]
  split
  · exact ⟨storage,sized,same storage⟩
  · obtain ⟨after,ran,sized',fits⟩ := ensureCapacity_ok sized batch.selection.nrows
    refine ⟨after,sized',?_⟩
    rw [ran]
    simp only [Bind.bind,Except.bind]
    rw [if_pos (sized'.hasRoom fits)]
    exact same after

/-! The Datum rows of a column show its vector wherever their mask says so. -/

def DatumCache.vector (cache : DatumCache) : Int4Vector :=
  .datum cache.values cache.nulls

/-- What was allocated is what the capacities say. -/
structure DatumCache.Sized (cache : DatumCache) : Prop where
  allocated : (cache.allocated = none ∧ cache.capacity = 0) ∨ cache.allocated = some (cache.capacity,cache.nwordCapacity)
  words : cache.nwordCapacity = (cache.capacity + 63) / 64

def DatumCache.Holds (cache : DatumCache) (truth : Column) : Prop :=
  ∀ word index, word < cache.nwordCapacity → (cache.rows word).getLsbD index = true →
    cache.vector.cell (64 * word + index) = truth (64 * word + index)

/-- The mask is clear. -/
def DatumCache.Clear (cache : DatumCache) : Prop :=
  ∀ word, word < cache.nwordCapacity → cache.rows word = 0#64

theorem DatumCache.Clear.holds {cache : DatumCache} (clear : cache.Clear) (truth : Column) : cache.Holds truth := by
  intro word index inside set
  rw [clear word inside] at set
  simp at set

theorem ensureDatumCapacity_ok {cache : DatumCache} (sized : cache.Sized) {nrows nwords : Nat}
    (words : nwords = (nrows + 63) / 64) :
    ∃ after, ensureDatumCapacity nrows nwords cache = .ok after ∧ after.Sized ∧ nrows ≤ after.capacity ∧
      nwords ≤ after.nwordCapacity ∧ ∀ truth, cache.Holds truth → after.Holds truth := by
  unfold ensureDatumCapacity
  by_cases fits : nrows ≤ cache.capacity ∧ nwords ≤ cache.nwordCapacity
  · rw [if_pos fits]
    exact ⟨cache,rfl,sized,fits.1,fits.2,fun _ holds => holds⟩
  · have known := sized.words
    -- More words are needed only when more rows are.
    have more : cache.capacity < nrows := by
      by_contra less
      exact fits ⟨by omega,by have := nwords_mono (Nat.le_of_not_lt less); omega⟩
    have still : cache.nwordCapacity ≤ nwords := by
      have := nwords_mono (Nat.le_of_lt more)
      omega
    have rows : max cache.capacity nrows = nrows := by omega
    have count : max cache.nwordCapacity nwords = nwords := by omega
    rw [if_neg fits]
    dsimp only
    cases allocated : cache.allocated with
    | none =>
      refine ⟨_,rfl,⟨.inr (by simp only [rows,count]),by simp only [rows,count]; exact words⟩,
        by simp only [rows]; omega,by simp only [count]; omega,fun truth _ => ?_⟩
      exact DatumCache.Clear.holds (fun _ _ => rfl) truth
    | some size =>
      dsimp only
      rw [if_neg (Nat.not_lt.mpr still)]
      refine ⟨_,rfl,⟨.inr (by simp only [rows,count]),by simp only [rows,count]; exact words⟩,
        by simp only [rows]; omega,by simp only [count]; omega,fun truth holds word index _ set => ?_⟩
      dsimp only at set
      split at set
      · rename_i old
        exact holds word index old set
      · simp at set

/-- Storing rows of a vector only adds rows to the mask. -/
structure Stored (truth : Column) (before after : DatumCache) : Prop where
  allocated : after.allocated = before.allocated
  capacity : after.capacity = before.capacity
  nwordCapacity : after.nwordCapacity = before.nwordCapacity
  keeps : ∀ word index, (before.rows word).getLsbD index = true → (after.rows word).getLsbD index = true
  holds : before.Holds truth → after.Holds truth

theorem Stored.refl (truth : Column) (cache : DatumCache) : Stored truth cache cache :=
  ⟨rfl,rfl,rfl,fun _ _ => id,id⟩

theorem Stored.trans {truth : Column} {first second third : DatumCache} (one : Stored truth first second)
    (two : Stored truth second third) : Stored truth first third :=
  ⟨two.allocated.trans one.allocated,two.capacity.trans one.capacity,two.nwordCapacity.trans one.nwordCapacity,
    fun word index set => two.keeps word index (one.keeps word index set),two.holds ∘ one.holds⟩

theorem Stored.sized {truth : Column} {before after : DatumCache} (stored : Stored truth before after)
    (sized : before.Sized) : after.Sized :=
  ⟨by rw [stored.allocated,stored.capacity,stored.nwordCapacity]; exact sized.allocated,
    by rw [stored.capacity,stored.nwordCapacity]; exact sized.words⟩

theorem storeDatum_ok {vector : Int4Vector} {cache : DatumCache} {word bitno : Nat} (small : bitno < 64)
    (room : cache.hasRow (64 * word + bitno) = true) :
    ∃ after, storeDatum vector word cache bitno = .ok after ∧ Stored vector.seen cache after ∧
      (after.rows word).getLsbD bitno = true := by
  refine ⟨_,if_pos room,⟨rfl,rfl,rfl,fun other index set => ?_,fun holds other index inside set => ?_⟩,?_⟩
  · by_cases same : other = word
    · subst same
      simp [set]
    · simpa [same] using set
  · by_cases here : other = word ∧ index = bitno
    · obtain ⟨rfl,rfl⟩ := here
      simp only [DatumCache.vector,Int4Vector.cell,Int4Vector.seen,Function.update_self]
      cases vector.rowIsNull (64 * other + index) <;> simp [datumGetInt32_int32GetDatum]
    · have old : (cache.rows other).getLsbD index = true := by
        by_cases same : other = word
        · subst same
          have apart : index ≠ bitno := fun equal => here ⟨rfl,equal⟩
          simpa [apart] using set
        · simpa [same] using set
      have bound : index < 64 := BitVec.lt_of_getLsbD old
      have apart : 64 * other + index ≠ 64 * word + bitno := fun equal => here ⟨by omega,by omega⟩
      have kept := holds other index inside old
      simpa [DatumCache.vector,Int4Vector.cell,Function.update_of_ne apart] using kept
  · simp [small]

/-- The wanted rows of a word get into the mask. -/
theorem fillWord_ok {vector : Int4Vector} {wanted : Nat → BitVec 64} {cache : DatumCache} {word : Nat}
    (inside : cache.hasWord word = true)
    (room : ∀ index, (wanted word).getLsbD index = true → cache.hasRow (64 * word + index) = true) :
    ∃ after, fillWord vector wanted cache word = .ok after ∧ Stored vector.seen cache after ∧
      ∀ index, (wanted word).getLsbD index = true → (after.rows word).getLsbD index = true := by
  unfold fillWord
  rw [if_pos inside]
  obtain ⟨after,ran,stored,set⟩ : ∃ after,
      (Words.rows (wanted word &&& ~~~cache.rows word)).foldlM (storeDatum vector word) cache = .ok after ∧
      (Stored vector.seen cache after ∧ ∀ index ∈ Words.rows (wanted word &&& ~~~cache.rows word),
        (after.rows word).getLsbD index = true) := by
    refine foldlM_rule (fun done (state : DatumCache) => Stored vector.seen cache state ∧
      ∀ index ∈ done, (state.rows word).getLsbD index = true) ⟨.refl _ cache,nofun⟩ ?_
    intro done bitno rest state split inv
    have member : bitno ∈ Words.rows (wanted word &&& ~~~cache.rows word) := by simp [split]
    have asked : (wanted word).getLsbD bitno = true := by
      have set := mem_rows.mp member
      rw [BitVec.getLsbD_and,Bool.and_eq_true] at set
      exact set.1
    have fits : state.hasRow (64 * word + bitno) = true := by
      rw [DatumCache.hasRow,inv.1.allocated]
      exact room bitno asked
    obtain ⟨next,ran,stored,set⟩ := storeDatum_ok (rows_lt member) fits
    refine ⟨next,ran,inv.1.trans stored,fun index among => ?_⟩
    rcases List.mem_append.mp among with earlier | last
    · exact stored.keeps word index (inv.2 index earlier)
    · rw [List.mem_singleton.mp last]
      exact set
  refine ⟨after,ran,stored,fun index asked => ?_⟩
  by_cases old : (cache.rows word).getLsbD index = true
  · exact stored.keeps word index old
  · refine set index (mem_rows.mpr ?_)
    rw [BitVec.getLsbD_and,BitVec.getLsbD_not,asked,Bool.eq_false_iff.mpr old]
    simp [BitVec.lt_of_getLsbD asked]

theorem fillDatums_ok {vector : Int4Vector} {wanted : Nat → BitVec 64} {nwords : Nat} {cache : DatumCache}
    (inside : ∀ word, word < nwords → cache.hasWord word = true)
    (room : ∀ word index, word < nwords → (wanted word).getLsbD index = true → cache.hasRow (64 * word + index) = true) :
    ∃ after, fillDatums vector wanted nwords cache = .ok after ∧ Stored vector.seen cache after ∧
      ∀ word index, word < nwords → (wanted word).getLsbD index = true → (after.rows word).getLsbD index = true := by
  obtain ⟨after,ran,stored,set⟩ : ∃ after, (List.range nwords).foldlM (fillWord vector wanted) cache = .ok after ∧
      (Stored vector.seen cache after ∧ ∀ word ∈ List.range nwords, ∀ index, (wanted word).getLsbD index = true →
        (after.rows word).getLsbD index = true) := by
    refine foldlM_rule (fun done (state : DatumCache) => Stored vector.seen cache state ∧ ∀ word ∈ done, ∀ index,
      (wanted word).getLsbD index = true → (state.rows word).getLsbD index = true) ⟨.refl _ cache,nofun⟩ ?_
    intro done word rest state split inv
    have bound : word < nwords := List.mem_range.mp (by simp [split])
    have here : state.hasWord word = true := by
      rw [DatumCache.hasWord,inv.1.allocated]
      exact inside word bound
    have fits (index : Nat) (asked : (wanted word).getLsbD index = true) : state.hasRow (64 * word + index) = true := by
      rw [DatumCache.hasRow,inv.1.allocated]
      exact room word index bound asked
    obtain ⟨next,ran,stored,set⟩ := fillWord_ok here fits
    refine ⟨next,ran,inv.1.trans stored,fun other among index asked => ?_⟩
    rcases List.mem_append.mp among with earlier | last
    · exact stored.keeps other index (inv.2 other earlier index asked)
    · rw [List.mem_singleton.mp last] at asked ⊢
      exact set index asked
  exact ⟨after,ran,stored,fun word index bound asked => set word (List.mem_range.mpr bound) index asked⟩

/-! The states of a projection. -/

/-- Every row of what a batch delivers finds its own validity bit. -/
def SourceBatch.Addressed (batch : SourceBatch) : Prop :=
  ∀ selection column, (batch.deliver selection column).Addressed batch.selection.nrows

section States
variable (params : Params) (resolveVar : Var → Option Nat)

/-- A vector holds the value and the NULL flag of every selected row, in its own place. -/
def Right (batch : SourceBatch) (node : Node) (vector : Int4Vector) : Prop :=
  ∀ row, batch.selection.Selected row →
    evaluate params (batch.vars resolveVar row) node = .ok (vector.cell row) ∧ vector.AddressedAt row

/-- What a column keeps is of the bound batch, at all three levels. -/
structure ColumnSound (input : Option SourceBatch) (node : Node) (output : ProjectionColumn) : Prop where
  shape : Shape resolveVar node output.expr
  storage : output.storage.Sized output.expr
  cache : output.cache.Sized
  empty : output.vector = none → output.machine.result = none ∧ output.cache.Clear
  ready : ∀ vector, output.int4 = some vector →
    ∃ batch, input = some batch ∧ Right params resolveVar batch node vector ∧ output.cache.Holds vector.seen

structure ProjectionSound (nodes : List Node) (projection : Projection) : Prop where
  length : projection.columns.length = nodes.length
  columns : ∀ (index : Nat) node output, nodes[index]? = some node → projection.columns[index]? = some output →
    ColumnSound params resolveVar projection.input node output
  addressed : ∀ batch, projection.input = some batch → batch.Addressed

variable {params resolveVar}

theorem ProjectionSound.set {nodes : List Node} {projection : Projection}
    (sound : ProjectionSound params resolveVar nodes projection) {column : Nat} {node : Node} {output : ProjectionColumn}
    (own : nodes[column]? = some node) (next : ColumnSound params resolveVar projection.input node output) :
    ProjectionSound params resolveVar nodes {projection with columns := projection.columns.set column output} := by
  refine ⟨by simpa using sound.length,fun index tree item found among => ?_,sound.addressed⟩
  dsimp only at among
  by_cases same : column = index
  · subst same
    have inside : column < projection.columns.length := by
      rw [sound.length]
      exact (List.getElem?_eq_some_iff.mp own).1
    rw [List.getElem?_set_self inside] at among
    cases among
    cases own.symm.trans found
    exact next
  · rw [List.getElem?_set_ne same] at among
    exact sound.columns index tree item found among

/-- The kernels see the cells of the batch in its selected rows. -/
theorem seenVars_current {batch : SourceBatch} (addressed : batch.Addressed) {row : Nat}
    (selected : batch.selection.Selected row) : seenVars resolveVar batch.current row = batch.vars resolveVar row := by
  funext var
  unfold seenVars SourceBatch.vars
  cases resolveVar var with
  | none => rfl
  | some column =>
    exact ((addressed batch.selection column).seen selected.1).trans (batch.delivers batch.selection column row selected)

/-- What an expression returns for the rows selected now. -/
theorem getInt4_right {batch : SourceBatch} (addressed : batch.Addressed) {node : Node} {expr : Program}
    (shape : Shape resolveVar node expr) (machine : Machine) {view : View} {after : Machine}
    (ran : getInt4 params expr (bind machine batch.current) = .ok (view,after)) :
    Right params resolveVar batch node (view.vector after.buffers) := by
  obtain ⟨_,kind,values⟩ := getInt4_ok shape params batch.current machine ran
  intro row selected
  have own : (view.vector after.buffers).AddressedAt row := by
    rcases kind with ⟨column,rfl⟩ | ⟨index,rfl⟩
    · exact Int4Vector.addressed_iff.mp (addressed batch.selection column) row selected.1
    · exact Int4Vector.addressed_iff.mp (addressed_small (show 0 + batch.selection.nrows ≤ 2 ^ 31 by
        have := batch.selection.small; omega)) row selected.1
  have value := values row selected
  rw [seenVars_current addressed selected,seen_eq_cell_iff.mpr own] at value
  exact ⟨value,own⟩

theorem bind_current {machine : Machine} (unset : machine.result = none) (batch : Input) :
    {machine with bound := some batch} = bind machine batch := by
  rw [bind,← unset]

/-- A column that has been prepared holds its expression for the selected rows. -/
theorem prepareOne_ok {nodes : List Node} {projection after : Projection}
    (sound : ProjectionSound params resolveVar nodes projection) {column : Nat}
    (ran : prepareOne params projection column = .ok after) :
    ProjectionSound params resolveVar nodes after ∧ after.input = projection.input ∧
      ∃ node output vector, nodes[column]? = some node ∧ after.columns[column]? = some output ∧
        output.int4 = some vector := by
  unfold prepareOne at ran
  split at ran
  · cases ran
  rename_i output found
  have inside : column < projection.columns.length := (List.getElem?_eq_some_iff.mp found).1
  obtain ⟨node,own⟩ : ∃ node, nodes[column]? = some node :=
    ⟨_,List.getElem?_eq_getElem (by rw [← sound.length]; exact inside)⟩
  have kept := sound.columns column node output own found
  split at ran
  · rename_i ready
    cases ran
    obtain ⟨view,same⟩ := Option.isSome_iff_exists.mp ready
    exact ⟨sound,rfl,node,output,_,own,found,by rw [ProjectionColumn.int4,same]; rfl⟩
  · rename_i unset
    obtain ⟨noResult,clear⟩ := kept.empty (Option.not_isSome_iff_eq_none.mp unset)
    obtain ⟨⟨view,machine,storage⟩,got,done⟩ := bind_ok.mp ran
    cases done
    obtain ⟨batch,bound⟩ : ∃ batch, projection.input = some batch := by
      cases bound : projection.input with
      | none =>
        rw [bound] at got
        cases got
      | some batch => exact ⟨batch,rfl⟩
    rw [bound,Option.map_some,bind_current noResult] at got
    obtain ⟨grown,sized,same⟩ := exprGetInt4_eq kept.storage params output.machine batch.current
    rw [same] at got
    cases computed : getInt4 params output.expr (bind output.machine batch.current) with
    | error message =>
      rw [computed] at got
      cases got
    | ok result =>
      rw [computed] at got
      cases got
      have right := getInt4_right (sound.addressed batch bound) kept.shape output.machine computed
      have next : ColumnSound params resolveVar projection.input node
          {output with machine := result.2, storage := storage, vector := some result.1} := by
        refine ⟨kept.shape,sized,kept.cache,fun gone => (by cases gone),fun vector shown => ?_⟩
        cases shown
        exact ⟨batch,bound,right,clear.holds _⟩
      exact ⟨sound.set own next,rfl,node,_,_,own,List.getElem?_set_self inside,rfl⟩

theorem prepareOne_total {nodes : List Node} {projection : Projection}
    (sound : ProjectionSound params resolveVar nodes projection) {batch : SourceBatch}
    (bound : projection.input = some batch) {column : Nat} {node : Node} (own : nodes[column]? = some node) {one : Nat}
    (selected : batch.selection.Selected one)
    (fine : ∀ row, batch.selection.Selected row → ∃ value, evaluate params (batch.vars resolveVar row) node = .ok value) :
    ∃ after, prepareOne params projection column = .ok after := by
  have inside : column < projection.columns.length := by
    rw [sound.length]
    exact (List.getElem?_eq_some_iff.mp own).1
  have found : projection.columns[column]? = some projection.columns[column] := List.getElem?_eq_getElem inside
  have kept := sound.columns column node _ own found
  unfold prepareOne
  rw [found]
  dsimp only
  split
  · exact ⟨projection,rfl⟩
  · rename_i unset
    obtain ⟨noResult,_⟩ := kept.empty (Option.not_isSome_iff_eq_none.mp unset)
    obtain ⟨grown,_,same⟩ := exprGetInt4_eq kept.storage params projection.columns[column].machine batch.current
    obtain ⟨result,computed⟩ := getInt4_total kept.shape params batch.current projection.columns[column].machine selected
      fun row member => by
        rw [seenVars_current (sound.addressed batch bound) member]
        exact fine row member
    rw [bound,Option.map_some,bind_current noResult,same,computed]
    exact ⟨_,rfl⟩

theorem projectionPrepareColumns_ok {nodes : List Node} {projection after : Projection} {columns : Finset Nat}
    (sound : ProjectionSound params resolveVar nodes projection)
    (ran : projectionPrepareColumns params projection columns = .ok after) :
    ProjectionSound params resolveVar nodes after ∧ after.input = projection.input := by
  refine foldlM_keeps (fun state => ProjectionSound params resolveVar nodes state ∧ state.input = projection.input) ?_ ran
    ⟨sound,rfl⟩
  intro before column next ran kept
  obtain ⟨sound,same,_⟩ := prepareOne_ok kept.1 ran
  exact ⟨sound,same.trans kept.2⟩

/-- The int4 view of a column is its expression on the selected rows. -/
theorem projectionGetInt4_ok {nodes : List Node} {projection after : Projection} {column : Nat}
    {answer : Option Int4Vector} (sound : ProjectionSound params resolveVar nodes projection)
    (ran : projectionGetInt4 params projection column = .ok (after,answer)) :
    ProjectionSound params resolveVar nodes after ∧ after.input = projection.input ∧
      ∃ node vector batch, nodes[column]? = some node ∧ answer = some vector ∧ projection.input = some batch ∧
        Right params resolveVar batch node vector := by
  obtain ⟨prepared,ready,done⟩ := bind_ok.mp ran
  cases done
  obtain ⟨sound,same,node,output,vector,own,found,shown⟩ := prepareOne_ok sound ready
  obtain ⟨batch,bound,right,_⟩ := (sound.columns column node output own found).ready vector shown
  exact ⟨sound,same,node,vector,batch,own,by rw [found,Option.bind_some,shown],same.symm.trans bound,right⟩

theorem DatumCache.Sized.hasRow {cache : DatumCache} (sized : cache.Sized) {row : Nat} (inside : row < cache.capacity) :
    cache.hasRow row = true := by
  rcases sized.allocated with ⟨_,zero⟩ | allocated
  · omega
  · rw [DatumCache.hasRow,allocated]
    exact decide_eq_true inside

theorem DatumCache.Sized.hasWord {cache : DatumCache} (sized : cache.Sized) {word : Nat}
    (inside : word < cache.nwordCapacity) : cache.hasWord word = true := by
  rcases sized.allocated with ⟨_,zero⟩ | allocated
  · have := sized.words
    omega
  · rw [DatumCache.hasWord,allocated]
    exact decide_eq_true inside

/-- The Datum view of a prepared column shows its vector in the wanted rows. -/
theorem datums_ok {batch : SourceBatch} {output : ProjectionColumn} {vector : Int4Vector} {wanted : Nat → BitVec 64}
    (sized : output.cache.Sized) (holds : output.cache.Holds vector.seen)
    (asked : ∀ word index, word < batch.selection.nwords → (wanted word).getLsbD index = true →
      batch.selection.Selected (64 * word + index)) :
    ∃ grown after, ensureDatumCapacity batch.selection.nrows batch.selection.nwords output.cache = .ok grown ∧
      fillDatums vector wanted batch.selection.nwords grown = .ok after ∧ after.Sized ∧ after.Holds vector.seen ∧
      ∀ word index, word < batch.selection.nwords → (wanted word).getLsbD index = true →
        after.vector.cell (64 * word + index) = vector.seen (64 * word + index) := by
  obtain ⟨grown,ensured,sized,rows,words,keeps⟩ :=
    ensureDatumCapacity_ok sized (show batch.selection.nwords = (batch.selection.nrows + 63) / 64 from rfl)
  obtain ⟨after,filled,stored,set⟩ := @fillDatums_ok vector wanted _ _
    (fun word inside => sized.hasWord (Nat.lt_of_lt_of_le inside words))
    fun word index inside bit => sized.hasRow (Nat.lt_of_lt_of_le (asked word index inside bit).1 rows)
  have right := stored.holds (keeps _ holds)
  refine ⟨grown,after,ensured,filled,stored.sized sized,right,fun word index inside bit => ?_⟩
  refine right word index ?_ (set word index inside bit)
  rw [stored.nwordCapacity]
  exact Nat.lt_of_lt_of_le inside words

/-- The Datum view of a column is its expression on the wanted rows. -/
theorem projectionGetDatumColumn_ok {nodes : List Node} {projection after : Projection} {column : Nat}
    {wanted : Nat → BitVec 64} {answer : Option Int4Vector} (sound : ProjectionSound params resolveVar nodes projection)
    (legal : (ProjectionCall.getDatumColumn column wanted).Legal projection)
    (ran : projectionGetDatumColumn params projection column wanted = .ok (after,answer)) :
    ProjectionSound params resolveVar nodes after ∧ after.input = projection.input ∧
      ∃ node vector batch, nodes[column]? = some node ∧ answer = some vector ∧ projection.input = some batch ∧
        ∀ word index, word < batch.selection.nwords → (wanted word).getLsbD index = true →
          evaluate params (batch.vars resolveVar (64 * word + index)) node = .ok (vector.cell (64 * word + index)) := by
  obtain ⟨prepared,ready,rest⟩ := bind_ok.mp ran
  obtain ⟨sound,same,node,output,vector,own,found,shown⟩ := prepareOne_ok sound ready
  have kept := sound.columns column node output own found
  obtain ⟨batch,bound,right,holds⟩ := kept.ready vector shown
  have asked := legal batch (same ▸ bound)
  obtain ⟨grown,cache,ensured,filled,sized,holds',cells⟩ := datums_ok kept.cache holds asked
  simp only [bound,found,shown] at rest
  rw [ensured] at rest
  simp only [Bind.bind,Except.bind,filled,Except.ok.injEq,Prod.mk.injEq] at rest
  obtain ⟨rfl,rfl⟩ := rest
  have unset : output.vector ≠ none := by
    intro unset
    rw [ProjectionColumn.int4,unset] at shown
    cases shown
  have next : ColumnSound params resolveVar prepared.input node {output with cache := cache} := by
    refine ⟨kept.shape,kept.storage,sized,fun gone => absurd gone unset,fun other other_shown => ?_⟩
    cases shown.symm.trans other_shown
    exact ⟨batch,bound,right,holds'⟩
  refine ⟨by simpa only [bound] using sound.set own next,bound.symm.trans same,node,_,batch,own,rfl,
    same.symm.trans bound,fun word index inside bit => ?_⟩
  obtain ⟨value,placed⟩ := right _ (asked word index inside bit)
  rw [value,← seen_eq_cell_iff.mpr placed,← cells word index inside bit]
  rfl

/-! Runs of calls. -/

theorem projectionCreate_sound {nodes : List Node} {fresh : Projection}
    (created : projectionCreate nodes resolveVar = .ok fresh) : ProjectionSound params resolveVar nodes fresh := by
  obtain ⟨exprs,compiled,done⟩ := bind_ok.mp created
  cases done
  obtain ⟨length,each⟩ := mapM_ok compiled
  refine ⟨by rw [List.length_map,length],fun index node output own found => ?_,fun batch bound => (by cases bound)⟩
  rw [List.getElem?_map] at found
  obtain ⟨expr,among,rfl⟩ := Option.map_eq_some_iff.mp found
  refine ⟨compileInt4_shape (each index node expr own among),fun buffer _ => .inl ⟨rfl,rfl⟩,
    ⟨.inl ⟨rfl,rfl⟩,by simp [ProjectionColumn.empty]⟩,fun _ => ⟨rfl,fun _ _ => rfl⟩,fun vector shown => (by cases shown)⟩

/-- A bind keeps nothing of the batches before it. -/
theorem projectionBind_empty (projection : Projection) (batch : SourceBatch) :
    ∀ output ∈ (projectionBind projection batch).columns,
      output.vector = none ∧ output.machine.result = none ∧ output.cache.Clear := by
  intro output member
  obtain ⟨before,_,rfl⟩ := List.mem_map.mp member
  exact ⟨rfl,rfl,fun word inside => if_pos inside⟩

theorem projectionBind_sound {nodes : List Node} {projection : Projection}
    (sound : ProjectionSound params resolveVar nodes projection) {batch : SourceBatch} (addressed : batch.Addressed) :
    ProjectionSound params resolveVar nodes (projectionBind projection batch) := by
  refine ⟨by rw [projectionBind,List.length_map,sound.length],fun index node output own found => ?_,fun other bound => ?_⟩
  · rw [projectionBind,List.getElem?_map] at found
    obtain ⟨before,among,rfl⟩ := Option.map_eq_some_iff.mp found
    have kept := sound.columns index node before own among
    exact ⟨kept.shape,kept.storage,⟨kept.cache.allocated,kept.cache.words⟩,
      fun _ => ⟨rfl,fun word inside => if_pos inside⟩,fun vector shown => (by cases shown)⟩
  · cases bound
    exact addressed

/-- What was computed for more rows is right for fewer. -/
theorem shrink_sound {nodes : List Node} {projection : Projection}
    (sound : ProjectionSound params resolveVar nodes projection) {words : Nat → BitVec 64}
    (less : (ProjectionCall.shrink words).Legal projection) :
    ProjectionSound params resolveVar nodes {projection with input := projection.input.map fun input =>
      {input with selection := {input.selection with words := words}}} := by
  refine ⟨sound.length,fun index node output own found => ?_,fun batch bound => ?_⟩
  · have kept := sound.columns index node output own found
    refine ⟨kept.shape,kept.storage,kept.cache,kept.empty,fun vector shown => ?_⟩
    obtain ⟨batch,bound,right,holds⟩ := kept.ready vector shown
    refine ⟨{batch with selection := {batch.selection with words := words}},by simp [bound],fun row selected => ?_,holds⟩
    exact right row ⟨selected.1,less batch bound _ _ selected.2⟩
  · obtain ⟨before,was,rfl⟩ := Option.map_eq_some_iff.mp bound
    exact sound.addressed before was

theorem reaches_sound {nodes : List Node} {fresh state : Projection}
    (created : projectionCreate nodes resolveVar = .ok fresh)
    (reached : Reaches params SourceBatch.Addressed fresh state) : ProjectionSound params resolveVar nodes state := by
  induction reached with
  | start => exact projectionCreate_sound created
  | call before after call answer _ legal bound ran sound =>
    cases call with
    | bind batch =>
      cases ran
      exact projectionBind_sound sound (bound batch rfl)
    | shrink words =>
      cases ran
      exact shrink_sound sound legal
    | prepareColumns columns =>
      obtain ⟨next,prepared,done⟩ := bind_ok.mp ran
      cases done
      exact (projectionPrepareColumns_ok sound prepared).1
    | getInt4 column => exact (projectionGetInt4_ok sound ran).1
    | getDatumColumn column wanted => exact (projectionGetDatumColumn_ok sound legal ran).1

end States

section Coherence
variable (params : Params) (resolveVar : Var → Option Nat) (nodes : List Node)

/-- What the calls on a projection return: the expressions on the bound batch, in both views
alike. A call is served if the batch has a selected row and its expression fails on none,
and a bind leaves no row of an earlier batch. -/
structure Coherent (state : Projection) : Prop where
  int4 : ∀ column after vector, projectionCall params state (.getInt4 column) = .ok (after,some vector) →
    ∃ node batch, nodes[column]? = some node ∧ state.input = some batch ∧ ∀ row, batch.selection.Selected row →
      evaluate params (batch.vars resolveVar row) node = .ok (vector.cell row)
  datum : ∀ column wanted after vector, (ProjectionCall.getDatumColumn column wanted).Legal state →
    projectionCall params state (.getDatumColumn column wanted) = .ok (after,some vector) →
    ∃ node batch, nodes[column]? = some node ∧ state.input = some batch ∧ ∀ word index,
      word < batch.selection.nwords → (wanted word).getLsbD index = true →
      evaluate params (batch.vars resolveVar (64 * word + index)) node = .ok (vector.cell (64 * word + index))
  agree : ∀ batch column wanted after later vector other, state.input = some batch →
    (ProjectionCall.getDatumColumn column wanted).Legal state →
    projectionCall params state (.getInt4 column) = .ok (after,some vector) →
    projectionCall params state (.getDatumColumn column wanted) = .ok (later,some other) →
    ∀ word index, word < batch.selection.nwords → (wanted word).getLsbD index = true →
      vector.cell (64 * word + index) = other.cell (64 * word + index)
  served : ∀ batch column node one, state.input = some batch → nodes[column]? = some node →
    batch.selection.Selected one →
    (∀ row, batch.selection.Selected row → ∃ value, evaluate params (batch.vars resolveVar row) node = .ok value) →
    (∃ after vector, projectionCall params state (.getInt4 column) = .ok (after,some vector)) ∧
      ∀ wanted, (ProjectionCall.getDatumColumn column wanted).Legal state →
        ∃ after vector, projectionCall params state (.getDatumColumn column wanted) = .ok (after,some vector)
  rebound : ∀ batch, ∀ output ∈ (projectionBind state batch).columns,
    output.vector = none ∧ output.machine.result = none ∧ output.cache.Clear

end Coherence

section Total
variable {params : Params} {resolveVar : Var → Option Nat} {nodes : List Node}

theorem ProjectionSound.served {state : Projection} (sound : ProjectionSound params resolveVar nodes state)
    {batch : SourceBatch} (bound : state.input = some batch) {column : Nat} {node : Node}
    (own : nodes[column]? = some node) {one : Nat} (selected : batch.selection.Selected one)
    (fine : ∀ row, batch.selection.Selected row → ∃ value, evaluate params (batch.vars resolveVar row) node = .ok value) :
    (∃ after vector, projectionCall params state (.getInt4 column) = .ok (after,some vector)) ∧
      ∀ wanted, (ProjectionCall.getDatumColumn column wanted).Legal state →
        ∃ after vector, projectionCall params state (.getDatumColumn column wanted) = .ok (after,some vector) := by
  obtain ⟨prepared,ready⟩ := prepareOne_total sound bound own selected fine
  obtain ⟨sound,same,_,output,vector,at_,found,shown⟩ := prepareOne_ok sound ready
  cases own.symm.trans at_
  have kept := sound.columns column node output own found
  refine ⟨⟨prepared,vector,bind_ok.mpr ⟨prepared,ready,by rw [found,Option.bind_some,shown]⟩⟩,fun wanted legal => ?_⟩
  obtain ⟨other,bound',_,holds⟩ := kept.ready vector shown
  cases bound.symm.trans (same.symm.trans bound')
  obtain ⟨grown,cache,ensured,filled,_⟩ := datums_ok kept.cache holds (legal batch bound)
  refine ⟨{prepared with columns := prepared.columns.set column {output with cache := cache}},cache.vector,
    bind_ok.mpr ⟨prepared,ready,?_⟩⟩
  simp only [bound',found,shown,ensured,Bind.bind,Except.bind,filled]
  rfl

/-- In every run of binds, shrinking selections and requests, on batches whose rows find
their own validity bits, all that is returned is the expressions on the batch bound last. -/
theorem projection_coherent {fresh state : Projection} (created : projectionCreate nodes resolveVar = .ok fresh)
    (reached : Reaches params SourceBatch.Addressed fresh state) : Coherent params resolveVar nodes state := by
  have sound := reaches_sound created reached
  refine ⟨fun column after vector ran => ?_,fun column wanted after vector legal ran => ?_,
    fun batch column wanted after later vector other bound legal ran ran' word index inside bit => ?_,
    fun batch column node one bound own selected fine => sound.served bound own selected fine,
    projectionBind_empty state⟩
  · obtain ⟨_,_,node,_,batch,own,same,bound,right⟩ := projectionGetInt4_ok sound ran
    cases same
    exact ⟨node,batch,own,bound,fun row selected => (right row selected).1⟩
  · obtain ⟨_,_,node,_,batch,own,same,bound,right⟩ := projectionGetDatumColumn_ok sound legal ran
    cases same
    exact ⟨node,batch,own,bound,right⟩
  · obtain ⟨_,_,node,_,_,own,same,bound',right⟩ := projectionGetInt4_ok sound ran
    cases same
    cases bound.symm.trans bound'
    obtain ⟨_,_,_,_,_,own',same,bound',right'⟩ := projectionGetDatumColumn_ok sound legal ran'
    cases same
    cases own.symm.trans own'
    cases bound.symm.trans bound'
    have value := (right _ (legal batch bound word index inside bit)).1
    rw [right' word index inside bit] at value
    exact (Except.ok.inj value).symm

end Total

/-- The far row as a batch to project. -/
def farSource : SourceBatch where
  selection := farBatch.selection
  cells := fun column => (farBatch.column column).cell
  deliver := fun _ => farBatch.column
  delivers := fun _ _ _ _ => rfl

/-- The projection on `x` alone. -/
def oneVar : Node :=
  .var ⟨1,1,.int4,0,true⟩

def noParams : Params :=
  fun _ _ => .ok none

def varProjection : Projection :=
  ⟨none,[.empty {Program.empty false with column := some 0}]⟩

def theFirst (_ : Var) : Option Nat :=
  some 0

theorem varProjection_created : projectionCreate [oneVar] theFirst = .ok varProjection := rfl

/-- The same row at the start of its array, without a bitmap. -/
def nearSource : SourceBatch where
  selection := farBatch.selection
  cells := fun _ _ => some 7#32
  deliver := fun _ _ => .packed (fun _ => 7#32) none 0
  delivers := fun _ _ _ _ => rfl

theorem near_row_coherent : Coherent noParams theFirst [oneVar] (projectionBind varProjection nearSource) :=
  projection_coherent varProjection_created
    (.call _ _ (.bind nearSource) _ .start trivial (fun _ bound => by cases bound; exact fun _ _ => trivial) rfl)

/-- The int4 view of `x` has the row, and its Datum view gives NULL. -/
theorem far_row_incoherent :
    (projectionCall noParams (projectionBind varProjection farSource) (.getInt4 0)).map
        (fun result => result.2.map fun vector => vector.cell 0) = .ok (some (some 7#32)) ∧
      (projectionCall noParams (projectionBind varProjection farSource) (.getDatumColumn 0 fun _ => 1#64)).map
        (fun result => result.2.map fun vector => vector.cell 0) = .ok (some none) ∧
      evaluate noParams (farSource.vars theFirst 0) oneVar = .ok (some 7#32) ∧
      Reaches noParams (fun _ => True) varProjection (projectionBind varProjection farSource) ∧
      ¬ Coherent noParams theFirst [oneVar] (projectionBind varProjection farSource) := by
  have value : (projectionCall noParams (projectionBind varProjection farSource) (.getDatumColumn 0 fun _ => 1#64)).map
      (fun result => result.2.map fun vector => vector.cell 0) = .ok (some none) := rfl
  refine ⟨rfl,value,rfl,.call _ _ (.bind farSource) _ .start trivial (fun _ _ => trivial) rfl,fun coherent => ?_⟩
  have legal : (ProjectionCall.getDatumColumn 0 fun _ => 1#64).Legal (projectionBind varProjection farSource) := by
    intro input bound word index inside set
    cases bound
    have first : word = 0 := by
      have : word < 1 := inside
      omega
    have low : index = 0 := by simpa using set
    rw [first,low]
    decide
  obtain ⟨after,vector,ran⟩ := (coherent.served farSource 0 oneVar 0 rfl rfl (by decide) fun row _ => ⟨_,rfl⟩).2 _ legal
  rw [ran] at value
  have null : vector.cell 0 = none := Option.some.inj (Except.ok.inj value)
  obtain ⟨node,batch,own,bound,right⟩ := coherent.datum 0 _ after vector legal ran
  cases own
  cases bound
  have seven := right 0 0 (by decide) (by decide)
  rw [null] at seven
  cases seven

end PgBatch.Expr
