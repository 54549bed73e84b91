import PgBatch.Spill.Calls
import PgBatch.Spill.Tape

/-! The round trip of the private spill service: what is written to a set is what
its readers deliver, through the bytes of its tapes. -/
namespace PgBatch.Spill
open Words Columnar Bytes

/-- Read to the end, a reader delivers these rows. -/
def Delivers (set : TapeSet Unit) (reader : Reader) (rows : List Spilled) : Prop :=
  ∃ after reader' blocks, readAll set reader = .ok (after,reader',blocks) ∧ blocks.flatMap SpillBlock.rows = rows

/-- What readers leave of a finished set, wherever they have moved its tapes. -/
structure Later (set other : TapeSet Unit) : Prop where
  writers : ∃ stats, other.toWriters = {set.toWriters with stats := stats}
  frozen : other.frozen = set.frozen

/-- A finished set holds these rows for a partition: they are counted, a first
reader delivers them, and on a frozen set so does any reader that is rewound. -/
structure Faithful (set : TapeSet Unit) (partition : Nat) (rows : List Spilled) : Prop where
  counted : partitionRows set.toWriters partition = .ok rows.length
  empty : partitionEmpty set.toWriters partition = .ok rows.isEmpty
  opened : ∀ other, Later set other → set.frozen = true ∨ other.unread partition = set.unread partition →
    ∃ after reader, tapeReaderOpen other partition = .ok (after,reader) ∧ Delivers after reader rows
  rewound : set.frozen = true → ∀ other reader, Later set other → reader.partition = partition →
    ∃ after reader', tapeReaderRewind other reader = .ok (after,reader') ∧ Delivers after reader' rows

/-- The calls are made on a fresh set, which is then finished; every partition
holds just the rows handed over for it. -/
def RoundTrip (created : Writers Unit) (calls : List Call) (frozen : Bool) : Prop :=
  ∃ written set, calls.foldlM (Call.apply spillService) created = .ok written ∧
    tapeFinish {written with frozen := false, unread := fun _ => []} frozen = .ok set ∧
    ∀ partition, partition < created.npartitions →
      Faithful set partition (calls.flatMap (Call.rows created.ncolumns partition))

theorem Later.refl (set : TapeSet Unit) : Later set set := ⟨⟨_,rfl⟩,rfl⟩

theorem Later.next {set other after : TapeSet Unit} (later : Later set other) {reader reader' : Reader}
    {result : Option SpillBlock} (next : tapeReaderNext other reader = .ok (after,reader',result)) :
    Later set after := by
  obtain ⟨⟨stats,writers⟩,frozen⟩ := later
  unfold tapeReaderNext at next
  split at next
  · cases next
    exact ⟨⟨stats,writers⟩,frozen⟩
  · obtain ⟨read,_,next⟩ := Results.bind_ok.mp next
    cases read with
    | none =>
      cases next
      exact ⟨⟨stats,writers⟩,frozen⟩
    | some found =>
      cases next
      exact ⟨⟨_,by rw [writers]⟩,frozen⟩

theorem later_rewind {set other : TapeSet Unit} (later : Later set other) (partition : Nat) :
    Later set (rewindBytes other partition) := by
  unfold rewindBytes
  split
  · exact ⟨later.writers,later.frozen⟩
  · exact later

/-- What is delivered is a function of the reader. -/
theorem Delivers.unique {set : TapeSet Unit} {reader : Reader} {left right : List Spilled}
    (one : Delivers set reader left) (two : Delivers set reader right) : left = right := by
  obtain ⟨_,_,_,read,rfl⟩ := one
  obtain ⟨_,_,_,read',rfl⟩ := two
  rw [read] at read'
  cases read'
  rfl

theorem Faithful.unique {set : TapeSet Unit} {partition : Nat} {left right : List Spilled}
    (one : Faithful set partition left) (two : Faithful set partition right) : left = right := by
  obtain ⟨after,reader,opened,first⟩ := one.opened set (.refl set) (.inr rfl)
  obtain ⟨_,_,opened',second⟩ := two.opened set (.refl set) (.inr rfl)
  rw [opened] at opened'
  cases opened'
  exact first.unique second

section Finished
variable {set : SpillSet Unit} {tapes : TapeSet Unit} {rows : Nat → List (Row Unit)}

/-- A reader at the start of its tape delivers the partition. -/
theorem delivers_start (holds : Holds set rows) (few : set.ncolumns < 2 ^ 16) {state : TapeSet Unit} {reader : Reader}
    (ncolumns : state.ncolumns = set.ncolumns) (eof : reader.eof = (rows reader.partition).isEmpty)
    (start : rows reader.partition ≠ [] →
      state.unread reader.partition = (set.files reader.partition).flatMap (writeBlock set.ncolumns)) :
    Delivers state reader ((rows reader.partition).map spilled) := by
  cases cells : rows reader.partition with
  | nil =>
    rw [cells] at eof
    exact ⟨_,_,_,readAll_eof eof,rfl⟩
  | cons first rest =>
    rw [cells] at eof
    obtain ⟨after,reader',ran⟩ := readAll_blocks (ncolumns ▸ few) eof (holds.blocks reader.partition)
      (ncolumns ▸ start (by simp [cells]))
    refine ⟨after,reader',_,ran,?_⟩
    rw [ncolumns,List.flatMap_map,← cells,← holds.contents reader.partition,List.map_flatMap,
      List.flatMap_congr]
    intro block member
    exact rows_blockOf (holds.blocks reader.partition block member).2

/-- A finished set is faithful to what its blocks hold. -/
theorem faithful_of_holds (holds : Holds set rows) (few : set.ncolumns < 2 ^ 16) (onTape : OnTape set tapes)
    (start : set.position = fun _ => 0) {partition : Nat} (inside : partition < set.npartitions) :
    Faithful tapes partition ((rows partition).map spilled) := by
  have valid (other : TapeSet Unit) (later : Later tapes other) :
      spillService.validatePartition other.toWriters partition = .ok () := by
    obtain ⟨⟨stats,writers⟩,_⟩ := later
    exact validatePartition_ok (by rw [writers,onTape.writers]; exact inside)
  have count (other : TapeSet Unit) (later : Later tapes other) :
      other.partitionRows partition = (rows partition).length := by
    obtain ⟨⟨stats,writers⟩,_⟩ := later
    rw [writers,onTape.writers]
    exact holds.counted partition
  have empty (other : TapeSet Unit) (later : Later tapes other) :
      partitionEmpty other.toWriters partition = .ok (rows partition).isEmpty := by
    simp only [partitionEmpty,valid other later,count other later]
    cases rows partition <;> rfl
  have bytes (other : TapeSet Unit) (later : Later tapes other) :
      tape other.toWriters partition = (set.files partition).flatMap (writeBlock set.ncolumns) := by
    obtain ⟨⟨stats,writers⟩,_⟩ := later
    rw [writers,onTape.writers]
    rfl
  have columns (other : TapeSet Unit) (later : Later tapes other) : other.ncolumns = set.ncolumns := by
    obtain ⟨⟨stats,writers⟩,_⟩ := later
    rw [writers,onTape.writers]
  have again (other : TapeSet Unit) (later : Later tapes other) :
      Delivers (rewindBytes other partition) ⟨partition,(rows partition).isEmpty⟩ ((rows partition).map spilled) := by
    refine delivers_start holds few (columns _ (later_rewind later partition)) rfl fun some => ?_
    have more : other.partitionRows partition ≠ 0 := by
      rw [count other later]
      exact fun none => some (List.length_eq_zero_iff.mp none)
    rw [rewindBytes,if_pos more]
    simpa using bytes other later
  refine ⟨?_,by rw [empty tapes (.refl tapes),List.isEmpty_map],?_,?_⟩
  · simp only [partitionRows,valid tapes (.refl tapes),count tapes (.refl tapes),List.length_map]
    rfl
  · intro other later untouched
    have finished : other.finished = true := by
      obtain ⟨⟨stats,writers⟩,_⟩ := later
      rw [writers,onTape.writers]
      exact holds.finished
    refine ⟨if other.frozen then rewindBytes other partition else other,⟨partition,(rows partition).isEmpty⟩,?_,?_⟩
    · simp only [tapeReaderOpen,valid other later,empty other later]
      exact if_pos finished
    · split
      · exact again other later
      · rename_i thawed
        have same : other.unread partition = tapes.unread partition :=
          untouched.resolve_left fun frozen => thawed (later.frozen.trans frozen)
        refine delivers_start holds few (columns other later) rfl fun _ => ?_
        rw [same,onTape.unread,start]
        rfl
  · rintro frozen other reader later rfl
    refine ⟨_,_,?_,again other later⟩
    rw [tapeReaderRewind,if_pos (later.frozen.trans frozen),empty other later]
    rfl

end Finished

/-- Whatever is called, a finished set is faithful to what the accessors read. -/
theorem calls_faithful {created : Writers Unit} (valid : created.Valid) (unfinished : created.finished = false)
    (few : created.ncolumns < 2 ^ 16) (fresh : ∀ partition, created.contents partition = []) {calls : List Call}
    (fits : ∀ call ∈ calls, call.Fits created.npartitions) (frozen : Bool) :
    ∃ written set, calls.foldlM (Call.apply spillService) created = .ok written ∧
      tapeFinish {written with frozen := false, unread := fun _ => []} frozen = .ok set ∧
      ∀ partition, partition < created.npartitions →
        Faithful set partition (calls.flatMap (Call.taken created.ncolumns partition)) := by
  obtain ⟨written,ran,same,held,contents⟩ := calls_add spillService valid unfinished fits
  let set : SpillSet Unit := {written with frozen := false, position := fun _ => 0}
  let tapes : TapeSet Unit := {written with frozen := false, unread := fun _ => []}
  obtain ⟨after,finished,_,ended,holds,onTape,_,ncolumns,count,start⟩ :=
    @tapeFinish_onTape Unit set tapes held (same.finished.trans unfinished) rfl frozen
  refine ⟨written,finished,ran,ended,?_⟩
  intro partition inside
  have rows := contents partition
  rw [fresh,List.map_nil,List.nil_append] at rows
  rw [← rows]
  refine faithful_of_holds holds (ncolumns ▸ same.ncolumns ▸ few) onTape start ?_
  rw [count]
  exact same.npartitions.symm ▸ inside

theorem spillCreate_inv {desc : List Attribute} {ncolumns npartitions bufferLimit : Nat} {set : SpillSet Unit}
    (created : spillCreate desc ncolumns npartitions bufferLimit = .ok set) :
    ncolumns ≤ desc.length ∧ set.toWriters = create ncolumns npartitions bufferLimit := by
  unfold spillCreate at created
  split at created
  · cases created
  · split at created
    · cases created
    · cases created
      exact ⟨by omega,rfl⟩

theorem roundTrip_iff_same {desc : TupleDesc} {ncolumns npartitions bufferLimit : Nat} {set : SpillSet Unit}
    (created : spillCreate desc.attrs ncolumns npartitions bufferLimit = .ok set) {calls : List Call}
    (fits : ∀ call ∈ calls, call.Fits npartitions) (frozen : Bool) :
    RoundTrip set.toWriters calls frozen ↔ ∀ partition, partition < npartitions →
      calls.flatMap (Call.taken ncolumns partition) = calls.flatMap (Call.rows ncolumns partition) := by
  obtain ⟨wide,fresh⟩ := spillCreate_inv created
  have numbered := desc.numbered
  have few : ncolumns < 2 ^ 16 := by omega
  rw [fresh]
  obtain ⟨written,after,ran,ended,faithful⟩ :=
    calls_faithful (create_valid ncolumns npartitions bufferLimit) rfl few (fun _ => rfl) fits frozen
  constructor
  · rintro ⟨written',after',ran',ended',faithful'⟩ partition inside
    rw [ran] at ran'
    cases ran'
    rw [ended] at ended'
    cases ended'
    exact (faithful partition inside).unique (faithful' partition inside)
  · intro same
    exact ⟨written,after,ran,ended,fun partition inside => same partition inside ▸ faithful partition inside⟩

/-- A set is faithful to the vectors it is given just when every selected row of a
packed vector finds its own validity bit. -/
theorem spill_round_trip_iff (desc : TupleDesc) {ncolumns npartitions bufferLimit : Nat} {set : SpillSet Unit}
    (created : spillCreate desc.attrs ncolumns npartitions bufferLimit = .ok set) {calls : List Call}
    (fits : ∀ call ∈ calls, call.Fits npartitions) (frozen : Bool) :
    RoundTrip set.toWriters calls frozen ↔ ∀ call ∈ calls, call.Addressed ncolumns :=
  (roundTrip_iff_same created fits frozen).trans (calls_taken_eq_rows fits)

theorem oneColumn_created : (spillCreate oneColumn.attrs 1 1 1024 : Except String (SpillSet Unit)) =
    .ok {create 1 1 1024 with frozen := false, position := fun _ => 0} := rfl

theorem near_row_round_trip : ∃ set, spillCreate oneColumn.attrs 1 1 1024 = .ok set ∧
    RoundTrip set.toWriters [packedCall 3] true := by
  refine ⟨_,oneColumn_created,(spill_round_trip_iff oneColumn oneColumn_created (packedCall_fits 3) true).mpr ?_⟩
  intro call member
  rw [List.mem_singleton.mp member]
  exact packedCall_addressed

/-- The bit of a row at offset `2 ^ 32` is looked up at index `0`. -/
theorem far_row_not_round_trip : ∃ set, spillCreate oneColumn.attrs 1 1 1024 = .ok set ∧
    ¬ RoundTrip set.toWriters [packedCall (2 ^ 32)] true := by
  refine ⟨_,oneColumn_created,?_⟩
  rw [roundTrip_iff_same oneColumn_created (packedCall_fits (2 ^ 32))]
  intro same
  exact absurd (same 0 (by decide)) (by decide)

end PgBatch.Spill
