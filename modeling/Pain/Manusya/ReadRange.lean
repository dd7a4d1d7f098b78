import Pain.Manusya.AppendExactness

/-!
# Reads at the end of the 64-bit range

`Chunk::read` adds the offset and the size as 64-bit numbers before it compares
the sum with the size of the chunk. A range that ends beyond `2 ^ 64` is not
refused when its wrapped end lies inside the chunk, and the in-memory store
returns the bytes that there are.

The bytes of a chunk are those of its acknowledged calls. They are in its file
for as long as the chunk is not removed, whatever happens to other chunks. A
handler that holds a removed chunk reads what is left at its path.
-/

namespace Pain.Manusya

open Lib.Extent (payload byOffset)

namespace World

variable {text : UUID.Text} {uuid : UUID} {world : World MemStore Bytes}

/-- The chunk with the identifier, if there is one, has its file to itself. -/
structure OwnsFile (text : UUID.Text) (uuid : UUID) (world : World MemStore Bytes) : Prop where
  waiting : world.Waiting
  named : ∀ (pointer : ℕ) (chunk : Chunk Bytes), world.chunks[pointer]? = some chunk →
    chunk.fh = text.str chunk.uuid
  backed : ∀ (pointer : ℕ) (chunk : Chunk Bytes), world.chunks[pointer]? = some chunk →
    chunk.uuid = uuid → chunk.Backed MemStore.spec [] world.store
  unique : ∀ (left right : ℕ) (leftChunk rightChunk : Chunk Bytes),
    world.chunks[left]? = some leftChunk → world.chunks[right]? = some rightChunk →
      leftChunk.uuid = uuid → rightChunk.uuid = uuid → left = right

/-- A server on an empty store owns its files. -/
theorem initial_ownsFile (text : UUID.Text) (uuid : UUID) : OwnsFile text uuid (initial ∅) where
  waiting := initial_waiting ∅
  named := by
    intro pointer chunk found
    simp [initial] at found
  backed := by
    intro pointer chunk found
    simp [initial] at found
  unique := by
    intro left right leftChunk rightChunk found
    simp [initial] at found

theorem OwnsFile.withStore (owns : world.OwnsFile text uuid) {files : MemStore}
    {bank : Map UUID ℕ}
    (kept : ∀ data, world.store[text.str uuid]? = some data →
      files[text.str uuid]? = some data) :
    OwnsFile text uuid { store := files, chunks := world.chunks, bank := bank } where
  waiting := owns.waiting
  named := owns.named
  backed := by
    intro pointer chunk found isChunk
    rcases owns.backed pointer chunk found isChunk with ⟨data, held, exactly⟩
    have handle : chunk.fh = text.str uuid := isChunk ▸ owns.named pointer chunk found
    simp only [MemStore.spec, handle] at held
    refine ⟨data, ?_, exactly⟩
    simp only [MemStore.spec, handle]
    exact kept data held
  unique := owns.unique

/-- A section of a chunk: of the one with the identifier, or of another. -/
theorem OwnsFile.put (owns : world.OwnsFile text uuid) {pointer : ℕ} {old chunk : Chunk Bytes}
    {files : MemStore} (present : world.chunks[pointer]? = some old)
    (waiting : (world.put pointer chunk files).Waiting) (sameHandle : chunk.fh = old.fh)
    (sameUuid : chunk.uuid = old.uuid)
    (own : old.uuid = uuid → chunk.Backed MemStore.spec [] files)
    (others : ∀ data, old.uuid ≠ uuid → world.store[text.str uuid]? = some data →
      files[text.str uuid]? = some data) :
    OwnsFile text uuid (world.put pointer chunk files) where
  waiting := waiting
  named := by
    refine forall_put present ?_ ?_
    · rw [sameHandle, sameUuid]
      exact owns.named pointer old present
    · exact fun other found _ => owns.named other found
  backed := by
    refine forall_put present ?_ ?_
    · exact fun isChunk => own (sameUuid ▸ isChunk)
    · intro other found different foundAt isChunk
      have notOld : old.uuid ≠ uuid := by
        intro isOld
        exact different (owns.unique pointer other old found present foundAt isOld isChunk)
      have kept : OwnsFile text uuid
          { store := files, chunks := world.chunks, bank := world.bank } :=
        owns.withStore (fun data => others data notOld)
      exact kept.backed other found foundAt isChunk
  unique := by
    have before : ∀ (other : ℕ) (found : Chunk Bytes),
        (world.put pointer chunk files).chunks[other]? = some found → found.uuid = uuid →
          ∃ earlier, world.chunks[other]? = some earlier ∧ earlier.uuid = uuid := by
      refine forall_put present ?_ ?_
      · exact fun isChunk => ⟨old, present, sameUuid ▸ isChunk⟩
      · exact fun other found _ foundAt isChunk => ⟨found, foundAt, isChunk⟩
    intro left right leftChunk rightChunk leftAt rightAt isLeft isRight
    rcases before left leftChunk leftAt isLeft with ⟨leftOld, leftOldAt, wasLeft⟩
    rcases before right rightChunk rightAt isRight with ⟨rightOld, rightOldAt, wasRight⟩
    exact owns.unique left right leftOld rightOld leftOldAt rightOldAt wasLeft wasRight

theorem OwnsFile.created (owns : world.OwnsFile text uuid) {drawn : UUID} {fh : Bytes}
    {files : MemStore}
    (waiting : (world.adopt (Chunk.opened drawn fh 0) files).Waiting)
    (opens : MemStore.store.openFile (text.str drawn) .createExclusive world.store =
      (.ok fh, files)) :
    OwnsFile text uuid (world.adopt (Chunk.opened drawn fh 0) files) := by
  have handle : fh = text.str drawn := MemStore.openFile_handle opens
  subst handle
  have created := MemStore.spec.create_ok opens
  have absent : ∀ (pointer : ℕ) (chunk : Chunk Bytes), world.chunks[pointer]? = some chunk →
      drawn = uuid → chunk.uuid ≠ uuid := by
    intro pointer chunk found isDrawn isChunk
    rcases owns.backed pointer chunk found isChunk with ⟨data, held, -⟩
    have sameHandle : chunk.fh = text.str drawn := by
      rw [owns.named pointer chunk found, isChunk, isDrawn]
    rw [sameHandle, created.1] at held
    cases held
  constructor
  · exact waiting
  · intro pointer chunk found
    rcases getElem?_adopt.mp found with old | ⟨-, rfl⟩
    · exact owns.named pointer chunk old
    · rfl
  · intro pointer chunk found isChunk
    rcases getElem?_adopt.mp found with old | ⟨-, rfl⟩
    · rcases owns.backed pointer chunk old isChunk with ⟨data, held, exactly⟩
      have kept : MemStore.spec.contents
          (MemStore.store.openFile (text.str drawn) .createExclusive world.store).2 chunk.fh =
            some data := MemStore.spec.create_other held
      rw [opens] at kept
      exact ⟨data, kept, exactly⟩
    · refine ⟨[], created.2, [], ?_, ?_, rfl⟩
      · simp [Chunk.acknowledged, Chunk.opened]
      · simp [Chunk.opened]
  · intro left right leftChunk rightChunk leftAt rightAt isLeft isRight
    rcases getElem?_adopt.mp leftAt with leftOld | ⟨leftLast, rfl⟩
    · rcases getElem?_adopt.mp rightAt with rightOld | ⟨rightLast, rfl⟩
      · exact owns.unique left right leftChunk rightChunk leftOld rightOld isLeft isRight
      · exact absurd isLeft (absent left leftChunk leftOld isRight)
    · rcases getElem?_adopt.mp rightAt with rightOld | ⟨rightLast, rfl⟩
      · exact absurd isRight (absent right rightChunk rightOld isLeft)
      · exact leftLast.trans rightLast.symm

/-- Every step but a removal leaves the file of the chunk to the chunk. -/
theorem Stepped.ownsFile {next : World MemStore Bytes} {event : Event}
    (stepped : Stepped MemStore.store text world event next)
    (notRemoved : event ≠ .removeChunk uuid) (owns : world.OwnsFile text uuid) :
    next.OwnsFile text uuid := by
  have nextWaiting := stepped.waiting owns.waiting
  cases stepped with
  | idle => exact owns
  | notCreated => exact owns.withStore (fun data held => MemStore.spec.create_other held)
  | created opens => exact owns.created nextWaiting opens
  | @removed other pointer present =>
      apply owns.withStore
      intro data held
      have different : text.str other ≠ text.str uuid := by
        intro same
        exact notRemoved (by rw [text.str_inj.mp same])
      simpa [MemStore.store, MemStore.remove, Std.ExtTreeMap.getElem?_erase,
        Std.compare_eq_iff_eq, different] using held
  | appended present appended =>
      apply owns.put present nextWaiting appended.same_file.1 appended.same_file.2
      · intro isChunk
        exact appended.backed MemStore.spec (owns.waiting _ _ present)
          (owns.backed _ _ present isChunk)
      · intro data isOther held
        refine appended.keeps MemStore.spec _ data ?_ held
        rw [owns.named _ _ present]
        intro same
        exact isOther (text.str_inj.mp same).symm
  | timedOut present pending =>
      apply owns.put present nextWaiting rfl rfl
      · intro isChunk
        rcases owns.backed _ _ present isChunk with ⟨data, held, exactly⟩
        refine ⟨data, held, exactly.of_acknowledged_eq rfl ?_⟩
        exact Chunk.acknowledged_release_of_ne pending (by simp [Chunk.invalidOffset, Status.fail])
      · exact fun data _ held => held
  | read present =>
      apply owns.withStore
      intro data held
      rw [MemStore.openAndRead_files]
      exact held
  | @queriedAndSealed pointer length chunk result present called =>
      have keptSized : ∀ data, world.store[text.str uuid]? = some data →
          (MemStore.store.size chunk.fh world.store).2[text.str uuid]? = some data :=
        fun data held => MemStore.subscript_preserves _ held
      have backedSized : chunk.uuid = uuid →
          chunk.Backed MemStore.spec [] (MemStore.store.size chunk.fh world.store).2 := by
        intro isChunk
        rcases owns.backed _ _ present isChunk with ⟨data, held, exactly⟩
        exact ⟨data, MemStore.subscript_preserves _ held, exactly⟩
      cases called with
      | null =>
          exact owns.put present nextWaiting rfl rfl (owns.backed _ _ present)
            (fun data _ held => held)
      | sealFailed =>
          exact owns.put present nextWaiting rfl rfl (owns.backed _ _ present)
            (fun data _ held => held)
      | sizeFailed =>
          exact owns.put present nextWaiting rfl rfl backedSized (fun data _ => keptSized data)
      | done sized =>
          exact owns.put present nextWaiting rfl rfl backedSized (fun data _ => keptSized data)

/-- A run that does not remove the chunk does not abort and leaves the chunk its file. -/
theorem run_ownsFile (text : UUID.Text) (uuid : UUID) {events : List Event}
    (notRemoved : Event.removeChunk uuid ∉ events) :
    ∃ final, (initial ∅).run MemStore.store text events = some final ∧
      final.OwnsFile text uuid := by
  have allowed : ∀ event ∈ events, event ≠ .removeChunk uuid := by
    rintro event member rfl
    exact notRemoved member
  refine Lib.exec_total (OwnsFile text uuid) ?_ (initial_ownsFile text uuid)
    (Lib.guarded_of_forall_mem allowed)
  intro before event holds eventAllowed
  rcases step_spec MemStore.store text holds.waiting event with ⟨next, took, stepped⟩
  exact ⟨next, took, stepped.ownsFile eventAllowed holds⟩

end World

namespace Chunk

variable {H : Type}

/-- The bytes that the acknowledged calls of the chunk wrote, in offset order. -/
def bytes (chunk : Chunk H) : Bytes :=
  payload (byOffset chunk.acknowledged)

/-- `Chunk::read` of a range into an empty buffer is exact: it succeeds on the ranges that lie
inside the chunk, with their bytes, and refuses all others. -/
def ReadsExactly {σ : Type} (store : Store σ H) (text : UUID.Text) (offset size : UInt64)
    (chunk : Chunk H) (state : σ) : Prop :=
  (chunk.read store text offset size (some []) state).1 =
    if offset.toNat + size.toNat ≤ chunk.size then
      .ok ((chunk.bytes.drop offset.toNat).take size.toNat)
    else .error (readOutOfRange offset size chunk.size)

/-- The range ends beyond the chunk, and its end is inside the chunk once it has wrapped. -/
def WrapsInside (offset size : UInt64) (chunk : Chunk H) : Prop :=
  chunk.size < offset.toNat + size.toNat ∧ (offset + size).toNat ≤ chunk.size

instance (offset size : UInt64) (chunk : Chunk H) : Decidable (chunk.WrapsInside offset size) :=
  inferInstanceAs (Decidable (_ ∧ _))

/-- The file of the chunk has the chunk's bytes in the range. -/
def HoldsRange (text : UUID.Text) (offset size : UInt64) (chunk : Chunk H) (files : MemStore) :
    Prop :=
  (files[text.str chunk.uuid]?).map (fun data => (data.drop offset.toNat).take size.toNat) =
    some ((chunk.bytes.drop offset.toNat).take size.toNat)

section Reads

variable {text : UUID.Text} {offset size : UInt64} {chunk : Chunk Bytes} {files : MemStore}

theorem sum_le_of_le (inside : offset.toNat + size.toNat ≤ chunk.size) :
    (offset + size).toNat ≤ chunk.size := by
  rw [UInt64.toNat_add]
  exact (Nat.mod_le _ _).trans inside

/-- A read beyond the size is refused. -/
theorem read_of_lt (beyond : chunk.size < (offset + size).toNat) :
    (chunk.read MemStore.store text offset size (some []) files).1 =
      .error (readOutOfRange offset size chunk.size) := by
  simp only [read, if_pos beyond]

/-- What the in-memory store answers to a read that the chunk lets through. -/
theorem read_of_le (inside : (offset + size).toNat ≤ chunk.size) :
    (chunk.read MemStore.store text offset size (some []) files).1 =
      match files[text.str chunk.uuid]? with
      | none => .error ⟨.ENOENT, "file not found"⟩
      | some data => .ok ((data.drop offset.toNat).take size.toNat) := by
  simp only [read, if_neg (Nat.not_lt.mpr inside)]
  cases held : files[text.str chunk.uuid]? with
  | none =>
      simp [Store.openAndRead, MemStore.store, MemStore.openFile, OpenFlags.rdonly, held]
  | some data =>
      simp [Store.openAndRead, MemStore.store, MemStore.openFile, MemStore.read, OpenFlags.rdonly,
        held, MemStore.subscript_of_mem held]

/-- A read is exact if and only if its end does not wrap around into the chunk and the file holds
what lies in the chunk. -/
theorem readsExactly_iff :
    chunk.ReadsExactly MemStore.store text offset size files ↔
      ¬ chunk.WrapsInside offset size ∧
        (offset.toNat + size.toNat ≤ chunk.size → chunk.HoldsRange text offset size files) := by
  unfold ReadsExactly WrapsInside HoldsRange
  by_cases inside : offset.toNat + size.toNat ≤ chunk.size
  · rw [read_of_le (sum_le_of_le inside), if_pos inside]
    cases held : files[text.str chunk.uuid]? with
    | none => simp [inside]
    | some data => simp [inside, Nat.not_lt.mpr inside]
  · have beyond := Nat.lt_of_not_le inside
    by_cases wrapped : (offset + size).toNat ≤ chunk.size
    · rw [read_of_le wrapped, if_neg inside]
      cases held : files[text.str chunk.uuid]? with
      | none => simp [-UInt64.toNat_add, readOutOfRange, wrapped, beyond]
      | some data => simp [-UInt64.toNat_add, wrapped, beyond]
    · rw [read_of_lt (Nat.lt_of_not_le wrapped), if_neg inside]
      simp [-UInt64.toNat_add, wrapped, inside]

theorem Backed.holdsRange (backed : chunk.Backed MemStore.spec [] files)
    (handle : chunk.fh = text.str chunk.uuid) (offset size : UInt64) :
    chunk.HoldsRange text offset size files := by
  rcases backed with ⟨data, held, exactly⟩
  simp only [MemStore.spec, handle] at held
  have spelled : data = chunk.bytes := exactly.eq_payload
  simp [HoldsRange, held, spelled]

end Reads

end Chunk

namespace World

/-- Reads are exact unless the end of the range wraps into the chunk. For every run of the chunk
server on an in-memory store and every chunk object that it leaves, a read of any 64-bit offset and
size succeeds exactly on the ranges inside the chunk, with exactly their bytes, if and only if the
range does not end beyond the chunk with a 64-bit end inside it and, where it lies inside the chunk,
the file has the chunk's bytes there. The file has all of them unless the run removes the chunk. -/
theorem read_exact_iff (text : UUID.Text) (events : List Event) (final : World MemStore Bytes)
    (ran : (initial ∅).run MemStore.store text events = some final) (pointer : ℕ)
    (chunk : Chunk Bytes) (found : final.chunks[pointer]? = some chunk) :
    (∀ offset size, chunk.ReadsExactly MemStore.store text offset size final.store ↔
      ¬ chunk.WrapsInside offset size ∧
        (offset.toNat + size.toNat ≤ chunk.size →
          chunk.HoldsRange text offset size final.store)) ∧
      (Event.removeChunk chunk.uuid ∉ events →
        ∀ offset size, chunk.HoldsRange text offset size final.store) := by
  refine ⟨fun offset size => Chunk.readsExactly_iff, ?_⟩
  intro notRemoved
  rcases run_ownsFile text chunk.uuid notRemoved with ⟨same, ranSame, owns⟩
  rw [ran, Option.some.injEq] at ranSame
  subst ranSame
  exact (owns.backed pointer chunk found rfl).holdsRange (owns.named pointer chunk found)

/-- A range inside a chunk of five bytes, beside which another chunk is created and removed. -/
theorem read_exact_hello :
    ∃ final, (initial ∅).run MemStore.store .canonical
        [.createChunk .valid ⟨0, 1⟩, .createChunk .valid ⟨0, 2⟩, .append 0 [108, 111] 3,
          .removeChunk ⟨0, 2⟩, .append 0 [104, 101, 108] 0] = some final ∧
      ∃ chunk, final.chunks[0]? = some chunk ∧
        chunk.ReadsExactly MemStore.store .canonical 1 3 final.store := by
  rcases read_exact_iff .canonical
    [.createChunk .valid ⟨0, 1⟩, .createChunk .valid ⟨0, 2⟩, .append 0 [108, 111] 3,
      .removeChunk ⟨0, 2⟩, .append 0 [104, 101, 108] 0] _ rfl 0 _ rfl with ⟨exactly, held⟩
  refine ⟨_, rfl, _, rfl, ?_⟩
  exact (exactly 1 3).mpr ⟨by decide, fun _ => held (by decide) 1 3⟩

/-- One byte at offset `2 ^ 64 - 1` of a chunk of five bytes: the read succeeds. -/
theorem read_wraps :
    ∃ final, (initial ∅).run MemStore.store .canonical
        [.createChunk .valid ⟨0, 1⟩, .append 0 [104, 101, 108, 108, 111] 0] = some final ∧
      ∃ chunk, final.chunks[0]? = some chunk ∧
        (chunk.read MemStore.store .canonical 18446744073709551615 1 (some []) final.store).1 =
          .ok [] ∧
        ¬ chunk.ReadsExactly MemStore.store .canonical 18446744073709551615 1 final.store := by
  refine ⟨_, rfl, _, rfl, ?_, ?_⟩
  · decide
  · unfold Chunk.ReadsExactly
    decide

end World

end Pain.Manusya
