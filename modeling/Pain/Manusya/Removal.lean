import Pain.Base.UuidText
import Pain.Manusya.MemStore
import Pain.Manusya.Threads

/-!
# Removing a chunk from an in-memory store

`Bank::remove_chunk` takes a chunk out of the bank and its file out of the
store. A request that got its `ChunkPtr` earlier goes on using the chunk, and
the in-memory store looks its path up with `operator[]`, which puts an empty
file back.

`Touches` names the steps that do so: an append that is accepted at the write
frontier, a turn of the drain loop that writes, the size that `query_and_seal`
asks for, and the read behind an open that came before the removal. This file
proves that the file of a removed chunk stays away exactly as long as no such
step is taken.
-/

namespace Pain.Manusya

namespace MemStore

theorem openFile_rdonly_files (path : Bytes) (files : MemStore) :
    (store.openFile path .rdonly files).2 = files := by
  cases found : files[path]? <;> simp [store, openFile, OpenFlags.rdonly, found]

end MemStore

namespace Threads

/-- The next store call of a section looks the path of its chunk up with `operator[]`. -/
def CallsSubscript (chunk : Chunk Bytes) : Section Bytes → Prop
  | .free => False
  | .draining _ _ => ∃ rq, chunk.appendRequestQueue.begin? = some rq ∧ rq.offset = chunk.size
  | .sizing => True
  | .reading _ _ _ _ => True

/-- The step looks the path of the chunk `uuid` up with `operator[]`. -/
def Touches (uuid : UUID) (threads : Threads MemStore Bytes) : Turn → Prop
  | .start (.append pointer _ offset) =>
      ∃ chunk : Chunk Bytes, threads.available pointer = some chunk ∧ chunk.uuid = uuid ∧
        chunk.state ≠ .kSealed ∧ offset = chunk.size
  | .resume pointer =>
      ∃ chunk : Chunk Bytes, threads.world.chunks[pointer]? = some chunk ∧ chunk.uuid = uuid ∧
        CallsSubscript chunk (threads.sections pointer)
  | _ => False

/-- The step creates a chunk with the identifier `uuid`. -/
def Turn.Creates (uuid : UUID) : Turn → Prop
  | .start (.createChunk _ drawn) => drawn = uuid
  | _ => False

/-- Every handle is the path of its chunk, and only chunk objects have sections. -/
structure Named (text : UUID.Text) (threads : Threads MemStore Bytes) : Prop where
  waiting : threads.world.Waiting
  handles : ∀ (pointer : ℕ) (chunk : Chunk Bytes), threads.world.chunks[pointer]? = some chunk →
    chunk.fh = text.str chunk.uuid
  readers : ∀ (pointer : ℕ) (chunk : Chunk Bytes) (fh : Bytes) (offset size : ℕ) (buf : Bytes),
    threads.world.chunks[pointer]? = some chunk →
      threads.sections pointer = .reading fh offset size buf → fh = text.str chunk.uuid
  unborn : ∀ pointer, threads.world.chunks[pointer]? = none → threads.sections pointer = .free

/-- The step puts a file back exactly if it touches the chunk. -/
def Spares (text : UUID.Text) (threads : Threads MemStore Bytes) (turn : Turn)
    (next : Threads MemStore Bytes) : Prop :=
  ∀ uuid, ¬ turn.Creates uuid → text.str uuid ∉ threads.world.store →
    (text.str uuid ∉ next.world.store ↔ ¬ threads.Touches uuid turn)

variable {text : UUID.Text} {threads : Threads MemStore Bytes}

theorem idle_named (text : UUID.Text) (files : MemStore) :
    (idle (World.initial files)).Named text where
  waiting := World.initial_waiting files
  handles := by simp [idle, World.initial]
  readers := by simp [idle, World.initial]
  unborn := by simp [idle]

theorem Named.put (named : threads.Named text) {pointer : ℕ} {old chunk : Chunk Bytes}
    (present : threads.world.chunks[pointer]? = some old) (waiting : chunk.Waiting)
    (sameUuid : chunk.uuid = old.uuid) (sameHandle : chunk.fh = old.fh) (files : MemStore) :
    ({ threads with world := threads.world.put pointer chunk files } :
      Threads MemStore Bytes).Named text where
  waiting := World.forall_put present waiting (fun other found _ => named.waiting other found)
  handles := by
    refine World.forall_put present ?_ ?_
    · rw [sameUuid, sameHandle]
      exact named.handles pointer old present
    · exact fun other found _ => named.handles other found
  readers := by
    intro other found fh offset size buf foundAt reading
    rw [World.getElem?_put present] at foundAt
    split at foundAt
    · rename_i same
      simp only [Option.some.injEq] at foundAt
      subst same
      rw [← foundAt, sameUuid]
      exact named.readers pointer old fh offset size buf present reading
    · exact named.readers other found fh offset size buf foundAt reading
  unborn := by
    intro other missing
    rw [World.getElem?_put present] at missing
    split at missing
    · simp at missing
    · exact named.unborn other missing

theorem Named.withStore (named : threads.Named text) (files : MemStore) :
    ({ threads with world := { threads.world with store := files } } :
      Threads MemStore Bytes).Named text :=
  ⟨named.waiting, named.handles, named.readers, named.unborn⟩

theorem Named.hold {world : World MemStore Bytes}
    (named : ({ threads with world := world } : Threads MemStore Bytes).Named text)
    {pointer : ℕ} {chunk : Chunk Bytes} (present : world.chunks[pointer]? = some chunk)
    {holder : Section Bytes}
    (reader : ∀ fh offset size buf, holder = .reading fh offset size buf →
      fh = text.str chunk.uuid) :
    (threads.hold pointer holder world).Named text where
  waiting := named.waiting
  handles := named.handles
  readers := by
    intro other found fh offset size buf foundAt reading
    simp only [Threads.hold] at foundAt reading
    by_cases same : other = pointer
    · subst same
      rw [present, Option.some.injEq] at foundAt
      rw [Function.update_self] at reading
      rw [← foundAt]
      exact reader fh offset size buf reading
    · rw [Function.update_of_ne same] at reading
      exact named.readers other found fh offset size buf foundAt reading
  unborn := by
    intro other missing
    simp only [Threads.hold] at missing ⊢
    have different : other ≠ pointer := by
      rintro rfl
      simp [present] at missing
    rw [Function.update_of_ne different]
    exact named.unborn other missing

theorem Named.release {world : World MemStore Bytes}
    (named : ({ threads with world := world } : Threads MemStore Bytes).Named text)
    {pointer : ℕ} {chunk : Chunk Bytes} (present : world.chunks[pointer]? = some chunk) :
    (threads.hold pointer .free world).Named text :=
  named.hold present (by simp)

theorem available_eq_some {pointer : ℕ} {chunk : Chunk Bytes}
    (available : threads.available pointer = some chunk) :
    threads.world.chunks[pointer]? = some chunk := by
  unfold Threads.available at available
  split at available
  · exact available
  · simp at available

theorem spares_of_store_eq {turn : Turn} {next : Threads MemStore Bytes}
    (same : next.world.store = threads.world.store)
    (untouched : ∀ uuid, ¬ threads.Touches uuid turn) : Spares text threads turn next := by
  intro uuid _ absent
  rw [same]
  exact ⟨fun _ => untouched uuid, fun _ => absent⟩

theorem spares_of_subscript {turn : Turn} {next : Threads MemStore Bytes} {chunk : Chunk Bytes}
    {path : Bytes} (handle : path = text.str chunk.uuid)
    (subscripted : ∀ other, other ∈ next.world.store ↔ other = path ∨ other ∈ threads.world.store)
    (touched : ∀ uuid, threads.Touches uuid turn ↔ chunk.uuid = uuid) :
    Spares text threads turn next := by
  intro uuid _ absent
  rw [subscripted, touched, handle, UUID.Text.str_inj, not_or, eq_comm]
  exact ⟨And.left, fun other => ⟨other, absent⟩⟩

/-- The step does not abort, keeps the handles, and puts a file back exactly if it touches the
chunk. -/
def Proceeds (text : UUID.Text) (threads : Threads MemStore Bytes) (turn : Turn) : Prop :=
  ∃ next, threads.step MemStore.store text turn = some next ∧ next.Named text ∧
    Spares text threads turn next

theorem proceeds_of_step_eq (named : threads.Named text) {turn : Turn}
    (waits : threads.step MemStore.store text turn = some threads)
    (untouched : ∀ uuid, ¬ threads.Touches uuid turn) : Proceeds text threads turn :=
  ⟨threads, waits, named, spares_of_store_eq rfl untouched⟩

/-- An append proceeds, and revives no name. -/
theorem append_proceeds (named : threads.Named text) (pointer : ℕ) (buf : Bytes) (offset : ℕ) :
    Proceeds text threads (.start (.append pointer buf offset)) := by
  cases available : threads.available pointer with
  | none =>
      exact proceeds_of_step_eq named (by simp [step, available]) (by simp [Touches, available])
  | some chunk =>
      have present := available_eq_some available
      have waiting := named.waiting pointer chunk present
      have handle := named.handles pointer chunk present
      have touched : ∀ uuid, threads.Touches uuid (.start (.append pointer buf offset)) ↔
          chunk.uuid = uuid ∧ chunk.state ≠ .kSealed ∧ offset = chunk.size := by
        simp [Touches, available]
      simp only [Proceeds, step, available, startAppend]
      have entered := chunk.beginAppend_spec MemStore.store buf offset threads.world.store
      revert entered
      generalize chunk.beginAppend MemStore.store buf offset threads.world.store = entry
      intro entered
      cases entered with
      | refused notOk reason =>
          refine ⟨_, rfl, named.put present (waiting.answer _ _ _) rfl rfl _, ?_⟩
          refine spares_of_store_eq rfl (fun uuid touches => ?_)
          rcases (touched uuid).mp touches with ⟨-, unsealed, reached⟩
          rcases reason with isSealed | behind
          · exact unsealed isSealed
          · omega
      | queued unsealed beyond =>
          refine ⟨_, rfl, named.put present (waiting.enqueue _ _) rfl rfl _, ?_⟩
          refine spares_of_store_eq rfl (fun uuid touches => ?_)
          have reached := ((touched uuid).mp touches).2.2
          omega
      | failed unsealed reached notOk => exact absurd rfl notOk
      | accepted unsealed reached ok =>
          have grown : ({ chunk with size := chunk.size + buf.length } : Chunk Bytes).Waiting :=
            waiting
          refine ⟨_, rfl, (named.put present grown rfl rfl _).hold
            (World.getElem?_put_self _ _ present) (by simp), ?_⟩
          apply spares_of_subscript handle (MemStore.mem_append_iff _ offset _ _)
          intro uuid
          rw [touched]
          exact and_iff_left ⟨unsealed, reached⟩

theorem read_proceeds (named : threads.Named text) (pointer : ℕ) (offset size : UInt64)
    (buf : Option Bytes) : Proceeds text threads (.start (.read pointer offset size buf)) := by
  have untouched : ∀ uuid, ¬ threads.Touches uuid (.start (.read pointer offset size buf)) := by
    simp [Touches]
  cases available : threads.available pointer with
  | none => exact proceeds_of_step_eq named (by simp [step, available]) untouched
  | some chunk =>
      have present := available_eq_some available
      cases buf with
      | none => exact proceeds_of_step_eq named (by simp [step, available, startRead]) untouched
      | some buf =>
          by_cases beyond : chunk.size < (offset + size).toNat
          · exact proceeds_of_step_eq named
              (by simp [-UInt64.toNat_add, step, available, startRead, beyond]) untouched
          · have sameFiles := MemStore.openFile_rdonly_files (text.str chunk.uuid)
              threads.world.store
            simp only [Proceeds, step, available, startRead, beyond, if_false]
            cases opened : MemStore.store.openFile (text.str chunk.uuid) .rdonly
                threads.world.store with
            | mk result files =>
                rw [opened] at sameFiles
                cases result with
                | error failure =>
                    exact ⟨_, rfl, named.withStore files, spares_of_store_eq sameFiles untouched⟩
                | ok fh =>
                    refine ⟨_, rfl, (named.withStore files).hold present ?_,
                      spares_of_store_eq sameFiles untouched⟩
                    intro fh' offset' size' buf' same
                    simp only [Section.reading.injEq] at same
                    rw [← same.1]
                    exact MemStore.openFile_handle opened

theorem queryAndSeal_proceeds (named : threads.Named text) (pointer : ℕ) (length : OutPointer) :
    Proceeds text threads (.start (.queryAndSeal pointer length)) := by
  have untouched : ∀ uuid, ¬ threads.Touches uuid (.start (.queryAndSeal pointer length)) := by
    simp [Touches]
  cases available : threads.available pointer with
  | none => exact proceeds_of_step_eq named (by simp [step, available]) untouched
  | some chunk =>
      have present := available_eq_some available
      by_cases null : length = .null
      · exact proceeds_of_step_eq named (by simp [step, available, startQueryAndSeal, null])
          untouched
      · refine ⟨_, by simp [step, available, startQueryAndSeal, null]; rfl,
          (named.withStore threads.world.store).hold present ?_, spares_of_store_eq rfl untouched⟩
        simp

theorem timeout_proceeds (named : threads.Named text) (pointer call : ℕ) :
    Proceeds text threads (.start (.timeout pointer call)) := by
  have untouched : ∀ uuid, ¬ threads.Touches uuid (.start (.timeout pointer call)) := by
    simp [Touches]
  cases available : threads.available pointer with
  | none => exact proceeds_of_step_eq named (by simp [step, available]) untouched
  | some chunk =>
      have present := available_eq_some available
      have waiting := named.waiting pointer chunk present
      rcases chunk.timeout_spec call with settled | ⟨offset, buf, pending, fired⟩
      · refine proceeds_of_step_eq named ?_ untouched
        simp [step, available, settled, World.put_self present]
      · exact ⟨_, by simp [step, available, fired]; rfl,
          named.put present (waiting.release _ _) rfl rfl _, spares_of_store_eq rfl untouched⟩

/-- `create_chunk` proceeds, and gives its chunk a name. -/
theorem createChunk_proceeds (named : threads.Named text) (chunk : OutPointer) (drawn : UUID) :
    Proceeds text threads (.start (.createChunk chunk drawn)) := by
  refine ⟨_, rfl, ?_⟩
  have stepped := World.createChunk_stepped MemStore.store text chunk drawn threads.world
  have nextWaiting := stepped.waiting named.waiting
  have untouched : ∀ uuid, ¬ threads.Touches uuid (.start (.createChunk chunk drawn)) := by
    simp [Touches]
  have spares : ∀ next : Threads MemStore Bytes, next.world.store =
      (MemStore.store.openFile (text.str drawn) .createExclusive threads.world.store).2 →
        Spares text threads (.start (.createChunk chunk drawn)) next := by
    intro next sameStore uuid other absent
    rw [sameStore, MemStore.openFile_createExclusive_files, MemStore.mem_subscript_iff,
      UUID.Text.str_inj]
    exact ⟨fun _ => untouched uuid, fun _ => not_or.mpr ⟨fun same => other same.symm, absent⟩⟩
  revert nextWaiting stepped
  generalize (threads.world.createChunk MemStore.store text chunk drawn).2 = next
  intro stepped nextWaiting
  cases stepped with
  | idle => exact ⟨named, spares_of_store_eq rfl untouched⟩
  | notCreated => exact ⟨named.withStore _, spares _ rfl⟩
  | @created _ _ fh files opens =>
      refine ⟨⟨nextWaiting, ?_, ?_, ?_⟩, spares _ (by rw [opens]; rfl)⟩
      · intro pointer found foundAt
        rcases World.getElem?_adopt.mp foundAt with old | ⟨-, rfl⟩
        · exact named.handles pointer found old
        · exact MemStore.openFile_handle opens
      · intro pointer found fh' offset size buf foundAt reading
        rcases World.getElem?_adopt.mp foundAt with old | ⟨last, rfl⟩
        · exact named.readers pointer found fh' offset size buf old reading
        · have free := named.unborn pointer (by simp [last])
          rw [free] at reading
          simp at reading
      · intro pointer missing
        apply named.unborn pointer
        simp only [World.adopt, List.getElem?_eq_none_iff, List.length_append,
          List.length_singleton] at missing ⊢
        omega

/-- `remove_chunk` proceeds, and takes a name away. -/
theorem removeChunk_proceeds (named : threads.Named text) (removed : UUID) :
    Proceeds text threads (.start (.removeChunk removed)) := by
  have untouched : ∀ uuid, ¬ threads.Touches uuid (.start (.removeChunk removed)) := by
    simp [Touches]
  cases present : threads.world.bank[removed]? with
  | none =>
      exact proceeds_of_step_eq named (by simp [step, World.removeChunk, present]) untouched
  | some pointer =>
      refine ⟨_, by simp [step, World.removeChunk, present]; rfl, ?_, ?_⟩
      · exact ⟨named.waiting, named.handles, named.readers, named.unborn⟩
      · intro uuid _ absent
        refine ⟨fun _ => untouched uuid, fun _ stillThere => absent ?_⟩
        exact (Std.ExtTreeMap.mem_erase.mp stillThere).2

theorem resume_proceeds (named : threads.Named text) (pointer : ℕ) :
    Proceeds text threads (.resume pointer) := by
  cases present : threads.world.chunks[pointer]? with
  | none => exact proceeds_of_step_eq named (by simp [step, present]) (by simp [Touches, present])
  | some chunk =>
      have waiting := named.waiting pointer chunk present
      have handle := named.handles pointer chunk present
      have touched : ∀ uuid, threads.Touches uuid (.resume pointer) ↔
          chunk.uuid = uuid ∧ CallsSubscript chunk (threads.sections pointer) := by
        simp [Touches, present]
      simp only [Proceeds, step, present, resume]
      cases holder : threads.sections pointer with
      | free =>
          refine ⟨threads, rfl, named, spares_of_store_eq rfl (fun uuid touches => ?_)⟩
          rw [touched, holder] at touches
          exact touches.2
      | draining buf offset =>
          rcases chunk.drainStep_spec MemStore.store threads.world.store waiting with
            ⟨done, drained⟩ | ⟨chunk', files, took, turn⟩
          · simp only [done]
            refine ⟨_, rfl, (named.put present (waiting.answer _ _ _) rfl rfl _).release
              (World.getElem?_put_self _ _ present), ?_⟩
            refine spares_of_store_eq rfl (fun uuid touches => ?_)
            rw [touched, holder] at touches
            rcases touches.2 with ⟨rq, front, reached⟩
            have beyond := drained rq (List.mem_of_head? front)
            omega
          · simp only [took]
            have waiting' := turn.waiting waiting
            cases turn with
            | @reject _ _ rq rest front behind =>
                refine ⟨_, rfl, named.put present waiting' rfl rfl _, ?_⟩
                refine spares_of_store_eq rfl (fun uuid touches => ?_)
                rw [touched, holder] at touches
                rcases touches.2 with ⟨first, isFirst, reached⟩
                simp only [Lib.IntrusiveSet.begin?, front, List.head?_cons,
                  Option.some.injEq] at isFirst
                subst isFirst
                omega
            | @write _ _ rq rest front reached written =>
                refine ⟨_, rfl, named.put present waiting' rfl rfl _, ?_⟩
                refine spares_of_subscript handle (MemStore.mem_append_iff _ rq.offset _ _)
                  (fun uuid => ?_)
                rw [touched, holder]
                refine and_iff_left ⟨rq, ?_, reached⟩
                simp [Lib.IntrusiveSet.begin?, front]
            | fail front reached failed => exact absurd rfl failed
      | sizing =>
          have sealedWaiting : ({ chunk with state := .kSealed } : Chunk Bytes).Waiting := waiting
          refine ⟨_, rfl, (named.put present sealedWaiting rfl rfl _).release
            (World.getElem?_put_self _ _ present), ?_⟩
          refine spares_of_subscript handle (MemStore.mem_subscript_iff _ _) (fun uuid => ?_)
          rw [touched, holder]
          exact and_iff_left trivial
      | reading fh offset size buf =>
          have reader := named.readers pointer chunk fh offset size buf present holder
          refine ⟨_, rfl, (named.withStore _).release present, ?_⟩
          refine spares_of_subscript reader (MemStore.mem_subscript_iff _ _) (fun uuid => ?_)
          rw [touched, holder]
          exact and_iff_left trivial

/-- Every turn proceeds. -/
theorem step_proceeds (named : threads.Named text) (turn : Turn) :
    Proceeds text threads turn := by
  cases turn with
  | start event =>
      cases event with
      | createChunk chunk uuid => exact createChunk_proceeds named chunk uuid
      | removeChunk uuid => exact removeChunk_proceeds named uuid
      | append pointer buf offset => exact append_proceeds named pointer buf offset
      | timeout pointer call => exact timeout_proceeds named pointer call
      | read pointer offset size buf => exact read_proceeds named pointer offset size buf
      | queryAndSeal pointer length => exact queryAndSeal_proceeds named pointer length
  | resume pointer => exact resume_proceeds named pointer

/-- In every run, each chunk has a handle of its own name. -/
theorem run_named {turns : List Turn}
    (ran : (idle (World.initial ∅)).run MemStore.store text turns = some threads) :
    threads.Named text := by
  refine Lib.exec_invariant_of_progress (Named text) ?_ (idle_named text ∅) ran
  intro before turn named
  rcases step_proceeds named turn with ⟨next, took, nextNamed, -⟩
  exact ⟨next, took, nextNamed⟩

/-- The threads after a call of `Bank::remove_chunk`. -/
def afterRemove (text : UUID.Text) (uuid : UUID) (threads : Threads MemStore Bytes) :
    Threads MemStore Bytes :=
  { threads with world := (threads.world.removeChunk MemStore.store text uuid).2 }

/-- `MemStore::for_each` does not report a file for `uuid`. -/
def Gone (text : UUID.Text) (uuid : UUID) (threads : Threads MemStore Bytes) : Prop :=
  text.str uuid ∉ MemStore.store.forEach threads.world.store

/-- When a removal is final. Let the calls of the chunk server interleave in any way on an
in-memory store, and let `remove_chunk` return `OK` for a chunk whose identifier is not drawn
again. No state reached later has a file for the chunk exactly if no later step touches it. -/
theorem removal_final_iff (text : UUID.Text) (turns : List Turn)
    {threads : Threads MemStore Bytes}
    (ran : (idle (World.initial ∅)).run MemStore.store text turns = some threads) (uuid : UUID)
    (removed : (threads.world.removeChunk MemStore.store text uuid).1 = Status.OK)
    (later : List Turn) (fresh : ∀ turn ∈ later, ¬ turn.Creates uuid) :
    Lib.Throughout (step MemStore.store text) (Gone text uuid) (threads.afterRemove text uuid)
        later ↔
      Lib.Guarded (step MemStore.store text) (fun now turn => ¬ now.Touches uuid turn)
        (threads.afterRemove text uuid) later := by
  rcases removeChunk_proceeds (run_named ran) uuid with ⟨next, took, named, -⟩
  simp only [step, Option.some.injEq] at took
  have start : (threads.afterRemove text uuid).Named text := by
    rw [afterRemove, took]
    exact named
  have gone : (threads.afterRemove text uuid).Gone text uuid := by
    cases present : threads.world.bank[uuid]? with
    | none => simp [World.removeChunk, present, Status.fail] at removed
    | some pointer =>
        simp [Gone, afterRemove, World.removeChunk, present, MemStore.store, MemStore.forEach,
          MemStore.remove]
  refine Lib.throughout_iff_guarded (Named text) (Gone text uuid) ?_ start gone fresh
  intro before turn beforeNamed notCreated beforeGone
  rcases step_proceeds beforeNamed turn with ⟨after, stepped, afterNamed, spares⟩
  refine ⟨after, stepped, afterNamed, ?_⟩
  have absent : text.str uuid ∉ before.world.store := by
    simpa [Gone, MemStore.store, MemStore.forEach] using beforeGone
  simpa [Gone, MemStore.store, MemStore.forEach] using spares uuid notCreated absent

/-- After the removal a read finds no file and an append beyond the frontier starts to wait. -/
theorem removal_final_read_and_wait :
    ∃ threads, (idle (World.initial ∅)).run MemStore.store .canonical
        [.start (.createChunk .valid ⟨0, 1⟩)] = some threads ∧
      Lib.Throughout (step MemStore.store .canonical) (Gone .canonical ⟨0, 1⟩)
        (threads.afterRemove .canonical ⟨0, 1⟩)
        [.start (.read 0 0 0 (some [])), .start (.append 0 [7] 5)] := by
  refine ⟨_, rfl, (removal_final_iff .canonical [.start (.createChunk .valid ⟨0, 1⟩)] rfl ⟨0, 1⟩
    rfl [.start (.read 0 0 0 (some [])), .start (.append 0 [7] 5)] ?_).mpr ?_⟩
  · simp [Turn.Creates]
  · refine Lib.guarded_cons (by simp [Touches]) rfl (Lib.guarded_cons ?_ rfl trivial)
    rintro ⟨chunk, found, -, -, reached⟩
    cases found
    exact absurd reached (by decide)

/-- An append through a pointer that was obtained before the removal brings the file back. -/
theorem not_gone_after_late_append :
    ¬ ∀ (turns : List Turn) (threads : Threads MemStore Bytes),
      (idle (World.initial ∅)).run MemStore.store .canonical turns = some threads →
        ∀ uuid, (threads.world.removeChunk MemStore.store .canonical uuid).1 = Status.OK →
          ∀ later : List Turn, (∀ turn ∈ later, ¬ turn.Creates uuid) →
            Lib.Throughout (step MemStore.store .canonical) (Gone .canonical uuid)
              (threads.afterRemove .canonical uuid) later := by
  intro always
  have throughout := always [.start (.createChunk .valid ⟨0, 1⟩)] _ rfl ⟨0, 1⟩ rfl
    [.start (.append 0 [7] 0)] (by simp [Turn.Creates])
  have back := throughout.2 _ rfl
  exact back (by decide)

end Threads

end Pain.Manusya
