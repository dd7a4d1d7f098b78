import Pain.Manusya.Restart

/-!
# Removals that the store refuses

`Bank::remove_chunk` takes the chunk out of the bank and then removes its file,
and it does not look at the status of the second step: a removal that the store
refuses is reported as done and leaves a file that no bank knows. `create_chunk`
returns the status of its store call.

`Store.Directory` is what the argument needs of a store: which files its calls
create and remove. A handle of an in-memory store can put a removed file back,
since `operator[]` creates what it does not find; `revives` are the names a
handle can put back. `Store.faulty` lets removals fail, so that a run on it is
a run with an arbitrary pattern of failures.
-/

namespace Pain.Manusya

namespace Store

variable {σ H : Type}

/-- The store has a file at the path. -/
def HasFile (store : Store σ H) (state : σ) (path : Bytes) : Prop :=
  path ∈ store.forEach state

instance (store : Store σ H) (state : σ) (path : Bytes) : Decidable (store.HasFile state path) :=
  inferInstanceAs (Decidable (path ∈ store.forEach state))

/-- The files that the calls of a store create and remove. -/
structure Directory (store : Store σ H) where
  revives : H → Bytes → Prop
  create_ok : ∀ {path state fh next},
    store.openFile path .createExclusive state = (.ok fh, next) →
      ¬ store.HasFile state path ∧ (∀ name, revives fh name → name = path) ∧
        ∀ name, store.HasFile next name ↔ store.HasFile state name ∨ name = path
  create_error : ∀ {path state failure next},
    store.openFile path .createExclusive state = (.error failure, next) →
      ∀ name, store.HasFile next name ↔ store.HasFile state name
  append : ∀ (fh : H) (offset : ℕ) (buf : Bytes) (state : σ) (name : Bytes),
    store.HasFile (store.append fh offset buf state).2 name ↔
      store.HasFile state name ∨ revives fh name
  openAndRead : ∀ (path : Bytes) (offset size : ℕ) (buf : Bytes) (state : σ) (name : Bytes),
    store.HasFile (store.openAndRead path offset size buf state).2 name ↔
      store.HasFile state name
  sealFile : ∀ (fh : H) (state : σ) (name : Bytes),
    store.HasFile (store.sealFile fh state).2 name ↔ store.HasFile state name
  size : ∀ (fh : H) (state : σ) (name : Bytes),
    store.HasFile (store.size fh state).2 name ↔ store.HasFile state name ∨ revives fh name
  remove_ok : ∀ {path state}, (store.remove path state).1 = Status.OK →
    ∀ name, store.HasFile (store.remove path state).2 name ↔
      store.HasFile state name ∧ name ≠ path
  remove_error : ∀ {path state}, (store.remove path state).1 ≠ Status.OK →
    ∀ name, store.HasFile (store.remove path state).2 name ↔ store.HasFile state name

/-- The store with the outcomes of its next removals: a removal with a failure returns it and
leaves the file in place. -/
def faulty (store : Store σ H) : Store (σ × List (Option Failure)) H where
  openFile := fun path flags (state, outcomes) =>
    let (result, state) := store.openFile path flags state
    (result, state, outcomes)
  append := fun fh offset buf (state, outcomes) =>
    let (status, state) := store.append fh offset buf state
    (status, state, outcomes)
  read := fun fh offset size buf (state, outcomes) =>
    let (result, state) := store.read fh offset size buf state
    (result, state, outcomes)
  sealFile := fun fh (state, outcomes) =>
    let (status, state) := store.sealFile fh state
    (status, state, outcomes)
  size := fun fh (state, outcomes) =>
    let (result, state) := store.size fh state
    (result, state, outcomes)
  remove := fun path (state, outcomes) =>
    match outcomes with
    | some failure :: outcomes => (.error failure, state, outcomes)
    | _ =>
        let (status, state) := store.remove path state
        (status, state, outcomes.tail)
  close := fun fh (state, outcomes) => (store.close fh state, outcomes)
  forEach := fun (state, _) => store.forEach state

theorem faulty_openAndRead (store : Store σ H) (path : Bytes) (offset size : ℕ) (buf : Bytes)
    (state : σ) (outcomes : List (Option Failure)) :
    (store.faulty.openAndRead path offset size buf (state, outcomes)).2 =
      ((store.openAndRead path offset size buf state).2, outcomes) := by
  simp only [openAndRead, faulty]
  cases opened : store.openFile path .rdonly state with
  | mk result next => cases result <;> simp only [opened]

/-- A store whose removals fail at times creates and removes the same files otherwise. -/
def Directory.faulty {store : Store σ H} (directory : store.Directory) :
    store.faulty.Directory where
  revives := directory.revives
  create_ok := by
    rintro path ⟨state, outcomes⟩ fh ⟨next, left⟩ opened
    simp only [Store.faulty, Prod.mk.injEq] at opened
    exact directory.create_ok (Prod.ext opened.1 opened.2.1)
  create_error := by
    rintro path ⟨state, outcomes⟩ failure ⟨next, left⟩ opened
    simp only [Store.faulty, Prod.mk.injEq] at opened
    exact directory.create_error (Prod.ext opened.1 opened.2.1)
  append := fun fh offset buf state name => directory.append fh offset buf state.1 name
  openAndRead := by
    rintro path offset size buf ⟨state, outcomes⟩ name
    rw [faulty_openAndRead]
    exact directory.openAndRead path offset size buf state name
  sealFile := fun fh state name => directory.sealFile fh state.1 name
  size := fun fh state name => directory.size fh state.1 name
  remove_ok := by
    rintro path ⟨state, outcomes⟩ removed
    rcases outcomes with _ | ⟨_ | failure, outcomes⟩
    · exact directory.remove_ok removed
    · exact directory.remove_ok removed
    · cases removed
  remove_error := by
    rintro path ⟨state, outcomes⟩ failed
    rcases outcomes with _ | ⟨_ | failure, outcomes⟩
    · exact directory.remove_error failed
    · exact directory.remove_error failed
    · exact fun name => Iff.rfl

end Store

namespace MemStore

theorem hasFile_iff {files : MemStore} {path : Bytes} : store.HasFile files path ↔ path ∈ files :=
  Std.ExtTreeMap.mem_keys

/-- A handle of the in-memory store puts its own path back. -/
def directory : store.Directory where
  revives := fun fh name => name = fh
  create_ok := by
    intro path files fh next opened
    have handle : fh = path := openFile_handle opened
    have created := spec.create_ok opened
    have files_eq : next = (subscript files path).2 := by
      rw [← openFile_createExclusive_files, opened]
    subst handle files_eq
    refine ⟨?_, fun name revived => revived, ?_⟩
    · rw [hasFile_iff]
      exact Map.notMem_of_getElem? created.1
    · intro name
      simp only [hasFile_iff, mem_subscript_iff, or_comm]
  create_error := by
    intro path files failure next opened name
    simp only [store, openFile, OpenFlags.createExclusive] at opened
    split at opened
    · simp only [if_true, Prod.mk.injEq] at opened
      rw [opened.2]
    · simp at opened
  append := by
    intro path offset buf files name
    rw [hasFile_iff, hasFile_iff]
    rw [mem_append_iff, or_comm]
  openAndRead := by
    intro path offset size buf files name
    rw [openAndRead_files]
  sealFile := fun _ _ _ => Iff.rfl
  size := by
    intro path files name
    simp only [hasFile_iff]
    exact (mem_subscript_iff files path name).trans or_comm
  remove_ok := by
    intro path files _ name
    rw [hasFile_iff, hasFile_iff]
    exact Map.mem_erase_iff
  remove_error := by
    intro path files failed
    exact absurd rfl failed

end MemStore

namespace LocalStore

theorem hasFile_iff {posix : Posix} {path : Bytes} :
    store.HasFile posix path ↔ path ∈ posix.names :=
  Std.ExtTreeMap.mem_keys

theorem hasFile_of_names {before after : Posix} (same : after.names = before.names)
    (name : Bytes) : store.HasFile after name ↔ store.HasFile before name := by
  simp only [hasFile_iff, same]

/-- A descriptor of a removed file does not put its name back. -/
def directory : store.Directory where
  revives := fun _ _ => False
  create_ok := by
    intro path posix fd next opened
    cases found : posix.names[path]? with
    | some number =>
        simp [store, openFile, Posix.openAt, found, OpenFlags.createExclusive] at opened
    | none =>
        simp only [store, openFile, Posix.openAt, found, OpenFlags.createExclusive,
          Posix.newDescriptor, if_true, Prod.mk.injEq] at opened
        rcases opened with ⟨-, rfl⟩
        refine ⟨?_, fun _ impossible => impossible.elim, ?_⟩
        · rw [hasFile_iff]
          exact Map.notMem_of_getElem? found
        · intro name
          simp only [hasFile_iff, Map.mem_insert_iff]
  create_error := by
    intro path posix failure next opened
    cases found : posix.names[path]? with
    | some number =>
        simp only [store, openFile, Posix.openAt, found, OpenFlags.createExclusive, Bool.and_self,
          if_true, Prod.mk.injEq] at opened
        rw [opened.2]
        exact fun name => Iff.rfl
    | none =>
        simp [store, openFile, Posix.openAt, found, OpenFlags.createExclusive,
          Posix.newDescriptor] at opened
  append := by
    intro fd offset buf posix name
    simp only [hasFile_of_names (append_names fd offset buf posix), or_false]
  openAndRead := fun path offset size buf posix =>
    hasFile_of_names (openAndRead_names path offset size buf posix)
  sealFile := fun fd posix => hasFile_of_names (sealFile_names fd posix)
  size := by
    intro fd posix name
    simp only [hasFile_of_names (size_names fd posix), or_false]
  remove_ok := by
    intro path posix removed name
    by_cases present : path ∈ posix.names
    · rw [hasFile_iff, hasFile_iff]
      simp only [store, remove, Posix.unlink, present, if_true, Map.mem_erase_iff]
    · simp [store, remove, Posix.unlink, present, Status.fail] at removed
  remove_error := by
    intro path posix failed name
    by_cases present : path ∈ posix.names
    · simp [store, remove, Posix.unlink, present] at failed
    · simp [store, remove, Posix.unlink, present]

end LocalStore

namespace Chunk

variable {σ H : Type} {store : Store σ H}

theorem DrainTurn.hasFile (directory : store.Directory) {before after : Chunk H × σ}
    (turn : DrainTurn store before after)
    (settled : ∀ name, directory.revives before.1.fh name → store.HasFile before.2 name)
    (name : Bytes) : store.HasFile after.2 name ↔ store.HasFile before.2 name := by
  cases turn with
  | reject => exact Iff.rfl
  | write => exact (directory.append _ _ _ _ name).trans (or_iff_left_of_imp (settled name))
  | fail => exact (directory.append _ _ _ _ name).trans (or_iff_left_of_imp (settled name))

theorem hasFile_of_drainTurns (directory : store.Directory) {before after : Chunk H × σ}
    (turns : Relation.ReflTransGen (DrainTurn store) before after)
    (settled : ∀ name, directory.revives before.1.fh name → store.HasFile before.2 name)
    (name : Bytes) : store.HasFile after.2 name ↔ store.HasFile before.2 name := by
  induction turns generalizing name with
  | refl => exact Iff.rfl
  | tail earlier turn ih =>
      refine (turn.hasFile directory ?_ name).trans (ih name)
      intro other revived
      rw [(same_file_of_drainTurns earlier).1] at revived
      exact (ih other).mpr (settled other revived)

/-- An append that reaches the store puts back what its handle revives. -/
theorem Appended.hasFile (directory : store.Directory) {buf : Bytes} {offset : ℕ}
    {chunk : Chunk H} {state : σ} {after : Chunk H × σ}
    (appended : Appended store buf offset chunk state after) (name : Bytes) :
    store.HasFile after.2 name ↔ store.HasFile state name ∨
      (chunk.state ≠ .kSealed ∧ offset = chunk.size ∧ directory.revives chunk.fh name) := by
  have reaches := directory.append chunk.fh offset buf state
  cases appended with
  | refused notOk reason =>
      refine (or_iff_left_of_imp ?_).symm
      rintro ⟨unsealed, reached, -⟩
      rcases reason with isSealed | behind
      · exact absurd isSealed unsealed
      · omega
  | queued unsealed beyond =>
      refine (or_iff_left_of_imp ?_).symm
      rintro ⟨-, reached, -⟩
      omega
  | failed unsealed reached notOk => simpa [unsealed, reached] using reaches name
  | written unsealed reached ok drains drained =>
      have settled : ∀ other, directory.revives chunk.fh other →
          store.HasFile (store.append chunk.fh offset buf state).2 other :=
        fun other revived => (reaches other).mpr (Or.inr revived)
      have drainedNames := (hasFile_of_drainTurns directory drains settled name).trans
        (reaches name)
      simpa [unsealed, reached] using drainedNames

theorem queryAndSeal_hasFile (chunk : Chunk H) (state : σ) (directory : store.Directory)
    (length : OutPointer) (name : Bytes) :
    store.HasFile (chunk.queryAndSeal store length state).2.2 name ↔ store.HasFile state name ∨
      (length = .valid ∧ (store.sealFile chunk.fh state).1 = Status.OK ∧
        directory.revives chunk.fh name) := by
  have sealedNames := directory.sealFile chunk.fh state name
  have sizedNames := directory.size chunk.fh (store.sealFile chunk.fh state).2 name
  rw [sealedNames] at sizedNames
  cases length with
  | null => simp [queryAndSeal]
  | valid =>
      rcases queryAndSeal_cases store chunk state with
        ⟨failure, sealFailed, called⟩ | ⟨sealOk, ⟨failure, -, called⟩ | ⟨size, -, called⟩⟩
      · simpa [called, sealFailed, Status.OK] using sealedNames
      · simpa [called, sealOk] using sizedNames
      · simpa [called, sealOk] using sizedNames

theorem read_hasFile (chunk : Chunk H) (state : σ) (directory : store.Directory)
    (text : UUID.Text) (offset size : UInt64) (buf : Option Bytes)
    (name : Bytes) :
    store.HasFile (chunk.read store text offset size buf state).2 name ↔
      store.HasFile state name := by
  unfold read
  cases buf with
  | none => exact Iff.rfl
  | some buf =>
      simp only
      split
      · exact Iff.rfl
      · exact directory.openAndRead _ _ _ _ _ name

end Chunk

namespace World

variable {σ H : Type} {store : Store σ H} {text : UUID.Text} {start : σ} {world : World σ H}

/-- `Bank::remove_chunk` is all or nothing: it returns `OK` only if the chunk is gone from the
bank and from the store, and an error leaves both as they were. -/
def AllOrNothing (store : Store σ H) (text : UUID.Text) (uuid : UUID) (world : World σ H) : Prop :=
  ((world.removeChunk store text uuid).1 = Status.OK →
    uuid ∉ (world.removeChunk store text uuid).2.bank ∧
      ¬ store.HasFile (world.removeChunk store text uuid).2.store (text.str uuid)) ∧
  ((world.removeChunk store text uuid).1 ≠ Status.OK →
    (world.removeChunk store text uuid).2 = world)

/-- The bank knows exactly the chunks whose files were not in the store when the bank was
constructed and are there now. -/
def Registered (store : Store σ H) (text : UUID.Text) (start : σ) (world : World σ H) : Prop :=
  ∀ uuid, uuid ∈ world.bank ↔
    store.HasFile world.store (text.str uuid) ∧ ¬ store.HasFile start (text.str uuid)

/-- The files that the store calls of a step can put back. -/
def Revives (directory : store.Directory) (world : World σ H) : Event → Bytes → Prop
  | .append pointer _ offset, name =>
      ∃ chunk, world.chunks[pointer]? = some chunk ∧ chunk.state ≠ .kSealed ∧
        offset = chunk.size ∧ directory.revives chunk.fh name
  | .queryAndSeal pointer length, name =>
      ∃ chunk, world.chunks[pointer]? = some chunk ∧ length = .valid ∧
        (store.sealFile chunk.fh world.store).1 = Status.OK ∧ directory.revives chunk.fh name
  | _, _ => False

/-- The store does not refuse the removal of a chunk, and no call through the handle of a removed
chunk puts its file back. -/
structure Orderly (directory : store.Directory) (text : UUID.Text) (world : World σ H)
    (event : Event) : Prop where
  removes : ∀ uuid, event = .removeChunk uuid → uuid ∈ world.bank →
    (store.remove (text.str uuid) world.store).1 = Status.OK
  keepsRemoved : ∀ name, world.Revives directory event name → store.HasFile world.store name

/-- What holds in every run: the first files stay, and a handle can put back only the file of its
chunk. -/
structure Tidy (directory : store.Directory) (text : UUID.Text) (start : σ) (world : World σ H) :
    Prop where
  waiting : world.Waiting
  persists : ∀ name, store.HasFile start name → store.HasFile world.store name
  handles : ∀ (pointer : ℕ) (chunk : Chunk H), world.chunks[pointer]? = some chunk →
    ∀ name, directory.revives chunk.fh name → name = text.str chunk.uuid

/-- For every store, every bank on it and every identifier, removing the chunk is all or nothing
if and only if the store removes a file that is there. -/
theorem allOrNothing_iff (directory : store.Directory) (text : UUID.Text) (uuid : UUID)
    (world : World σ H) :
    world.AllOrNothing store text uuid ↔
      (uuid ∈ world.bank → store.HasFile world.store (text.str uuid) →
        (store.remove (text.str uuid) world.store).1 = Status.OK) := by
  unfold AllOrNothing removeChunk
  cases present : world.bank[uuid]? with
  | none =>
      have absent : uuid ∉ world.bank := Map.notMem_of_getElem? present
      simp [Status.fail, absent]
  | some pointer =>
      have member : uuid ∈ world.bank := Map.mem_of_getElem? present
      have erased : uuid ∉ world.bank.erase uuid := by simp
      simp only [erased, not_false_eq_true, true_and, member, forall_const, ne_eq,
        not_true_eq_false, false_implies, and_true]
      by_cases removed : (store.remove (text.str uuid) world.store).1 = Status.OK
      · simp [removed, directory.remove_ok removed]
      · simp [removed, directory.remove_error removed]

/-- A new chunk server is tidy. -/
theorem initial_tidy (directory : store.Directory) (text : UUID.Text) (start : σ) :
    (initial start).Tidy directory text start where
  waiting := initial_waiting start
  persists := fun _ => id
  handles := by
    intro pointer chunk found
    simp [initial] at found

theorem initial_registered (store : Store σ H) (text : UUID.Text) (start : σ) :
    (initial start : World σ H).Registered store text start := by
  intro uuid
  simp [initial]

theorem Tidy.put {directory : store.Directory} (tidy : world.Tidy directory text start)
    {pointer : ℕ} {old chunk : Chunk H} {state : σ}
    (present : world.chunks[pointer]? = some old)
    (waiting : (world.put pointer chunk state).Waiting) (sameHandle : chunk.fh = old.fh)
    (sameUuid : chunk.uuid = old.uuid)
    (kept : ∀ name, store.HasFile world.store name → store.HasFile state name) :
    (world.put pointer chunk state).Tidy directory text start where
  waiting := waiting
  persists := fun name first => kept name (tidy.persists name first)
  handles := by
    refine forall_put present ?_ ?_
    · rw [sameHandle, sameUuid]
      exact tidy.handles pointer old present
    · exact fun other found _ => tidy.handles other found

theorem Tidy.revives_isName {directory : store.Directory}
    (tidy : world.Tidy directory text start) {event : Event} {name : Bytes}
    (revived : world.Revives directory event name) : ∃ uuid, name = text.str uuid := by
  cases event with
  | append pointer buf offset =>
      rcases revived with ⟨chunk, found, -, -, revived⟩
      exact ⟨chunk.uuid, tidy.handles pointer chunk found name revived⟩
  | queryAndSeal pointer length =>
      rcases revived with ⟨chunk, found, -, -, revived⟩
      exact ⟨chunk.uuid, tidy.handles pointer chunk found name revived⟩
  | createChunk chunk uuid => exact revived.elim
  | removeChunk uuid => exact revived.elim
  | timeout pointer call => exact revived.elim
  | read pointer offset size buf => exact revived.elim

/-- A step that leaves the bank alone keeps it right exactly if it puts no removed file back. -/
theorem Registered.iff_orderly {directory : store.Directory} {next : World σ H} {event : Event}
    (registered : world.Registered store text start) (tidy : world.Tidy directory text start)
    (notRemove : ∀ uuid, event ≠ .removeChunk uuid) (sameBank : next.bank = world.bank)
    (names : ∀ name, store.HasFile next.store name ↔
      store.HasFile world.store name ∨ world.Revives directory event name) :
    next.Registered store text start ↔ world.Orderly directory text event := by
  constructor
  · intro nextRegistered
    refine ⟨fun uuid removes => absurd removes (notRemove uuid), ?_⟩
    intro name revived
    by_contra missing
    rcases tidy.revives_isName revived with ⟨uuid, rfl⟩
    have member : uuid ∈ next.bank := by
      refine (nextRegistered uuid).mpr ⟨(names _).mpr (Or.inr revived), ?_⟩
      exact fun first => missing (tidy.persists _ first)
    rw [sameBank] at member
    exact missing ((registered uuid).mp member).1
  · intro orderly uuid
    rw [sameBank, registered uuid, names, or_iff_left_of_imp (orderly.keepsRemoved _)]

/-- `create_chunk` keeps files and entries together. -/
theorem createChunk_registered (directory : store.Directory) (chunk : OutPointer) (uuid : UUID)
    (registered : world.Registered store text start) (tidy : world.Tidy directory text start) :
    (world.createChunk store text chunk uuid).2.Tidy directory text start ∧
      (world.createChunk store text chunk uuid).2.Registered store text start := by
  have waiting := (createChunk_stepped store text chunk uuid world).waiting tidy.waiting
  revert waiting
  unfold createChunk Chunk.create
  by_cases null : chunk = .null
  · rw [if_pos null]
    exact fun _ => ⟨tidy, registered⟩
  rw [if_neg null]
  cases opens : store.openFile (text.str uuid) .createExclusive world.store with
  | mk result state =>
      cases result with
      | error failure =>
          intro waiting
          have names := directory.create_error opens
          refine ⟨⟨waiting, ?_, tidy.handles⟩, ?_⟩
          · exact fun name first => (names name).mpr (tidy.persists name first)
          · intro other
            simp only [registered other, names]
      | ok fh =>
          intro waiting
          rcases directory.create_ok opens with ⟨fresh, revived, names⟩
          refine ⟨⟨waiting, ?_, ?_⟩, ?_⟩
          · exact fun name first => (names name).mpr (Or.inl (tidy.persists name first))
          · intro pointer found foundAt
            rcases getElem?_adopt.mp foundAt with old | ⟨-, rfl⟩
            · exact tidy.handles pointer found old
            · exact revived
          · intro other
            have isNew : ¬ store.HasFile start (text.str uuid) :=
              fun first => fresh (tidy.persists _ first)
            simp only [adopt, Chunk.opened, Map.mem_insert_iff, registered other, names,
              text.str_inj]
            by_cases same : other = uuid
            · subst same
              simp [isNew]
            · simp [same]

/-- `remove_chunk` keeps files and entries together exactly if it is orderly. -/
theorem removeChunk_registered (directory : store.Directory) (uuid : UUID)
    (registered : world.Registered store text start) (tidy : world.Tidy directory text start) :
    (world.removeChunk store text uuid).2.Tidy directory text start ∧
      ((world.removeChunk store text uuid).2.Registered store text start ↔
        world.Orderly directory text (.removeChunk uuid)) := by
  unfold removeChunk
  cases present : world.bank[uuid]? with
  | none =>
      have absent : uuid ∉ world.bank := Map.notMem_of_getElem? present
      refine ⟨tidy, fun _ => ⟨?_, fun name => False.elim⟩, fun _ => registered⟩
      rintro other same member
      cases same
      exact absurd member absent
  | some pointer =>
      have member : uuid ∈ world.bank := Map.mem_of_getElem? present
      rcases (registered uuid).mp member with ⟨held, isNew⟩
      by_cases removed : (store.remove (text.str uuid) world.store).1 = Status.OK
      · have names := directory.remove_ok removed
        refine ⟨⟨tidy.waiting, ?_, tidy.handles⟩, fun _ => ⟨?_, fun name => False.elim⟩, ?_⟩
        · intro name first
          refine (names name).mpr ⟨tidy.persists name first, ?_⟩
          rintro rfl
          exact isNew first
        · rintro other same -
          cases same
          exact removed
        · intro _ other
          simp only [Map.mem_erase_iff, registered other, names, ne_eq, text.str_inj]
          tauto
      · have names := directory.remove_error removed
        refine ⟨⟨tidy.waiting, ?_, tidy.handles⟩, ?_, ?_⟩
        · exact fun name first => (names name).mpr (tidy.persists name first)
        · intro nextRegistered
          have impossible := (nextRegistered uuid).mpr ⟨(names _).mpr held, isNew⟩
          simp at impossible
        · intro orderly
          exact absurd (orderly.removes uuid rfl member) removed

/-- A section of a chunk, with the files that its store calls leave. -/
theorem Registered.put {directory : store.Directory} {event : Event}
    (registered : world.Registered store text start) (tidy : world.Tidy directory text start)
    {pointer : ℕ} {old chunk : Chunk H} {state : σ}
    (present : world.chunks[pointer]? = some old)
    (waiting : (world.put pointer chunk state).Waiting)
    (sameFile : chunk.fh = old.fh ∧ chunk.uuid = old.uuid)
    (notRemove : ∀ uuid, event ≠ .removeChunk uuid)
    (names : ∀ name, store.HasFile state name ↔
      store.HasFile world.store name ∨ world.Revives directory event name) :
    (world.put pointer chunk state).Tidy directory text start ∧
      ((world.put pointer chunk state).Registered store text start ↔
        world.Orderly directory text event) := by
  constructor
  · apply tidy.put present waiting sameFile.1 sameFile.2
    exact fun name held => (names name).mpr (Or.inl held)
  · exact registered.iff_orderly tidy notRemove rfl names

/-- What one step does to the agreement of the bank with its files. -/
theorem step_registered (directory : store.Directory) {event : Event} {next : World σ H}
    (took : world.step store text event = some next) (waiting : next.Waiting)
    (registered : world.Registered store text start) (tidy : world.Tidy directory text start) :
    next.Tidy directory text start ∧
      (next.Registered store text start ↔ world.Orderly directory text event) := by
  have unchanged : (∀ uuid, event ≠ .removeChunk uuid) →
      (∀ name, ¬ world.Revives directory event name) →
        world.Tidy directory text start ∧
          (world.Registered store text start ↔ world.Orderly directory text event) := by
    intro notRemove revivesNothing
    refine ⟨tidy, registered.iff_orderly tidy notRemove rfl ?_⟩
    exact fun name => (or_iff_left (revivesNothing name)).symm
  cases event with
  | createChunk chunk uuid =>
      simp only [step, Option.some.injEq] at took
      subst took
      rcases createChunk_registered directory chunk uuid registered tidy with ⟨kept, still⟩
      refine ⟨kept, fun _ => ⟨?_, fun name => False.elim⟩, fun _ => still⟩
      exact fun other different => by cases different
  | removeChunk uuid =>
      simp only [step, Option.some.injEq] at took
      subst took
      exact removeChunk_registered directory uuid registered tidy
  | append pointer buf offset =>
      cases present : world.chunks[pointer]? with
      | none =>
          simp only [step, present, Option.some.injEq] at took
          exact took ▸ unchanged (by simp) (by simp [Revives, present])
      | some chunk =>
          rcases chunk.append_spec store buf offset world.store (tidy.waiting _ _ present) with
            ⟨result, ran, appended⟩
          simp only [step, present, ran, Option.map_some, Option.some.injEq] at took
          subst took
          refine registered.put tidy present waiting appended.same_file (by simp) ?_
          intro name
          simpa [Revives, present] using appended.hasFile directory name
  | timeout pointer call =>
      cases present : world.chunks[pointer]? with
      | none =>
          simp only [step, present, Option.some.injEq] at took
          exact took ▸ unchanged (by simp) (by simp [Revives])
      | some chunk =>
          rcases chunk.timeout_spec call with settled | ⟨offset, buf, pending, fired⟩
          · simp only [step, present, settled, Option.map_some, Option.some.injEq] at took
            subst took
            exact registered.put tidy present waiting ⟨rfl, rfl⟩ (by simp) (by simp [Revives])
          · simp only [step, present, fired, Option.map_some, Option.some.injEq] at took
            subst took
            exact registered.put tidy present waiting ⟨rfl, rfl⟩ (by simp) (by simp [Revives])
  | read pointer offset size buf =>
      cases present : world.chunks[pointer]? with
      | none =>
          simp only [step, present, Option.some.injEq] at took
          exact took ▸ unchanged (by simp) (by simp [Revives])
      | some chunk =>
          simp only [step, present, ← put_self present, Option.some.injEq] at took
          subst took
          refine registered.put tidy present waiting ⟨rfl, rfl⟩ (by simp) ?_
          simpa [Revives] using chunk.read_hasFile world.store directory text offset size buf
  | queryAndSeal pointer length =>
      cases present : world.chunks[pointer]? with
      | none =>
          simp only [step, present, Option.some.injEq] at took
          exact took ▸ unchanged (by simp) (by simp [Revives, present])
      | some chunk =>
          have called := chunk.queryAndSeal_spec store length world.store
          simp only [step, present, Option.some.injEq] at took
          subst took
          refine registered.put tidy present waiting called.same_file (by simp) ?_
          intro name
          have files := chunk.queryAndSeal_hasFile world.store directory length name
          simpa [Revives, present] using files

/-- Removals and what they leave. On every store, for every bank and every identifier,
`remove_chunk` is all or nothing if and only if the store does not refuse to remove the chunk's
file. Over every run of a bank from its construction, whatever the store refuses, the bank knows
exactly the files that it created and did not remove, in every state, if and only if the store
refuses no removal and no call through the handle of a removed chunk puts its file back. -/
theorem removeChunk_exact_iff (directory : store.Directory) (text : UUID.Text) :
    (∀ (uuid : UUID) (world : World σ H), world.AllOrNothing store text uuid ↔
      (uuid ∈ world.bank → store.HasFile world.store (text.str uuid) →
        (store.remove (text.str uuid) world.store).1 = Status.OK)) ∧
    ∀ (start : σ) (events : List Event),
      Lib.Throughout (step store text) (Registered store text start) (initial start) events ↔
        Lib.Guarded (step store text) (Orderly directory text) (initial start) events := by
  refine ⟨allOrNothing_iff directory text, ?_⟩
  intro start events
  apply Lib.throughout_iff_guarded (Tidy directory text start) _ _
    (initial_tidy directory text start) (initial_registered store text start)
    (fun _ _ => trivial)
  intro before event tidy _ registered
  rcases step_spec store text tidy.waiting event with ⟨next, took, stepped⟩
  exact ⟨next, took, step_registered directory took (stepped.waiting tidy.waiting) registered tidy⟩

/-- `unlink` fails with `EIO` on the file of the only chunk: the bank reports the chunk as removed,
and its file stays. -/
theorem removeChunk_leaves_file :
    ∃ world, (initial (Posix.empty, [some ⟨.other 5, "failed to unlink"⟩])).run
        LocalStore.store.faulty .canonical [.createChunk .valid ⟨0, 1⟩] = some world ∧
      (world.removeChunk LocalStore.store.faulty .canonical ⟨0, 1⟩).1 = Status.OK ∧
      ¬ world.AllOrNothing LocalStore.store.faulty .canonical ⟨0, 1⟩ ∧
      ¬ (world.removeChunk LocalStore.store.faulty .canonical ⟨0, 1⟩).2.Registered
        LocalStore.store.faulty .canonical
        (Posix.empty, [some ⟨.other 5, "failed to unlink"⟩]) := by
  refine ⟨_, rfl, by decide, ?_, ?_⟩
  · rintro ⟨gone, -⟩
    exact absurd (gone rfl).2 (by decide)
  · intro registered
    exact absurd (registered ⟨0, 1⟩) (by decide)

end World

end Pain.Manusya
