import Pain.Base.UuidText
import Pain.Manusya.LocalStore
import Pain.Manusya.MemStore
import Pain.Manusya.Steps

/-!
# Loading a bank from its store

A fresh bank is meant to find the chunks of its predecessor by walking over the
files of the store. `Bank::load` opens each of them with the constructor that
also creates chunks, and that constructor opens with `O_CREAT | O_EXCL`: a path
that the store lists is a path that cannot be opened. The chunk is skipped, and
`load` returns `OK` with an empty bank.

`Listing` says what this needs of a store: a listed path cannot be created, and
a store used by the chunk server lists only names of chunks. Both stores
satisfy it, so a restart preserves the chunks of a bank that has none, and of no
other.
-/

namespace Pain.Manusya

namespace Store

variable {σ H : Type}

/-- Every path that the store lists is a name. -/
def Lists (store : Store σ H) (isName : Bytes → Prop) (state : σ) : Prop :=
  ∀ path ∈ store.forEach state, isName path

/-- A store that refuses to create what it lists and that lists only what was created under a
name. `named` are the handles that such a creation returns. -/
structure Listing (store : Store σ H) (isName : Bytes → Prop) where
  named : H → Prop
  create_listed : ∀ {state path}, path ∈ store.forEach state →
    ∃ failure, store.openFile path .createExclusive state = (.error failure, state)
  create : ∀ {state path}, isName path → store.Lists isName state →
    store.Lists isName (store.openFile path .createExclusive state).2
  create_named : ∀ {state path fh next}, isName path →
    store.openFile path .createExclusive state = (.ok fh, next) → named fh
  append : ∀ {state fh} (offset : ℕ) (buf : Bytes), named fh → store.Lists isName state →
    store.Lists isName (store.append fh offset buf state).2
  openAndRead : ∀ {state path} (offset size : ℕ) (buf : Bytes), isName path →
    store.Lists isName state → store.Lists isName (store.openAndRead path offset size buf state).2
  sealFile : ∀ {state fh}, named fh → store.Lists isName state →
    store.Lists isName (store.sealFile fh state).2
  size : ∀ {state fh}, named fh → store.Lists isName state →
    store.Lists isName (store.size fh state).2
  remove : ∀ {state} (path : Bytes), store.Lists isName state →
    store.Lists isName (store.remove path state).2

end Store

namespace MemStore

theorem lists_of_mem_iff {isName : Bytes → Prop} {files after : MemStore} {path : Bytes}
    (members : ∀ other, other ∈ after ↔ other = path ∨ other ∈ files) (named : isName path)
    (lists : store.Lists isName files) : store.Lists isName after := by
  intro other member
  rcases (members other).mp (Std.ExtTreeMap.mem_keys.mp member) with rfl | old
  · exact named
  · exact lists other (Std.ExtTreeMap.mem_keys.mpr old)

/-- The handles of the in-memory store are paths, and `operator[]` puts a file back under the path
of a handle. -/
def listing (isName : Bytes → Prop) : store.Listing isName where
  named := isName
  create_listed := by
    intro files path member
    rcases Map.mem_iff_exists.mp (Std.ExtTreeMap.mem_keys.mp member) with ⟨data, found⟩
    exact ⟨_, by simp [store, openFile, found, OpenFlags.createExclusive]; rfl⟩
  create := by
    intro files path named lists
    rw [openFile_createExclusive_files]
    exact lists_of_mem_iff (mem_subscript_iff files path) named lists
  create_named := by
    intro files path fh next named opened
    simp only [store, openFile, OpenFlags.createExclusive] at opened
    split at opened
    · simp at opened
    · simp only [if_true, Prod.mk.injEq, Except.ok.injEq] at opened
      exact opened.1 ▸ named
  append := by
    intro files path offset buf named lists
    exact lists_of_mem_iff (mem_append_iff path offset buf files) named lists
  openAndRead := by
    intro files path offset size buf _ lists
    rw [openAndRead_files]
    exact lists
  sealFile := by
    intro files path _ lists
    exact lists
  size := by
    intro files path named lists
    exact lists_of_mem_iff (mem_subscript_iff files path) named lists
  remove := by
    intro files path lists other member
    simp only [store, remove, forEach, Std.ExtTreeMap.mem_keys, Std.ExtTreeMap.mem_erase] at member
    exact lists other (Std.ExtTreeMap.mem_keys.mpr member.2)

end MemStore

namespace LocalStore

/-- No call but `open` and `unlink` changes the names of the directory. -/
theorem lists_of_names {isName : Bytes → Prop} {before after : Posix}
    (lists : store.Lists isName before) (same : after.names = before.names) :
    store.Lists isName after := by
  intro path member
  apply lists path
  simpa [store, forEach, same] using member

theorem openFile_createExclusive_names (path : Bytes) (posix : Posix) {other : Bytes}
    (member : other ∈ (store.openFile path .createExclusive posix).2.names) :
    other = path ∨ other ∈ posix.names := by
  cases found : posix.names[path]? with
  | some number =>
      right
      simpa [store, openFile, Posix.openAt, found, OpenFlags.createExclusive] using member
  | none =>
      simp only [store, openFile, Posix.openAt, found, OpenFlags.createExclusive,
        Posix.newDescriptor, if_true, Std.ExtTreeMap.mem_insert,
        Std.LawfulEqCmp.compare_eq_iff_eq] at member
      exact member.imp_left Eq.symm

theorem append_names (fd offset : ℕ) (buf : Bytes) (posix : Posix) :
    (store.append fd offset buf posix).2.names = posix.names := by
  cases found : posix.lookup fd with
  | none => simp [store, append, Posix.write, found]
  | some entry =>
      rcases entry with ⟨description, inode⟩
      cases writable : description.writable <;>
        simp [store, append, Posix.write, found, writable]

theorem read_names (fd offset size : ℕ) (buf : Bytes) (posix : Posix) :
    (store.read fd offset size buf posix).2.names = posix.names := by
  cases found : posix.lookup fd with
  | none => simp [store, read, Posix.seekAndRead, found]
  | some entry =>
      rcases entry with ⟨description, inode⟩
      simp only [store, read, Posix.seekAndRead, found]
      split <;> rfl

theorem openAndRead_names (path : Bytes) (offset size : ℕ) (buf : Bytes) (posix : Posix) :
    (store.openAndRead path offset size buf posix).2.names = posix.names := by
  have openNames : (store.openFile path .rdonly posix).2.names = posix.names := by
    cases found : posix.names[path]? with
    | none => simp [store, openFile, Posix.openAt, OpenFlags.rdonly, found]
    | some number =>
        cases inode : posix.inodes[number]? <;>
          simp [store, openFile, Posix.openAt, OpenFlags.rdonly, Posix.newDescriptor, found, inode]
  unfold Store.openAndRead
  cases opened : store.openFile path .rdonly posix with
  | mk result next =>
      rw [opened] at openNames
      cases result with
      | error failure => exact openNames
      | ok fd =>
          exact (read_names fd offset size buf next).trans openNames

theorem sealFile_names (fd : ℕ) (posix : Posix) :
    (store.sealFile fd posix).2.names = posix.names := by
  simp only [store, sealFile, Posix.chmodReadOnly]
  cases posix.lookup fd <;> rfl

theorem size_names (fd : ℕ) (posix : Posix) : (store.size fd posix).2.names = posix.names := by
  simp only [store, size]
  cases posix.lookup fd <;> rfl

/-- The names of the directory are the paths that were created. -/
def listing (isName : Bytes → Prop) : store.Listing isName where
  named := fun _ => True
  create_listed := by
    intro posix path member
    rcases Map.mem_iff_exists.mp (Std.ExtTreeMap.mem_keys.mp member) with ⟨number, found⟩
    exact ⟨_, by simp [store, openFile, Posix.openAt, found, OpenFlags.createExclusive]; rfl⟩
  create := by
    intro posix path named lists other member
    rcases openFile_createExclusive_names path posix (Std.ExtTreeMap.mem_keys.mp member) with
      rfl | old
    · exact named
    · exact lists other (Std.ExtTreeMap.mem_keys.mpr old)
  create_named := fun _ _ => trivial
  append := by
    intro posix fd offset buf _ lists
    exact lists_of_names lists (append_names fd offset buf posix)
  openAndRead := by
    intro posix path offset size buf _ lists
    exact lists_of_names lists (openAndRead_names path offset size buf posix)
  sealFile := by
    intro posix fd _ lists
    exact lists_of_names lists (sealFile_names fd posix)
  size := by
    intro posix fd _ lists
    exact lists_of_names lists (size_names fd posix)
  remove := by
    intro posix path lists other member
    refine lists other (Std.ExtTreeMap.mem_keys.mpr ?_)
    have kept := Std.ExtTreeMap.mem_keys.mp member
    by_cases present : path ∈ posix.names
    · simp only [store, remove, Posix.unlink, present, if_true, Std.ExtTreeMap.mem_erase] at kept
      exact kept.2
    · simpa [store, remove, Posix.unlink, present] using kept

end LocalStore

namespace World

variable {σ H : Type} {store : Store σ H} {text : UUID.Text}

/-- A path that is the text of an identifier. -/
def IsName (text : UUID.Text) (path : Bytes) : Prop :=
  ∃ uuid, path = text.str uuid

/-- The store lists only names, and every chunk holds a handle that was created under one. -/
structure Named (listing : store.Listing (IsName text)) (world : World σ H) : Prop where
  waiting : world.Waiting
  lists : store.Lists (IsName text) world.store
  handles : ∀ (pointer : ℕ) (chunk : Chunk H), world.chunks[pointer]? = some chunk →
    listing.named chunk.fh

end World

namespace Chunk

variable {σ H : Type} {store : Store σ H} {isName : Bytes → Prop}

/-- A turn of the drain loop brings no new name. -/
theorem DrainTurn.lists (listing : store.Listing isName) {before after : Chunk H × σ}
    (turn : DrainTurn store before after) (named : listing.named before.1.fh)
    (lists : store.Lists isName before.2) : store.Lists isName after.2 := by
  cases turn with
  | reject => exact lists
  | write => exact listing.append _ _ named lists
  | fail => exact listing.append _ _ named lists

theorem lists_of_drainTurns (listing : store.Listing isName) {before after : Chunk H × σ}
    (turns : Relation.ReflTransGen (DrainTurn store) before after)
    (named : listing.named before.1.fh) (lists : store.Lists isName before.2) :
    store.Lists isName after.2 := by
  induction turns with
  | refl => exact lists
  | tail earlier turn ih =>
      exact turn.lists listing ((same_file_of_drainTurns earlier).1 ▸ named) ih

/-- An append brings no new name. -/
theorem Appended.lists (listing : store.Listing isName) {buf : Bytes} {offset : ℕ}
    {chunk : Chunk H} {state : σ} {after : Chunk H × σ}
    (appended : Appended store buf offset chunk state after) (named : listing.named chunk.fh)
    (lists : store.Lists isName state) : store.Lists isName after.2 := by
  cases appended with
  | refused => exact lists
  | queued => exact lists
  | failed => exact listing.append _ _ named lists
  | written unsealed reached ok drains drained =>
      have start := listing.append offset buf named lists
      have finished := lists_of_drainTurns listing drains named start
      exact finished

end Chunk

namespace World

variable {σ H : Type} {store : Store σ H} {text : UUID.Text}

theorem Named.put {listing : store.Listing (IsName text)} {world : World σ H}
    (named : world.Named listing) {pointer : ℕ} {old chunk : Chunk H} {state : σ}
    (present : world.chunks[pointer]? = some old) (sameHandle : chunk.fh = old.fh)
    (waiting : (world.put pointer chunk state).Waiting)
    (lists : store.Lists (IsName text) state) : (world.put pointer chunk state).Named listing where
  waiting := waiting
  lists := lists
  handles := by
    refine forall_put present ?_ ?_
    · rw [sameHandle]
      exact named.handles pointer old present
    · exact fun other found _ => named.handles other found

/-- A step brings the names of chunks only. -/
theorem Stepped.named (listing : store.Listing (IsName text)) {world next : World σ H}
    {event : Event} (stepped : Stepped store text world event next)
    (named : world.Named listing) : next.Named listing := by
  have nextWaiting := stepped.waiting named.waiting
  cases stepped with
  | idle => exact named
  | notCreated => exact ⟨nextWaiting, listing.create ⟨_, rfl⟩ named.lists, named.handles⟩
  | @created _ uuid fh state opens =>
      have lists := listing.create ⟨uuid, rfl⟩ named.lists
      rw [opens] at lists
      refine ⟨nextWaiting, lists, ?_⟩
      intro pointer chunk found
      rcases getElem?_adopt.mp found with old | ⟨-, rfl⟩
      · exact named.handles pointer chunk old
      · exact listing.create_named ⟨uuid, rfl⟩ opens
  | removed present => exact ⟨nextWaiting, listing.remove _ named.lists, named.handles⟩
  | appended present appended =>
      have lists := appended.lists listing (named.handles _ _ present) named.lists
      exact named.put present appended.same_file.1 nextWaiting lists
  | timedOut present pending => exact named.put present rfl nextWaiting named.lists
  | read present =>
      exact ⟨nextWaiting, listing.openAndRead _ _ _ ⟨_, rfl⟩ named.lists, named.handles⟩
  | queriedAndSealed present called =>
      have handle := named.handles _ _ present
      have sealedLists := listing.sealFile handle named.lists
      cases called with
      | null => exact named.put present rfl nextWaiting named.lists
      | sealFailed => exact named.put present rfl nextWaiting sealedLists
      | sizeFailed => exact named.put present rfl nextWaiting (listing.size handle sealedLists)
      | done sized => exact named.put present rfl nextWaiting (listing.size handle sealedLists)

/-- In every run from an empty store, all files have names of chunks. -/
theorem run_named (listing : store.Listing (IsName text)) {state : σ}
    (fresh : store.forEach state = []) {events : List Event} {world : World σ H}
    (ran : (initial state).run store text events = some world) : world.Named listing := by
  have start : (initial state : World σ H).Named listing := by
    refine ⟨initial_waiting state, ?_, ?_⟩
    · intro path member
      simp [initial, fresh] at member
    · intro pointer chunk found
      simp [initial] at found
  refine Lib.exec_invariant_of_progress (Named listing) ?_ start ran
  intro before event holds
  rcases step_spec store text holds.waiting event with ⟨next, took, stepped⟩
  exact ⟨next, took, stepped.named listing holds⟩

/-- A fresh bank on the store of `world`, loaded. -/
def restart (store : Store σ H) (text : UUID.Text) (world : World σ H) : World σ H :=
  (initial world.store).load store text

/-- Nothing that the store lists can be loaded. -/
theorem restart_eq_initial (listing : store.Listing (IsName text)) {world : World σ H}
    (lists : store.Lists (IsName text) world.store) :
    world.restart store text = initial world.store := by
  have skipped : ∀ path ∈ store.forEach world.store,
      loadPath store text (initial world.store) path = initial world.store := by
    intro path member
    rcases lists path member with ⟨uuid, rfl⟩
    rcases listing.create_listed member with ⟨failure, refused⟩
    simp only [loadPath, Chunk.createFromUuid, text.fromStrOrDie_str, initial, refused]
  have fixed : ∀ paths : List Bytes, (∀ path ∈ paths, path ∈ store.forEach world.store) →
      paths.foldl (loadPath store text) (initial world.store) = initial world.store := by
    intro paths
    induction paths with
    | nil => intro _; rfl
    | cons path paths ih =>
        intro listed
        rw [List.foldl_cons, skipped path (listed path List.mem_cons_self)]
        exact ih (fun other later => listed other (List.mem_cons_of_mem _ later))
  exact fixed (store.forEach world.store) (fun _ => id)

/-- What a restart should preserve: the identifiers of the bank, and of every chunk the size and
the bytes that a read of a range inside the chunk returns. Every loaded chunk is sealed. -/
structure RestartPreserves (store : Store σ H) (text : UUID.Text) (world : World σ H) : Prop where
  sameChunks : ∀ uuid : UUID, uuid ∈ (world.restart store text).bank ↔ uuid ∈ world.bank
  sameContents : ∀ (uuid : UUID) (pointer loadedPointer : ℕ) (chunk loaded : Chunk H),
    world.bank[uuid]? = some pointer → world.chunks[pointer]? = some chunk →
    (world.restart store text).bank[uuid]? = some loadedPointer →
    (world.restart store text).chunks[loadedPointer]? = some loaded →
      loaded.state = .kSealed ∧ loaded.size = chunk.size ∧
        ∀ offset size : UInt64, offset.toNat + size.toNat ≤ chunk.size →
          (loaded.read store text offset size (some []) (world.restart store text).store).1 =
            (chunk.read store text offset size (some []) world.store).1

/-- A restart brings back nothing, so it preserves the bank exactly if the bank is empty. -/
theorem restartPreserves_iff (listing : store.Listing (IsName text)) {world : World σ H}
    (lists : store.Lists (IsName text) world.store) :
    world.RestartPreserves store text ↔ world.bank = ∅ := by
  have lost := restart_eq_initial listing lists
  constructor
  · intro preserves
    apply Std.ExtTreeMap.eq_empty_iff_forall_not_mem.mpr
    intro uuid member
    have loaded := (preserves.sameChunks uuid).mpr member
    simp [lost, initial] at loaded
  · intro empty
    refine ⟨?_, ?_⟩
    · intro uuid
      simp [lost, initial, empty]
    · intro uuid pointer loadedPointer chunk loaded found
      simp [empty] at found

/-- A restart preserves the chunks of an empty bank and of no other. Whatever steps were taken on
an empty store, in memory or in a directory, a fresh bank that loads the store has the same chunks,
sealed and with the same contents, exactly when the bank that it replaces holds none. -/
theorem restart_preserves_iff_bank_empty (text : UUID.Text) (events : List Event) :
    (∀ world, (initial ∅).run MemStore.store text events = some world →
        (world.RestartPreserves MemStore.store text ↔ world.bank = ∅)) ∧
      ∀ world, (initial Posix.empty).run LocalStore.store text events = some world →
        (world.RestartPreserves LocalStore.store text ↔ world.bank = ∅) := by
  constructor
  · intro world ran
    have named := run_named (MemStore.listing (IsName text))
      (by simp [MemStore.store, MemStore.forEach]) ran
    exact restartPreserves_iff (MemStore.listing (IsName text)) named.lists
  · intro world ran
    have named := run_named (LocalStore.listing (IsName text))
      (by simp [LocalStore.store, LocalStore.forEach, Posix.empty]) ran
    exact restartPreserves_iff (LocalStore.listing (IsName text)) named.lists

/-- On both stores: one chunk is created and removed, and the restart has nothing to lose. -/
theorem restart_preserves_removed_chunk :
    (∃ world, (initial ∅).run MemStore.store .canonical
        [.createChunk .valid ⟨0, 1⟩, .append 0 [1, 2] 0, .removeChunk ⟨0, 1⟩] = some world ∧
          world.RestartPreserves MemStore.store .canonical) ∧
      ∃ world, (initial Posix.empty).run LocalStore.store .canonical
        [.createChunk .valid ⟨0, 1⟩, .append 0 [1, 2] 0, .removeChunk ⟨0, 1⟩] = some world ∧
          world.RestartPreserves LocalStore.store .canonical := by
  rcases restart_preserves_iff_bank_empty .canonical
    [.createChunk .valid ⟨0, 1⟩, .append 0 [1, 2] 0, .removeChunk ⟨0, 1⟩] with ⟨inMemory, onDisk⟩
  exact ⟨⟨_, rfl, (inMemory _ rfl).mpr (by decide)⟩, ⟨_, rfl, (onDisk _ rfl).mpr (by decide)⟩⟩

/-- On both stores: a sealed chunk of two bytes is not there after a restart. -/
theorem not_restartPreserves_sealed_chunk :
    (∃ world, (initial ∅).run MemStore.store .canonical
        [.createChunk .valid ⟨0, 1⟩, .append 0 [1, 2] 0, .queryAndSeal 0 .valid] = some world ∧
          ¬ world.RestartPreserves MemStore.store .canonical) ∧
      ∃ world, (initial Posix.empty).run LocalStore.store .canonical
        [.createChunk .valid ⟨0, 1⟩, .append 0 [1, 2] 0, .queryAndSeal 0 .valid] = some world ∧
          ¬ world.RestartPreserves LocalStore.store .canonical := by
  refine ⟨⟨_, rfl, ?_⟩, ⟨_, rfl, ?_⟩⟩
  · intro preserves
    exact absurd ((preserves.sameChunks ⟨0, 1⟩).mpr (by decide)) (by decide)
  · intro preserves
    exact absurd ((preserves.sameChunks ⟨0, 1⟩).mpr (by decide)) (by decide)

end World

end Pain.Manusya
