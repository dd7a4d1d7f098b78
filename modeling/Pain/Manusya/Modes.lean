import Pain.Manusya.LocalStore

/-!
# The inodes behind the handles of a store

`Store.Modes` says which inode stands behind a handle, and which calls of the
store change its bytes and its mode. A handle that a chunk creates gets an inode
that no other handle has; `append` writes to the inode of its handle, `seal`
changes its mode, and nothing else changes either.

`Store.unreliable` lets calls of `seal` and `size` fail without effect, so that
a run on it is a run with an arbitrary pattern of failures.
-/

namespace Pain.Manusya

namespace Store

variable {σ H : Type}

/-- All that has changed is the inode behind the handle, and that as `related` says. -/
def Changes (file : σ → H → Option (ℕ × Inode)) (fh : H) (related : Inode → Inode → Prop)
    (before after : σ) : Prop :=
  ∀ number inode, file before fh = some (number, inode) →
    (∃ changed, related inode changed ∧ file after fh = some (number, changed)) ∧
      ∀ other otherNumber otherInode, otherNumber ≠ number →
        file before other = some (otherNumber, otherInode) →
          file after other = some (otherNumber, otherInode)

/-- The mode is as it was. -/
def SameMode (before after : Inode) : Prop :=
  after.readOnly = before.readOnly

/-- The inodes behind the handles of a store, and the calls that change them. -/
structure Modes (store : Store σ H) where
  file : σ → H → Option (ℕ × Inode)
  create_ok : ∀ {path state fh next},
    store.openFile path .createExclusive state = (.ok fh, next) →
      ∃ number, file next fh = some (number, ⟨[], false⟩) ∧
        ∀ other otherNumber inode, file state other = some (otherNumber, inode) →
          otherNumber ≠ number ∧ file next other = some (otherNumber, inode)
  create_error : ∀ {path state failure next},
    store.openFile path .createExclusive state = (.error failure, next) →
      ∀ other, file next other = file state other
  append : ∀ (fh : H) (offset : ℕ) (buf : Bytes) (state : σ),
    Changes file fh SameMode state (store.append fh offset buf state).2
  openAndRead : ∀ {other found} (path : Bytes) (offset size : ℕ) (buf : Bytes) (state : σ),
    file state other = some found →
      file (store.openAndRead path offset size buf state).2 other = some found
  seal_ok : ∀ {fh state}, (store.sealFile fh state).1 = Status.OK →
    Changes file fh (fun inode changed => changed = { inode with readOnly := true }) state
      (store.sealFile fh state).2
  seal_error : ∀ {fh state failure}, (store.sealFile fh state).1 = .error failure →
    ∀ other, file (store.sealFile fh state).2 other = file state other
  size : ∀ (fh : H) (state : σ) (other : H), file (store.size fh state).2 other = file state other
  remove : ∀ (path : Bytes) (state : σ) (other : H),
    file (store.remove path state).2 other = file state other

/-- The mode of the file behind the handle is `0444`. -/
def Modes.isSealed {store : Store σ H} (modes : store.Modes) (state : σ) (fh : H) : Bool :=
  (modes.file state fh).any (fun found => found.2.readOnly)

/-- The bytes of the file behind the handle. -/
def Modes.bytes {store : Store σ H} (modes : store.Modes) (state : σ) (fh : H) : Option Bytes :=
  (modes.file state fh).map (fun found => found.2.data)

section Changes

variable {file : σ → H → Option (ℕ × Inode)} {fh : H} {related : Inode → Inode → Prop}
  {first second third : σ}

theorem Changes.of_eq (reflexive : ∀ inode, related inode inode)
    (same : ∀ other, file second other = file first other) :
    Changes file fh related first second := by
  intro number inode found
  refine ⟨⟨inode, reflexive inode, (same fh).trans found⟩, ?_⟩
  intro other otherNumber otherInode _ otherFound
  exact (same other).trans otherFound

theorem Changes.trans (transitive : ∀ {a b c}, related a b → related b c → related a c)
    (left : Changes file fh related first second) (right : Changes file fh related second third) :
    Changes file fh related first third := by
  intro number inode found
  rcases left number inode found with ⟨⟨middle, toMiddle, foundMiddle⟩, othersLeft⟩
  rcases right number middle foundMiddle with ⟨⟨last, toLast, foundLast⟩, othersRight⟩
  refine ⟨⟨last, transitive toMiddle toLast, foundLast⟩, ?_⟩
  intro other otherNumber otherInode different otherFound
  exact othersRight other otherNumber otherInode different
    (othersLeft other otherNumber otherInode different otherFound)

theorem Changes.mono {weaker : Inode → Inode → Prop}
    (implies : ∀ {inode changed}, related inode changed → weaker inode changed)
    (changes : Changes file fh related first second) : Changes file fh weaker first second := by
  intro number inode found
  rcases changes number inode found with ⟨⟨changed, asSaid, foundAfter⟩, others⟩
  exact ⟨⟨changed, implies asSaid, foundAfter⟩, others⟩

end Changes

/-- A call that has nothing to do with the outcomes. -/
def beside {α τ : Type} (call : σ → α × σ) : σ × τ → α × σ × τ
  | (state, outcomes) =>
      let (result, next) := call state
      (result, next, outcomes)

/-- A call that fails without effect if the next outcome is a failure. -/
def orFail {α : Type} (call : σ → Except Failure α × σ) :
    σ × List (Option Failure) → Except Failure α × σ × List (Option Failure)
  | (state, some failure :: outcomes) => (.error failure, state, outcomes)
  | (state, outcomes) =>
      let (result, next) := call state
      (result, next, outcomes.tail)

/-- The store with the outcomes of its next calls of `seal` and `size`. -/
def unreliable (store : Store σ H) : Store (σ × List (Option Failure)) H where
  openFile := fun path flags => beside (store.openFile path flags)
  append := fun fh offset buf => beside (store.append fh offset buf)
  read := fun fh offset size buf => beside (store.read fh offset size buf)
  sealFile := fun fh => orFail (store.sealFile fh)
  size := fun fh => orFail (store.size fh)
  remove := fun path => beside (store.remove path)
  close := fun fh (state, outcomes) => (store.close fh state, outcomes)
  forEach := fun (state, _) => store.forEach state

theorem unreliable_openAndRead (store : Store σ H) (path : Bytes) (offset size : ℕ) (buf : Bytes)
    (state : σ) (outcomes : List (Option Failure)) :
    (store.unreliable.openAndRead path offset size buf (state, outcomes)).2 =
      ((store.openAndRead path offset size buf state).2, outcomes) := by
  simp only [openAndRead, unreliable, beside]
  cases opened : store.openFile path .rdonly state with
  | mk result next => cases result <;> simp only [opened]

/-- Calls that fail without effect change no inode. -/
def Modes.unreliable {store : Store σ H} (modes : store.Modes) : store.unreliable.Modes where
  file := fun state fh => modes.file state.1 fh
  create_ok := by
    rintro path ⟨state, outcomes⟩ fh ⟨next, left⟩ opened
    simp only [Store.unreliable, beside, Prod.mk.injEq] at opened
    exact modes.create_ok (Prod.ext opened.1 opened.2.1)
  create_error := by
    rintro path ⟨state, outcomes⟩ failure ⟨next, left⟩ opened
    simp only [Store.unreliable, beside, Prod.mk.injEq] at opened
    exact modes.create_error (Prod.ext opened.1 opened.2.1)
  append := fun fh offset buf state => modes.append fh offset buf state.1
  openAndRead := by
    rintro other found path offset size buf ⟨state, outcomes⟩ present
    rw [unreliable_openAndRead]
    exact modes.openAndRead path offset size buf state present
  seal_ok := by
    rintro fh ⟨state, outcomes⟩ sealedOk
    rcases outcomes with _ | ⟨_ | failure, outcomes⟩
    · exact modes.seal_ok sealedOk
    · exact modes.seal_ok sealedOk
    · cases sealedOk
  seal_error := by
    rintro fh ⟨state, outcomes⟩ failure failed
    rcases outcomes with _ | ⟨_ | injected, outcomes⟩
    · exact modes.seal_error failed
    · exact modes.seal_error failed
    · exact fun other => rfl
  size := by
    rintro fh ⟨state, outcomes⟩ other
    rcases outcomes with _ | ⟨_ | injected, outcomes⟩
    · exact modes.size fh state other
    · exact modes.size fh state other
    · rfl
  remove := fun path state other => modes.remove path state.1 other

end Store

namespace LocalStore

/-- The inode behind a descriptor, with its number. -/
def file (posix : Posix) (fd : ℕ) : Option (ℕ × Inode) :=
  (posix.lookup fd).map (fun (description, inode) => (description.inode, inode))

section File

variable {posix after : Posix} {fd number : ℕ} {inode : Inode}

theorem file_eq_some :
    file posix fd = some (number, inode) ↔
      ∃ description, posix.descriptions[fd]? = some (some description) ∧
        description.inode = number ∧ posix.inodes[number]? = some inode := by
  unfold file Posix.lookup
  cases found : posix.descriptions[fd]? with
  | none => simp
  | some entry =>
      cases entry with
      | none => simp
      | some description =>
          simp only [Option.map_map, Option.map_eq_some_iff, Function.comp_apply, Prod.mk.injEq,
            Option.some.injEq, exists_eq_left']
          constructor
          · rintro ⟨held, heldAt, rfl, rfl⟩
            exact ⟨rfl, heldAt⟩
          · rintro ⟨rfl, heldAt⟩
            exact ⟨inode, heldAt, rfl, rfl⟩

theorem file_congr (description : after.descriptions[fd]? = posix.descriptions[fd]?)
    (inodes : after.inodes = posix.inodes) : file after fd = file posix fd := by
  simp only [file, Posix.lookup, description, inodes]

theorem lookup_of_file (found : file posix fd = some (number, inode)) :
    ∃ description, posix.lookup fd = some (description, inode) ∧ description.inode = number := by
  rcases Option.map_eq_some_iff.mp found with ⟨⟨description, held⟩, lookedUp, same⟩
  cases same
  exact ⟨description, lookedUp, rfl⟩

/-- Writing to the inode behind a descriptor, and moving the descriptor, leaves the others. -/
theorem changes_of_set {related : Inode → Inode → Prop}
    (change : Description → Inode → Inode) (move : Description → Description)
    (stays : ∀ description, (move description).inode = description.inode)
    (asSaid : ∀ description inode, related inode (change description inode))
    (set : ∀ description inode, posix.lookup fd = some (description, inode) → after =
      { posix with
        inodes := posix.inodes.set description.inode (change description inode)
        descriptions := posix.descriptions.set fd (some (move description)) }) :
    Store.Changes file fd related posix after := by
  intro number inode found
  rcases lookup_of_file found with ⟨description, lookedUp, sameNumber⟩
  rw [set description inode lookedUp]
  rcases file_eq_some.mp found with ⟨described, describedAt, describedNumber, heldAt⟩
  have insideDescriptions := (List.getElem?_eq_some_iff.mp describedAt).1
  have insideInodes := (List.getElem?_eq_some_iff.mp heldAt).1
  constructor
  · refine ⟨change description inode, asSaid description inode,
      file_eq_some.mpr ⟨move description, ?_, ?_, ?_⟩⟩
    · simp [insideDescriptions]
    · rw [stays, sameNumber]
    · simp [sameNumber, insideInodes]
  · intro other otherNumber otherInode different otherFound
    rcases file_eq_some.mp otherFound with ⟨otherDescription, otherAt, sameOther, otherHeld⟩
    have notFd : fd ≠ other := by
      rintro rfl
      rw [describedAt, Option.some.injEq, Option.some.injEq] at otherAt
      exact different (sameOther ▸ otherAt ▸ describedNumber)
    refine file_eq_some.mpr ⟨otherDescription, ?_, sameOther, ?_⟩
    · rw [List.getElem?_set_ne notFd]
      exact otherAt
    · rw [sameNumber, List.getElem?_set_ne different.symm]
      exact otherHeld

/-- An append writes to the file of its descriptor and leaves its mode. -/
theorem append_changes (fd offset : ℕ) (buf : Bytes) (posix : Posix) :
    Store.Changes file fd Store.SameMode posix (store.append fd offset buf posix).2 := by
  simp only [store, append, Posix.write]
  cases lookedUp : posix.lookup fd with
  | none => exact .of_eq (fun _ => rfl) (fun _ => rfl)
  | some entry =>
      rcases entry with ⟨description, inode⟩
      simp only
      split
      · exact .of_eq (fun _ => rfl) (fun _ => rfl)
      · rename_i next wrote
        split at wrote
        · simp only [Except.ok.injEq] at wrote
          apply changes_of_set
            (fun description inode =>
              { inode with data := Posix.writeAt inode.data description.position buf })
            (fun description =>
              { description with position := description.position + buf.length })
            (fun _ => rfl) (fun _ _ => rfl)
          intro description' inode' lookedUp'
          rw [lookedUp, Option.some.injEq, Prod.mk.injEq] at lookedUp'
          rcases lookedUp' with ⟨rfl, rfl⟩
          exact wrote.symm
        · cases wrote

/-- `seal` makes the file read-only and changes nothing else. -/
theorem sealFile_changes (fd : ℕ) (posix : Posix) :
    Store.Changes file fd (fun inode changed => changed = { inode with readOnly := true }) posix
      (store.sealFile fd posix).2 := by
  refine changes_of_set (fun _ inode => { inode with readOnly := true }) id (fun _ => rfl)
    (fun _ _ => rfl) ?_
  intro description inode lookedUp
  have described : posix.descriptions[fd]? = some (some description) := by
    unfold Posix.lookup at lookedUp
    split at lookedUp
    · rename_i found foundAt
      rcases Option.map_eq_some_iff.mp lookedUp with ⟨held, -, same⟩
      cases same
      exact foundAt
    · cases lookedUp
  have unmoved : posix.descriptions.set fd (some description) = posix.descriptions := by
    rcases List.getElem?_eq_some_iff.mp described with ⟨inside, same⟩
    simp [← same]
  simp [store, sealFile, Posix.chmodReadOnly, lookedUp, unmoved]

theorem sealFile_ok (found : file posix fd = some (number, inode)) :
    (store.sealFile fd posix).1 = Status.OK := by
  rcases lookup_of_file found with ⟨description, lookedUp, -⟩
  simp [store, sealFile, Posix.chmodReadOnly, lookedUp]

theorem size_sealFile_ok (found : file posix fd = some (number, inode)) :
    ∃ length, (store.size fd (store.sealFile fd posix).2).1 = .ok length := by
  rcases (sealFile_changes fd posix number inode found).1 with ⟨changed, -, foundAfter⟩
  rcases lookup_of_file foundAfter with ⟨description, lookedUp, -⟩
  simp only [store, size] at lookedUp ⊢
  simp [lookedUp]

theorem openFile_rdonly_cases (path : Bytes) (posix : Posix) :
    (∃ failure, store.openFile path .rdonly posix = (.error failure, posix)) ∨
      ∃ number, store.openFile path .rdonly posix = (.ok posix.descriptions.length,
        { posix with descriptions := posix.descriptions ++ [some ⟨number, 0, false⟩] }) := by
  cases found : posix.names[path]? with
  | none =>
      left
      simp [store, openFile, Posix.openAt, OpenFlags.rdonly, found]
  | some number =>
      cases held : posix.inodes[number]? with
      | none =>
          left
          simp [store, openFile, Posix.openAt, OpenFlags.rdonly, found, held]
      | some inode =>
          right
          have unwritten : posix.inodes.set number inode = posix.inodes := by
            simp [← (List.getElem?_eq_some_iff.mp held).2]
          exact ⟨number, by simp [store, openFile, Posix.openAt, OpenFlags.rdonly,
            Posix.newDescriptor, found, held, unwritten]⟩

theorem read_other (fd offset size : ℕ) (buf : Bytes) (posix : Posix) :
    (store.read fd offset size buf posix).2.inodes = posix.inodes ∧
      ∀ other, fd ≠ other →
        (store.read fd offset size buf posix).2.descriptions[other]? =
          posix.descriptions[other]? := by
  simp only [store, read, Posix.seekAndRead]
  cases posix.lookup fd with
  | none => exact ⟨rfl, fun _ _ => rfl⟩
  | some entry =>
      simp only
      split
      · exact ⟨rfl, fun other different => List.getElem?_set_ne different⟩
      · exact ⟨rfl, fun other different => List.getElem?_set_ne different⟩

theorem openAndRead_file (path : Bytes) (offset size : ℕ) (buf : Bytes)
    (found : file posix fd = some (number, inode)) :
    file (store.openAndRead path offset size buf posix).2 fd = some (number, inode) := by
  rcases file_eq_some.mp found with ⟨description, describedAt, -, -⟩
  have inside := (List.getElem?_eq_some_iff.mp describedAt).1
  unfold Store.openAndRead
  rcases openFile_rdonly_cases path posix with ⟨failure, refused⟩ | ⟨opened, opens⟩
  · rw [refused]
    exact found
  · rw [opens]
    rcases read_other posix.descriptions.length offset size buf
      { posix with descriptions := posix.descriptions ++ [some ⟨opened, 0, false⟩] } with
      ⟨inodes, others⟩
    rw [← found]
    apply file_congr
    · simp only [store, Posix.close]
      rw [List.getElem?_set_ne inside.ne']
      exact (others fd inside.ne').trans (List.getElem?_append_left inside)
    · exact inodes

end File

/-- The files of a `LocalStore` and their modes. -/
def modes : store.Modes where
  file := file
  create_ok := by
    intro path posix fd next opened
    cases found : posix.names[path]? with
    | some number =>
        simp [store, openFile, Posix.openAt, found, OpenFlags.createExclusive] at opened
    | none =>
        simp only [store, openFile, Posix.openAt, found, OpenFlags.createExclusive,
          Posix.newDescriptor, if_true, Prod.mk.injEq, Except.ok.injEq] at opened
        rcases opened with ⟨rfl, rfl⟩
        refine ⟨posix.inodes.length, ?_, ?_⟩
        · exact file_eq_some.mpr ⟨⟨posix.inodes.length, 0, true⟩, by simp, rfl, by simp⟩
        · intro other otherNumber inode otherFound
          rcases file_eq_some.mp otherFound with ⟨description, describedAt, same, heldAt⟩
          have insideDescriptions := (List.getElem?_eq_some_iff.mp describedAt).1
          have insideInodes := (List.getElem?_eq_some_iff.mp heldAt).1
          refine ⟨insideInodes.ne, file_eq_some.mpr ⟨description, ?_, same, ?_⟩⟩
          · rw [List.getElem?_append_left insideDescriptions, describedAt]
          · rw [List.getElem?_append_left insideInodes, heldAt]
  create_error := by
    intro path posix failure next opened
    cases found : posix.names[path]? with
    | some number =>
        simp only [store, openFile, Posix.openAt, found, OpenFlags.createExclusive, Bool.and_self,
          if_true, Prod.mk.injEq] at opened
        rw [opened.2]
        exact fun other => rfl
    | none =>
        simp [store, openFile, Posix.openAt, found, OpenFlags.createExclusive,
          Posix.newDescriptor] at opened
  append := append_changes
  openAndRead := by
    rintro fd ⟨number, inode⟩ path offset size buf posix found
    exact openAndRead_file path offset size buf found
  seal_ok := by
    intro fd posix _
    exact sealFile_changes fd posix
  seal_error := by
    intro fd posix failure failed
    simp only [store, sealFile, Posix.chmodReadOnly] at failed ⊢
    cases lookedUp : posix.lookup fd with
    | none => exact fun other => rfl
    | some entry => simp [lookedUp] at failed
  size := by
    intro fd posix other
    simp only [store, size]
    cases posix.lookup fd <;> rfl
  remove := by
    intro path posix other
    apply file_congr
    · simp only [store, remove, Posix.unlink]
      by_cases present : path ∈ posix.names <;> simp [present]
    · simp only [store, remove, Posix.unlink]
      by_cases present : path ∈ posix.names <;> simp [present]

end LocalStore

namespace Store.Modes

variable {σ H : Type} {store : Store σ H} (modes : store.Modes)

/-- A new file leaves the other ones. -/
theorem create_other {state : σ} {other : H} {found : ℕ × Inode} (path : Bytes)
    (present : modes.file state other = some found) :
    modes.file (store.openFile path .createExclusive state).2 other = some found := by
  cases opened : store.openFile path .createExclusive state with
  | mk result next =>
      cases result with
      | error failure => exact (modes.create_error opened other).trans present
      | ok fh =>
          rcases modes.create_ok opened with ⟨number, -, others⟩
          exact (others other found.1 found.2 present).2

/-- Whether it succeeds or not, `seal` writes no byte. -/
theorem seal_changes (fh : H) (state : σ) :
    Changes modes.file fh (fun inode changed => changed.data = inode.data) state
      (store.sealFile fh state).2 := by
  cases called : (store.sealFile fh state).1 with
  | error failure => exact .of_eq (fun _ => rfl) (modes.seal_error called)
  | ok =>
      refine (modes.seal_ok called).mono ?_
      rintro inode changed rfl
      rfl

theorem isSealed_eq {modes : store.Modes} {state : σ} {fh : H} {number : ℕ} {inode : Inode}
    (found : modes.file state fh = some (number, inode)) :
    modes.isSealed state fh = inode.readOnly := by
  simp [isSealed, found]

theorem bytes_eq {modes : store.Modes} {state : σ} {fh : H} {number : ℕ} {inode : Inode}
    (found : modes.file state fh = some (number, inode)) :
    modes.bytes state fh = some inode.data := by
  simp [bytes, found]

theorem isSealed_congr {before after : σ} {fh : H}
    (same : modes.file after fh = modes.file before fh) :
    modes.isSealed after fh = modes.isSealed before fh := by
  simp only [isSealed, same]

/-- After a `seal` that has succeeded the file is sealed. -/
theorem isSealed_of_seal_ok {state : σ} {fh : H} {found : ℕ × Inode}
    (present : modes.file state fh = some found)
    (sealedOk : (store.sealFile fh state).1 = Status.OK) :
    modes.isSealed (store.sealFile fh state).2 fh = true := by
  rcases (modes.seal_ok sealedOk found.1 found.2 present).1 with ⟨changed, rfl, foundAfter⟩
  exact isSealed_eq foundAfter

theorem size_changes (fh other : H) (state : σ) :
    Changes modes.file fh (fun inode changed => changed.data = inode.data) state
      (store.size other state).2 :=
  .of_eq (fun _ => rfl) (modes.size other state)

end Store.Modes

end Pain.Manusya
