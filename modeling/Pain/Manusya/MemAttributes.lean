import Pain.Lib.Run
import Pain.Manusya.Attributes
import Pain.Manusya.MemStore

/-!
# Attributes of the in-memory store

`MemStore` keeps the bytes of its files in one map and their attributes in
another, both by path. `open` and `remove` change the first and `set_attr` the
second; `get_attr` and `list_attrs` look a path up with `operator[]`, which puts
an empty map of attributes where there is none. Nothing takes attributes away.

A session is a store with the handles that have been opened so far, which keep
their paths for as long as they live. A file that `open` creates starts without
attributes exactly if no attribute has ever been set through a handle of its
path.
-/

namespace Pain.Manusya

namespace MemStore

/-- The maps `_files` and `_attrs`. -/
structure Maps where
  files : MemStore
  attrs : Map Bytes Attributes

/-- `_attrs[path]`: the attributes, with an empty map put there if it is missing. -/
def attrsSubscript (path : Bytes) (maps : Maps) : Attributes × Maps :=
  match maps.attrs[path]? with
  | some attributes => (attributes, maps)
  | none => (∅, { maps with attrs := maps.attrs.insert path ∅ })

/-- `MemStore::set_attr`. -/
def setAttr (path key value : Bytes) (maps : Maps) : Status × Maps :=
  let (attributes, maps) := attrsSubscript path maps
  (Status.OK,
    { maps with attrs := maps.attrs.insert path (attributes.insert (cString key) (cString value)) })

/-- `MemStore::get_attr`. -/
def getAttr (path key : Bytes) (maps : Maps) : Except Failure Bytes × Maps :=
  let (attributes, maps) := attrsSubscript path maps
  match attributes[cString key]? with
  | none => (.error ⟨.ENOENT, "attribute not found"⟩, maps)
  | some value => (.ok value, maps)

/-- `MemStore::list_attrs`: the status, and the map that the caller gets. -/
def listAttrs (path : Bytes) (maps : Maps) : (Status × Map Bytes Bytes) × Maps :=
  let (attributes, maps) := attrsSubscript path maps
  ((Status.OK, attributes), maps)

/-- A store and the paths of the handles that it has opened. -/
structure Session where
  maps : Maps
  handles : List Bytes

namespace Session

/-- A session with no files and no attributes. -/
def empty : Session where
  maps := ⟨∅, ∅⟩
  handles := []

/-- The methods of `MemStore`, with handles by the order of their opening. -/
inductive Op where
  | openFile (path : Bytes) (flags : OpenFlags)
  | append (fh offset : ℕ) (buf : Bytes)
  | read (fh offset size : ℕ) (buf : Bytes)
  | sealFile (fh : ℕ)
  | size (fh : ℕ)
  | remove (path : Bytes)
  | setAttr (fh : ℕ) (key value : Bytes)
  | getAttr (fh : ℕ) (key : Bytes)
  | listAttrs (fh : ℕ)
  | forEach
deriving DecidableEq, Repr

/-- A call that changes the bytes of files only. -/
def withFiles (files : MemStore) (session : Session) : Session :=
  { session with maps := { session.maps with files := files } }

/-- A call through a handle, if there is one. -/
def through (fh : ℕ) (call : Bytes → Session) (session : Session) : Session :=
  match session.handles[fh]? with
  | none => session
  | some path => call path

/-- The session after a call. -/
def perform (session : Session) : Op → Session
  | .openFile path flags =>
      let (result, files) := MemStore.openFile path flags session.maps.files
      match result with
      | .error _ => session.withFiles files
      | .ok handle => { session.withFiles files with handles := session.handles ++ [handle] }
  | .append fh offset buf =>
      session.through fh (fun path =>
        session.withFiles (MemStore.append path offset buf session.maps.files).2)
  | .read fh offset size buf =>
      session.through fh (fun path =>
        session.withFiles (MemStore.read path offset size buf session.maps.files).2)
  | .sealFile fh =>
      session.through fh (fun path =>
        session.withFiles (MemStore.sealFile path session.maps.files).2)
  | .size fh =>
      session.through fh (fun path => session.withFiles (MemStore.size path session.maps.files).2)
  | .remove path => session.withFiles (MemStore.remove path session.maps.files).2
  | .setAttr fh key value =>
      session.through fh (fun path =>
        { session with maps := (MemStore.setAttr path key value session.maps).2 })
  | .getAttr fh key =>
      session.through fh (fun path =>
        { session with maps := (MemStore.getAttr path key session.maps).2 })
  | .listAttrs fh =>
      session.through fh (fun path =>
        { session with maps := (MemStore.listAttrs path session.maps).2 })
  | .forEach => session

/-- A call, as a step that never aborts. -/
def step (session : Session) (op : Op) : Option Session :=
  some (session.perform op)

/-- The file at the path has no bytes and no attributes, as far as calls can tell. -/
structure StartsEmpty (path : Bytes) (maps : Maps) : Prop where
  size : (MemStore.size path maps.files).1 = .ok 0
  listAttrs : (MemStore.listAttrs path maps).1 = (Status.OK, ∅)
  getAttr : ∀ key, (MemStore.getAttr path key maps).1 = .error ⟨.ENOENT, "attribute not found"⟩

/-- The call sets no attribute through a handle of the path. -/
def SetsNone (path : Bytes) (session : Session) : Op → Prop
  | .setAttr fh _ _ => session.handles[fh]? ≠ some path
  | _ => True

/-- What the map of attributes has for the path is empty. -/
def NoAttrs (path : Bytes) (session : Session) : Prop :=
  (session.maps.attrs[path]?).getD ∅ = ∅

theorem attrsSubscript_fst (path : Bytes) (maps : Maps) :
    (attrsSubscript path maps).1 = (maps.attrs[path]?).getD ∅ := by
  unfold attrsSubscript
  cases maps.attrs[path]? <;> rfl

theorem getD_attrsSubscript (path other : Bytes) (maps : Maps) :
    ((attrsSubscript path maps).2.attrs[other]?).getD ∅ = (maps.attrs[other]?).getD ∅ := by
  unfold attrsSubscript
  cases found : maps.attrs[path]? with
  | some attributes => rfl
  | none =>
      by_cases same : path = other
      · subst same
        simp [found]
      · simp [Std.ExtTreeMap.getElem?_insert, same]

theorem getD_setAttr (path key value other : Bytes) (maps : Maps) :
    ((MemStore.setAttr path key value maps).2.attrs[other]?).getD ∅ =
      if path = other then
        ((maps.attrs[other]?).getD ∅).insert (cString key) (cString value)
      else (maps.attrs[other]?).getD ∅ := by
  simp only [MemStore.setAttr, Std.ExtTreeMap.getElem?_insert, Std.LawfulEqCmp.compare_eq_iff_eq]
  by_cases same : path = other
  · subst same
    simp [attrsSubscript_fst]
  · simp only [if_neg same]
    exact getD_attrsSubscript path other maps

theorem getD_through {fh : ℕ} {call : Bytes → Session} {path : Bytes} {session : Session}
    (kept : ∀ handle, ((call handle).maps.attrs[path]?).getD ∅ =
      (session.maps.attrs[path]?).getD ∅) :
    ((session.through fh call).maps.attrs[path]?).getD ∅ = (session.maps.attrs[path]?).getD ∅ := by
  unfold through
  cases session.handles[fh]? with
  | none => rfl
  | some handle => exact kept handle

/-- A call that sets no attribute of the path leaves its attributes as they are. -/
theorem getD_perform {path : Bytes} {session : Session} {op : Op}
    (setsNone : session.SetsNone path op) :
    ((session.perform op).maps.attrs[path]?).getD ∅ = (session.maps.attrs[path]?).getD ∅ := by
  cases op with
  | openFile name flags =>
      simp only [perform]
      split <;> rfl
  | append fh offset buf => exact getD_through (fun _ => rfl)
  | read fh offset size buf => exact getD_through (fun _ => rfl)
  | sealFile fh => exact getD_through (fun _ => rfl)
  | size fh => exact getD_through (fun _ => rfl)
  | remove name => rfl
  | setAttr fh key value =>
      simp only [perform, through]
      cases found : session.handles[fh]? with
      | none => rfl
      | some handle =>
          have different : handle ≠ path := by
            rintro rfl
            exact setsNone found
          simp only [getD_setAttr, if_neg different]
  | getAttr fh key =>
      apply getD_through
      intro handle
      simp only [MemStore.getAttr]
      split <;> exact getD_attrsSubscript handle path session.maps
  | listAttrs fh => exact getD_through (fun handle => getD_attrsSubscript handle path session.maps)
  | forEach => rfl

theorem noAttrs_step_iff {path : Bytes} {session next : Session} {op : Op}
    (stepped : session.step op = some next) :
    next.NoAttrs path ↔ session.NoAttrs path ∧ session.SetsNone path op := by
  simp only [step, Option.some.injEq] at stepped
  subst stepped
  by_cases setsNone : session.SetsNone path op
  · rw [NoAttrs, getD_perform setsNone]
    exact (and_iff_left setsNone).symm
  · simp only [setsNone, and_false, iff_false]
    cases op with
    | setAttr fh key value =>
        have found : session.handles[fh]? = some path := not_not.mp setsNone
        intro empty
        simp only [NoAttrs, perform, through, found, getD_setAttr, if_true] at empty
        exact Std.ExtTreeMap.insert_ne_empty empty
    | _ => exact absurd trivial setsNone

theorem startsEmpty_iff_noAttrs {path : Bytes} {flags : OpenFlags} {session : Session}
    (missing : path ∉ session.maps.files) (creates : flags.creat = true) :
    StartsEmpty path
        { session.maps with files := (MemStore.openFile path flags session.maps.files).2 } ↔
      session.NoAttrs path := by
  have absent := Std.ExtTreeMap.getElem?_eq_none missing
  constructor
  · intro starts
    have listed := starts.listAttrs
    simp only [MemStore.listAttrs, Prod.mk.injEq, true_and, attrsSubscript_fst] at listed
    exact listed
  · intro noAttrs
    refine ⟨?_, ?_, ?_⟩
    · simp [MemStore.size, MemStore.openFile, absent, creates, subscript]
    · simp only [MemStore.listAttrs, attrsSubscript_fst, Prod.mk.injEq, true_and]
      exact noAttrs
    · intro key
      simp only [MemStore.getAttr, attrsSubscript_fst]
      rw [NoAttrs] at noAttrs
      simp [noAttrs]

/-- New files and attributes. For every sequence of calls on a new store, whenever `open` with
`O_CREAT` creates a file, the call succeeds, and the file has size 0 and no attributes if and only
if no call so far has set an attribute through a handle of its path. -/
theorem created_empty_iff (ops : List Op) (session : Session)
    (ran : Lib.exec step empty ops = some session) (path : Bytes) (flags : OpenFlags)
    (missing : path ∉ session.maps.files) (creates : flags.creat = true) :
    (MemStore.openFile path flags session.maps.files).1 = .ok path ∧
      (StartsEmpty path
          { session.maps with files := (MemStore.openFile path flags session.maps.files).2 } ↔
        Lib.Guarded step (SetsNone path) empty ops) := by
  constructor
  · simp [MemStore.openFile, Std.ExtTreeMap.getElem?_eq_none missing, creates]
  · have start : empty.NoAttrs path := rfl
    rw [startsEmpty_iff_noAttrs missing creates, Lib.exec_iff_guarded (NoAttrs path)
      (fun stepped => noAttrs_step_iff stepped) ran, and_iff_right start]

/-- A file that is written, asked for an attribute and removed, and then created again. -/
theorem created_empty_again :
    ∃ session, Lib.exec step empty [.openFile [97] .createExclusive, .append 0 0 [1],
        .getAttr 0 [107], .remove [97]] = some session ∧
      StartsEmpty [97] { session.maps with
        files := (MemStore.openFile [97] .createExclusive session.maps.files).2 } := by
  refine ⟨_, rfl, ?_⟩
  apply (created_empty_iff [.openFile [97] .createExclusive, .append 0 0 [1], .getAttr 0 [107],
    .remove [97]] _ rfl [97] .createExclusive (by decide) rfl).2.mpr
  exact ⟨trivial, fun _ _ => ⟨trivial, fun _ _ => ⟨trivial, fun _ _ => ⟨trivial, fun _ _ =>
    trivial⟩⟩⟩⟩

/-- A file with an attribute that is removed and created again still has the attribute. -/
theorem created_with_attribute :
    ∃ session, Lib.exec step empty [.openFile [97] .createExclusive, .setAttr 0 [107] [118],
        .remove [97]] = some session ∧
      [97] ∉ session.maps.files ∧
      (MemStore.getAttr [97] [107] { session.maps with
        files := (MemStore.openFile [97] .createExclusive session.maps.files).2 }).1 = .ok [118] ∧
      ¬ StartsEmpty [97] { session.maps with
        files := (MemStore.openFile [97] .createExclusive session.maps.files).2 } := by
  refine ⟨_, rfl, by decide, by decide, ?_⟩
  intro starts
  have absent := starts.getAttr [107]
  revert absent
  decide

end Session

end MemStore

end Pain.Manusya
