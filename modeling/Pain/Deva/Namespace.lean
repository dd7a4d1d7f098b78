import Pain.Deva.Path

/-!
# The namespace of the metadata server

A directory is a list of entries, in the order in which they were created, and
`Namespace` maps the inode of every directory to its list. This file translates
`pain::deva::Namespace` and proves how path resolution reacts to growth: what
resolves keeps resolving to the same inode as long as directories only get new
entries at their end.
-/

namespace Pain.Deva

open Lib (segments)

/-- `pain::deva::FileType`. -/
inductive FileType where
  | kFile
  | kDirectory
deriving DecidableEq, Repr

theorem FileType.ne_kFile_iff {type : FileType} : type ≠ .kFile ↔ type = .kDirectory := by
  cases type <;> simp

/-- `pain::deva::DirEntry`. -/
structure DirEntry where
  inode : UUID
  name : Bytes
  type : FileType
deriving DecidableEq, Repr

/-- The map `_entries`. -/
@[ext]
structure Namespace where
  entries : Map UUID (List DirEntry)
deriving DecidableEq

namespace Namespace

/-- `_root`, the identifier with all bits zero. -/
def root : UUID where
  high := 0
  low := 0

/-- A namespace that has just been constructed. -/
def initial : Namespace where
  entries := (∅ : Map UUID (List DirEntry)).insert root []

/-- The failure of a path that leads nowhere. -/
def noSuchFile : Failure where
  code := .ENOENT
  message := "No such file or directory"

/-- `Namespace::create`. -/
def create (parent : UUID) (name : Bytes) (type : FileType) (inode : UUID)
    (names : Namespace) : Status × Namespace :=
  match names.entries[parent]? with
  | none => (.error noSuchFile, names)
  | some listed =>
      let entries := names.entries.insert parent (listed ++ [⟨inode, name, type⟩])
      if type = .kDirectory then (Status.OK, ⟨entries.insert inode []⟩)
      else (Status.OK, ⟨entries⟩)

/-- `Namespace::remove`. -/
def remove (parent : UUID) (name : Bytes) (names : Namespace) : Status × Namespace :=
  match names.entries[parent]? with
  | none => (.error noSuchFile, names)
  | some listed =>
      (Status.OK, ⟨names.entries.insert parent (listed.filter (fun entry => entry.name ≠ name))⟩)

/-- `Namespace::list`: what the output list holds afterwards. -/
def list (parent : UUID) (entries : List DirEntry) (names : Namespace) : List DirEntry :=
  match names.entries[parent]? with
  | none => entries
  | some listed => listed

/-- The loop of `Namespace::lookup`, with the inode and the type reached so far. -/
def walk (names : Namespace) : List Bytes → UUID → FileType → Except Failure (UUID × FileType)
  | [], parent, type => .ok (parent, type)
  | component :: rest, parent, _ =>
      match names.entries[parent]? with
      | none => .error noSuchFile
      | some listed =>
          match listed.find? (fun entry => entry.name = component) with
          | none => .error noSuchFile
          | some entry =>
              if entry.type = .kFile ∧ rest ≠ [] then .error ⟨.ENOENT, "Not a directory"⟩
              else walk names rest entry.inode entry.type

/-- `Namespace::lookup`. -/
def lookup (path : Bytes) (names : Namespace) : Except Failure (UUID × FileType) :=
  match parsePath path [] with
  | .error failure => .error failure
  | .ok components => names.walk components root .kDirectory

/-- `lookup` in one equation: the path is split, and the components are walked from the root. -/
theorem lookup_eq (path : Bytes) (names : Namespace) :
    names.lookup path =
      if (cStr path).head? = some slash then
        names.walk (segments slash (cStr path)) root .kDirectory
      else .error ⟨.EINVAL, "Invalid path"⟩ := by
  by_cases absolute : (cStr path).head? = some slash <;>
    simp [lookup, parsePath_eq, absolute]

theorem lookup_eq_ok {path : Bytes} {names : Namespace} {found : UUID × FileType} :
    names.lookup path = .ok found ↔
      (cStr path).head? = some slash ∧
        names.walk (segments slash (cStr path)) root .kDirectory = .ok found := by
  by_cases absolute : (cStr path).head? = some slash <;>
    simp [lookup_eq, absolute]

section Walk

variable {names : Namespace} {component : Bytes} {rest : List Bytes} {parent : UUID}
  {type : FileType} {found : UUID × FileType}

theorem walk_cons_eq_ok :
    names.walk (component :: rest) parent type = .ok found ↔
      ∃ listed entry, names.entries[parent]? = some listed ∧
        listed.find? (fun entry => entry.name = component) = some entry ∧
        (entry.type = .kFile → rest = []) ∧ names.walk rest entry.inode entry.type = .ok found := by
  simp only [walk]
  constructor
  · intro walked
    split at walked
    · simp at walked
    · rename_i listed present
      split at walked
      · simp at walked
      · rename_i entry isFirst
        split at walked
        · simp at walked
        · rename_i notMiddle
          refine ⟨listed, entry, present, isFirst, ?_, walked⟩
          intro isFile
          by_contra nonempty
          exact notMiddle ⟨isFile, nonempty⟩
  · rintro ⟨listed, entry, present, isFirst, last, walked⟩
    simp only [present, isFirst]
    have notMiddle : ¬ (entry.type = .kFile ∧ rest ≠ []) := fun middle => middle.2 (last middle.1)
    simp only [notMiddle, if_false]
    exact walked

/-- A walk through a directory goes on from there. -/
theorem walk_append {front back : List Bytes} {directory : UUID}
    (walked : names.walk front parent type = .ok (directory, .kDirectory)) :
    names.walk (front ++ back) parent type = names.walk back directory .kDirectory := by
  induction front generalizing parent type with
  | nil =>
      simp only [walk, Except.ok.injEq, Prod.mk.injEq] at walked
      simp [walked.1, walked.2]
  | cons component front ih =>
      rcases walk_cons_eq_ok.mp walked with ⟨listed, entry, present, isFirst, last, walkedRest⟩
      have notMiddle : ¬ (entry.type = .kFile ∧ front ++ back ≠ []) := by
        rintro ⟨isFile, -⟩
        simp only [last isFile, walk, isFile, Except.ok.injEq, Prod.mk.injEq, reduceCtorEq,
          and_false] at walkedRest
      simp only [List.cons_append, walk, present, isFirst, notMiddle, if_false]
      exact ih walkedRest

end Walk

/-- The directory has the entry. -/
def Holds (names : Namespace) (directory : UUID) (entry : DirEntry) : Prop :=
  ∃ listed, names.entries[directory]? = some listed ∧ entry ∈ listed

/-- Every directory of `before` is there in `after`, with entries added at its end at most. -/
def Extends (before after : Namespace) : Prop :=
  ∀ (directory : UUID) (listed : List DirEntry), before.entries[directory]? = some listed →
    ∃ added, after.entries[directory]? = some (listed ++ added)

theorem Extends.refl (names : Namespace) : names.Extends names :=
  fun _ listed present => ⟨[], by simpa using present⟩

theorem Extends.trans {first second third : Namespace} (left : first.Extends second)
    (right : second.Extends third) : first.Extends third := by
  intro directory listed present
  rcases left directory listed present with ⟨added, presentSecond⟩
  rcases right directory _ presentSecond with ⟨more, presentThird⟩
  exact ⟨added ++ more, by simpa using presentThird⟩

/-- What resolves keeps resolving to the same inode. -/
theorem Extends.walk {before after : Namespace} (grows : before.Extends after)
    {components : List Bytes} {parent : UUID} {type : FileType} {found : UUID × FileType}
    (walked : before.walk components parent type = .ok found) :
    after.walk components parent type = .ok found := by
  induction components generalizing parent type with
  | nil => exact walked
  | cons component rest ih =>
      rcases walk_cons_eq_ok.mp walked with ⟨listed, entry, present, isFirst, last, walkedRest⟩
      rcases grows parent listed present with ⟨added, presentAfter⟩
      apply walk_cons_eq_ok.mpr
      exact ⟨listed ++ added, entry, presentAfter, by simp [isFirst], last, ih walkedRest⟩

/-- A path that resolves still does in a namespace that has grown. -/
theorem Extends.lookup {before after : Namespace} (grows : before.Extends after) {path : Bytes}
    {found : UUID × FileType} (resolved : before.lookup path = .ok found) :
    after.lookup path = .ok found := by
  rcases lookup_eq_ok.mp resolved with ⟨absolute, walked⟩
  exact lookup_eq_ok.mpr ⟨absolute, grows.walk walked⟩

/-- What `create` does in a directory that is there. -/
theorem create_eq_ok {parent : UUID} (name : Bytes) (type : FileType) (inode : UUID)
    {names : Namespace} {listed : List DirEntry} (present : names.entries[parent]? = some listed) :
    (names.create parent name type inode).1 = Status.OK ∧
      ∀ directory : UUID, (names.create parent name type inode).2.entries[directory]? =
        if type = .kDirectory ∧ inode = directory then some []
        else if parent = directory then some (listed ++ [⟨inode, name, type⟩])
        else names.entries[directory]? := by
  cases type with
  | kFile => simp [create, present, Std.ExtTreeMap.getElem?_insert]
  | kDirectory => simp [create, present, Std.ExtTreeMap.getElem?_insert]

/-- Without its directory `create` fails and does nothing. -/
theorem create_eq_error {parent inode : UUID} {name : Bytes} {type : FileType}
    {names : Namespace} (missing : names.entries[parent]? = none) :
    names.create parent name type inode = (.error noSuchFile, names) := by
  simp [create, missing]

theorem mem_of_create {names : Namespace} {parent id : UUID} {listed : List DirEntry} {name : Bytes}
    {type : FileType} (present : names.entries[parent]? = some listed) {directory : UUID}
    {found : List DirEntry} {entry : DirEntry}
    (foundAt : (names.create parent name type id).2.entries[directory]? = some found)
    (member : entry ∈ found) :
    directory = parent ∧ entry = ⟨id, name, type⟩ ∨
      ∃ old, names.entries[directory]? = some old ∧ entry ∈ old := by
  simp only [(create_eq_ok name type id present).2 directory] at foundAt
  split at foundAt
  · simp only [Option.some.injEq] at foundAt
    simp [← foundAt] at member
  · split at foundAt
    · rename_i here
      simp only [Option.some.injEq] at foundAt
      subst here foundAt
      rcases List.mem_append.mp member with old | new
      · exact Or.inr ⟨listed, present, old⟩
      · exact Or.inl ⟨rfl, List.mem_singleton.mp new⟩
    · exact Or.inr ⟨found, foundAt, member⟩

theorem holds_of_create {names : Namespace} {parent inode : UUID} {listed : List DirEntry}
    {name : Bytes} {type : FileType} (present : names.entries[parent]? = some listed)
    {directory : UUID} {entry : DirEntry}
    (holds : (names.create parent name type inode).2.Holds directory entry) :
    directory = parent ∧ entry = ⟨inode, name, type⟩ ∨ names.Holds directory entry := by
  rcases holds with ⟨found, foundAt, member⟩
  exact mem_of_create present foundAt member

theorem mem_create_iff {names : Namespace} {parent id : UUID} {listed : List DirEntry}
    {name : Bytes} {type : FileType} (present : names.entries[parent]? = some listed)
    (directory : UUID) :
    directory ∈ (names.create parent name type id).2.entries ↔
      directory ∈ names.entries ∨ type = .kDirectory ∧ id = directory := by
  simp only [Std.ExtTreeMap.mem_iff_isSome_getElem?,
    (create_eq_ok name type id present).2 directory]
  by_cases isNew : type = .kDirectory ∧ id = directory
  · simp [isNew]
  · simp only [isNew, if_false, or_false]
    by_cases here : parent = directory
    · subst here
      simp [present]
    · simp [here]

/-- A creation of a new inode only adds to the namespace. -/
theorem create_extends (parent : UUID) (name : Bytes) (type : FileType) {inode : UUID}
    {names : Namespace} (fresh : inode ∉ names.entries) :
    names.Extends (names.create parent name type inode).2 := by
  cases present : names.entries[parent]? with
  | none =>
      simp only [create_eq_error present]
      exact Extends.refl names
  | some listed =>
      intro directory old presentOld
      have notInode : inode ≠ directory := by
        rintro rfl
        simp [Std.ExtTreeMap.getElem?_eq_none fresh] at presentOld
      simp only [(create_eq_ok name type inode present).2 directory, notInode, and_false, if_false]
      by_cases here : parent = directory
      · subst here
        simp only [present, Option.some.injEq] at presentOld
        exact ⟨[⟨inode, name, type⟩], by simp [presentOld]⟩
      · exact ⟨[], by simp [here, presentOld]⟩

end Namespace

end Pain.Deva
