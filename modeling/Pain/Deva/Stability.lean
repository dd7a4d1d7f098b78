import Pain.Deva.Namespace
import Pain.Lib.Run

/-!
# Path resolution under changes

A namespace changes by `create` and `remove`, each of which edits the list of
one directory. This file gives the runs of these calls, with inodes that have
not been used before, and proves what a further call leaves of path resolution:
a `create` keeps everything that resolves, and a `remove` takes away the paths
that go through the removed name and no others.
-/

namespace Pain.Deva

open Lib (segments)

namespace Namespace

/-- The calls that change a namespace. -/
inductive Change where
  | create (parent : UUID) (name : Bytes) (type : FileType) (inode : UUID)
  | remove (parent : UUID) (name : Bytes)
deriving DecidableEq, Repr

/-- The inode that a call brings. -/
def Change.inode? : Change → Option UUID
  | .create _ _ _ inode => some inode
  | .remove _ _ => none

/-- A call. -/
def apply (names : Namespace) : Change → Status × Namespace
  | .create parent name type inode => names.create parent name type inode
  | .remove parent name => names.remove parent name

/-- A call, as a step that never aborts. -/
def step (names : Namespace) (change : Change) : Option Namespace :=
  some (names.apply change).2

/-- No inode is brought twice, and none is the root. -/
structure NewInodes (changes : List Change) : Prop where
  nodup : (changes.filterMap Change.inode?).Nodup
  notRoot : root ∉ changes.filterMap Change.inode?

section Remove

variable {names : Namespace} {parent : UUID} {name : Bytes} {listed : List DirEntry}

/-- What `remove` does in a directory that is there. -/
theorem remove_eq_ok (present : names.entries[parent]? = some listed) :
    (names.remove parent name).1 = Status.OK ∧
      ∀ directory : UUID, (names.remove parent name).2.entries[directory]? =
        if parent = directory then some (listed.filter (fun entry => entry.name ≠ name))
        else names.entries[directory]? := by
  simp [remove, present, Std.ExtTreeMap.getElem?_insert]

theorem exists_of_remove_ok (removed : (names.remove parent name).1 = Status.OK) :
    ∃ listed, names.entries[parent]? = some listed := by
  cases present : names.entries[parent]? with
  | none => simp [remove, present] at removed
  | some listed => exact ⟨listed, rfl⟩

/-- Without its directory `remove` fails and does nothing. -/
theorem remove_eq_error (missing : names.entries[parent]? = none) :
    names.remove parent name = (.error noSuchFile, names) := by
  simp [remove, missing]

theorem mem_remove_iff (names : Namespace) (parent : UUID) (name : Bytes) (directory : UUID) :
    directory ∈ (names.remove parent name).2.entries ↔ directory ∈ names.entries := by
  cases present : names.entries[parent]? with
  | none => rw [remove_eq_error present]
  | some listed =>
      simp only [Std.ExtTreeMap.mem_iff_isSome_getElem?, (remove_eq_ok present).2 directory]
      by_cases here : parent = directory
      · subst here
        simp [present]
      · simp [here]

end Remove

/-- The directories are the root and inodes that have been brought. -/
theorem mem_entries_of_exec {changes : List Change} {names : Namespace}
    (ran : Lib.exec step initial changes = some names) {directory : UUID}
    (member : directory ∈ names.entries) :
    directory = root ∨ directory ∈ changes.filterMap Change.inode? := by
  induction changes using List.reverseRecOn generalizing names with
  | nil =>
      simp only [Lib.exec_nil, Option.some.injEq] at ran
      subst ran
      rcases Map.mem_insert_iff.mp member with impossible | isRoot
      · exact absurd impossible Std.ExtTreeMap.not_mem_empty
      · exact .inl isRoot
  | append_singleton changes change ih =>
      simp only [Lib.exec_append, Option.bind_eq_some_iff, Lib.exec_cons, step, Option.bind_some,
        Lib.exec_nil, Option.some.injEq] at ran
      rcases ran with ⟨before, ranBefore, rfl⟩
      simp only [List.filterMap_append, List.mem_append]
      cases change with
      | remove parent name =>
          rcases ih ranBefore ((mem_remove_iff _ _ _ directory).mp member) with isRoot | earlier
          · exact .inl isRoot
          · exact .inr (.inl earlier)
      | create parent name type inode =>
          have known : directory ∈ before.entries ∨ inode = directory := by
            cases present : before.entries[parent]? with
            | none =>
                simp only [apply, create_eq_error present] at member
                exact .inl member
            | some listed =>
                exact ((mem_create_iff present directory).mp member).imp_right And.right
          rcases known with old | rfl
          · rcases ih ranBefore old with isRoot | earlier
            · exact .inl isRoot
            · exact .inr (.inl earlier)
          · exact .inr (.inr (by simp [Change.inode?]))

/-- The inode of the next creation is not in the namespace yet. -/
theorem NewInodes.not_mem_entries {changes : List Change} {parent inode : UUID} {name : Bytes}
    {type : FileType} (new : NewInodes (changes ++ [.create parent name type inode]))
    {names : Namespace} (ran : Lib.exec step initial changes = some names) :
    inode ∉ names.entries := by
  have nodup := new.nodup
  have notRoot := new.notRoot
  simp only [List.filterMap_append, List.filterMap_cons, Change.inode?, List.filterMap_nil,
    List.mem_append, List.mem_singleton, not_or] at nodup notRoot
  intro member
  rcases mem_entries_of_exec ran member with isRoot | earlier
  · exact notRoot.2 isRoot.symm
  · exact List.disjoint_of_nodup_append nodup earlier (List.mem_singleton_self inode)

/-- The entry that a step of a walk finds: the first of the name in the directory. -/
def firstEntry (names : Namespace) (directory : UUID) (name : Bytes) : Option DirEntry :=
  (names.entries[directory]?).bind (fun listed => listed.find? (fun entry => entry.name = name))

/-- The walk finds an entry of the name in the directory on its way. -/
def WalksThrough (names : Namespace) (directory : UUID) (name : Bytes) : List Bytes → UUID → Prop
  | [], _ => False
  | component :: rest, current =>
      ∃ entry, names.firstEntry current component = some entry ∧
        (current = directory ∧ component = name ∨
          entry.type = .kDirectory ∧ names.WalksThrough directory name rest entry.inode)

/-- The resolution of the path goes through an entry of the name in the directory. -/
def LooksThrough (names : Namespace) (directory : UUID) (name path : Bytes) : Prop :=
  ∃ components, parsePath path [] = .ok components ∧
    names.WalksThrough directory name components root

section Walk

variable {names : Namespace} {parent : UUID} {name : Bytes} {listed : List DirEntry}

theorem walk_cons_eq (names : Namespace) (component : Bytes) (rest : List Bytes) (current : UUID)
    (type : FileType) :
    names.walk (component :: rest) current type =
      match names.firstEntry current component with
      | none => .error noSuchFile
      | some entry =>
          if entry.type = .kFile ∧ rest ≠ [] then .error ⟨.ENOENT, "Not a directory"⟩
          else names.walk rest entry.inode entry.type := by
  simp only [walk, firstEntry]
  cases names.entries[current]? <;> rfl

/-- A `remove` takes the entries of its name from its directory, and no others. -/
theorem firstEntry_remove (present : names.entries[parent]? = some listed) (directory : UUID)
    (component : Bytes) :
    (names.remove parent name).2.firstEntry directory component =
      if directory = parent ∧ component = name then none
      else names.firstEntry directory component := by
  simp only [firstEntry, (remove_eq_ok present).2 directory]
  by_cases here : parent = directory
  · subst here
    simp only [if_true, Option.bind_some, present, true_and, List.find?_filter]
    by_cases same : component = name
    · subst same
      simp
    · simp only [if_neg same]
      apply List.find?_congr
      intro entry _
      by_cases named : entry.name = component
      · simp [named, same]
      · simp [named]
  · simp only [if_neg here, Ne.symm here, false_and, if_false]

/-- A walk that goes through the removed entry ends there, and every other one goes as before. -/
theorem walk_remove (present : names.entries[parent]? = some listed) (components : List Bytes)
    (current : UUID) (type : FileType) :
    (names.WalksThrough parent name components current →
      ∃ failure, (names.remove parent name).2.walk components current type = .error failure ∧
        failure.code = .ENOENT) ∧
    (¬ names.WalksThrough parent name components current →
      (names.remove parent name).2.walk components current type =
        names.walk components current type) := by
  induction components generalizing current type with
  | nil => exact ⟨False.elim, fun _ => rfl⟩
  | cons component rest ih =>
      rw [walk_cons_eq, walk_cons_eq, firstEntry_remove present]
      by_cases here : current = parent ∧ component = name
      · rw [if_pos here]
        refine ⟨fun _ => ⟨noSuchFile, rfl, rfl⟩, ?_⟩
        intro notThrough
        cases found : names.firstEntry current component with
        | none => rfl
        | some entry => exact absurd ⟨entry, found, .inl here⟩ notThrough
      · rw [if_neg here]
        constructor
        · rintro ⟨entry, found, isHere | ⟨isDirectory, later⟩⟩
          · exact absurd isHere here
          · simp only [found, isDirectory, reduceCtorEq, false_and, if_false]
            exact (ih entry.inode .kDirectory).1 later
        · intro notThrough
          cases found : names.firstEntry current component with
          | none => rfl
          | some entry =>
              have later : entry.type = .kDirectory →
                  ¬ names.WalksThrough parent name rest entry.inode :=
                fun isDirectory further => notThrough ⟨entry, found, .inr ⟨isDirectory, further⟩⟩
              cases typed : entry.type with
              | kDirectory =>
                  simp only [typed, reduceCtorEq, false_and, if_false]
                  exact (ih entry.inode .kDirectory).2 (later typed)
              | kFile =>
                  by_cases last : rest = []
                  · simp [last, walk]
                  · simp [typed, last]

end Walk

/-- Path resolution is stable. In every namespace that creations with new inodes and removals have
produced: after a further creation every path that resolved resolves to the same inode and type;
after a further removal every path that went through an entry of that name in that directory fails
with `ENOENT`, and every other path gives what it gave before. -/
theorem lookup_stable (changes : List Change) (names : Namespace)
    (ran : Lib.exec step initial changes = some names) :
    (∀ (parent : UUID) (name : Bytes) (type : FileType) (inode : UUID),
      NewInodes (changes ++ [.create parent name type inode]) →
        (names.create parent name type inode).1 = Status.OK →
          ∀ path found, names.lookup path = .ok found →
            (names.create parent name type inode).2.lookup path = .ok found) ∧
    ∀ (parent : UUID) (name : Bytes), (names.remove parent name).1 = Status.OK → ∀ path,
      (names.LooksThrough parent name path →
        ∃ failure, (names.remove parent name).2.lookup path = .error failure ∧
          failure.code = .ENOENT) ∧
      (¬ names.LooksThrough parent name path →
        (names.remove parent name).2.lookup path = names.lookup path) := by
  constructor
  · intro parent name type inode new _ path found resolved
    exact (create_extends parent name type (new.not_mem_entries ran)).lookup resolved
  · intro parent name removed path
    rcases exists_of_remove_ok removed with ⟨listed, present⟩
    cases parsed : parsePath path [] with
    | error failure =>
        constructor
        · rintro ⟨components, parsedTo, -⟩
          simp [parsed] at parsedTo
        · intro _
          simp only [lookup, parsed]
    | ok components =>
        rcases walk_remove present components root .kDirectory with ⟨ends, kept⟩
        simp only [LooksThrough, parsed, Except.ok.injEq, exists_eq_left', lookup]
        exact ⟨ends, kept⟩

/-- The directory `/a` with the file `/a/b` and the file `/c`: a new file `/a/d` leaves `/a/b` where
it was; without `a` the first of the files is not found, and the second is. -/
theorem lookup_stable_without_a :
    ∃ names, Lib.exec step initial [.create root [97] .kDirectory ⟨0, 1⟩,
        .create ⟨0, 1⟩ [98] .kFile ⟨0, 2⟩, .create root [99] .kFile ⟨0, 3⟩] = some names ∧
      (names.create ⟨0, 1⟩ [100] .kFile ⟨0, 4⟩).2.lookup [47, 97, 47, 98] = .ok (⟨0, 2⟩, .kFile) ∧
      (∃ failure, (names.remove root [97]).2.lookup [47, 97, 47, 98] = .error failure ∧
        failure.code = .ENOENT) ∧
      (names.remove root [97]).2.lookup [47, 99] = .ok (⟨0, 3⟩, .kFile) := by
  rcases lookup_stable [.create root [97] .kDirectory ⟨0, 1⟩,
    .create ⟨0, 1⟩ [98] .kFile ⟨0, 2⟩, .create root [99] .kFile ⟨0, 3⟩] _ rfl with
    ⟨creation, removal⟩
  refine ⟨_, rfl, ?_, ?_, ?_⟩
  · exact creation ⟨0, 1⟩ [100] .kFile ⟨0, 4⟩ ⟨by decide, by decide⟩ rfl [47, 97, 47, 98]
      (⟨0, 2⟩, .kFile) rfl
  · apply (removal root [97] rfl [47, 97, 47, 98]).1
    exact ⟨[[97], [98]], rfl, ⟨⟨0, 1⟩, [97], .kDirectory⟩, by decide, .inl ⟨rfl, rfl⟩⟩
  · rw [(removal root [97] rfl [47, 99]).2]
    · decide
    · rintro ⟨components, parsed, through⟩
      cases parsed
      rcases through with ⟨entry, -, ⟨-, same⟩ | ⟨-, further⟩⟩
      · exact absurd same (by decide)
      · exact further

end Namespace

end Pain.Deva
