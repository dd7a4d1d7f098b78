import Pain.Deva.Stability
import Pain.Deva.Tree

/-!
# Directories that are left behind

`Namespace::remove` takes an entry from the list of its directory. If the entry
is a directory its own list stays in the map, and with it the lists of all
directories below: they can still be listed and added to under their inodes,
although no path leads to them. This file proves that such ghosts come from the
removal of directories and from nothing else.
-/

namespace Pain.Deva

namespace Namespace

/-- Every directory of the map can be reached from the root through entries. -/
def NoGhosts (names : Namespace) : Prop :=
  ∀ directory ∈ names.entries, ∃ nodes, Lib.Chain names.Contains root directory nodes

/-- The call does not remove an entry of a directory. -/
def RemovesNoDirectory (names : Namespace) : Change → Prop
  | .remove parent name =>
      ∀ entry, names.Holds parent entry → entry.name = name → entry.type = .kFile
  | .create _ _ _ _ => True

/-- After the removal of a directory, neither it nor what was below it is found any more: nothing
can be created in it, and listing it leaves the output alone. -/
def Forgets (names : Namespace) : Change → Prop
  | .remove parent name =>
      ∀ entry descendant nodes, names.Holds parent entry → entry.name = name →
        entry.type = .kDirectory → Lib.Chain names.Contains entry.inode descendant nodes →
          (∀ child type inode, ((names.remove parent name).2.create descendant child type inode).1 =
            .error noSuchFile) ∧
          ∀ entries, (names.remove parent name).2.list descendant entries = entries
  | .create _ _ _ _ => True

/-- The inode is neither a directory nor that of an entry. -/
structure Unused (names : Namespace) (inode : UUID) : Prop where
  directory : inode ∉ names.entries
  entry : ∀ {directory entry}, names.Holds directory entry → entry.inode ≠ inode

/-- What the call brings is not in use, and not the root. -/
def BringsUnused (names : Namespace) (change : Change) : Prop :=
  ∀ inode, change.inode? = some inode → names.Unused inode ∧ inode ≠ root

/-- The invariant: an inode occurs in one entry, the root in none, and entries of directories have
their lists. -/
structure Linked (names : Namespace) : Prop where
  directories : ∀ {directory entry}, names.Holds directory entry → entry.type = .kDirectory →
    entry.inode ∈ names.entries
  nodup : ∀ (directory : UUID) (listed : List DirEntry), names.entries[directory]? = some listed →
    (listed.map DirEntry.inode).Nodup
  apart : ∀ {directory other entry otherEntry}, names.Holds directory entry →
    names.Holds other otherEntry → entry.inode = otherEntry.inode → directory = other
  below : ∀ {directory entry}, names.Holds directory entry → entry.inode ≠ root

theorem contains_iff {names : Namespace} {directory inode : UUID} :
    names.Contains directory inode ↔
      ∃ entry, names.Holds directory entry ∧ entry.inode = inode ∧ entry.type = .kDirectory := by
  constructor
  · rintro ⟨position, entry, ⟨listed, present, found⟩, same, typed⟩
    exact ⟨entry, ⟨listed, present, List.mem_of_getElem? found⟩, same, typed⟩
  · rintro ⟨entry, ⟨listed, present, member⟩, same, typed⟩
    rcases List.mem_iff_getElem?.mp member with ⟨position, found⟩
    exact ⟨position, entry, ⟨listed, present, found⟩, same, typed⟩

section Initial

theorem initial_not_holds {directory : UUID} {entry : DirEntry} :
    ¬ initial.Holds directory entry := by
  rintro ⟨listed, present, member⟩
  simp only [initial, Std.ExtTreeMap.getElem?_insert, Std.ExtTreeMap.getElem?_empty] at present
  split at present
  · simp only [Option.some.injEq] at present
    simp [← present] at member
  · cases present

theorem initial_linked : initial.Linked where
  directories := fun holds => absurd holds initial_not_holds
  nodup := by
    intro directory listed present
    have empty : listed = [] := by
      apply List.eq_nil_iff_forall_not_mem.mpr
      exact fun entry member => initial_not_holds ⟨listed, present, member⟩
    simp [empty]
  apart := fun holds => absurd holds initial_not_holds
  below := fun holds => absurd holds initial_not_holds

theorem eq_root_of_mem_initial {directory : UUID} (member : directory ∈ initial.entries) :
    directory = root := by
  rcases Map.mem_insert_iff.mp member with impossible | isRoot
  · exact absurd impossible Std.ExtTreeMap.not_mem_empty
  · exact isRoot

theorem initial_noGhosts : initial.NoGhosts := by
  intro directory member
  exact eq_root_of_mem_initial member ▸ ⟨_, .root⟩

theorem initial_unused {inode : UUID} (notRoot : inode ≠ root) : initial.Unused inode where
  directory := fun member => notRoot (eq_root_of_mem_initial member)
  entry := fun holds => absurd holds initial_not_holds

end Initial

section Remove

variable {names : Namespace} {parent : UUID} {name : Bytes}

/-- A removal takes the entries of that name from that directory, and no others. -/
theorem holds_remove_iff {directory : UUID} {entry : DirEntry} :
    (names.remove parent name).2.Holds directory entry ↔
      names.Holds directory entry ∧ ¬ (directory = parent ∧ entry.name = name) := by
  cases present : names.entries[parent]? with
  | none =>
      rw [remove_eq_error present]
      refine ⟨fun holds => ⟨holds, ?_⟩, And.left⟩
      rintro ⟨rfl, -⟩
      rcases holds with ⟨listed, found, -⟩
      simp [present] at found
  | some listed =>
      simp only [Holds, (remove_eq_ok present).2 directory]
      by_cases here : parent = directory
      · subst here
        simp [present]
      · simp [here, Ne.symm here]

/-- A removal keeps the invariant. -/
theorem Linked.remove (linked : names.Linked) : (names.remove parent name).2.Linked where
  directories := by
    intro directory entry holds typed
    rw [mem_remove_iff]
    exact linked.directories (holds_remove_iff.mp holds).1 typed
  nodup := by
    intro directory listed found
    cases present : names.entries[parent]? with
    | none =>
        rw [remove_eq_error present] at found
        exact linked.nodup directory listed found
    | some old =>
        rw [(remove_eq_ok present).2 directory] at found
        split at found
        · simp only [Option.some.injEq] at found
          subst found
          exact (linked.nodup parent old present).sublist (List.filter_sublist.map _)
        · exact linked.nodup directory listed found
  apart := fun holds other same =>
    linked.apart (holds_remove_iff.mp holds).1 (holds_remove_iff.mp other).1 same
  below := fun holds => linked.below (holds_remove_iff.mp holds).1

theorem Unused.remove {inode : UUID} (unused : names.Unused inode) :
    (names.remove parent name).2.Unused inode where
  directory := fun member => unused.directory ((mem_remove_iff _ _ _ inode).mp member)
  entry := fun holds => unused.entry (holds_remove_iff.mp holds).1

theorem Linked.not_contains_removed (linked : names.Linked) {entry : DirEntry}
    (holds : names.Holds parent entry) (named : entry.name = name) (above : UUID) :
    ¬ (names.remove parent name).2.Contains above entry.inode := by
  rw [contains_iff]
  rintro ⟨other, otherHolds, same, -⟩
  rcases holds_remove_iff.mp otherHolds with ⟨heldBefore, notRemoved⟩
  have here : above = parent := linked.apart heldBefore holds same
  subst here
  rcases holds with ⟨listed, present, member⟩
  rcases heldBefore with ⟨otherListed, otherPresent, otherMember⟩
  rw [present, Option.some.injEq] at otherPresent
  subst otherPresent
  have sameEntry := List.inj_on_of_nodup_map (linked.nodup above listed present) otherMember member
    same
  exact notRemoved ⟨rfl, sameEntry ▸ named⟩

/-- From the root no way leads to a directory whose entry has been removed. -/
theorem Linked.removed_unreachable (linked : names.Linked) {entry : DirEntry}
    (holds : names.Holds parent entry) (named : entry.name = name) (nodes : List UUID) :
    ¬ Lib.Chain (names.remove parent name).2.Contains root entry.inode nodes := by
  intro chain
  generalize reached : entry.inode = inode at chain
  cases chain with
  | root => exact linked.below holds reached
  | step front down => exact linked.not_contains_removed holds named _ (reached ▸ down)

/-- A removal leaves no ghost exactly if it removes no directory. -/
theorem noGhosts_remove_iff (linked : names.Linked) (noGhosts : names.NoGhosts) :
    (names.remove parent name).2.NoGhosts ↔ names.RemovesNoDirectory (.remove parent name) := by
  constructor
  · intro still entry holds named
    by_contra notFile
    have isDirectory := FileType.ne_kFile_iff.mp notFile
    have member := (mem_remove_iff names parent name entry.inode).mpr
      (linked.directories holds isDirectory)
    rcases still entry.inode member with ⟨nodes, chain⟩
    exact linked.removed_unreachable holds named nodes chain
  · intro removesNone directory member
    rcases noGhosts directory ((mem_remove_iff _ _ _ directory).mp member) with ⟨nodes, chain⟩
    refine ⟨nodes, chain.mono ?_⟩
    intro above inode contains
    rcases contains_iff.mp contains with ⟨entry, holds, same, typed⟩
    refine contains_iff.mpr ⟨entry, holds_remove_iff.mpr ⟨holds, ?_⟩, same, typed⟩
    rintro ⟨rfl, named⟩
    simp [removesNone entry holds named] at typed

/-- A removal is forgotten exactly if it removes no directory: the list of a directory stays. -/
theorem forgets_iff_removesNoDirectory (linked : names.Linked) (change : Change) :
    names.Forgets change ↔ names.RemovesNoDirectory change := by
  cases change with
  | create parent name type inode => exact Iff.rfl
  | remove parent name =>
      constructor
      · intro forgets entry holds named
        by_contra notFile
        have isDirectory := FileType.ne_kFile_iff.mp notFile
        have member := (mem_remove_iff names parent name entry.inode).mpr
          (linked.directories holds isDirectory)
        rcases Map.mem_iff_exists.mp member with ⟨listed, present⟩
        have created := (create_eq_ok [] .kFile root present).1
        rw [(forgets entry entry.inode _ holds named isDirectory .root).1 [] .kFile root] at created
        cases created
      · intro removesNone entry descendant nodes holds named isDirectory
        simp [removesNone entry holds named] at isDirectory

end Remove

section Create

variable {names : Namespace} {parent inode : UUID} {name : Bytes} {type : FileType}
  {listed : List DirEntry}

/-- A creation with an unused inode keeps the invariant. -/
theorem Linked.create (linked : names.Linked) (present : names.entries[parent]? = some listed)
    (unused : names.Unused inode) (notRoot : inode ≠ root) :
    (names.create parent name type inode).2.Linked where
  directories := by
    intro directory entry holds typed
    rw [mem_create_iff present]
    rcases holds_of_create present holds with ⟨-, rfl⟩ | old
    · exact .inr ⟨typed, rfl⟩
    · exact .inl (linked.directories old typed)
  nodup := by
    intro directory found foundAt
    rw [(create_eq_ok name type inode present).2 directory] at foundAt
    split at foundAt
    · simp only [Option.some.injEq] at foundAt
      simp [← foundAt]
    · split at foundAt
      · simp only [Option.some.injEq] at foundAt
        subst foundAt
        simp only [List.map_append, List.map_cons, List.map_nil]
        apply List.nodup_append.mpr
        refine ⟨linked.nodup parent listed present, by simp, ?_⟩
        intro old oldMem new newMem
        rcases List.mem_map.mp oldMem with ⟨entry, entryMem, rfl⟩
        rw [List.mem_singleton.mp newMem]
        exact unused.entry ⟨listed, present, entryMem⟩
      · exact linked.nodup directory found foundAt
  apart := by
    intro directory other entry otherEntry holds otherHolds same
    rcases holds_of_create present holds with ⟨rfl, rfl⟩ | old
    · rcases holds_of_create present otherHolds with ⟨rfl, -⟩ | otherOld
      · rfl
      · exact absurd same.symm (unused.entry otherOld)
    · rcases holds_of_create present otherHolds with ⟨rfl, rfl⟩ | otherOld
      · exact absurd same (unused.entry old)
      · exact linked.apart old otherOld same
  below := by
    intro directory entry holds
    rcases holds_of_create present holds with ⟨-, rfl⟩ | old
    · exact notRoot
    · exact linked.below old

theorem Unused.create {other : UUID} (unused : names.Unused other) (different : inode ≠ other) :
    (names.create parent name type inode).2.Unused other := by
  cases present : names.entries[parent]? with
  | none =>
      rw [create_eq_error present]
      exact unused
  | some listed =>
      constructor
      · intro member
        rcases (mem_create_iff present other).mp member with old | ⟨-, same⟩
        · exact unused.directory old
        · exact different same
      · intro directory entry holds
        rcases holds_of_create present holds with ⟨-, rfl⟩ | old
        · exact different
        · exact unused.entry old

end Create

theorem apply_linked {names : Namespace} (linked : names.Linked) {change : Change}
    (bringsUnused : names.BringsUnused change) : (names.apply change).2.Linked := by
  cases change with
  | remove parent name => exact linked.remove
  | create parent name type inode =>
      rcases bringsUnused inode rfl with ⟨unused, notRoot⟩
      cases present : names.entries[parent]? with
      | none =>
          simp only [apply, create_eq_error present]
          exact linked
      | some listed => exact linked.create present unused notRoot

theorem apply_unused {names : Namespace} {inode : UUID} (unused : names.Unused inode)
    {change : Change} (notBrought : change.inode? ≠ some inode) :
    (names.apply change).2.Unused inode := by
  cases change with
  | remove parent name => exact unused.remove
  | create parent name type brought =>
      exact unused.create (fun same => notBrought (congrArg some same))

/-- A change leaves no directory behind exactly if it removes none. -/
theorem noGhosts_apply_iff {names : Namespace} (linked : names.Linked) (noGhosts : names.NoGhosts)
    {change : Change} (bringsUnused : names.BringsUnused change) :
    (names.apply change).2.NoGhosts ↔ names.RemovesNoDirectory change := by
  cases change with
  | remove parent name => exact noGhosts_remove_iff linked noGhosts
  | create parent name type inode =>
      refine iff_of_true ?_ trivial
      cases present : names.entries[parent]? with
      | none =>
          simp only [apply, create_eq_error present]
          exact noGhosts
      | some listed =>
          intro directory member
          exact chained_create present (bringsUnused inode rfl).1.directory noGhosts member

/-- An inode that no change of the run brings is used nowhere. -/
theorem exec_unused {inode : UUID} {changes : List Change} {names : Namespace}
    (notRoot : inode ≠ root) (notBrought : ∀ change ∈ changes, change.inode? ≠ some inode)
    (ran : Lib.exec step initial changes = some names) : names.Unused inode := by
  refine Lib.exec_preserves (fun names => names.Unused inode) ?_ (initial_unused notRoot)
    (Lib.guarded_of_forall_mem notBrought) ran
  intro names change next unused other stepped
  simp only [step, Option.some.injEq] at stepped
  exact stepped ▸ apply_unused unused other

/-- Inodes that are new in the list are not in use when they are brought. -/
theorem NewInodes.guarded {changes : List Change} (new : NewInodes changes) :
    Lib.Guarded step BringsUnused initial changes := by
  apply Lib.guarded_of_split
  intro before change after names split ran inode brings
  have nodup := new.nodup
  have notRoot := new.notRoot
  simp only [split, List.filterMap_append, List.filterMap_cons, brings] at nodup notRoot
  have isNew : inode ≠ root := by
    rintro rfl
    simp at notRoot
  refine ⟨exec_unused isNew ?_ ran, isNew⟩
  intro earlier earlierMem same
  have earlierBrings : inode ∈ before.filterMap Change.inode? :=
    List.mem_filterMap.mpr ⟨earlier, earlierMem, same⟩
  exact List.disjoint_of_nodup_append nodup earlierBrings (List.mem_cons_self ..)

/-- Ghost directories. For every sequence of creations with new inodes and of removals, every
directory of the map can be reached from the root in every state, and every directory that is
removed is forgotten with all that is below it, if and only if no directory is removed. -/
theorem noGhosts_iff (changes : List Change) (new : NewInodes changes) :
    (Lib.Throughout step NoGhosts initial changes ↔
      Lib.Guarded step RemovesNoDirectory initial changes) ∧
    (Lib.Guarded step Forgets initial changes ↔
      Lib.Guarded step RemovesNoDirectory initial changes) := by
  have admissible := new.guarded
  constructor
  · refine Lib.throughout_iff_of_guarded Linked NoGhosts ?_ initial_linked initial_noGhosts
      admissible
    intro names change linked bringsUnused noGhosts
    exact ⟨_, rfl, apply_linked linked bringsUnused,
      noGhosts_apply_iff linked noGhosts bringsUnused⟩
  · refine Lib.guarded_iff_of_guarded Linked ?_ ?_ initial_linked admissible
    · intro names change linked
      exact forgets_iff_removesNoDirectory linked change
    · intro names change next linked bringsUnused _ stepped
      simp only [step, Option.some.injEq] at stepped
      exact stepped ▸ apply_linked linked bringsUnused

/-- The directory `/a` and its file `b`, which is removed again. -/
theorem noGhosts_file_removed :
    Lib.Throughout step NoGhosts initial [.create root [97] .kDirectory ⟨0, 1⟩,
        .create ⟨0, 1⟩ [98] .kFile ⟨0, 2⟩, .remove ⟨0, 1⟩ [98]] ∧
      Lib.Guarded step Forgets initial [.create root [97] .kDirectory ⟨0, 1⟩,
        .create ⟨0, 1⟩ [98] .kFile ⟨0, 2⟩, .remove ⟨0, 1⟩ [98]] := by
  have removesNone : Lib.Guarded step RemovesNoDirectory initial
      [.create root [97] .kDirectory ⟨0, 1⟩, .create ⟨0, 1⟩ [98] .kFile ⟨0, 2⟩,
        .remove ⟨0, 1⟩ [98]] := by
    refine Lib.guarded_cons trivial rfl (Lib.guarded_cons trivial rfl ⟨?_, fun _ _ => trivial⟩)
    rintro entry ⟨listed, present, member⟩ -
    have only : some [⟨⟨0, 2⟩, [98], .kFile⟩] = some listed := present
    simp only [Option.some.injEq] at only
    subst only
    rw [List.mem_singleton.mp member]
  have both := noGhosts_iff [.create root [97] .kDirectory ⟨0, 1⟩,
    .create ⟨0, 1⟩ [98] .kFile ⟨0, 2⟩, .remove ⟨0, 1⟩ [98]] ⟨by decide, by decide⟩
  exact ⟨both.1.mpr removesNone, both.2.mpr removesNone⟩

/-- The empty directory `/a` is removed. Its list is still there, no path leads to it, and a file is
created in it. -/
theorem removed_directory_stays :
    ∃ changes names, NewInodes changes ∧ Lib.exec step initial changes = some names ∧
      changes = [.create root [97] .kDirectory ⟨0, 1⟩, .remove root [97]] ∧
      ¬ names.NoGhosts ∧ ¬ Lib.Guarded step Forgets initial changes ∧
      (names.create ⟨0, 1⟩ [98] .kFile ⟨0, 2⟩).1 = Status.OK := by
  have linked : (initial.create root [97] .kDirectory ⟨0, 1⟩).2.Linked :=
    initial_linked.create rfl (initial_unused (by decide)) (by decide)
  have holds : (initial.create root [97] .kDirectory ⟨0, 1⟩).2.Holds root
      ⟨⟨0, 1⟩, [97], .kDirectory⟩ :=
    ⟨[⟨⟨0, 1⟩, [97], .kDirectory⟩], rfl, List.mem_singleton_self _⟩
  refine ⟨_, _, ⟨by decide, by decide⟩, rfl, rfl, ?_, ?_, rfl⟩
  · intro noGhosts
    rcases noGhosts ⟨0, 1⟩ (by decide) with ⟨nodes, chain⟩
    exact linked.removed_unreachable holds rfl nodes chain
  · intro forgets
    have found := (forgets.2 _ rfl).1 _ _ _ holds rfl rfl .root
    exact absurd (found.1 [98] .kFile ⟨0, 2⟩) (by decide)

end Namespace

end Pain.Deva
