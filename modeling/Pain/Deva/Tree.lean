import Pain.Deva.WellFormed
import Pain.Lib.Rooted

/-!
# The tree of directories

The namespace and the file table are written by different components, one after
the other, and nothing in either refers to the other but the identifiers. This
file proves that they agree in every state that requests have produced: the
entries of the namespace are the records of the table, each of them at one
place, and the directories form a tree below the root.
-/

set_option linter.dupNamespace false

namespace Pain.Deva

namespace Namespace

/-- The entry stands at the position in the list of the directory. -/
def Lists (names : Namespace) (directory : UUID) (position : ℕ) (entry : DirEntry) : Prop :=
  ∃ listed, names.entries[directory]? = some listed ∧ listed[position]? = some entry

/-- The directory has an entry for the other one. -/
def Contains (names : Namespace) (directory inode : UUID) : Prop :=
  ∃ position entry, names.Lists directory position entry ∧ entry.inode = inode ∧
    entry.type = .kDirectory

theorem getElem?_append_singleton_iff (listed : List DirEntry) (new : DirEntry) (position : ℕ)
    (entry : DirEntry) :
    (listed ++ [new])[position]? = some entry ↔
      listed[position]? = some entry ∨ position = listed.length ∧ entry = new := by
  by_cases inside : position < listed.length
  · have notEnd : position ≠ listed.length := by omega
    simp [List.getElem?_append_left inside, notEnd]
  · have outside : listed.length ≤ position := by omega
    simp only [List.getElem?_append_right outside, List.getElem?_eq_none outside, reduceCtorEq,
      false_or, List.getElem?_singleton, Option.ite_none_right_eq_some, Option.some.injEq]
    constructor
    · rintro ⟨first, same⟩
      exact ⟨by omega, same.symm⟩
    · rintro ⟨atEnd, same⟩
      exact ⟨by omega, same.symm⟩

/-- A new entry stands behind the entries of its directory, and all others stay where they are. -/
theorem lists_create_iff {names : Namespace} {parent inode : UUID} {name : Bytes}
    {type : FileType} {listed : List DirEntry} (present : names.entries[parent]? = some listed)
    (unused : inode ∉ names.entries) (directory : UUID) (position : ℕ) (entry : DirEntry) :
    (names.create parent name type inode).2.Lists directory position entry ↔
      names.Lists directory position entry ∨
        directory = parent ∧ position = listed.length ∧ entry = ⟨inode, name, type⟩ := by
  have notParent : inode ≠ parent := by
    rintro rfl
    simp [Std.ExtTreeMap.getElem?_eq_none unused] at present
  simp only [Lists, (create_eq_ok name type inode present).2 directory]
  by_cases isNew : type = .kDirectory ∧ inode = directory
  · rcases isNew with ⟨rfl, rfl⟩
    simp [Std.ExtTreeMap.getElem?_eq_none unused, notParent]
  · simp only [isNew, if_false]
    by_cases here : parent = directory
    · subst here
      simp only [if_true, Option.some.injEq, exists_eq_left', present, true_and,
        getElem?_append_singleton_iff]
    · simp [here, Ne.symm here]

theorem contains_create_iff {names : Namespace} {parent id : UUID} {name : Bytes}
    {type : FileType} {listed : List DirEntry} (present : names.entries[parent]? = some listed)
    (unused : id ∉ names.entries) (directory inode : UUID) :
    (names.create parent name type id).2.Contains directory inode ↔
      names.Contains directory inode ∨
        directory = parent ∧ inode = id ∧ type = .kDirectory := by
  simp only [Contains, lists_create_iff present unused]
  constructor
  · rintro ⟨position, entry, old | ⟨rfl, rfl, rfl⟩, rfl, typed⟩
    · exact .inl ⟨position, entry, old, rfl, typed⟩
    · exact .inr ⟨rfl, rfl, typed⟩
  · rintro (⟨position, entry, old, same, typed⟩ | ⟨rfl, rfl, rfl⟩)
    · exact ⟨position, entry, .inl old, same, typed⟩
    · exact ⟨_, _, .inr ⟨rfl, rfl, rfl⟩, rfl, rfl⟩

/-- A new directory hangs below its parent, and the others stay where they are. -/
theorem chained_create {names : Namespace} {parent id : UUID} {name : Bytes} {type : FileType}
    {listed : List DirEntry} (present : names.entries[parent]? = some listed)
    (unused : id ∉ names.entries)
    (chained : ∀ directory ∈ names.entries, ∃ nodes, Lib.Chain names.Contains root directory nodes)
    {directory : UUID} (member : directory ∈ (names.create parent name type id).2.entries) :
    ∃ nodes, Lib.Chain (names.create parent name type id).2.Contains root directory nodes := by
  have wide : ∀ {above inode}, names.Contains above inode →
      (names.create parent name type id).2.Contains above inode :=
    fun old => (contains_create_iff present unused _ _).mpr (.inl old)
  rcases (mem_create_iff present directory).mp member with old | ⟨isDirectory, rfl⟩
  · rcases chained directory old with ⟨nodes, chain⟩
    exact ⟨nodes, chain.mono wide⟩
  · rcases chained parent (Map.mem_of_getElem? present) with ⟨nodes, chain⟩
    refine ⟨nodes ++ [id], (chain.mono wide).step ?_⟩
    exact (contains_create_iff present unused _ _).mpr (.inr ⟨rfl, rfl, isDirectory⟩)

end Namespace

namespace Deva

/-- The entries of the namespace and the records of the file table agree. -/
structure Agrees (deva : Deva) : Prop where
  /-- The inodes of the entries are the keys of the file table. -/
  recorded : ∀ inode, inode ∈ deva.fileInfos ↔
    ∃ directory position entry, deva.names.Lists directory position entry ∧ entry.inode = inode
  /-- An inode occurs in one entry. -/
  once : ∀ {directory position entry otherDirectory otherPosition other},
    deva.names.Lists directory position entry →
      deva.names.Lists otherDirectory otherPosition other →
      entry.inode = other.inode → directory = otherDirectory ∧ position = otherPosition
  /-- An entry and its record are of one type. -/
  typed : ∀ {directory position entry info}, deva.names.Lists directory position entry →
    deva.fileInfos[entry.inode]? = some info → info.type = entry.type.proto
  /-- The directories are the root and the entries of that type. -/
  directories : ∀ inode, inode ∈ deva.names.entries ↔
    inode = Namespace.root ∨ ∃ directory, deva.names.Contains directory inode

/-- The directories hang together below the root. -/
structure Rooted (deva : Deva) : Prop where
  chained : ∀ directory ∈ deva.names.entries,
    ∃ nodes, Lib.Chain deva.names.Contains Namespace.root directory nodes
  below : ∀ {directory position entry}, deva.names.Lists directory position entry →
    entry.inode ≠ Namespace.root

/-- The namespace is a tree that matches the file table: one chain of directories leads from the
root to each entry. -/
structure Tree (deva : Deva) : Prop extends Agrees deva where
  reachable : ∀ {directory position entry}, deva.names.Lists directory position entry →
    ∃! nodes, ∃ parent place, deva.names.Lists parent place entry ∧
      Lib.Chain deva.names.Contains Namespace.root parent nodes

/-- A directory has one parent at most. -/
theorem Agrees.single {deva : Deva} (agrees : deva.Agrees) {parent other child : UUID}
    (first : deva.names.Contains parent child) (second : deva.names.Contains other child) :
    parent = other := by
  rcases first with ⟨position, entry, lists, same, -⟩
  rcases second with ⟨otherPosition, otherEntry, otherLists, otherSame, -⟩
  exact (agrees.once lists otherLists (same.trans otherSame.symm)).1

/-- A namespace with a way from the root to every entry, in which entries and records agree, is a
tree. -/
theorem Rooted.tree {deva : Deva} (rooted : deva.Rooted) (agrees : deva.Agrees) : deva.Tree where
  toAgrees := agrees
  reachable := by
    intro directory position entry lists
    have present : directory ∈ deva.names.entries := by
      rcases lists with ⟨listed, found, -⟩
      exact Map.mem_of_getElem? found
    rcases rooted.chained directory present with ⟨nodes, chain⟩
    refine ⟨nodes, ⟨directory, position, lists, chain⟩, ?_⟩
    rintro others ⟨parent, place, otherLists, otherChain⟩
    have sameDirectory := (agrees.once otherLists lists rfl).1
    subst sameDirectory
    apply otherChain.unique chain agrees.single
    rintro above ⟨place, top, topLists, isRoot, -⟩
    exact rooted.below topLists isRoot

theorem fresh_not_lists {directory : UUID} {position : ℕ} {entry : DirEntry} :
    ¬fresh.names.Lists directory position entry := by
  rintro ⟨listed, present, found⟩
  simp [fresh_listed_eq_nil present] at found

/-- In a fresh container there is nothing to disagree about. -/
theorem fresh_agrees : fresh.Agrees where
  recorded inode := by
    simp only [fresh_not_lists, false_and, exists_false, iff_false]
    simp [fresh]
  once lists := absurd lists fresh_not_lists
  typed lists := absurd lists fresh_not_lists
  directories inode := by
    simp only [Namespace.Contains, fresh_not_lists, false_and, exists_false, or_false]
    simp only [fresh, Namespace.initial, Std.ExtTreeMap.mem_insert, Std.ExtTreeMap.not_mem_empty,
      or_false, Std.LawfulEqCmp.compare_eq_iff_eq]
    exact eq_comm

/-- In a fresh container there is only the root. -/
theorem fresh_rooted : fresh.Rooted where
  chained directory present := by
    simp only [fresh, Namespace.initial, Std.ExtTreeMap.mem_insert, Std.ExtTreeMap.not_mem_empty,
      or_false, Std.LawfulEqCmp.compare_eq_iff_eq] at present
    exact present ▸ ⟨_, .root⟩
  below lists := absurd lists fresh_not_lists

section Create

variable {deva : Deva} {parent : UUID} {listed : List DirEntry} {name : Bytes} {type : FileType}
  {id : UUID} {info : FileInfo}

theorem not_lists_unused (unused : deva.Unused id) {directory : UUID} {position : ℕ}
    {entry : DirEntry} (lists : deva.names.Lists directory position entry) : entry.inode ≠ id := by
  rcases lists with ⟨listed, present, found⟩
  exact unused.inode directory listed entry present (List.mem_of_getElem? found)

/-- A creation with an unused identifier adds an entry and its record. -/
theorem Agrees.create (agrees : deva.Agrees) (present : deva.names.entries[parent]? = some listed)
    (unused : deva.Unused id) (sameType : info.type = type.proto) :
    ({ names := (deva.names.create parent name type id).2
       fileInfos := deva.fileInfos.insert id info } : Deva).Agrees where
  recorded inode := by
    simp only [Std.ExtTreeMap.mem_insert, Std.LawfulEqCmp.compare_eq_iff_eq, agrees.recorded,
      Namespace.lists_create_iff present unused.directory]
    constructor
    · rintro (rfl | ⟨directory, position, entry, lists, same⟩)
      · exact ⟨_, _, _, .inr ⟨rfl, rfl, rfl⟩, rfl⟩
      · exact ⟨directory, position, entry, .inl lists, same⟩
    · rintro ⟨directory, position, entry, lists | ⟨rfl, rfl, rfl⟩, rfl⟩
      · exact .inr ⟨directory, position, entry, lists, rfl⟩
      · exact .inl rfl
  once := by
    intro directory position entry otherDirectory otherPosition other lists otherLists same
    simp only [Namespace.lists_create_iff present unused.directory] at lists otherLists
    rcases lists with old | ⟨rfl, rfl, rfl⟩
    · rcases otherLists with otherOld | ⟨rfl, rfl, rfl⟩
      · exact agrees.once old otherOld same
      · exact absurd same (not_lists_unused unused old)
    · rcases otherLists with otherOld | ⟨rfl, rfl, rfl⟩
      · exact absurd same.symm (not_lists_unused unused otherOld)
      · exact ⟨rfl, rfl⟩
  typed := by
    intro directory position entry found lists recorded
    simp only [Namespace.lists_create_iff present unused.directory] at lists
    rcases lists with old | ⟨rfl, rfl, rfl⟩
    · have different := not_lists_unused unused old
      simp only [Std.ExtTreeMap.getElem?_insert, Std.LawfulEqCmp.compare_eq_iff_eq,
        Ne.symm different, if_false] at recorded
      exact agrees.typed old recorded
    · simp only [Std.ExtTreeMap.getElem?_insert_self, Option.some.injEq] at recorded
      exact recorded ▸ sameType
  directories inode := by
    simp only [Namespace.mem_create_iff present, agrees.directories,
      Namespace.contains_create_iff present unused.directory]
    constructor
    · rintro ((isRoot | ⟨directory, contains⟩) | ⟨isDirectory, rfl⟩)
      · exact .inl isRoot
      · exact .inr ⟨directory, .inl contains⟩
      · exact .inr ⟨parent, .inr ⟨rfl, rfl, isDirectory⟩⟩
    · rintro (isRoot | ⟨directory, contains | ⟨-, rfl, isDirectory⟩⟩)
      · exact .inl (.inl isRoot)
      · exact .inl (.inr ⟨directory, contains⟩)
      · exact .inr ⟨isDirectory, rfl⟩

/-- A creation with an unused identifier adds a node below its parent. -/
theorem Rooted.create (rooted : deva.Rooted) (present : deva.names.entries[parent]? = some listed)
    (unused : deva.Unused id) (notRoot : id ≠ Namespace.root) :
    ({ names := (deva.names.create parent name type id).2
       fileInfos := deva.fileInfos.insert id info } : Deva).Rooted where
  chained _ member :=
    Namespace.chained_create present unused.directory rooted.chained member
  below := by
    intro directory position entry lists
    simp only [Namespace.lists_create_iff present unused.directory] at lists
    rcases lists with old | ⟨rfl, rfl, rfl⟩
    · exact rooted.below old
    · exact notRoot

end Create

/-- A request that fails changes nothing. -/
theorem process_error {deva : Deva} (wellFormed : deva.WellFormed) {request : Request}
    {failure : Failure} (failed : (deva.process request).1 = .error failure) :
    (deva.process request).2 = deva := by
  rcases wellFormed.process_cases request with
    ⟨same, -⟩ | ⟨type, creation, parent, listed, -, -, -, processed⟩
  · exact same
  · simp [processed] at failed

/-- A request with an unused identifier keeps the tree. -/
theorem process_agrees_rooted {deva : Deva} (wellFormed : deva.WellFormed) (agrees : deva.Agrees)
    (rooted : deva.Rooted) {request : Request}
    (unused : ∀ id, request.id? = some id → deva.Unused id) :
    (deva.process request).2.Agrees ∧ (deva.process request).2.Rooted := by
  rcases wellFormed.process_cases request with
    ⟨same, -⟩ | ⟨type, creation, parent, listed, creates, -, present, processed⟩
  · rw [same]
    exact ⟨agrees, rooted⟩
  · rw [processed]
    have unusedId := unused creation.id (by simp [Request.id?, creates])
    have notRoot : creation.id ≠ Namespace.root :=
      fun same => unusedId.directory (same ▸ wellFormed.root)
    exact ⟨agrees.create present unusedId rfl, rooted.create present unusedId notRoot⟩

/-- Requests with distinct identifiers build a tree. -/
theorem processAll_agrees_rooted {requests : List Request} (distinct : DistinctIds requests) :
    (fresh.processAll requests).Agrees ∧ (fresh.processAll requests).Rooted := by
  induction requests using List.reverseRecOn with
  | nil => exact ⟨fresh_agrees, fresh_rooted⟩
  | append_singleton history request ih =>
      rcases ih distinct.left with ⟨agrees, rooted⟩
      have wellFormed := processAll_wellFormed fresh_wellFormed history
      simp only [processAll_append, processAll_cons, processAll_nil]
      apply process_agrees_rooted wellFormed agrees rooted
      intro id brought
      exact distinct.unused (by simp [brought])

/-- Whatever requests with distinct identifiers are processed on a fresh container, the namespace is
a tree that matches the file table, and a request that failed has changed nothing. -/
theorem processAll_tree {requests : List Request} (distinct : DistinctIds requests) :
    (fresh.processAll requests).Tree ∧
      ∀ before request after failure, requests = before ++ request :: after →
        ((fresh.processAll before).process request).1 = .error failure →
          ((fresh.processAll before).process request).2 = fresh.processAll before := by
  rcases processAll_agrees_rooted distinct with ⟨agrees, rooted⟩
  refine ⟨rooted.tree agrees, ?_⟩
  intro before request after failure _ failed
  exact process_error (processAll_wellFormed fresh_wellFormed before) failed

/-- The directory `/a`, the file `/a/b` in it, and a file in a directory that does not exist. -/
theorem processAll_tree_dir_and_file :
    (fresh.processAll [.createDir ⟨[47, 97], ⟨0, 1⟩, 0, 0, 0, 511, 0, 0⟩,
      .createFile ⟨[47, 97, 47, 98], ⟨0, 2⟩, 0, 0, 0, 438, 0, 0⟩,
      .createFile ⟨[47, 99, 47, 98], ⟨0, 3⟩, 0, 0, 0, 438, 0, 0⟩]).Tree :=
  (processAll_tree ⟨by decide, by decide⟩).1

end Deva

end Pain.Deva
