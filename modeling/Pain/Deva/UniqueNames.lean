import Pain.Deva.WellFormed

/-!
# Unique names

`Namespace::create` appends an entry without looking for one of the same name,
and `Namespace::lookup` takes the first that it finds. A second creation under a
name that is there is acknowledged and stays hidden behind the first. Two kinds
of path can never be found again: one that ends in a slash creates an entry with
an empty name, and one with a NUL is cut there by `lookup`.

`Admissible` excludes these three, and nothing else that a request that finds
its directory can ask for. In every run of admissible requests the names of a
directory are distinct, and a creation that is acknowledged can be looked up.
-/

set_option linter.dupNamespace false

namespace Pain.Deva

open Lib (segments)

namespace Deva

/-- No directory has two entries of one name. -/
def UniqueNames (deva : Deva) : Prop :=
  ∀ (directory : UUID) (listed : List DirEntry), deva.names.entries[directory]? = some listed →
    (listed.map DirEntry.name).Nodup

/-- If the directory of the path is there, then the path has no NUL, does not end in a slash, and
is not there itself. -/
def Admissible (path : Bytes) (deva : Deva) : Prop :=
  ∀ parent, deva.resolveParent path = .ok parent →
    0 ∉ path ∧ path.getLast? ≠ some slash ∧ ∃ failure, deva.names.lookup path = .error failure

/-- A path that can be found again is looked up through its directory. -/
theorem lookup_eq_walk {path : Bytes} {deva : Deva} {parent : UUID}
    (resolved : deva.resolveParent path = .ok parent) (noNul : 0 ∉ path)
    (named : path.getLast? ≠ some slash) {names : Namespace} (grows : deva.names.Extends names) :
    names.lookup path = names.walk [filename path] parent .kDirectory := by
  rcases Namespace.lookup_eq_ok.mp (resolveParent_eq_ok.mp resolved) with ⟨absolute, walked⟩
  have prefixed : parentPath path <+: path := parentPath_isPrefix path
  have noNulParent : 0 ∉ parentPath path := fun member => noNul (prefixed.subset member)
  simp only [cStr_eq_self noNulParent] at absolute walked
  have absolutePath : path.head? = some slash := by
    rcases prefixed with ⟨rest, whole⟩
    have headParent : (parentPath path ++ rest).head? = some slash := by simp [absolute]
    exact whole ▸ headParent
  have nonempty : path ≠ [] := by
    rintro rfl
    simp at absolutePath
  have hasName : filename path ≠ [] := fun empty => named ((filename_eq_nil_iff nonempty).mp empty)
  simp only [Namespace.lookup_eq, cStr_eq_self noNul, absolutePath, if_true,
    segments_eq_parentPath_append hasName]
  exact Namespace.walk_append (grows.walk walked)

/-- A name that is not in its directory stays unique when it is created, and is found there. -/
theorem createEntry_unique (type : FileType) {request : CreateRequest} {deva : Deva}
    {parent : UUID} {listed : List DirEntry} (uniqueNames : deva.UniqueNames)
    (unused : deva.Unused request.id) (resolved : deva.resolveParent request.path = .ok parent)
    (present : deva.names.entries[parent]? = some listed)
    (admissible : deva.Admissible request.path) :
    (deva.createEntry type request).2.UniqueNames ∧
      (deva.createEntry type request).2.names.lookup request.path = .ok (request.id, type) := by
  rcases admissible parent resolved with ⟨noNul, named, failure, missing⟩
  have absent : listed.find? (fun entry => entry.name = filename request.path) = none := by
    cases found : listed.find? (fun entry => entry.name = filename request.path) with
    | none => rfl
    | some entry =>
        have walked : deva.names.walk [filename request.path] parent .kDirectory =
            .ok (entry.inode, entry.type) :=
          Namespace.walk_cons_eq_ok.mpr ⟨listed, entry, present, found, fun _ => rfl, rfl⟩
        simp [lookup_eq_walk resolved noNul named (Namespace.Extends.refl _), walked] at missing
  have notParent : request.id ≠ parent := by
    intro same
    have member : parent ∈ deva.names.entries := Map.mem_of_getElem? present
    exact unused.directory (same ▸ member)
  simp only [createEntry_of_ok resolved present]
  have linked := (Namespace.create_eq_ok (filename request.path) type request.id present).2
  constructor
  · intro directory found foundAt
    simp only [linked directory] at foundAt
    split at foundAt
    · simp only [Option.some.injEq] at foundAt
      simp [← foundAt]
    · split at foundAt
      · simp only [Option.some.injEq] at foundAt
        have unique := uniqueNames parent listed present
        simp only [← foundAt, List.map_append, List.map_cons, List.map_nil]
        apply List.nodup_append.mpr
        refine ⟨unique, by simp, ?_⟩
        intro name nameMem other otherMem
        simp only [List.mem_singleton] at otherMem
        subst otherMem
        rcases List.mem_map.mp nameMem with ⟨entry, entryMem, rfl⟩
        intro sameName
        have differs := List.find?_eq_none.mp absent entry entryMem
        simp [sameName] at differs
      · exact uniqueNames directory found foundAt
  · have grows := Namespace.create_extends parent (filename request.path) type unused.directory
    simp only [lookup_eq_walk resolved noNul named grows]
    apply Namespace.walk_cons_eq_ok.mpr
    refine ⟨listed ++ [⟨request.id, filename request.path, type⟩],
      ⟨request.id, filename request.path, type⟩, ?_, ?_, fun _ => rfl, rfl⟩
    · simp [linked parent, notParent]
    · simp [absent]

/-- A request that creates asks for an admissible path. -/
def Admits (deva : Deva) (request : Request) : Prop :=
  ∀ (type : FileType) (creation : CreateRequest), request.creates = some (type, creation) →
    deva.Admissible creation.path

/-- An admitted request keeps the names of every directory distinct. -/
theorem process_unique {deva : Deva} (uniqueNames : deva.UniqueNames)
    (wellFormed : deva.WellFormed) {request : Request} (admits : deva.Admits request)
    (unused : ∀ id, request.id? = some id → deva.Unused id) :
    (deva.process request).2.UniqueNames ∧
      ∀ (type : FileType) (creation : CreateRequest) (info : FileInfo),
        request.creates = some (type, creation) → (deva.process request).1 = .ok (some info) →
          (deva.process request).2.names.lookup creation.path = .ok (info.fileId, type) ∧
            info.type = type.proto := by
  rcases wellFormed.process_cases request with
    ⟨same, noInfo, -⟩ | ⟨type, creation, parent, listed, creates, resolved, present, processed⟩
  · rw [same]
    refine ⟨uniqueNames, ?_⟩
    intro _ _ info _ acknowledged
    exact absurd acknowledged (noInfo info)
  · have idUnused := unused creation.id (by simp [Request.id?, creates])
    rcases createEntry_unique type uniqueNames idUnused resolved present
      (admits type creation creates) with ⟨unique, found⟩
    rw [createEntry_of_ok resolved present] at unique found
    rw [processed]
    refine ⟨unique, ?_⟩
    intro type' creation' info same acknowledged
    simp only [creates, Option.some.injEq, Prod.mk.injEq] at same
    rcases same with ⟨rfl, rfl⟩
    simp only [Except.ok.injEq, Option.some.injEq] at acknowledged
    subst acknowledged
    exact ⟨found, rfl⟩

/-- Names are unique. Let requests with distinct identifiers be processed on a fresh container, each
of them admissible in the state that it meets. No directory of the state reached has two entries of
one name, and if the last request was acknowledged, looking its path up returns the identifier and
the type that were reported. -/
theorem names_unique_of_admissible (requests : List Request) (distinct : DistinctIds requests)
    (admitted : Lib.Guarded step Admits fresh requests) :
    (fresh.processAll requests).UniqueNames ∧
      ∀ (history : List Request) (request : Request) (type : FileType) (creation : CreateRequest)
        (info : FileInfo), requests = history ++ [request] →
          request.creates = some (type, creation) →
          ((fresh.processAll history).process request).1 = .ok (some info) →
            (fresh.processAll requests).names.lookup creation.path = .ok (info.fileId, type) ∧
              info.type = type.proto := by
  induction requests using List.reverseRecOn with
  | nil =>
      refine ⟨?_, by simp⟩
      intro directory listed present
      simp only [processAll_nil] at present
      simp [fresh_listed_eq_nil present]
  | append_singleton history request ih =>
      rcases admitted.split (exec_step fresh history) with ⟨admittedHistory, admittedLast⟩
      have uniqueNames := (ih distinct.left admittedHistory).1
      have wellFormed := processAll_wellFormed fresh_wellFormed history
      have unused : ∀ id, request.id? = some id → (fresh.processAll history).Unused id := by
        intro id brought
        exact distinct.unused (by simp [brought])
      rcases process_unique uniqueNames wellFormed admittedLast.1 unused with ⟨unique, found⟩
      simp only [processAll_append, processAll_cons, processAll_nil]
      refine ⟨unique, ?_⟩
      intro history' request' type creation info same creates acknowledged
      rcases List.append_inj' same rfl with ⟨rfl, sameRequest⟩
      simp only [List.cons.injEq, and_true] at sameRequest
      subst sameRequest
      exact found type creation info creates acknowledged

/-- The directory `/a` and the file `/a/b` in it. -/
theorem names_unique_dir_and_file :
    (fresh.processAll [.createDir ⟨[47, 97], ⟨0, 1⟩, 0, 0, 0, 511, 0, 0⟩,
        .createFile ⟨[47, 97, 47, 98], ⟨0, 2⟩, 0, 0, 0, 438, 0, 0⟩]).UniqueNames ∧
      (fresh.processAll [.createDir ⟨[47, 97], ⟨0, 1⟩, 0, 0, 0, 511, 0, 0⟩,
        .createFile ⟨[47, 97, 47, 98], ⟨0, 2⟩, 0, 0, 0, 438, 0, 0⟩]).names.lookup
          [47, 97, 47, 98] = .ok (⟨0, 2⟩, .kFile) := by
  have distinct : DistinctIds [.createDir ⟨[47, 97], ⟨0, 1⟩, 0, 0, 0, 511, 0, 0⟩,
      .createFile ⟨[47, 97, 47, 98], ⟨0, 2⟩, 0, 0, 0, 438, 0, 0⟩] := ⟨by decide, by decide⟩
  have admitted : Lib.Guarded step Admits fresh
      [.createDir ⟨[47, 97], ⟨0, 1⟩, 0, 0, 0, 511, 0, 0⟩,
        .createFile ⟨[47, 97, 47, 98], ⟨0, 2⟩, 0, 0, 0, 438, 0, 0⟩] := by
    refine Lib.guarded_cons ?_ rfl (Lib.guarded_cons ?_ rfl trivial)
    all_goals
      intro type creation creates
      cases creates
      intro parent _
      exact ⟨by decide, by decide, ⟨_, rfl⟩⟩
  rcases names_unique_of_admissible _ distinct admitted with ⟨unique, found⟩
  refine ⟨unique, ?_⟩
  exact (found [.createDir ⟨[47, 97], ⟨0, 1⟩, 0, 0, 0, 511, 0, 0⟩] _ _ _ _ rfl rfl rfl).1

/-- Two files `/a`: both are acknowledged, and looking the path up finds the first. -/
theorem not_uniqueNames_same_path :
    ∃ (requests : List Request) (request : Request) (info : FileInfo),
      DistinctIds (requests ++ [request]) ∧
      ((fresh.processAll requests).process request).1 = .ok (some info) ∧
      ¬ (fresh.processAll (requests ++ [request])).UniqueNames ∧
      (fresh.processAll (requests ++ [request])).names.lookup [47, 97] ≠
        .ok (info.fileId, .kFile) := by
  refine ⟨[.createFile ⟨[47, 97], ⟨0, 1⟩, 0, 0, 0, 438, 0, 0⟩],
    .createFile ⟨[47, 97], ⟨0, 2⟩, 0, 0, 0, 438, 0, 0⟩, _, ⟨by decide, by decide⟩, rfl, ?_,
    by decide⟩
  intro unique
  have names := unique Namespace.root
    [⟨⟨0, 1⟩, [97], .kFile⟩, ⟨⟨0, 2⟩, [97], .kFile⟩] (by decide)
  exact absurd names (by decide)

end Deva

end Pain.Deva
