import Pain.Deva.WellFormed

/-!
# The two path splitters

`Deva::create` cuts a path into a directory and a file name with
`std::filesystem::path`, and `Namespace::lookup` cuts it into components with
`parse_path`, which works on what `c_str` shows. The two agree on a path that
neither ends in a slash nor has a NUL, and on no other: behind a slash the file
name is empty, which the scanner never produces, and behind a NUL the scanner
sees nothing.

In a run of requests with such paths every name of the namespace is a component
that can be looked up.
-/

set_option linter.dupNamespace false

namespace Pain.Deva

open Lib (segments)

/-- Resolution splits the path as creation does, into the components of the parent directory and the
file name. -/
def SplitAlike (path : Bytes) : Prop :=
  parsePath path [] =
    (parsePath (parentPath path) []).map (fun components => components ++ [filename path])

/-- The path does not end in a slash and has no NUL. -/
def Plain (path : Bytes) : Prop :=
  path.getLast? ≠ some slash ∧ 0 ∉ path

section Paths

variable {path : Bytes}

theorem head?_of_parentPath (absolute : (cStr (parentPath path)).head? = some slash) :
    path.head? = some slash := by
  have shown : cStr (parentPath path) <+: path :=
    (List.takeWhile_prefix _).trans (parentPath_isPrefix path)
  rcases shown with ⟨rest, whole⟩
  rw [← whole, List.head?_append, absolute]
  rfl

theorem head?_cStr (absolute : path.head? = some slash) : (cStr path).head? = some slash := by
  cases path with
  | nil => simp at absolute
  | cons char rest =>
      simp only [List.head?_cons, Option.some.injEq] at absolute
      subst absolute
      simp [cStr, slash]

theorem Plain.filename_ne_nil (plain : Plain path) (absolute : path.head? = some slash) :
    filename path ≠ [] := by
  have nonempty : path ≠ [] := by
    rintro rfl
    simp at absolute
  exact fun empty => plain.1 ((filename_eq_nil_iff nonempty).mp empty)

/-- Of the paths with an absolute parent directory, the splitters agree on the plain ones. -/
theorem splitAlike_iff_plain (absolute : (cStr (parentPath path)).head? = some slash) :
    SplitAlike path ↔ Plain path := by
  have absolutePath := head?_of_parentPath absolute
  have equation : SplitAlike path ↔
      segments slash (cStr path) = segments slash (cStr (parentPath path)) ++ [filename path] := by
    simp [SplitAlike, parsePath_eq, absolute, head?_cStr absolutePath, Except.map]
  rw [equation]
  constructor
  · intro split
    have member : filename path ∈ segments slash (cStr path) := by simp [split]
    have noNulName : 0 ∉ filename path :=
      fun isNul => zero_not_mem_cStr path (Lib.subset_of_mem_segments member isNul)
    constructor
    · intro endsInSlash
      have nonempty : path ≠ [] := by
        rintro rfl
        simp at endsInSlash
      exact Lib.ne_nil_of_mem_segments member ((filename_eq_nil_iff nonempty).mpr endsInSlash)
    · intro isNul
      rcases mem_parentPath_or_filename isNul (by decide) with inParent | inName
      · rw [cStr_eq_of_isPrefix (parentPath_isPrefix path) inParent] at split
        simp at split
      · exact noNulName inName
  · intro plain
    have noNulParent : 0 ∉ parentPath path :=
      fun member => plain.2 ((parentPath_isPrefix path).subset member)
    rw [cStr_eq_self plain.2, cStr_eq_self noNulParent]
    exact segments_eq_parentPath_append (plain.filename_ne_nil absolutePath)

end Paths

namespace Namespace

/-- Every name is a component that `parse_path` can produce: it is not empty and has neither a slash
nor a NUL. -/
def WellNamed (names : Namespace) : Prop :=
  ∀ directory entry, names.Holds directory entry →
    entry.name ≠ [] ∧ slash ∉ entry.name ∧ 0 ∉ entry.name

/-- Behind each path of a directory, every name of the directory is found: `lookup` answers with the
first entry of the name. -/
def Addressable (names : Namespace) : Prop :=
  ∀ directory entry path, names.Holds directory entry → 0 ∉ path →
    names.lookup path = .ok (directory, .kDirectory) →
      ∃ first, names.Holds directory first ∧ first.name = entry.name ∧
        names.lookup (path ++ slash :: entry.name) = .ok (first.inode, first.type)

/-- A path leads to each directory that has an entry. -/
def Reached (names : Namespace) : Prop :=
  ∀ directory entry, names.Holds directory entry →
    ∃ path, 0 ∉ path ∧ names.lookup path = .ok (directory, .kDirectory)

theorem WellNamed.addressable {names : Namespace} (wellNamed : names.WellNamed) :
    names.Addressable := by
  intro directory entry path holds noNul resolved
  rcases wellNamed directory entry holds with ⟨nonempty, noSlash, noNulName⟩
  rcases holds with ⟨listed, present, member⟩
  rcases lookup_eq_ok.mp resolved with ⟨absolute, walked⟩
  rw [cStr_eq_self noNul] at absolute walked
  have noNulWhole : 0 ∉ path ++ slash :: entry.name := by
    simp [noNul, noNulName, slash]
  cases found : listed.find? (fun other => other.name = entry.name) with
  | none =>
      have differs := List.find?_eq_none.mp found entry member
      simp at differs
  | some first =>
      have named : first.name = entry.name := by simpa using List.find?_some found
      refine ⟨first, ⟨listed, present, List.mem_of_find?_eq_some found⟩, named, ?_⟩
      refine lookup_eq_ok.mpr ⟨?_, ?_⟩
      · simp [cStr_eq_self noNulWhole, absolute]
      · rw [cStr_eq_self noNulWhole, Lib.segments_append_cons,
          Lib.segments_of_not_mem noSlash nonempty, walk_append walked]
        exact walk_cons_eq_ok.mpr ⟨listed, first, present, found, fun _ => rfl, rfl⟩

end Namespace

namespace Deva

/-- If the request creates, the splitters agree on its path. -/
def SplitsAlike (deva : Deva) (request : Request) : Prop :=
  ∀ (type : FileType) (creation : CreateRequest), request.creates = some (type, creation) →
    (deva.create creation.path creation.id type).1 = Status.OK → SplitAlike creation.path

/-- If the parent directory of the path of a creating request is there, the path is plain. -/
def AsksPlainly (deva : Deva) (request : Request) : Prop :=
  ∀ (type : FileType) (creation : CreateRequest), request.creates = some (type, creation) →
    ∀ parent, deva.resolveParent creation.path = .ok parent → Plain creation.path

section Process

variable {deva : Deva}

theorem absolute_of_resolveParent {path : Bytes} {parent : UUID}
    (resolved : deva.resolveParent path = .ok parent) :
    (cStr (parentPath path)).head? = some slash :=
  (Namespace.lookup_eq_ok.mp (resolveParent_eq_ok.mp resolved)).1

theorem create_eq_ok_iff (wellFormed : deva.WellFormed) {path : Bytes} {id : UUID}
    {type : FileType} :
    (deva.create path id type).1 = Status.OK ↔ ∃ parent, deva.resolveParent path = .ok parent := by
  cases resolved : deva.resolveParent path with
  | error failure => simp [create, resolved, Status.OK]
  | ok parent =>
      rcases wellFormed.resolves resolved with ⟨listed, present⟩
      have created := (Namespace.create_eq_ok (filename path) type id present).1
      simp [create, resolved, created]

theorem splitsAlike_iff_asksPlainly (wellFormed : deva.WellFormed) (request : Request) :
    deva.SplitsAlike request ↔ deva.AsksPlainly request := by
  constructor
  · intro alike type creation creates parent resolved
    apply (splitAlike_iff_plain (absolute_of_resolveParent resolved)).mp
    exact alike type creation creates ((create_eq_ok_iff wellFormed).mpr ⟨parent, resolved⟩)
  · intro plainly type creation creates created
    rcases (create_eq_ok_iff wellFormed).mp created with ⟨parent, resolved⟩
    apply (splitAlike_iff_plain (absolute_of_resolveParent resolved)).mpr
    exact plainly type creation creates parent resolved

theorem process_wellNamed (wellFormed : deva.WellFormed) (wellNamed : deva.names.WellNamed)
    {request : Request} (plainly : deva.AsksPlainly request) :
    (deva.process request).2.names.WellNamed := by
  rcases wellFormed.process_cases request with
    ⟨same, -⟩ | ⟨type, creation, parent, listed, creates, resolved, present, processed⟩
  · rw [same]
    exact wellNamed
  · rw [processed]
    intro directory entry holds
    rcases Namespace.holds_of_create present holds with ⟨-, rfl⟩ | old
    · have plain := plainly type creation creates parent resolved
      have absolute := head?_of_parentPath (absolute_of_resolveParent resolved)
      refine ⟨plain.filename_ne_nil absolute, slash_not_mem_filename _, ?_⟩
      exact fun isNul => plain.2 ((List.rtakeWhile_suffix _ _).subset isNul)
    · exact wellNamed directory entry old

theorem process_reached (wellFormed : deva.WellFormed) (reached : deva.names.Reached)
    {request : Request} (plainly : deva.AsksPlainly request)
    (unused : ∀ id, request.id? = some id → deva.Unused id) :
    (deva.process request).2.names.Reached := by
  rcases wellFormed.process_cases request with
    ⟨same, -⟩ | ⟨type, creation, parent, listed, creates, resolved, present, processed⟩
  · rw [same]
    exact reached
  · rw [processed]
    have idUnused := unused creation.id (by simp [Request.id?, creates])
    have grows := Namespace.create_extends parent (filename creation.path) type idUnused.directory
    intro directory entry holds
    rcases Namespace.holds_of_create present holds with ⟨rfl, -⟩ | old
    · have plain := plainly type creation creates directory resolved
      refine ⟨parentPath creation.path, ?_, grows.lookup (resolveParent_eq_ok.mp resolved)⟩
      exact fun isNul => plain.2 ((parentPath_isPrefix _).subset isNul)
    · rcases reached directory entry old with ⟨path, noNul, found⟩
      exact ⟨path, noNul, grows.lookup found⟩

end Process

theorem fresh_not_holds {directory : UUID} {entry : DirEntry} :
    ¬ fresh.names.Holds directory entry := by
  rintro ⟨listed, present, member⟩
  simp [fresh_listed_eq_nil present] at member

/-- The two path splitters. Whatever requests are processed on a fresh container, the splitters
agree on the path of every creation that succeeds, and in every state the names are components that
can be looked up, if and only if no path whose parent directory is there ends in a slash or has a
NUL. If the identifiers are distinct too, there is a path to every name. -/
theorem splitters_agree_iff (requests : List Request) :
    ((Lib.Guarded step SplitsAlike fresh requests ∧
        Lib.Throughout step (fun deva => deva.names.WellNamed ∧ deva.names.Addressable) fresh
          requests) ↔
      Lib.Guarded step AsksPlainly fresh requests) ∧
    (DistinctIds requests → Lib.Guarded step AsksPlainly fresh requests →
      Lib.Throughout step (fun deva => deva.names.Reached) fresh requests) := by
  have agree : Lib.Guarded step SplitsAlike fresh requests ↔
      Lib.Guarded step AsksPlainly fresh requests := by
    refine Lib.guarded_iff_of_invariant WellFormed
      (fun wellFormed => splitsAlike_iff_asksPlainly wellFormed _) ?_ fresh_wellFormed
    intro deva request next wellFormed _ stepped
    simp only [step, Option.some.injEq] at stepped
    exact stepped ▸ process_wellFormed wellFormed request
  refine ⟨⟨fun both => agree.mp both.1, fun plainly => ⟨agree.mpr plainly, ?_⟩⟩, ?_⟩
  · refine (Lib.throughout_of_guarded (fun deva => deva.WellFormed ∧ deva.names.WellNamed) ?_ ?_
      plainly).mono (fun holds => ⟨holds.2, holds.2.addressable⟩)
    · rintro deva request next ⟨wellFormed, wellNamed⟩ asksPlainly stepped
      simp only [step, Option.some.injEq] at stepped
      exact stepped ▸ ⟨process_wellFormed wellFormed request,
        process_wellNamed wellFormed wellNamed asksPlainly⟩
    · exact ⟨fresh_wellFormed, fun _ _ holds => absurd holds fresh_not_holds⟩
  · intro distinct plainly
    refine (Lib.throughout_of_guarded (fun deva => deva.WellFormed ∧ deva.names.Reached) ?_ ?_
      (Lib.guarded_and_iff.mpr ⟨plainly, distinct.guarded⟩)).mono (fun holds => holds.2)
    · rintro deva request next ⟨wellFormed, reached⟩ ⟨asksPlainly, unused⟩ stepped
      simp only [step, Option.some.injEq] at stepped
      exact stepped ▸ ⟨process_wellFormed wellFormed request,
        process_reached wellFormed reached asksPlainly unused⟩
    · exact ⟨fresh_wellFormed, fun _ _ holds => absurd holds fresh_not_holds⟩

/-- Creating the file `/` succeeds, and so does creating `/a`, a NUL and `b`: the first entry has an
empty name, and the second a name with a NUL. -/
theorem creates_unaddressable_names :
    ((fresh.create [47] ⟨0, 1⟩ .kFile).1 = Status.OK ∧ ¬ SplitAlike [47] ∧
      ¬ (fresh.create [47] ⟨0, 1⟩ .kFile).2.names.WellNamed) ∧
    (fresh.create [47, 97, 0, 98] ⟨0, 1⟩ .kFile).1 = Status.OK ∧ ¬ SplitAlike [47, 97, 0, 98] ∧
      ¬ (fresh.create [47, 97, 0, 98] ⟨0, 1⟩ .kFile).2.names.WellNamed := by
  refine ⟨⟨rfl, ?_, ?_⟩, rfl, ?_, ?_⟩
  · intro alike
    exact absurd ((splitAlike_iff_plain rfl).mp alike).1 (by decide)
  · intro wellNamed
    have named := wellNamed Namespace.root ⟨⟨0, 1⟩, [], .kFile⟩
      ⟨[⟨⟨0, 1⟩, [], .kFile⟩], rfl, List.mem_singleton_self _⟩
    exact named.1 rfl
  · intro alike
    exact absurd ((splitAlike_iff_plain rfl).mp alike).2 (by decide)
  · intro wellNamed
    have named := wellNamed Namespace.root ⟨⟨0, 1⟩, [97, 0, 98], .kFile⟩
      ⟨[⟨⟨0, 1⟩, [97, 0, 98], .kFile⟩], rfl, List.mem_singleton_self _⟩
    exact absurd named.2.2 (by decide)

end Deva

end Pain.Deva
