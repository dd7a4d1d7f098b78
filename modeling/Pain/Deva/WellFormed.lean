import Pain.Deva.Deva

/-!
# What every container state satisfies

In a state that requests have produced, a path that resolves to a directory
resolves to one that is there, and an identifier that no request has brought is
not used. Both survive each of the two writes of a creating request, the new
entry and the new record, so they hold in whatever order the writes of several
requests are made.
-/

set_option linter.dupNamespace false

namespace Pain.Deva

namespace Deva

/-- The root is a directory, and so is the inode of every entry of that type. -/
structure WellFormed (deva : Deva) : Prop where
  root : Namespace.root ∈ deva.names.entries
  directories : ∀ (directory : UUID) (listed : List DirEntry) (entry : DirEntry),
    deva.names.entries[directory]? = some listed → entry ∈ listed → entry.type = .kDirectory →
      entry.inode ∈ deva.names.entries

/-- No directory, entry or record has the identifier. -/
structure Unused (id : UUID) (deva : Deva) : Prop where
  directory : id ∉ deva.names.entries
  inode : ∀ (directory : UUID) (listed : List DirEntry) (entry : DirEntry),
    deva.names.entries[directory]? = some listed → entry ∈ listed → entry.inode ≠ id
  record : id ∉ deva.fileInfos

theorem fresh_listed_eq_nil {directory : UUID} {listed : List DirEntry}
    (present : fresh.names.entries[directory]? = some listed) : listed = [] := by
  simp only [fresh, Namespace.initial, Std.ExtTreeMap.getElem?_insert] at present
  split at present
  · simpa using present.symm
  · simp at present

/-- A fresh container is well formed. -/
theorem fresh_wellFormed : fresh.WellFormed where
  root := by simp [fresh, Namespace.initial]
  directories := by
    intro directory listed entry present member
    simp [fresh_listed_eq_nil present] at member

theorem fresh_unused {id : UUID} (notRoot : id ≠ Namespace.root) : fresh.Unused id where
  directory := by
    simpa [fresh, Namespace.initial] using notRoot.symm
  inode := by
    intro directory listed entry present member
    simp [fresh_listed_eq_nil present] at member
  record := by simp [fresh]

/-- A walk that ends in a directory ends in one that is there. -/
theorem WellFormed.walk_mem {deva : Deva} (wellFormed : deva.WellFormed) {components : List Bytes}
    {start directory : UUID} (startMem : start ∈ deva.names.entries) {type : FileType}
    (walked : deva.names.walk components start type = .ok (directory, .kDirectory)) :
    directory ∈ deva.names.entries := by
  induction components generalizing start type with
  | nil =>
      simp only [Namespace.walk, Except.ok.injEq, Prod.mk.injEq] at walked
      exact walked.1 ▸ startMem
  | cons component rest ih =>
      rcases Namespace.walk_cons_eq_ok.mp walked with
        ⟨listed, entry, present, isFirst, last, walkedRest⟩
      cases typed : entry.type with
      | kFile =>
          simp only [last typed, Namespace.walk, typed, Except.ok.injEq, Prod.mk.injEq,
            reduceCtorEq, and_false] at walkedRest
      | kDirectory =>
          refine ih ?_ walkedRest
          exact wellFormed.directories start listed entry present
            (List.mem_of_find?_eq_some isFirst) typed

/-- The parent of a path is a directory that is there. -/
theorem WellFormed.resolves {deva : Deva} (wellFormed : deva.WellFormed) {path : Bytes}
    {parent : UUID} (resolved : deva.resolveParent path = .ok parent) :
    ∃ listed, deva.names.entries[parent]? = some listed := by
  rcases Namespace.lookup_eq_ok.mp (resolveParent_eq_ok.mp resolved) with ⟨-, walked⟩
  have present := wellFormed.walk_mem wellFormed.root walked
  exact Map.mem_iff_exists.mp present

section Link

variable {deva : Deva} {parent id other : UUID} {listed : List DirEntry} {name : Bytes}
  {type : FileType}

/-- A new entry keeps the namespace well formed. -/
theorem WellFormed.link (wellFormed : deva.WellFormed)
    (present : deva.names.entries[parent]? = some listed) :
    ({ deva with names := (deva.names.create parent name type id).2 } : Deva).WellFormed where
  root := (Namespace.mem_create_iff present _).mpr (Or.inl wellFormed.root)
  directories := by
    intro directory found entry foundAt member typed
    apply (Namespace.mem_create_iff present _).mpr
    rcases Namespace.mem_of_create present foundAt member with ⟨-, rfl⟩ | ⟨old, oldAt, oldMem⟩
    · exact Or.inr ⟨typed, rfl⟩
    · exact Or.inl (wellFormed.directories directory old entry oldAt oldMem typed)

theorem Unused.link (unused : deva.Unused other)
    (present : deva.names.entries[parent]? = some listed) (different : id ≠ other) :
    ({ deva with names := (deva.names.create parent name type id).2 } : Deva).Unused other where
  directory := by
    intro member
    rcases (Namespace.mem_create_iff present _).mp member with old | ⟨-, same⟩
    · exact unused.directory old
    · exact different same
  inode := by
    intro directory found entry foundAt member
    rcases Namespace.mem_of_create present foundAt member with ⟨-, rfl⟩ | ⟨old, oldAt, oldMem⟩
    · exact different
    · exact unused.inode directory old entry oldAt oldMem
  record := unused.record

theorem Unused.insertRecord (unused : deva.Unused other) (different : id ≠ other)
    (info : FileInfo) :
    ({ deva with fileInfos := deva.fileInfos.insert id info } : Deva).Unused other where
  directory := unused.directory
  inode := unused.inode
  record := by
    simp [unused.record, different]

end Link

/-- What a request can do: it leaves the container alone, or its path leads to a directory, and an
entry and a record are added. -/
theorem WellFormed.process_cases {deva : Deva} (wellFormed : deva.WellFormed) (request : Request) :
    ((deva.process request).2 = deva ∧ (∀ info, (deva.process request).1 ≠ .ok (some info)) ∧
      ∀ type creation parent, request.creates = some (type, creation) →
        deva.resolveParent creation.path ≠ .ok parent) ∨
    ∃ type creation parent listed, request.creates = some (type, creation) ∧
      deva.resolveParent creation.path = .ok parent ∧
      deva.names.entries[parent]? = some listed ∧
      deva.process request = (.ok (some (newFileInfo type creation)),
        { names := (deva.names.create parent (filename creation.path) type creation.id).2
          fileInfos := deva.fileInfos.insert creation.id (newFileInfo type creation) }) := by
  cases creates : request.creates with
  | none =>
      left
      simp [process_of_creates_none creates]
  | some creation =>
      rcases creation with ⟨type, creation⟩
      simp only [process_of_creates creates]
      cases resolved : deva.resolveParent creation.path with
      | error failure =>
          left
          simp only [createEntry_of_error resolved]
          refine ⟨trivial, by simp [Except.map], ?_⟩
          intro type' creation' parent same
          simp only [Option.some.injEq, Prod.mk.injEq] at same
          simp [← same.2, resolved]
      | ok parent =>
          rcases wellFormed.resolves resolved with ⟨listed, present⟩
          right
          refine ⟨type, creation, parent, listed, rfl, resolved, present, ?_⟩
          simp only [createEntry_of_ok resolved present]
          rfl

/-- Every request keeps the container well formed. -/
theorem process_wellFormed {deva : Deva} (wellFormed : deva.WellFormed) (request : Request) :
    (deva.process request).2.WellFormed := by
  rcases wellFormed.process_cases request with
    ⟨same, -⟩ | ⟨type, creation, parent, listed, -, -, present, processed⟩
  · rw [same]
    exact wellFormed
  · rw [processed]
    exact ⟨(wellFormed.link present).root, (wellFormed.link present).directories⟩

/-- A request uses no identifier but its own. -/
theorem process_unused {deva : Deva} (wellFormed : deva.WellFormed) {id : UUID}
    (unused : deva.Unused id) {request : Request} (notBrought : request.id? ≠ some id) :
    (deva.process request).2.Unused id := by
  rcases wellFormed.process_cases request with
    ⟨same, -⟩ | ⟨type, creation, parent, listed, creates, -, present, processed⟩
  · rw [same]
    exact unused
  · rw [processed]
    simp only [Request.id?, creates, Option.map_some, ne_eq, Option.some.injEq] at notBrought
    exact (unused.link present notBrought).insertRecord notBrought _

/-- Requests keep the container well formed. -/
theorem processAll_wellFormed {deva : Deva} (wellFormed : deva.WellFormed)
    (requests : List Request) : (deva.processAll requests).WellFormed := by
  induction requests generalizing deva with
  | nil => exact wellFormed
  | cons request requests ih => exact ih (process_wellFormed wellFormed request)

/-- Requests use no identifiers but their own. -/
theorem processAll_unused {deva : Deva} (wellFormed : deva.WellFormed) {id : UUID}
    (unused : deva.Unused id) {requests : List Request}
    (notBrought : id ∉ requests.filterMap Request.id?) :
    (deva.processAll requests).Unused id := by
  induction requests generalizing deva with
  | nil => exact unused
  | cons request requests ih =>
      simp only [List.mem_filterMap, List.mem_cons, not_exists, not_and] at notBrought
      apply ih (process_wellFormed wellFormed request)
      · exact process_unused wellFormed unused (notBrought request (Or.inl rfl))
      · simp only [List.mem_filterMap, not_exists, not_and]
        intro other otherMem
        exact notBrought other (Or.inr otherMem)

end Deva

/-- The identifiers of the requests are those that `UUID::generate` can draw for different
requests: distinct, and not that of the root. -/
structure DistinctIds (requests : List Request) : Prop where
  nodup : (requests.filterMap Request.id?).Nodup
  notRoot : Namespace.root ∉ requests.filterMap Request.id?

theorem DistinctIds.left {first second : List Request} (distinct : DistinctIds (first ++ second)) :
    DistinctIds first where
  nodup := by
    have nodup := distinct.nodup
    simp only [List.filterMap_append] at nodup
    exact nodup.of_append_left
  notRoot := by
    have notRoot := distinct.notRoot
    simp only [List.filterMap_append, List.mem_append, not_or] at notRoot
    exact notRoot.1

/-- An identifier that comes later is unused up to then. -/
theorem DistinctIds.unused {history coming : List Request}
    (distinct : DistinctIds (history ++ coming)) {id : UUID}
    (member : id ∈ coming.filterMap Request.id?) : (Deva.fresh.processAll history).Unused id := by
  have nodup := distinct.nodup
  have notRoot := distinct.notRoot
  simp only [List.filterMap_append, List.mem_append, not_or] at nodup notRoot
  apply Deva.processAll_unused Deva.fresh_wellFormed
  · exact Deva.fresh_unused (fun same => notRoot.2 (same ▸ member))
  · exact fun earlier => List.disjoint_of_nodup_append nodup earlier member

theorem DistinctIds.guarded {requests : List Request} (distinct : DistinctIds requests) :
    Lib.Guarded Deva.step (fun deva request => ∀ id, request.id? = some id → deva.Unused id)
      Deva.fresh requests := by
  apply Lib.guarded_of_split
  intro before request after deva split ran id brought
  rw [Deva.exec_step, Option.some.injEq] at ran
  subst ran split
  exact distinct.unused (by simp [brought])

end Pain.Deva
