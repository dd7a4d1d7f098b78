import Pain.Deva.Leader

/-!
# The order of the closures

On the leader the closures of a batch run in any order, and each may be
interrupted between its accesses to the container. The outcome is that of the
log order exactly if the entries of the batch are `Independent`: no two of them
create in the same directory, and none of them creates the directory whose
absence makes the creation of another one fail.

For independent entries the proof follows the effects that are still to come. A
creation whose parent directory is there before the batch has two effects, its
entry and its record, and keeps its parent; a creation whose parent is missing
stays without one. All these effects commute, so performing the remaining ones
in the order of the log leads to the same container from every state of a run.
-/

set_option linter.dupNamespace false

namespace Pain.Deva

open Lib (segments)

/-- The request creates something in a directory that is there. -/
def Request.CreatesIn (request : Request) (deva : Deva) (directory : UUID) : Prop :=
  ∃ type creation, request.creates = some (type, creation) ∧
    deva.resolveParent creation.path = .ok directory

namespace Namespace

variable {names : Namespace} {parent inode : UUID} {name : Bytes} {type : FileType}

/-- A creation leaves all directories but its parent and its own. -/
theorem create_getElem?_of_ne {directory : UUID} (notParent : parent ≠ directory)
    (notInode : inode ≠ directory) :
    (names.create parent name type inode).2.entries[directory]? = names.entries[directory]? := by
  cases present : names.entries[parent]? with
  | none => simp only [create_eq_error present]
  | some listed => simp [(create_eq_ok name type inode present).2, notParent, notInode]

/-- Creations in different directories, with different inodes, commute. -/
theorem create_comm {otherParent otherInode : UUID} (otherName : Bytes) (otherType : FileType)
    (parents : parent ≠ otherParent) (inodes : inode ≠ otherInode)
    (notOtherParent : inode ≠ otherParent) (notParent : otherInode ≠ parent) :
    ((names.create parent name type inode).2.create otherParent otherName otherType otherInode).2 =
      ((names.create otherParent otherName otherType otherInode).2.create parent name type
        inode).2 := by
  have keptOther : (names.create parent name type inode).2.entries[otherParent]? =
      names.entries[otherParent]? := create_getElem?_of_ne parents notOtherParent
  have kept : (names.create otherParent otherName otherType otherInode).2.entries[parent]? =
      names.entries[parent]? := create_getElem?_of_ne parents.symm notParent
  cases present : names.entries[parent]? with
  | none =>
      simp only [present] at kept
      simp only [create_eq_error present, create_eq_error kept]
  | some listed =>
      cases presentOther : names.entries[otherParent]? with
      | none =>
          simp only [presentOther] at keptOther
          simp only [create_eq_error presentOther, create_eq_error keptOther]
      | some otherListed =>
          simp only [present] at kept
          simp only [presentOther] at keptOther
          ext1
          apply Std.ExtTreeMap.ext_getElem?
          intro directory
          simp only [(create_eq_ok _ _ _ kept).2, (create_eq_ok _ _ _ keptOther).2,
            (create_eq_ok _ _ _ present).2, (create_eq_ok _ _ _ presentOther).2]
          grind

end Namespace

namespace Deva

/-- The parent of the path is missing, and only its last component `name`, in `directory`. -/
def MissesParent (path : Bytes) (directory : UUID) (name : Bytes) (deva : Deva) : Prop :=
  (∃ failure, deva.names.lookup (parentPath path) = .error failure) ∧
    ∃ front, parsePath (parentPath path) [] = .ok (front ++ [name]) ∧
      deva.names.walk front Namespace.root .kDirectory = .ok (directory, .kDirectory)

/-- No two requests create in one directory, and none of them creates a directory that is the
missing parent of what another one creates. -/
structure Independent (deva : Deva) (batch : List Request) : Prop where
  parents : batch.Pairwise (fun first second => ∀ directory,
    ¬ (first.CreatesIn deva directory ∧ second.CreatesIn deva directory))
  order : ∀ (maker user : CreateRequest) (type : FileType) (directory : UUID),
    .createDir maker ∈ batch → deva.resolveParent maker.path = .ok directory →
      (∃ request ∈ batch, request.creates = some (type, user)) →
        ¬ deva.MissesParent user.path directory (filename maker.path)

/-- What a creation does to the container. -/
inductive Effect where
  | link (parent : UUID) (type : FileType) (creation : CreateRequest)
  | record (type : FileType) (creation : CreateRequest)

/-- The effect on the container. -/
def perform (deva : Deva) : Effect → Deva
  | .link parent type creation =>
      { deva with names := (deva.names.create parent (filename creation.path) type creation.id).2 }
  | .record type creation =>
      { deva with fileInfos := deva.fileInfos.insert creation.id (newFileInfo type creation) }

/-- The effects of a request, if its parent directory is the one of the state before. -/
def effects (before : Deva) (request : Request) : List Effect :=
  match request.creates with
  | none => []
  | some (type, creation) =>
      match before.resolveParent creation.path with
      | .error _ => []
      | .ok parent => [.link parent type creation, .record type creation]

/-- The effects of a request are its link and its record. -/
theorem mem_effects {before : Deva} {request : Request} {effect : Effect} :
    effect ∈ effects before request ↔
      ∃ type creation parent, request.creates = some (type, creation) ∧
        before.resolveParent creation.path = .ok parent ∧
        (effect = .link parent type creation ∨ effect = .record type creation) := by
  simp only [effects]
  cases creates : request.creates with
  | none => simp
  | some creation =>
      rcases creation with ⟨type, creation⟩
      cases resolved : before.resolveParent creation.path with
      | error failure => simp [resolved]
      | ok parent => simp [resolved]

/-- The requests of a batch bring new identifiers, each its own. -/
structure NewIds (deva : Deva) (batch : List Request) : Prop where
  unused : ∀ request ∈ batch, ∀ (type : FileType) (creation : CreateRequest),
    request.creates = some (type, creation) → deva.Unused creation.id
  nodup : (batch.filterMap Request.id?).Nodup

section Batch

variable {before : Deva} {batch : List Request}

theorem NewIds.id_ne (newIds : before.NewIds batch) {first second : Request}
    (firstMem : first ∈ batch) (secondMem : second ∈ batch) (different : first ≠ second)
    {firstId secondId : UUID} (firstBrings : first.id? = some firstId)
    (secondBrings : second.id? = some secondId) : firstId ≠ secondId := by
  have pairwise := List.pairwise_filterMap.mp newIds.nodup
  have symmetric : Std.Symm (fun first second : Request => ∀ firstId, first.id? = some firstId →
      ∀ secondId, second.id? = some secondId → firstId ≠ secondId) :=
    ⟨fun _ _ apart _ brings _ otherBrings same => apart _ otherBrings _ brings same.symm⟩
  exact pairwise.forall firstMem secondMem different _ firstBrings _ secondBrings

theorem Independent.parent_ne (independent : before.Independent batch) {first second : Request}
    (firstMem : first ∈ batch) (secondMem : second ∈ batch) (different : first ≠ second)
    {firstParent secondParent : UUID} (firstIn : first.CreatesIn before firstParent)
    (secondIn : second.CreatesIn before secondParent) : firstParent ≠ secondParent := by
  have symmetric : Std.Symm (fun first second : Request => ∀ directory,
      ¬ (first.CreatesIn before directory ∧ second.CreatesIn before directory)) :=
    ⟨fun _ _ apart directory both => apart directory both.symm⟩
  rintro rfl
  exact independent.parents.forall firstMem secondMem different _ ⟨firstIn, secondIn⟩

theorem id_ne_of_resolved (wellFormed : before.WellFormed) {path : Bytes} {parent id : UUID}
    (resolved : before.resolveParent path = .ok parent) (unused : before.Unused id) :
    id ≠ parent := by
  rintro rfl
  rcases wellFormed.resolves resolved with ⟨listed, present⟩
  exact unused.directory (Map.mem_of_getElem? present)

/-- The effects of independent requests commute. -/
theorem commuting_effects (wellFormed : before.WellFormed) (newIds : before.NewIds batch)
    (independent : before.Independent batch) :
    Lib.Commuting perform (batch.flatMap (effects before)) := by
  intro first firstMem second secondMem deva
  simp only [List.mem_flatMap, mem_effects] at firstMem secondMem
  rcases firstMem with
    ⟨firstRequest, firstIn, firstType, firstCreation, firstParent, firstCreates, firstResolved,
      firstEffect⟩
  rcases secondMem with
    ⟨secondRequest, secondIn, secondType, secondCreation, secondParent, secondCreates,
      secondResolved, secondEffect⟩
  by_cases same : firstRequest = secondRequest
  · subst same
    simp only [firstCreates, Option.some.injEq, Prod.mk.injEq] at secondCreates
    rcases secondCreates with ⟨rfl, rfl⟩
    simp only [firstResolved, Except.ok.injEq] at secondResolved
    subst secondResolved
    rcases firstEffect with rfl | rfl <;> rcases secondEffect with rfl | rfl <;> rfl
  · have ids : firstCreation.id ≠ secondCreation.id :=
      newIds.id_ne firstIn secondIn same (by simp [Request.id?, firstCreates])
        (by simp [Request.id?, secondCreates])
    rcases firstEffect with rfl | rfl <;> rcases secondEffect with rfl | rfl
    · have parents : firstParent ≠ secondParent :=
        independent.parent_ne firstIn secondIn same ⟨_, _, firstCreates, firstResolved⟩
          ⟨_, _, secondCreates, secondResolved⟩
      have firstUnused := newIds.unused _ firstIn _ _ firstCreates
      have secondUnused := newIds.unused _ secondIn _ _ secondCreates
      simp only [perform, Namespace.create_comm _ _ parents ids
        (id_ne_of_resolved wellFormed secondResolved firstUnused)
        (id_ne_of_resolved wellFormed firstResolved secondUnused)]
    · rfl
    · rfl
    · simp only [perform, Deva.mk.injEq, true_and]
      apply Std.ExtTreeMap.ext_getElem?
      intro id
      simp only [Std.ExtTreeMap.getElem?_insert]
      grind

/-- The namespace differs from that of `before` by entries that requests of the batch create in
directories of `before`; directories that are new are empty. -/
structure Grown (before : Deva) (batch : List Request) (names : Namespace) : Prop where
  listed : ∀ (directory : UUID) (listed : List DirEntry),
    before.names.entries[directory]? = some listed →
      ∃ added, names.entries[directory]? = some (listed ++ added) ∧
        ∀ entry ∈ added, ∃ request ∈ batch, ∃ type creation,
          request.creates = some (type, creation) ∧
            before.resolveParent creation.path = .ok directory ∧
            entry = ⟨creation.id, filename creation.path, type⟩
  new : ∀ (directory : UUID) (listed : List DirEntry), directory ∉ before.names.entries →
    names.entries[directory]? = some listed → listed = []

theorem Grown.refl (before : Deva) (batch : List Request) : Grown before batch before.names where
  listed := fun _ listed present => ⟨[], by simpa using present, by simp⟩
  new := fun _ listed missing present => by
    simp [Std.ExtTreeMap.getElem?_eq_none missing] at present

/-- The namespace has only grown. -/
theorem Grown.extends {names : Namespace} (grown : Grown before batch names) :
    before.names.Extends names := by
  intro directory listed present
  rcases grown.listed directory listed present with ⟨added, presentNow, -⟩
  exact ⟨added, presentNow⟩

/-- One more effect of the batch keeps it so. -/
theorem Grown.perform (wellFormed : before.WellFormed) (newIds : before.NewIds batch)
    {deva : Deva} (grown : Grown before batch deva.names) {effect : Effect}
    (member : effect ∈ batch.flatMap (effects before)) :
    Grown before batch (deva.perform effect).names := by
  simp only [List.mem_flatMap, mem_effects] at member
  rcases member with ⟨request, requestMem, type, creation, parent, creates, resolved, isEffect⟩
  rcases isEffect with rfl | rfl
  · have unused := newIds.unused request requestMem type creation creates
    rcases wellFormed.resolves resolved with ⟨parentListed, parentPresent⟩
    rcases grown.listed parent parentListed parentPresent with ⟨parentAdded, presentNow, added⟩
    have created := (Namespace.create_eq_ok (filename creation.path) type creation.id presentNow).2
    constructor
    · intro directory listed present
      have notId : creation.id ≠ directory := by
        rintro rfl
        simp [Std.ExtTreeMap.getElem?_eq_none unused.directory] at present
      simp only [Deva.perform, created, notId, and_false, if_false]
      by_cases here : parent = directory
      · subst here
        simp only [parentPresent, Option.some.injEq] at present
        subst present
        refine ⟨parentAdded ++ [⟨creation.id, filename creation.path, type⟩], by simp, ?_⟩
        intro entry entryMem
        rcases List.mem_append.mp entryMem with old | new
        · exact added entry old
        · exact ⟨request, requestMem, type, creation, creates, resolved,
            List.mem_singleton.mp new⟩
      · simp only [here, if_false]
        exact grown.listed directory listed present
    · intro directory listed missing present
      simp only [Deva.perform, created] at present
      split at present
      · simpa using present.symm
      · split at present
        · rename_i here
          subst here
          simp [Std.ExtTreeMap.getElem?_eq_none missing] at parentPresent
        · exact grown.new directory listed missing present
  · exact grown

/-- More effects of the batch keep it so. -/
theorem Grown.performAll (wellFormed : before.WellFormed) (newIds : before.NewIds batch)
    {deva : Deva} (grown : Grown before batch deva.names) {performed : List Effect}
    (included : performed ⊆ batch.flatMap (effects before)) :
    Grown before batch (performed.foldl Deva.perform deva).names := by
  induction performed generalizing deva with
  | nil => exact grown
  | cons effect performed ih =>
      apply ih
      · exact grown.perform wellFormed newIds (included List.mem_cons_self)
      · exact fun other member => included (List.mem_cons_of_mem _ member)

theorem eq_createDir_of_creates {request : Request} {creation : CreateRequest}
    (creates : request.creates = some (.kDirectory, creation)) : request = .createDir creation := by
  cases request <;> simp [Request.creates] at creates
  exact congrArg Request.createDir creates

/-- A walk from a directory of `before` that ends in a directory now ended there before, or its last
component is a directory that the batch creates. -/
theorem Grown.walk_cases (wellFormed : before.WellFormed) (newIds : before.NewIds batch)
    {names : Namespace} (grown : Grown before batch names) {components : List Bytes}
    {start directory : UUID} (startMem : start ∈ before.names.entries)
    (walked : names.walk components start .kDirectory = .ok (directory, .kDirectory)) :
    before.names.walk components start .kDirectory = .ok (directory, .kDirectory) ∨
      ∃ front maker parent, .createDir maker ∈ batch ∧
        before.resolveParent maker.path = .ok parent ∧
        components = front ++ [filename maker.path] ∧
        before.names.walk front start .kDirectory = .ok (parent, .kDirectory) := by
  induction components generalizing start with
  | nil => exact Or.inl walked
  | cons component rest ih =>
      rcases Namespace.walk_cons_eq_ok.mp walked with
        ⟨listedNow, entry, presentNow, isFirst, last, walkedRest⟩
      have isDirectory : entry.type = .kDirectory := by
        cases typed : entry.type with
        | kFile => simp [last typed, Namespace.walk, typed] at walkedRest
        | kDirectory => rfl
      simp only [isDirectory] at walkedRest
      rcases Map.mem_iff_exists.mp startMem with ⟨listed, present⟩
      rcases grown.listed start listed present with ⟨added, presentWhole, isAdded⟩
      simp only [presentNow, Option.some.injEq] at presentWhole
      simp only [presentWhole, List.find?_append] at isFirst
      cases found : listed.find? (fun entry => entry.name = component) with
      | some old =>
          simp only [found, Option.some_or, Option.some.injEq] at isFirst
          subst isFirst
          have stepBefore : ∀ {back : List Bytes} {reached : UUID × FileType},
              before.names.walk back old.inode .kDirectory = .ok reached →
                before.names.walk (component :: back) start .kDirectory = .ok reached := by
            intro back reached walkedBack
            apply Namespace.walk_cons_eq_ok.mpr
            refine ⟨listed, old, present, found, ?_, by simpa only [isDirectory] using walkedBack⟩
            simp [isDirectory]
          have inodeMem := wellFormed.directories start listed old present
            (List.mem_of_find?_eq_some found) isDirectory
          rcases ih inodeMem walkedRest with
            there | ⟨front, maker, parent, makerMem, resolved, split, walkedFront⟩
          · exact Or.inl (stepBefore there)
          · refine Or.inr ⟨component :: front, maker, parent, makerMem, resolved, ?_,
              stepBefore walkedFront⟩
            simp [split]
      | none =>
          simp only [found, Option.none_or] at isFirst
          rcases isAdded entry (List.mem_of_find?_eq_some isFirst) with
            ⟨request, requestMem, type, creation, creates, resolved, rfl⟩
          simp only at isDirectory
          subst isDirectory
          have unused := newIds.unused request requestMem _ creation creates
          have ended : rest = [] := by
            cases rest with
            | nil => rfl
            | cons next rest =>
                rcases Namespace.walk_cons_eq_ok.mp walkedRest with
                  ⟨inner, innerEntry, innerPresent, innerFirst, -⟩
                simp [grown.new creation.id inner unused.directory innerPresent] at innerFirst
          have named : filename creation.path = component := by
            simpa using List.find?_some isFirst
          refine Or.inr ⟨[], creation, start, ?_, resolved, ?_, rfl⟩
          · exact eq_createDir_of_creates creates ▸ requestMem
          · simp [ended, named]

/-- The requests of an independent batch keep the parents that they have before. -/
theorem Grown.resolveParent_iff (wellFormed : before.WellFormed) (newIds : before.NewIds batch)
    (independent : before.Independent batch) {deva : Deva}
    (grown : Grown before batch deva.names) {request : Request} (requestMem : request ∈ batch)
    {type : FileType} {creation : CreateRequest}
    (creates : request.creates = some (type, creation)) (parent : UUID) :
    deva.resolveParent creation.path = .ok parent ↔
      before.resolveParent creation.path = .ok parent := by
  simp only [resolveParent_eq_ok]
  constructor
  · intro resolved
    rcases Namespace.lookup_eq_ok.mp resolved with ⟨absolute, walked⟩
    rcases grown.walk_cases wellFormed newIds wellFormed.root walked with
      there | ⟨front, maker, directory, makerMem, makerResolved, split, walkedFront⟩
    · exact Namespace.lookup_eq_ok.mpr ⟨absolute, there⟩
    · cases looked : before.names.lookup (parentPath creation.path) with
      | ok found =>
          have kept := grown.extends.lookup looked
          simp only [resolved, Except.ok.injEq] at kept
          simp only [kept]
      | error failure =>
          exfalso
          apply independent.order maker creation type directory makerMem makerResolved
            ⟨request, requestMem, creates⟩
          refine ⟨⟨failure, looked⟩, front, ?_, walkedFront⟩
          simp [parsePath_eq, absolute, split]
  · exact fun resolved => grown.extends.lookup resolved

end Batch

end Deva

/-- The effects that a closure is still to have, if its parent is the one of the state before. -/
def OpClosure.pending (before : Deva) (closure : OpClosure) : List Deva.Effect :=
  match closure.phase, closure.request.creates with
  | .started, _ => Deva.effects before closure.request
  | .resolved parent, some (type, creation) =>
      [.link parent type creation, .record type creation]
  | .linked, some (type, creation) => [.record type creation]
  | _, _ => []

namespace Rsm

open Deva (Grown effects perform)

variable {before : Deva} {batch : List Request}

/-- A turn performs the first effects that are pending, none or one. -/
theorem turn_pending (wellFormed : before.WellFormed) (newIds : before.NewIds batch)
    (independent : before.Independent batch) {deva after : Deva} {closure next : OpClosure}
    (grown : Grown before batch deva.names) (requestMem : closure.request ∈ batch)
    (planned : closure.pending before <:+ effects before closure.request)
    (turned : OpClosure.Turn deva closure next after) :
    ∃ performed, closure.pending before = performed ++ next.pending before ∧
      after = performed.foldl perform deva := by
  cases turned with
  | ignore creates => exact ⟨[], by simp [OpClosure.pending, effects, creates], rfl⟩
  | @unresolved request type creation failure creates resolved =>
      have unresolvedBefore : ∀ parent, before.resolveParent creation.path ≠ .ok parent := by
        intro parent resolvedBefore
        have now := (grown.resolveParent_iff wellFormed newIds independent requestMem creates
          parent).mpr resolvedBefore
        simp [resolved] at now
      refine ⟨[], ?_, rfl⟩
      cases resolvedBefore : before.resolveParent creation.path with
      | error failure => simp [OpClosure.pending, effects, creates, resolvedBefore]
      | ok parent => exact absurd resolvedBefore (unresolvedBefore parent)
  | @resolve request type creation parent creates resolved =>
      have resolvedBefore := (grown.resolveParent_iff wellFormed newIds independent requestMem
        creates parent).mp resolved
      exact ⟨[], by simp [OpClosure.pending, effects, creates, resolvedBefore], rfl⟩
  | @unlinked request type creation parent creates missing =>
      exfalso
      have planned : Deva.Effect.link parent type creation ∈ effects before request := by
        apply planned.subset
        simp [OpClosure.pending, creates]
      rcases Deva.mem_effects.mp planned with
        ⟨_, _, _, -, resolvedBefore, isLink | isRecord⟩
      · simp only [Deva.Effect.link.injEq] at isLink
        rcases isLink with ⟨rfl, rfl, rfl⟩
        rcases wellFormed.resolves resolvedBefore with ⟨listed, present⟩
        rcases grown.listed _ _ present with ⟨added, presentNow, -⟩
        simp [missing] at presentNow
      · simp at isRecord
  | @link request type creation parent listed creates present =>
      exact ⟨[.link parent type creation], by simp [OpClosure.pending, creates], rfl⟩
  | @record request type creation creates =>
      exact ⟨[.record type creation], by simp [OpClosure.pending, creates], rfl⟩

/-- A state between the first entry of the batch and the end of its last closure: performing what
is still to come, the closures first and then the entries that are left, leads to `goal`. -/
structure Running (before : Deva) (batch : List Request) (goal : Deva) (left : List Request)
    (rsm : Rsm) : Prop where
  grown : Grown before batch rsm.container.names
  planned : ∀ closure ∈ rsm.closures, closure.Finished ∨
    closure.request ∈ batch ∧ closure.pending before <:+ effects before closure.request
  left_subset : left ⊆ batch
  goal_eq : (rsm.closures.flatMap (OpClosure.pending before) ++
    left.flatMap (effects before)).foldl perform rsm.container = goal

/-- A closure that has run has no effects left. -/
theorem pending_of_finished {closure : OpClosure} (finished : closure.Finished) :
    closure.pending before = [] := by
  rcases finished with ⟨result, isFinished⟩
  simp [OpClosure.pending, isFinished]

theorem flatMap_pending_of_idle {rsm : Rsm} (idle : rsm.Idle) :
    rsm.closures.flatMap (OpClosure.pending before) = [] := by
  apply List.flatMap_eq_nil_iff.mpr
  exact fun closure member => pending_of_finished (idle closure member)

variable {goal : Deva} {left : List Request} {rsm after : Rsm}

/-- What is still to be done are effects of the batch. -/
theorem Running.pending_subset (running : Running before batch goal left rsm) :
    rsm.closures.flatMap (OpClosure.pending before) ++ left.flatMap (effects before) ⊆
      batch.flatMap (effects before) := by
  intro effect member
  apply List.mem_flatMap.mpr
  rcases List.mem_append.mp member with inClosures | inLeft
  · rcases List.mem_flatMap.mp inClosures with ⟨closure, closureMem, isPending⟩
    rcases running.planned closure closureMem with finished | ⟨requestMem, planned⟩
    · simp [pending_of_finished finished] at isPending
    · exact ⟨closure.request, requestMem, planned.subset isPending⟩
  · rcases List.mem_flatMap.mp inLeft with ⟨request, requestLeft, isEffect⟩
    exact ⟨request, running.left_subset requestLeft, isEffect⟩

/-- The next entry of the batch is handed over. -/
theorem Running.submit {request : Request}
    (running : Running before batch goal (request :: left) rsm) :
    Running before batch goal left
      { rsm with closures := rsm.closures ++ [⟨request, .started⟩] } where
  grown := running.grown
  planned := by
    intro closure member
    rcases List.mem_append.mp member with old | new
    · exact running.planned closure old
    · simp only [List.mem_singleton] at new
      subst new
      exact Or.inr ⟨running.left_subset List.mem_cons_self, List.suffix_refl _⟩
  left_subset := fun _ member => running.left_subset (List.mem_cons_of_mem _ member)
  goal_eq := by
    have same := running.goal_eq
    simpa [OpClosure.pending] using same

/-- A turn of a closure performs one of its effects. -/
theorem Running.turn (wellFormed : before.WellFormed) (newIds : before.NewIds batch)
    (independent : before.Independent batch) (running : Running before batch goal left rsm)
    {index : ℕ} (turned : rsm.turn index = some after) : Running before batch goal left after := by
  rcases turn_eq_some.mp turned with ⟨closure, next, found, closureTurned, closures⟩
  have turn := OpClosure.turn_cases closureTurned
  rcases List.getElem?_eq_some_iff.mp found with ⟨inRange, isClosure⟩
  rcases running.planned closure (List.mem_of_getElem? found) with finished | ⟨requestMem, planned⟩
  · exact absurd finished turn.unfinished
  rcases turn_pending wellFormed newIds independent running.grown requestMem planned turn with
    ⟨performed, split, container⟩
  rcases @List.exists_of_set _ index next _ inRange with ⟨front, back, whole, -, replaced⟩
  simp only [isClosure] at whole
  have pendingSubset := running.pending_subset
  have goal_eq := running.goal_eq
  simp only [whole, List.flatMap_append, List.flatMap_cons, split, List.append_assoc]
    at pendingSubset goal_eq
  constructor
  · have performedSubset : performed ⊆ batch.flatMap (effects before) :=
      fun effect member => pendingSubset (by simp [member])
    simp only [container]
    exact running.grown.performAll wellFormed newIds performedSubset
  · intro other member
    simp only [closures] at member
    rcases List.mem_or_eq_of_mem_set member with old | rfl
    · exact running.planned other old
    · refine Or.inr ⟨turn.request_eq ▸ requestMem, ?_⟩
      simp only [turn.request_eq]
      exact List.IsSuffix.trans ⟨performed, split.symm⟩ planned
  · exact running.left_subset
  · have commuting := (Deva.commuting_effects wellFormed newIds independent).mono pendingSubset
    simp only [closures, replaced, List.flatMap_append, List.flatMap_cons, List.append_assoc,
      container]
    simp only [← goal_eq]
    exact commuting.foldl_of_performed rsm.container

/-- Every interleaving of the batch stays on the way to the container of the log order. -/
theorem Running.exec (wellFormed : before.WellFormed) (newIds : before.NewIds batch)
    (independent : before.Independent batch) {protobuf : Protobuf} {events : List Event}
    {entries : List (Bytes × Request)}
    (running : Running before batch goal (entries.map Prod.snd) rsm)
    (handed : events.filterMap Event.entry? = submitted entries)
    (ran : Lib.exec (step protobuf) rsm events = some after) :
    Running before batch goal [] after := by
  induction events generalizing rsm entries with
  | nil =>
      simp only [Lib.exec_nil, Option.some.injEq] at ran
      subst ran
      have none : entries = [] := by
        simpa [submitted] using handed.symm
      simpa [none] using running
  | cons event events ih =>
      simp only [Lib.exec_cons, Option.bind_eq_some_iff] at ran
      rcases ran with ⟨next, stepped, ranRest⟩
      cases event with
      | apply entry =>
          cases entries with
          | nil => simp [submitted, Event.entry?] at handed
          | cons item entries =>
              simp only [submitted, List.filterMap_cons, Event.entry?, List.map_cons,
                List.cons.injEq] at handed
              rcases handed with ⟨rfl, handedRest⟩
              simp only [step, applyEntry, Option.some.injEq] at stepped
              subst stepped
              exact ih running.submit handedRest ranRest
      | turn index =>
          simp only [List.filterMap_cons, Event.entry?] at handed
          exact ih (running.turn wellFormed newIds independent stepped) handed ranRest

/-- However the closures of an independent batch run, the container ends up in one state. -/
theorem container_of_completes {protobuf : Protobuf} {entries : List (Bytes × Request)}
    (wellFormed : rsm.container.WellFormed) (newIds : rsm.container.NewIds (entries.map Prod.snd))
    (independent : rsm.container.Independent (entries.map Prod.snd)) (idle : rsm.Idle)
    (completes : rsm.Completes protobuf (submitted entries) after) :
    after.container =
      ((entries.map Prod.snd).flatMap (effects rsm.container)).foldl perform rsm.container := by
  rcases completes with ⟨events, handed, ran, idleAfter⟩
  have start : Running rsm.container (entries.map Prod.snd)
      (((entries.map Prod.snd).flatMap (effects rsm.container)).foldl perform rsm.container)
      (entries.map Prod.snd) rsm := by
    refine ⟨Grown.refl _ _, ?_, List.Subset.refl _, ?_⟩
    · exact fun closure member => Or.inl (idle closure member)
    · simp only [flatMap_pending_of_idle idle, List.nil_append]
  have final := (start.exec wellFormed newIds independent handed ran).goal_eq
  simpa only [flatMap_pending_of_idle idleAfter, List.flatMap_nil, List.append_nil,
    List.foldl_nil] using final

end Rsm

namespace Deva

section Sequence

variable {deva : Deva} {request : Request} {type : FileType} {creation : CreateRequest}
  {rest : List Request}

/-- A creation in a directory puts its entry behind those that are there. -/
theorem process_listed (wellFormed : deva.WellFormed)
    (creates : request.creates = some (type, creation)) (unused : deva.Unused creation.id)
    {directory : UUID} {listed : List DirEntry}
    (resolved : deva.resolveParent creation.path = .ok directory)
    (present : deva.names.entries[directory]? = some listed) :
    (deva.process request).2.names.entries[directory]? =
      some (listed ++ [⟨creation.id, filename creation.path, type⟩]) := by
  have notDirectory := id_ne_of_resolved wellFormed resolved unused
  simp [process_of_creates creates, createEntry_of_ok resolved present,
    (Namespace.create_eq_ok (filename creation.path) type creation.id present).2, notDirectory]

/-- A request only adds to the namespace. -/
theorem process_extends (wellFormed : deva.WellFormed) (newIds : deva.NewIds (request :: rest)) :
    deva.names.Extends (deva.process request).2.names := by
  cases creates : request.creates with
  | none =>
      simp only [process_of_creates_none creates]
      exact Namespace.Extends.refl _
  | some creation =>
      rcases creation with ⟨type, creation⟩
      have unused := newIds.unused request List.mem_cons_self type creation creates
      simp only [process_of_creates creates]
      cases resolved : deva.resolveParent creation.path with
      | error failure =>
          simp only [createEntry_of_error resolved]
          exact Namespace.Extends.refl _
      | ok parent =>
          rcases wellFormed.resolves resolved with ⟨listed, present⟩
          simp only [createEntry_of_ok resolved present]
          exact Namespace.create_extends parent (filename creation.path) type unused.directory

theorem NewIds.process (wellFormed : deva.WellFormed) (newIds : deva.NewIds (request :: rest)) :
    (deva.process request).2.NewIds rest where
  unused := by
    intro other otherMem type creation creates
    apply process_unused wellFormed
    · exact newIds.unused other (List.mem_cons_of_mem _ otherMem) type creation creates
    · intro brought
      have nodup := newIds.nodup
      simp only [List.filterMap_cons, brought, List.nodup_cons, List.mem_filterMap] at nodup
      exact nodup.1 ⟨other, otherMem, by simp [Request.id?, creates]⟩
  nodup := newIds.nodup.sublist ((List.sublist_cons_self request rest).filterMap _)

theorem NewIds.perm {batch order : List Request} (newIds : deva.NewIds batch)
    (perm : order.Perm batch) : deva.NewIds order where
  unused := fun request member => newIds.unused request (perm.mem_iff.mp member)
  nodup := (perm.filterMap _).nodup_iff.mpr newIds.nodup

/-- Requests only add to the namespace. -/
theorem processAll_extends (wellFormed : deva.WellFormed) (newIds : deva.NewIds rest) :
    deva.names.Extends (deva.processAll rest).names := by
  induction rest generalizing deva with
  | nil => exact Namespace.Extends.refl _
  | cons request rest ih =>
      apply (process_extends wellFormed newIds).trans
      exact ih (process_wellFormed wellFormed request) (newIds.process wellFormed)

theorem process_record_mem (wellFormed : deva.WellFormed) {id : UUID}
    (recorded : id ∈ deva.fileInfos) : id ∈ (deva.process request).2.fileInfos := by
  cases creates : request.creates with
  | none => simpa only [process_of_creates_none creates] using recorded
  | some creation =>
      rcases creation with ⟨type, creation⟩
      simp only [process_of_creates creates]
      cases resolved : deva.resolveParent creation.path with
      | error failure => simpa only [createEntry_of_error resolved] using recorded
      | ok parent =>
          rcases wellFormed.resolves resolved with ⟨listed, present⟩
          simp [createEntry_of_ok resolved present, recorded]

/-- Requests take no record away. -/
theorem processAll_record_mem (wellFormed : deva.WellFormed) {id : UUID}
    (recorded : id ∈ deva.fileInfos) : id ∈ (deva.processAll rest).fileInfos := by
  induction rest generalizing deva with
  | nil => exact recorded
  | cons request rest ih =>
      exact ih (process_wellFormed wellFormed request) (process_record_mem wellFormed recorded)

/-- Two creations in one directory are listed in the order in which they were served. -/
theorem processAll_listed_pair (wellFormed : deva.WellFormed) {second : Request}
    (newIds : deva.NewIds (request :: second :: rest))
    (creates : request.creates = some (type, creation)) {secondType : FileType}
    {secondCreation : CreateRequest}
    (secondCreates : second.creates = some (secondType, secondCreation)) {directory : UUID}
    {listed : List DirEntry} (present : deva.names.entries[directory]? = some listed)
    (resolved : deva.resolveParent creation.path = .ok directory)
    (secondResolved : deva.resolveParent secondCreation.path = .ok directory) :
    ∃ more, (deva.processAll (request :: second :: rest)).names.entries[directory]? =
      some (listed ++ [⟨creation.id, filename creation.path, type⟩,
        ⟨secondCreation.id, filename secondCreation.path, secondType⟩] ++ more) := by
  have firstListed := process_listed wellFormed creates
    (newIds.unused request List.mem_cons_self type creation creates) resolved present
  have wellFormedNext := process_wellFormed wellFormed request
  have newIdsNext := newIds.process wellFormed
  have stillResolved : (deva.process request).2.resolveParent secondCreation.path =
      .ok directory := by
    simp only [resolveParent_eq_ok] at secondResolved ⊢
    exact (process_extends wellFormed newIds).lookup secondResolved
  have secondListed := process_listed wellFormedNext secondCreates
    (newIdsNext.unused second List.mem_cons_self _ _ secondCreates) stillResolved firstListed
  have grows := processAll_extends (process_wellFormed wellFormedNext second)
    (newIdsNext.process wellFormedNext)
  rcases grows directory _ secondListed with ⟨more, final⟩
  exact ⟨more, by simpa using final⟩

/-- After the missing parent has been created, the request that misses it succeeds. -/
theorem recorded_after_maker (wellFormed : deva.WellFormed) {maker user : CreateRequest}
    (newIds : deva.NewIds (.createDir maker :: request :: rest))
    (creates : request.creates = some (type, user)) {directory : UUID}
    (resolved : deva.resolveParent maker.path = .ok directory)
    (misses : deva.MissesParent user.path directory (filename maker.path)) :
    user.id ∈ (deva.processAll (.createDir maker :: request :: rest)).fileInfos := by
  rcases misses with ⟨⟨failure, missing⟩, front, parsed, walked⟩
  rcases wellFormed.resolves resolved with ⟨listed, present⟩
  have makes : (Request.createDir maker).creates = some (.kDirectory, maker) := rfl
  have unused := newIds.unused _ List.mem_cons_self .kDirectory maker makes
  have wellFormedNext := process_wellFormed wellFormed (.createDir maker)
  have listedNext := process_listed wellFormed makes unused resolved present
  have walkedNext := (process_extends wellFormed newIds).walk walked
  have absent : listed.find? (fun entry => entry.name = filename maker.path) = none := by
    cases found : listed.find? (fun entry => entry.name = filename maker.path) with
    | none => rfl
    | some entry =>
        have walkedLast : deva.names.walk [filename maker.path] directory .kDirectory =
            .ok (entry.inode, entry.type) :=
          Namespace.walk_cons_eq_ok.mpr ⟨listed, entry, present, found, fun _ => rfl, rfl⟩
        simp [Namespace.lookup, parsed, Namespace.walk_append walked, walkedLast] at missing
  have resolvedNext : (deva.process (.createDir maker)).2.resolveParent user.path =
      .ok maker.id := by
    have walkedLast : (deva.process (.createDir maker)).2.names.walk [filename maker.path]
        directory .kDirectory = .ok (maker.id, .kDirectory) := by
      apply Namespace.walk_cons_eq_ok.mpr
      exact ⟨_, ⟨maker.id, filename maker.path, .kDirectory⟩, listedNext,
        by simp [absent], fun _ => rfl, rfl⟩
    simp only [resolveParent_eq_ok, Namespace.lookup, parsed, Namespace.walk_append walkedNext,
      walkedLast]
  rcases wellFormedNext.resolves resolvedNext with ⟨listedMade, presentMade⟩
  apply processAll_record_mem (process_wellFormed wellFormedNext request)
  simp [process_of_creates creates, createEntry_of_ok resolvedNext presentMade]

/-- A request that misses its parent is lost if it is processed first. -/
theorem unused_before_maker (wellFormed : deva.WellFormed)
    (newIds : deva.NewIds (request :: rest)) (creates : request.creates = some (type, creation))
    {failure : Failure} (missing : deva.names.lookup (parentPath creation.path) = .error failure) :
    (deva.processAll (request :: rest)).Unused creation.id := by
  have unresolved : deva.resolveParent creation.path = .error failure := by
    simp [resolveParent, missing]
  have unchanged : (deva.process request).2 = deva := by
    simp only [process_of_creates creates, createEntry_of_error unresolved]
  simp only [processAll_cons, unchanged]
  apply processAll_unused wellFormed
  · exact newIds.unused request List.mem_cons_self type creation creates
  · have nodup := newIds.nodup
    have brought : request.id? = some creation.id := by simp [Request.id?, creates]
    simp only [List.filterMap_cons, brought, List.nodup_cons] at nodup
    exact nodup.1

/-- If the requests of a batch lead to one state in every order, they are independent. -/
theorem independent_of_order_irrelevant (wellFormed : deva.WellFormed) {batch : List Request}
    (newIds : deva.NewIds batch)
    (same : ∀ order : List Request, order.Perm batch →
      deva.processAll order = deva.processAll batch) : deva.Independent batch where
  parents := by
    apply List.pairwise_iff_forall_sublist.mpr
    rintro first second pair directory
      ⟨⟨type, creation, creates, resolved⟩, ⟨secondType, secondCreation, secondCreates,
        secondResolved⟩⟩
    rcases pair.exists_perm_append with ⟨rest, perm⟩
    have ordered : (first :: second :: rest).Perm batch := perm.symm
    have swapped := (List.Perm.swap first second rest).trans ordered
    rcases wellFormed.resolves resolved with ⟨listed, present⟩
    have newIdsPair := newIds.perm ordered
    rcases processAll_listed_pair wellFormed newIdsPair creates secondCreates present resolved
      secondResolved with ⟨more, inOrder⟩
    rcases processAll_listed_pair wellFormed (newIds.perm swapped) secondCreates creates present
      secondResolved resolved with ⟨otherMore, outOfOrder⟩
    simp only [same _ ordered] at inOrder
    simp only [same _ swapped, inOrder, Option.some.injEq, List.append_assoc,
      List.append_cancel_left_eq, List.cons_append, List.cons.injEq, DirEntry.mk.injEq]
      at outOfOrder
    have nodup := newIdsPair.nodup
    simp [Request.id?, creates, secondCreates, outOfOrder.1.1] at nodup
  order := by
    rintro maker user type directory makerMem resolved ⟨request, requestMem, creates⟩ misses
    rcases misses.1 with ⟨failure, missing⟩
    have different : request ≠ .createDir maker := by
      rintro rfl
      simp only [Request.creates, Option.some.injEq, Prod.mk.injEq] at creates
      simp [resolveParent, creates.2, missing] at resolved
    have perm : (.createDir maker :: request :: (batch.erase (.createDir maker)).erase request).Perm
        batch := by
      apply List.Perm.symm
      apply (List.perm_cons_erase makerMem).trans
      apply List.Perm.cons
      exact List.perm_cons_erase ((List.mem_erase_of_ne different).mpr requestMem)
    have swapped := (List.Perm.swap (.createDir maker) request _).trans perm
    have recorded := recorded_after_maker wellFormed (newIds.perm perm) creates resolved misses
    have unused := unused_before_maker wellFormed (newIds.perm swapped) creates missing
    simp only [same _ perm] at recorded
    simp only [same _ swapped] at unused
    exact unused.record recorded

end Sequence

end Deva

namespace Rsm

/-- If all identifiers are distinct, those of the next batch are new. -/
theorem newIds_of_distinct {protobuf : Protobuf} {events : List Event} {before : Rsm}
    (reached : Lib.exec (step protobuf) initial events = some before) {batch : List Request}
    (distinct : DistinctIds (requests protobuf events ++ batch)) :
    before.container.NewIds batch := by
  have nodup := distinct.nodup
  have notRoot := distinct.notRoot
  simp only [List.filterMap_append, List.mem_append, not_or] at nodup notRoot
  refine ⟨?_, nodup.of_append_right⟩
  intro request requestMem type creation creates
  have brought : creation.id ∈ batch.filterMap Request.id? :=
    List.mem_filterMap.mpr ⟨request, requestMem, by simp [Request.id?, creates]⟩
  apply exec_unused reached
  · exact fun isRoot => notRoot.2 (isRoot ▸ brought)
  · exact fun earlier => List.disjoint_of_nodup_append nodup earlier brought

/-- Batches that overlap are handed over as one. -/
theorem flatMap_submitted (batches : List (List (Bytes × Request))) :
    batches.flatMap submitted = submitted batches.flatten := by
  rw [submitted, List.map_flatten, List.flatMap]
  rfl

/-- Every way to run the closures of a batch leads to the state of the log order exactly if the
entries of the batch are independent. `on_apply` returns before its closures have run, and the
batches that are handed over until all closures have run once more count as one: `batches` are those
that follow a state in which no closure is pending. The turns are those of `OpClosure.turn`, each
taken as one step, the write of the record included. -/
theorem leader_order_iff (protobuf : Protobuf) {events : List Event} {before : Rsm}
    (reached : Lib.exec (step protobuf) initial events = some before) (idle : before.Idle)
    (batches : List (List (Bytes × Request)))
    (distinct : DistinctIds (requests protobuf events ++ batches.flatten.map Prod.snd)) :
    (∀ after, before.Completes protobuf (batches.flatMap submitted) after →
        after.container = before.container.processAll (batches.flatten.map Prod.snd)) ↔
      before.container.Independent (batches.flatten.map Prod.snd) := by
  have wellFormed := exec_wellFormed reached
  have newIds := newIds_of_distinct reached distinct
  rw [flatMap_submitted]
  constructor
  · intro ordered
    apply Deva.independent_of_order_irrelevant wellFormed newIds
    intro order perm
    rcases completes_of_perm protobuf idle wellFormed perm with ⟨after, completes, container⟩
    exact container.symm.trans (ordered after completes)
  · intro independent after completes
    rcases completes_of_perm protobuf idle wellFormed
      (List.Perm.refl (batches.flatten.map Prod.snd)) with ⟨inOrder, completesInOrder, container⟩
    calc after.container
        = _ := container_of_completes wellFormed newIds independent idle completes
      _ = inOrder.container :=
          (container_of_completes wellFormed newIds independent idle completesInOrder).symm
      _ = _ := container

/-- Two batches of one entry each, a file in the root and a file in the directory `/d`, which was
created before. -/
theorem leader_order_two_directories :
    ∃ before, Lib.exec (step .wire) initial
        [.apply ⟨[], some (.createDir ⟨[47, 100], ⟨4, 1⟩, 5, 5, 5, 511, 0, 0⟩)⟩, .turn 0, .turn 0,
          .turn 0] = some before ∧
      ∀ after, before.Completes .wire (List.flatMap submitted
          [[([], .createFile ⟨[47, 97], ⟨4, 2⟩, 6, 6, 6, 438, 0, 0⟩)],
            [([], .createFile ⟨[47, 100, 47, 97], ⟨4, 3⟩, 6, 6, 6, 438, 0, 0⟩)]]) after →
        after.container = before.container.processAll
          [.createFile ⟨[47, 97], ⟨4, 2⟩, 6, 6, 6, 438, 0, 0⟩,
            .createFile ⟨[47, 100, 47, 97], ⟨4, 3⟩, 6, 6, 6, 438, 0, 0⟩] := by
  have reached : Lib.exec (step .wire) initial
      [.apply ⟨[], some (.createDir ⟨[47, 100], ⟨4, 1⟩, 5, 5, 5, 511, 0, 0⟩)⟩, .turn 0, .turn 0,
        .turn 0] = some ⟨Deva.fresh.processAll
          [.createDir ⟨[47, 100], ⟨4, 1⟩, 5, 5, 5, 511, 0, 0⟩],
          [⟨.createDir ⟨[47, 100], ⟨4, 1⟩, 5, 5, 5, 511, 0, 0⟩, .finished (.ok (some
            (Deva.newFileInfo .kDirectory ⟨[47, 100], ⟨4, 1⟩, 5, 5, 5, 511, 0, 0⟩)))⟩]⟩ := rfl
  refine ⟨_, reached, ?_⟩
  apply (leader_order_iff .wire reached ?_
    [[([], .createFile ⟨[47, 97], ⟨4, 2⟩, 6, 6, 6, 438, 0, 0⟩)],
      [([], .createFile ⟨[47, 100, 47, 97], ⟨4, 3⟩, 6, 6, 6, 438, 0, 0⟩)]] ?_).mpr
  · constructor
    · apply List.pairwise_pair.mpr
      rintro directory ⟨⟨type, creation, creates, resolved⟩, otherType, other, otherCreates,
        otherResolved⟩
      cases creates
      cases otherCreates
      have inRoot : directory = Namespace.root := by
        have there := (show _ = Except.ok Namespace.root by decide).symm.trans resolved
        simpa using there.symm
      have inDirectory : directory = ⟨4, 1⟩ := by
        have there := (show _ = Except.ok (⟨4, 1⟩ : UUID) by decide).symm.trans otherResolved
        simpa using there.symm
      simp [inRoot, Namespace.root] at inDirectory
    · intro maker user type directory makerMem
      simp at makerMem
  · intro closure member
    simp only [List.mem_singleton] at member
    exact ⟨_, by rw [member]⟩
  · exact ⟨by decide, by decide⟩

/-- Two files `/a`, of which the closure of the second runs first: the path leads to the second on
the leader and to the first on the other replicas. -/
theorem not_leader_order_same_path :
    DistinctIds [.createFile ⟨[47, 97], ⟨4, 1⟩, 5, 5, 5, 438, 0, 0⟩,
        .createFile ⟨[47, 97], ⟨4, 2⟩, 6, 6, 6, 438, 0, 0⟩] ∧
      ∃ after, initial.Completes .wire (submitted
          [([], .createFile ⟨[47, 97], ⟨4, 1⟩, 5, 5, 5, 438, 0, 0⟩),
            ([], .createFile ⟨[47, 97], ⟨4, 2⟩, 6, 6, 6, 438, 0, 0⟩)]) after ∧
        after.container ≠ initial.container.processAll
          [.createFile ⟨[47, 97], ⟨4, 1⟩, 5, 5, 5, 438, 0, 0⟩,
            .createFile ⟨[47, 97], ⟨4, 2⟩, 6, 6, 6, 438, 0, 0⟩] ∧
        after.container.names.lookup [47, 97] = .ok (⟨4, 2⟩, .kFile) ∧
        (initial.container.processAll
          [.createFile ⟨[47, 97], ⟨4, 1⟩, 5, 5, 5, 438, 0, 0⟩,
            .createFile ⟨[47, 97], ⟨4, 2⟩, 6, 6, 6, 438, 0, 0⟩]).names.lookup [47, 97] =
          .ok (⟨4, 1⟩, .kFile) := by
  have ran : Lib.exec (step .wire) initial
      [.apply ⟨[], some (.createFile ⟨[47, 97], ⟨4, 1⟩, 5, 5, 5, 438, 0, 0⟩)⟩,
        .apply ⟨[], some (.createFile ⟨[47, 97], ⟨4, 2⟩, 6, 6, 6, 438, 0, 0⟩)⟩,
        .turn 1, .turn 1, .turn 1, .turn 0, .turn 0, .turn 0] =
      some ⟨Deva.fresh.processAll [.createFile ⟨[47, 97], ⟨4, 2⟩, 6, 6, 6, 438, 0, 0⟩,
          .createFile ⟨[47, 97], ⟨4, 1⟩, 5, 5, 5, 438, 0, 0⟩],
        [⟨.createFile ⟨[47, 97], ⟨4, 1⟩, 5, 5, 5, 438, 0, 0⟩, .finished (.ok (some
            (Deva.newFileInfo .kFile ⟨[47, 97], ⟨4, 1⟩, 5, 5, 5, 438, 0, 0⟩)))⟩,
          ⟨.createFile ⟨[47, 97], ⟨4, 2⟩, 6, 6, 6, 438, 0, 0⟩, .finished (.ok (some
            (Deva.newFileInfo .kFile ⟨[47, 97], ⟨4, 2⟩, 6, 6, 6, 438, 0, 0⟩)))⟩]⟩ := rfl
  refine ⟨⟨by decide, by decide⟩, _, ⟨_, rfl, ran, ?_⟩, by decide, by decide, by decide⟩
  intro closure member
  simp only [List.mem_cons, List.not_mem_nil, or_false] at member
  rcases member with rfl | rfl
  · exact ⟨_, rfl⟩
  · exact ⟨_, rfl⟩

end Rsm

end Pain.Deva
