import Pain.Deva.Rsm
import Pain.Deva.WellFormed

/-!
# Closures on the leader

This file says once what a turn of a closure can do, and derives from it what
holds in every state that a replica can be in: the container is well formed, and
an identifier that no entry has brought is not used. It also gives schedules in
which the closures of a batch run one after another, in any order; each of them
then does what `Deva::process` does.
-/

set_option linter.dupNamespace false

namespace Pain.Deva

namespace OpClosure

/-- What a turn of a closure can do. -/
inductive Turn (deva : Deva) : OpClosure → OpClosure → Deva → Prop where
  | ignore {request : Request} (creates : request.creates = none) :
      Turn deva ⟨request, .started⟩ ⟨request, .finished (.ok none)⟩ deva
  | unresolved {request : Request} {type : FileType} {creation : CreateRequest}
      {failure : Failure} (creates : request.creates = some (type, creation))
      (resolved : deva.resolveParent creation.path = .error failure) :
      Turn deva ⟨request, .started⟩ ⟨request, .finished (.error failure)⟩ deva
  | resolve {request : Request} {type : FileType} {creation : CreateRequest} {parent : UUID}
      (creates : request.creates = some (type, creation))
      (resolved : deva.resolveParent creation.path = .ok parent) :
      Turn deva ⟨request, .started⟩ ⟨request, .resolved parent⟩ deva
  | unlinked {request : Request} {type : FileType} {creation : CreateRequest} {parent : UUID}
      (creates : request.creates = some (type, creation))
      (missing : deva.names.entries[parent]? = none) :
      Turn deva ⟨request, .resolved parent⟩ ⟨request, .finished (.error Namespace.noSuchFile)⟩ deva
  | link {request : Request} {type : FileType} {creation : CreateRequest} {parent : UUID}
      {listed : List DirEntry} (creates : request.creates = some (type, creation))
      (present : deva.names.entries[parent]? = some listed) :
      Turn deva ⟨request, .resolved parent⟩ ⟨request, .linked⟩
        { deva with
          names := (deva.names.create parent (filename creation.path) type creation.id).2 }
  | record {request : Request} {type : FileType} {creation : CreateRequest}
      (creates : request.creates = some (type, creation)) :
      Turn deva ⟨request, .linked⟩
        ⟨request, .finished (.ok (some (Deva.newFileInfo type creation)))⟩
        { deva with
          fileInfos := deva.fileInfos.insert creation.id (Deva.newFileInfo type creation) }

/-- Every turn of a closure is one of the kinds. -/
theorem turn_cases {closure next : OpClosure} {deva after : Deva}
    (turned : closure.turn deva = some (next, after)) : Turn deva closure next after := by
  rcases closure with ⟨request, phase⟩
  cases creates : request.creates with
  | none =>
      cases phase <;> simp only [turn, creates, Option.some.injEq, Prod.mk.injEq, reduceCtorEq]
        at turned
      rcases turned with ⟨rfl, rfl⟩
      exact .ignore creates
  | some creation =>
      rcases creation with ⟨type, creation⟩
      cases phase with
      | started =>
          simp only [turn, creates] at turned
          cases resolved : deva.resolveParent creation.path with
          | error failure =>
              simp only [resolved, Option.some.injEq, Prod.mk.injEq] at turned
              rcases turned with ⟨rfl, rfl⟩
              exact .unresolved creates resolved
          | ok parent =>
              simp only [resolved, Option.some.injEq, Prod.mk.injEq] at turned
              rcases turned with ⟨rfl, rfl⟩
              exact .resolve creates resolved
      | resolved parent =>
          simp only [turn, creates] at turned
          cases present : deva.names.entries[parent]? with
          | none =>
              simp only [Namespace.create_eq_error present, Option.some.injEq, Prod.mk.injEq]
                at turned
              rcases turned with ⟨rfl, rfl⟩
              exact .unlinked creates present
          | some listed =>
              have created :=
                (Namespace.create_eq_ok (filename creation.path) type creation.id present).1
              cases called : deva.names.create parent (filename creation.path) type creation.id with
              | mk status names =>
                  simp only [called] at created
                  simp only [called, created, Status.OK, Option.some.injEq, Prod.mk.injEq] at turned
                  rcases turned with ⟨rfl, rfl⟩
                  have linked := Turn.link creates present
                  simpa only [called] using linked
      | linked =>
          simp only [turn, creates, Option.some.injEq, Prod.mk.injEq] at turned
          rcases turned with ⟨rfl, rfl⟩
          exact .record creates
      | finished result => simp [turn] at turned

theorem Turn.turn_eq {closure next : OpClosure} {deva after : Deva}
    (turned : Turn deva closure next after) : closure.turn deva = some (next, after) := by
  cases turned with
  | ignore creates => simp [turn, creates]
  | unresolved creates resolved => simp [turn, creates, resolved]
  | resolve creates resolved => simp [turn, creates, resolved]
  | unlinked creates missing => simp [turn, creates, Namespace.create_eq_error missing]
  | @link request type creation parent listed creates present =>
      have created := (Namespace.create_eq_ok (filename creation.path) type creation.id present).1
      cases called : deva.names.create parent (filename creation.path) type creation.id with
      | mk status names =>
          simp only [called] at created
          simp [turn, creates, called, created, Status.OK]
  | record creates => simp [turn, creates]

theorem Turn.request_eq {closure next : OpClosure} {deva after : Deva}
    (turned : Turn deva closure next after) : next.request = closure.request := by
  cases turned <;> rfl

theorem Turn.unfinished {closure next : OpClosure} {deva after : Deva}
    (turned : Turn deva closure next after) : ¬ closure.Finished := by
  rintro ⟨result, isFinished⟩
  cases turned <;> simp at isFinished

end OpClosure

/-- The request that an entry carries, in its closure or in its data. -/
def Entry.request? (protobuf : Protobuf) (entry : Entry) : Option Request :=
  match entry.done with
  | some request => some request
  | none => decodeOp protobuf (decode entry.data).1.1 (decode entry.data).1.2

namespace Rsm

/-- What happens to a replica: an entry is applied, or a closure has a turn. -/
inductive Event where
  | apply (entry : Entry)
  | turn (index : ℕ)

/-- The entry of the event, if it is one. -/
def Event.entry? : Event → Option Entry
  | .apply entry => some entry
  | .turn _ => none

/-- One event: an entry is applied, or a closure takes a turn. -/
def step (protobuf : Protobuf) (rsm : Rsm) : Event → Option Rsm
  | .apply entry => rsm.applyEntry protobuf entry
  | .turn index => rsm.turn index

/-- The requests that the entries of a run carry. -/
def requests (protobuf : Protobuf) (events : List Event) : List Request :=
  (events.filterMap Event.entry?).filterMap (Entry.request? protobuf)

/-- A turn of a closure sets its place in the list and the container. -/
theorem turn_eq_some {rsm after : Rsm} {index : ℕ} :
    rsm.turn index = some after ↔
      ∃ closure next, rsm.closures[index]? = some closure ∧
        closure.turn rsm.container = some (next, after.container) ∧
        after.closures = rsm.closures.set index next := by
  simp only [turn, Option.bind_eq_bind, Option.bind_eq_some_iff, Option.pure_def,
    Option.some.injEq]
  constructor
  · rintro ⟨closure, found, ⟨next, container⟩, turned, rfl⟩
    exact ⟨closure, next, found, turned, rfl⟩
  · rintro ⟨closure, next, found, turned, same⟩
    refine ⟨closure, found, (next, after.container), turned, ?_⟩
    simp only [← same]

section Reachable

variable {protobuf : Protobuf} {rsm after : Rsm} {event : Event}

/-- Every event keeps the container well formed. -/
theorem step_wellFormed (wellFormed : rsm.container.WellFormed)
    (stepped : rsm.step protobuf event = some after) : after.container.WellFormed := by
  cases event with
  | apply entry =>
      simp only [step, applyEntry] at stepped
      split at stepped
      · simp only [Option.some.injEq] at stepped
        subst stepped
        exact wellFormed
      · simp only [Option.map_eq_some_iff] at stepped
        rcases stepped with ⟨request, -, rfl⟩
        exact Deva.process_wellFormed wellFormed request
  | turn index =>
      rcases turn_eq_some.mp stepped with ⟨closure, next, -, turned, -⟩
      generalize after.container = container at turned
      cases OpClosure.turn_cases turned with
      | ignore | unresolved | resolve | unlinked => exact wellFormed
      | link creates present => exact wellFormed.link present
      | record creates => exact ⟨wellFormed.root, wellFormed.directories⟩

/-- Neither the container nor a closure uses the identifier. -/
def Apart (id : UUID) (rsm : Rsm) : Prop :=
  rsm.container.Unused id ∧ ∀ closure ∈ rsm.closures, closure.request.id? ≠ some id

/-- An identifier that an entry does not bring stays unused. -/
theorem step_apart {id : UUID} (wellFormed : rsm.container.WellFormed) (apart : rsm.Apart id)
    (notBrought : id ∉ (requests protobuf [event]).filterMap Request.id?)
    (stepped : rsm.step protobuf event = some after) : after.Apart id := by
  cases event with
  | apply entry =>
      simp only [step, applyEntry] at stepped
      split at stepped
      · rename_i request done
        simp only [Option.some.injEq] at stepped
        subst stepped
        refine ⟨apart.1, ?_⟩
        intro closure member
        rcases List.mem_append.mp member with old | new
        · exact apart.2 closure old
        · simp only [List.mem_singleton] at new
          subst new
          simpa [requests, Event.entry?, Entry.request?, done] using notBrought
      · rename_i done
        simp only [Option.map_eq_some_iff] at stepped
        rcases stepped with ⟨request, decoded, rfl⟩
        refine ⟨Deva.process_unused wellFormed apart.1 ?_, apart.2⟩
        simpa [requests, Event.entry?, Entry.request?, done, decoded] using notBrought
  | turn index =>
      rcases turn_eq_some.mp stepped with ⟨closure, next, found, turned, closures⟩
      have turn := OpClosure.turn_cases turned
      have different := apart.2 closure (List.mem_of_getElem? found)
      constructor
      · generalize after.container = container at turn
        cases turn with
        | ignore | unresolved | resolve | unlinked => exact apart.1
        | link creates present =>
            simp only [Request.id?, creates, Option.map_some, ne_eq, Option.some.injEq] at different
            exact apart.1.link present different
        | record creates =>
            simp only [Request.id?, creates, Option.map_some, ne_eq, Option.some.injEq] at different
            exact apart.1.insertRecord different _
      · intro other member
        simp only [closures] at member
        rcases List.mem_or_eq_of_mem_set member with old | rfl
        · exact apart.2 other old
        · simp only [turn.request_eq]
          exact different

/-- Every run keeps the container well formed. -/
theorem exec_wellFormed {events : List Event}
    (ran : Lib.exec (step protobuf) initial events = some rsm) : rsm.container.WellFormed := by
  apply Lib.exec_invariant (fun rsm => rsm.container.WellFormed) _ Deva.fresh_wellFormed ran
  exact fun wellFormed stepped => step_wellFormed wellFormed stepped

/-- An identifier that no entry has brought is not used. -/
theorem exec_unused {events : List Event} {id : UUID}
    (ran : Lib.exec (step protobuf) initial events = some rsm) (notRoot : id ≠ Namespace.root)
    (notBrought : id ∉ (requests protobuf events).filterMap Request.id?) :
    rsm.container.Unused id := by
  have start : initial.container.WellFormed ∧ initial.Apart id :=
    ⟨Deva.fresh_wellFormed, Deva.fresh_unused notRoot, by simp [initial]⟩
  have guarded : Lib.Guarded (step protobuf)
      (fun _ event => id ∉ (requests protobuf [event]).filterMap Request.id?) initial events := by
    apply Lib.guarded_of_forall_mem
    intro event member brought
    apply notBrought
    have part : [event].filterMap Event.entry? ⊆ events.filterMap Event.entry? :=
      List.filterMap_subset _ (by simpa using member)
    exact List.filterMap_subset _ (List.filterMap_subset _ part) brought
  have kept := Lib.exec_preserves (fun rsm => rsm.container.WellFormed ∧ rsm.Apart id)
    (fun kept notBrought stepped =>
      ⟨step_wellFormed kept.1 stepped, step_apart kept.1 kept.2 notBrought stepped⟩)
    start guarded ran
  exact kept.2.1

end Reachable

section Alone

open OpClosure (Turn)

variable {rsm : Rsm} {index : ℕ} {request : Request}

theorem turn_set {deva after : Deva} {closures : List OpClosure} {closure next : OpClosure}
    (inRange : index < closures.length) (turned : Turn deva closure next after) :
    turn ⟨deva, closures.set index closure⟩ index = some ⟨after, closures.set index next⟩ := by
  apply turn_eq_some.mpr
  refine ⟨closure, next, ?_, turned.turn_eq, ?_⟩
  · simp [inRange]
  · simp

/-- A closure that is alone does what `Deva::process` does, with the same result. -/
theorem exists_turns_alone (wellFormed : rsm.container.WellFormed)
    (found : rsm.closures[index]? = some ⟨request, .started⟩) :
    ∃ turns, Lib.exec turn rsm (List.replicate turns index) =
      some ⟨(rsm.container.process request).2,
        rsm.closures.set index ⟨request, .finished (rsm.container.process request).1⟩⟩ := by
  rcases rsm with ⟨deva, closures⟩
  rcases List.getElem?_eq_some_iff.mp found with ⟨inRange, isStarted⟩
  have same : closures.set index ⟨request, .started⟩ = closures := by
    simp only [← isStarted, List.set_getElem_self]
  have first : ∀ {next : OpClosure} {after : Deva}, Turn deva ⟨request, .started⟩ next after →
      turn ⟨deva, closures⟩ index = some ⟨after, closures.set index next⟩ := by
    intro next after turned
    simpa only [same] using turn_set inRange turned
  cases creates : request.creates with
  | none =>
      refine ⟨1, ?_⟩
      simp [first (.ignore creates), Deva.process_of_creates_none creates]
  | some creation =>
      rcases creation with ⟨type, creation⟩
      simp only [Deva.process_of_creates creates]
      cases resolved : deva.resolveParent creation.path with
      | error failure =>
          refine ⟨1, ?_⟩
          simp [first (.unresolved creates resolved), Deva.createEntry_of_error resolved,
            Except.map]
      | ok parent =>
          rcases wellFormed.resolves resolved with ⟨listed, present⟩
          have second := turn_set inRange (.link creates present)
          have third := fun deva => turn_set inRange (@Turn.record deva _ _ _ creates)
          refine ⟨3, ?_⟩
          simp [List.replicate, first (.resolve creates resolved), second, third,
            Deva.createEntry_of_ok resolved present, Except.map]

/-- Closures that have not begun can be run one after another, in any order. -/
theorem exists_schedule (wellFormed : rsm.container.WellFormed) {order : List (Request × ℕ)}
    (nodup : (order.map Prod.snd).Nodup)
    (started : ∀ item ∈ order, rsm.closures[item.2]? = some ⟨item.1, .started⟩) :
    ∃ schedule after, Lib.exec turn rsm schedule = some after ∧
      after.container = rsm.container.processAll (order.map Prod.fst) ∧
      ∀ (index : ℕ) (closure : OpClosure), after.closures[index]? = some closure →
        closure.Finished ∨ index ∉ order.map Prod.snd ∧ rsm.closures[index]? = some closure := by
  induction order generalizing rsm with
  | nil => exact ⟨[], rsm, rfl, rfl, fun index closure found => Or.inr ⟨by simp, found⟩⟩
  | cons item order ih =>
      simp only [List.map_cons, List.nodup_cons] at nodup
      simp only [List.mem_cons, forall_eq_or_imp] at started
      rcases exists_turns_alone wellFormed started.1 with ⟨turns, ranFirst⟩
      have laterStarted : ∀ later ∈ order,
          (rsm.closures.set item.2 ⟨item.1, .finished (rsm.container.process item.1).1⟩)[later.2]? =
            some ⟨later.1, .started⟩ := by
        intro later member
        have different : item.2 ≠ later.2 :=
          fun same => nodup.1 (same ▸ List.mem_map.mpr ⟨later, member, rfl⟩)
        simp only [List.getElem?_set_ne different, started.2 later member]
      rcases @ih ⟨_, _⟩ (Deva.process_wellFormed wellFormed item.1) nodup.2 laterStarted
        with ⟨schedule, after, ran, container, closures⟩
      refine ⟨List.replicate turns item.2 ++ schedule, after, ?_, container, ?_⟩
      · simp only [Lib.exec_append, ranFirst, Option.bind_some, ran]
      · intro index closure found
        rcases closures index closure found with finished | ⟨notLater, old⟩
        · exact Or.inl finished
        · by_cases here : item.2 = index
          · subst here
            have inRange := (List.getElem?_eq_some_iff.mp started.1).1
            simp only [List.getElem?_set_self inRange, Option.some.injEq] at old
            exact Or.inl ⟨_, by rw [← old]⟩
          · simp only [List.getElem?_set_ne here] at old
            refine Or.inr ⟨?_, old⟩
            simp only [List.map_cons, List.mem_cons, not_or]
            exact ⟨fun same => here same.symm, notLater⟩

end Alone

/-- Entries that this node submitted. -/
def submitted (batch : List (Bytes × Request)) : List Entry :=
  batch.map (fun item => ⟨item.1, some item.2⟩)

/-- From `before`, the entries of a batch are applied and all closures have run in the end. The
first closures may run before the last entries are applied. -/
def Completes (protobuf : Protobuf) (before : Rsm) (entries : List Entry) (after : Rsm) : Prop :=
  ∃ events, events.filterMap Event.entry? = entries ∧
    Lib.exec (step protobuf) before events = some after ∧ after.Idle

/-- The closures of a batch have been handed over and none has run. -/
def submit (rsm : Rsm) (batch : List (Bytes × Request)) : Rsm :=
  { rsm with closures := rsm.closures ++ batch.map (fun item => ⟨item.2, .started⟩) }

/-- Entries that carry closures are handed over and change nothing. -/
theorem exec_submitted (protobuf : Protobuf) (rsm : Rsm) (batch : List (Bytes × Request)) :
    Lib.exec (step protobuf) rsm ((submitted batch).map Event.apply) =
      some (rsm.submit batch) := by
  induction batch generalizing rsm with
  | nil => simp [submitted, submit]
  | cons item batch ih =>
      simp only [submitted, submit, List.map_map] at ih
      simp [submitted, submit, step, applyEntry, ih]

theorem exec_turns (protobuf : Protobuf) (rsm : Rsm) (schedule : List ℕ) :
    Lib.exec (step protobuf) rsm (schedule.map Event.turn) = Lib.exec turn rsm schedule := by
  simp only [Lib.exec, List.foldlM_map]
  rfl

/-- The closures of a batch can run one after another in any order. -/
theorem completes_of_perm (protobuf : Protobuf) {before : Rsm} (idle : before.Idle)
    (wellFormed : before.container.WellFormed) {batch : List (Bytes × Request)}
    {order : List Request} (perm : order.Perm (batch.map Prod.snd)) :
    ∃ after, before.Completes protobuf (submitted batch) after ∧
      after.container = before.container.processAll order := by
  have indexed : order.Perm
      (((batch.map Prod.snd).zipIdx before.closures.length).map Prod.fst) := by
    simpa only [List.zipIdx_map_fst] using perm
  rcases Lib.exists_perm_of_map_perm indexed with ⟨arranged, arrangedPerm, rfl⟩
  have nodup : (arranged.map Prod.snd).Nodup := by
    apply (arrangedPerm.map Prod.snd).nodup_iff.mpr
    simp only [List.zipIdx_map_snd]
    exact List.nodup_range'
  have started : ∀ item ∈ arranged,
      (before.submit batch).closures[item.2]? = some ⟨item.1, .started⟩ := by
    intro item member
    have indexedMem := arrangedPerm.mem_iff.mp member
    rcases List.mk_mem_zipIdx_iff_le_and_getElem?_sub.mp indexedMem with ⟨later, found⟩
    simp only [List.getElem?_map, Option.map_eq_some_iff] at found
    rcases found with ⟨pair, found, same⟩
    simp [submit, List.getElem?_append_right later, found, same]
  have handedOver : (before.submit batch).container.WellFormed := wellFormed
  rcases exists_schedule handedOver nodup started with ⟨schedule, after, ran, container, closures⟩
  refine ⟨after, ⟨(submitted batch).map Event.apply ++ schedule.map Event.turn, ?_, ?_, ?_⟩,
    container⟩
  · have noEntry : (schedule.map Event.turn).filterMap Event.entry? = [] := by
      simp [List.filterMap_map, Event.entry?]
    simp [List.filterMap_append, noEntry, List.filterMap_map, Function.comp_def, Event.entry?]
  · simp only [Lib.exec_append, exec_submitted, Option.bind_some, exec_turns, ran]
  · intro closure member
    rcases List.mem_iff_getElem?.mp member with ⟨index, found⟩
    rcases closures index closure found with finished | ⟨notOrdered, old⟩
    · exact finished
    · apply idle closure
      have inRange := (List.getElem?_eq_some_iff.mp old).1
      have outside : index < before.closures.length := by
        by_contra later
        apply notOrdered
        apply (arrangedPerm.map Prod.snd).mem_iff.mpr
        simp only [List.zipIdx_map_snd, List.length_map, List.mem_range'_1]
        simp only [submit, List.length_append, List.length_map] at inRange
        omega
      simp only [submit, List.getElem?_append_left outside] at old
      exact List.mem_of_getElem? old

end Rsm

end Pain.Deva
