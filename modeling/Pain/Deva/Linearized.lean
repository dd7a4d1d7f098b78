import Pain.Deva.LeaderOrder
import Pain.Deva.Tree
import Pain.Lib.History

/-!
# The leader serves one request after another

The closures on the leader have no lock, and several of them may be anywhere
between the lookup of a parent directory, the new entry and the new record. This
file shows that every run amounts to one in which the requests are processed
one after another, though not in the order of the log: a creation takes effect
when its entry appears in the namespace, or when the lookup of its directory
fails. What it finds there is what it found when it looked the directory up,
since nothing that resolves is ever taken away.

So what holds of requests that are processed in any order holds on the leader.
The namespace is a tree that matches the file table, but for the records of the
closures that are about to add theirs.
-/

set_option linter.dupNamespace false

namespace Pain.Deva

/-- The result that a closure has, or is going to have now that its entry is there. -/
def OpClosure.outcome? (closure : OpClosure) : Option (Except Failure (Option FileInfo)) :=
  match closure.phase with
  | .started | .resolved _ => none
  | .linked =>
      some (.ok (closure.request.creates.map
        (fun creation => Deva.newFileInfo creation.1 creation.2)))
  | .finished result => some result

/-- The request of a closure whose outcome is not settled. -/
def OpClosure.unsettled? (closure : OpClosure) : Option Request :=
  if closure.outcome?.isSome then none else some closure.request

namespace Rsm

/-- The request that takes effect at an event, with the index of its closure if there is one. A
closure takes effect at the turn that settles its outcome. -/
def takesEffect (protobuf : Protobuf) (rsm : Rsm) : Event → Option (Option ℕ × Request)
  | .apply entry =>
      match entry.done with
      | some _ => none
      | none => (entry.request? protobuf).map (fun request => (none, request))
  | .turn index => do
      let closure ← rsm.closures[index]?
      let (next, _) ← closure.turn rsm.container
      if closure.outcome?.isNone && next.outcome?.isSome then
        some (some index, closure.request)
      else none

/-- The requests in the order in which they take effect. -/
def effectOrder (protobuf : Protobuf) (events : List Event) : List (Option ℕ × Request) :=
  Lib.outputs (step protobuf) (takesEffect protobuf) initial events

/-- The container that requests leave which take effect one after another. -/
abbrev served (order : List (Option ℕ × Request)) : Deva :=
  Lib.performed (fun deva request => deva.process request) .fresh order

/-- The closure, or nobody, is given the result at its place in the order. -/
abbrev ServedWith (order : List (Option ℕ × Request)) (caller : Option ℕ) (request : Request)
    (result : Except Failure (Option FileInfo)) : Prop :=
  Lib.Replied (fun deva request => Deva.process request deva) .fresh order caller request result

theorem served_snoc (order : List (Option ℕ × Request)) (call : Option ℕ × Request) :
    served (order ++ [call]) = ((served order).process call.2).2 :=
  Lib.performed_snoc call

/-- The replica is on its way to a container: the two have the same namespace, and the records that
are still missing are those of closures whose entries are there. -/
structure Represents (rsm : Rsm) (deva : Deva) : Prop where
  names : deva.names = rsm.container.names
  linked : ∀ {index : ℕ} {closure : OpClosure} {type : FileType} {creation : CreateRequest},
    rsm.closures[index]? = some closure → closure.phase = .linked →
      closure.request.creates = some (type, creation) →
        deva.fileInfos[creation.id]? = some (Deva.newFileInfo type creation)
  others : ∀ id : UUID, (∀ (index : ℕ) (closure : OpClosure),
      rsm.closures[index]? = some closure → closure.phase = .linked →
        closure.request.id? ≠ some id) →
    deva.fileInfos[id]? = rsm.container.fileInfos[id]?

section Steps

variable {protobuf : Protobuf} {rsm after : Rsm} {events : List Event} {event : Event}

/-- What a step of a replica can do. -/
inductive Stepped (protobuf : Protobuf) (rsm : Rsm) : Event → Rsm → Prop where
  | handed {entry : Entry} {request : Request} (done : entry.done = some request) :
      Stepped protobuf rsm (.apply entry)
        ⟨rsm.container, rsm.closures ++ [⟨request, .started⟩]⟩
  | replayed {entry : Entry} {request : Request} (done : entry.done = none)
      (carried : entry.request? protobuf = some request) :
      Stepped protobuf rsm (.apply entry) ⟨(rsm.container.process request).2, rsm.closures⟩
  | turned {index : ℕ} {closure next : OpClosure} {container : Deva}
      (found : rsm.closures[index]? = some closure)
      (turn : OpClosure.Turn rsm.container closure next container) :
      Stepped protobuf rsm (.turn index) ⟨container, rsm.closures.set index next⟩

/-- Every event is one of the kinds. -/
theorem step_cases (stepped : rsm.step protobuf event = some after) :
    Stepped protobuf rsm event after := by
  cases event with
  | apply entry =>
      simp only [step, applyEntry] at stepped
      split at stepped
      · rename_i request done
        simp only [Option.some.injEq] at stepped
        exact stepped ▸ .handed done
      · rename_i done
        simp only [Option.map_eq_some_iff] at stepped
        rcases stepped with ⟨request, decoded, rfl⟩
        exact .replayed done (by simp only [Entry.request?, done, decoded])
  | turn index =>
      rcases turn_eq_some.mp stepped with ⟨closure, next, found, turned, closures⟩
      rcases after with ⟨container, closuresAfter⟩
      simp only at closures
      exact closures ▸ .turned found (OpClosure.turn_cases turned)

/-- The outcome of a closure is settled once. -/
theorem outcome?_of_turn {closure next : OpClosure} {deva container : Deva}
    (turn : OpClosure.Turn deva closure next container) :
    next.outcome? = closure.outcome? ∨
      closure.outcome? = none ∧ ∃ result, next.outcome? = some result := by
  cases turn with
  | ignore | unresolved | unlinked => exact .inr ⟨rfl, _, rfl⟩
  | link => exact .inr ⟨rfl, _, rfl⟩
  | resolve => exact .inl rfl
  | record creates => exact .inl (by simp [OpClosure.outcome?, creates])

/-- The order of the effects grows by what the event brings into effect. -/
theorem effectOrder_snoc (ran : Lib.exec (step protobuf) initial events = some rsm)
    (stepped : rsm.step protobuf event = some after) :
    effectOrder protobuf (events ++ [event]) =
      effectOrder protobuf events ++ (rsm.takesEffect protobuf event).toList :=
  Lib.outputs_snoc ran stepped

/-- A closure takes effect at the turn that settles its outcome. -/
theorem takesEffect_of_turn {index : ℕ} {closure next : OpClosure} {container : Deva}
    (found : rsm.closures[index]? = some closure)
    (turn : OpClosure.Turn rsm.container closure next container) :
    rsm.takesEffect protobuf (.turn index) =
      if closure.outcome?.isNone && next.outcome?.isSome then some (some index, closure.request)
      else none := by
  simp [takesEffect, found, turn.turn_eq]

theorem requests_append (events more : List Event) :
    requests protobuf (events ++ more) = requests protobuf events ++ requests protobuf more := by
  simp [requests]

end Steps

/-- Every request of a run has one place in the order, or is that of a closure whose outcome is
open. -/
structure Accounted (protobuf : Protobuf) (events : List Event) (rsm : Rsm) : Prop where
  perm : ((effectOrder protobuf events).map Prod.snd ++
      rsm.closures.filterMap OpClosure.unsettled?).Perm (requests protobuf events)
  submitted : (rsm.closures.map OpClosure.request).Sublist (requests protobuf events)
  callers : ((effectOrder protobuf events).filterMap Prod.fst).Nodup
  settled : ∀ index ∈ (effectOrder protobuf events).filterMap Prod.fst,
    ∃ closure, rsm.closures[index]? = some closure ∧ closure.outcome?.isSome

section Accounts

variable {protobuf : Protobuf} {rsm after : Rsm} {events : List Event} {event : Event}

/-- An entry that is handed to a closure waits for its place. -/
theorem Accounted.handed (accounted : Accounted protobuf events rsm) {entry : Entry}
    {request : Request} (done : entry.done = some request)
    (same : effectOrder protobuf (events ++ [.apply entry]) = effectOrder protobuf events) :
    Accounted protobuf (events ++ [.apply entry])
      ⟨rsm.container, rsm.closures ++ [⟨request, .started⟩]⟩ := by
  have brought : requests protobuf [.apply entry] = [request] := by
    simp [requests, Event.entry?, Entry.request?, done]
  constructor
  · simp only [same, requests_append, brought, List.filterMap_append, ← List.append_assoc]
    exact accounted.perm.append_right _
  · simp only [requests_append, brought, List.map_append]
    exact accounted.submitted.append_right _
  · simpa only [same] using accounted.callers
  · intro index member
    simp only [same] at member
    rcases accounted.settled index member with ⟨closure, found, isSettled⟩
    have inside := (List.getElem?_eq_some_iff.mp found).1
    exact ⟨closure, by simpa only [List.getElem?_append_left inside] using found, isSettled⟩

/-- An entry that is replayed has its place at once. -/
theorem Accounted.replayed (accounted : Accounted protobuf events rsm) {entry : Entry}
    {request : Request} (carried : entry.request? protobuf = some request)
    (new : effectOrder protobuf (events ++ [.apply entry]) =
      effectOrder protobuf events ++ [(none, request)]) (container : Deva) :
    Accounted protobuf (events ++ [.apply entry]) ⟨container, rsm.closures⟩ := by
  have brought : requests protobuf [.apply entry] = [request] := by
    simp [requests, Event.entry?, carried]
  constructor
  · simp only [new, requests_append, brought, List.map_append, List.map_cons, List.map_nil,
      List.append_assoc]
    apply (List.perm_append_comm.append_left _).trans
    simp only [← List.append_assoc]
    exact accounted.perm.append_right _
  · simp only [requests_append]
    exact accounted.submitted.trans (List.sublist_append_left _ _)
  · simpa [new] using accounted.callers
  · intro index member
    simp only [new, List.filterMap_append, List.filterMap_cons, List.filterMap_nil,
      List.append_nil] at member
    exact accounted.settled index member

theorem map_request_set {index : ℕ} {closure next : OpClosure} {container : Deva}
    (found : rsm.closures[index]? = some closure)
    (turn : OpClosure.Turn rsm.container closure next container) :
    (rsm.closures.set index next).map OpClosure.request =
      rsm.closures.map OpClosure.request := by
  rcases List.getElem?_eq_some_iff.mp found with ⟨inside, isClosure⟩
  rw [List.map_set, turn.request_eq]
  apply List.ext_getElem?
  intro other
  by_cases here : index = other
  · subst here
    simp [inside, isClosure]
  · simp [here]

/-- A turn leaves every settled outcome settled. -/
theorem Accounted.settled_set (accounted : Accounted protobuf events rsm) {index : ℕ}
    {closure next : OpClosure} {container : Deva} (found : rsm.closures[index]? = some closure)
    (turn : OpClosure.Turn rsm.container closure next container) :
    ∀ other ∈ (effectOrder protobuf events).filterMap Prod.fst,
      ∃ found, (rsm.closures.set index next)[other]? = some found ∧ found.outcome?.isSome := by
  intro other member
  rcases accounted.settled other member with ⟨settled, foundSettled, isSettled⟩
  by_cases here : index = other
  · subst here
    rw [found, Option.some.injEq] at foundSettled
    subst foundSettled
    refine ⟨next, List.getElem?_set_self (List.getElem?_eq_some_iff.mp found).1, ?_⟩
    rcases outcome?_of_turn turn with same | ⟨isOpen, -⟩
    · rwa [same]
    · simp [isOpen] at isSettled
  · exact ⟨settled, by rwa [List.getElem?_set_ne here], isSettled⟩

/-- A turn gives at most one closure its place. -/
theorem Accounted.turned (accounted : Accounted protobuf events rsm) {index : ℕ}
    {closure next : OpClosure} {container : Deva} (found : rsm.closures[index]? = some closure)
    (turn : OpClosure.Turn rsm.container closure next container)
    (new : effectOrder protobuf (events ++ [.turn index]) = effectOrder protobuf events ++
      (if closure.outcome?.isNone && next.outcome?.isSome then some (some index, closure.request)
        else none).toList) :
    Accounted protobuf (events ++ [.turn index]) ⟨container, rsm.closures.set index next⟩ := by
  have inside := (List.getElem?_eq_some_iff.mp found).1
  have brought : requests protobuf (events ++ [.turn index]) = requests protobuf events := by
    simp [requests, Event.entry?]
  have sameRequests := map_request_set found turn
  have exchanged := @Lib.perm_filterMap_set _ _ OpClosure.unsettled? _ _ _ next found
  have settledAfter := accounted.settled_set found turn
  rcases outcome?_of_turn turn with same | ⟨isOpen, result, isSettled⟩
  · have order : effectOrder protobuf (events ++ [.turn index]) = effectOrder protobuf events := by
      cases outcome : closure.outcome? <;> simp [new, same, outcome]
    refine ⟨?_, ?_, ?_, ?_⟩
    · have sameImage : next.unsettled? = closure.unsettled? := by
        simp only [OpClosure.unsettled?, same, turn.request_eq]
      rw [sameImage, List.perm_append_left_iff] at exchanged
      simp only [order, brought]
      exact (exchanged.append_left _).trans accounted.perm
    · simpa only [sameRequests, brought] using accounted.submitted
    · simpa only [order] using accounted.callers
    · simpa only [order] using settledAfter
  · have order : effectOrder protobuf (events ++ [.turn index]) =
        effectOrder protobuf events ++ [(some index, closure.request)] := by
      simp [new, isOpen, isSettled]
    refine ⟨?_, ?_, ?_, ?_⟩
    · simp only [OpClosure.unsettled?, isOpen, isSettled, Option.isSome_none, Option.isSome_some,
        Bool.false_eq_true, if_false, if_true, Option.toList_some, Option.toList_none,
        List.nil_append] at exchanged
      simp only [order, brought, List.map_append, List.map_cons, List.map_nil, List.append_assoc]
      exact (exchanged.append_left _).trans accounted.perm
    · simpa only [sameRequests, brought] using accounted.submitted
    · simp only [order, List.filterMap_append, List.filterMap_cons, List.filterMap_nil]
      apply accounted.callers.append (List.nodup_singleton index)
      intro other member here
      rw [List.mem_singleton] at here
      subst here
      rcases accounted.settled other member with ⟨settled, foundSettled, wasSettled⟩
      rw [found, Option.some.injEq] at foundSettled
      subst foundSettled
      simp [isOpen] at wasSettled
    · intro other member
      simp only [order, List.filterMap_append, List.filterMap_cons, List.filterMap_nil,
        List.mem_append, List.mem_singleton] at member
      rcases member with earlier | rfl
      · exact settledAfter other earlier
      · exact ⟨next, List.getElem?_set_self inside, by simp [isSettled]⟩

/-- In every run, each request has its place or waits for it. -/
theorem exec_accounted (ran : Lib.exec (step protobuf) initial events = some rsm) :
    Accounted protobuf events rsm := by
  apply Lib.exec_history (Accounted protobuf) _ _ ran
  · exact ⟨by simp [effectOrder, Lib.outputs, requests, initial],
      by simp [requests, initial], by simp [effectOrder, Lib.outputs],
      by simp [effectOrder, Lib.outputs]⟩
  · intro events middle event next ranBefore accounted stepped
    have order := effectOrder_snoc ranBefore stepped
    cases step_cases stepped with
    | handed done =>
        exact accounted.handed done (by simp [order, takesEffect, done])
    | replayed done carried =>
        exact accounted.replayed carried (by simp [order, takesEffect, done, carried]) _
    | turned found turn =>
        rw [takesEffect_of_turn found turn] at order
        exact accounted.turned found turn order

end Accounts

section Representation

variable {rsm : Rsm} {deva : Deva} {index : ℕ} {request : Request}

/-- No other closure brings the identifier. -/
def BringsAlone (rsm : Rsm) (index : ℕ) (id : UUID) : Prop :=
  ∀ (other : ℕ) (closure : OpClosure), rsm.closures[other]? = some closure → index ≠ other →
    closure.request.id? ≠ some id

/-- Parents are resolved as in the container of the order. -/
theorem Represents.resolveParent (represents : rsm.Represents deva) (path : Bytes) :
    deva.resolveParent path = rsm.container.resolveParent path := by
  simp only [Deva.resolveParent, represents.names]

/-- Where no closure is about to add its record, nothing is missing. -/
theorem Represents.eq_container (represents : rsm.Represents deva) (idle : rsm.Idle) :
    deva = rsm.container := by
  apply Deva.ext represents.names
  apply Std.ExtTreeMap.ext_getElem?
  intro id
  apply represents.others
  intro index closure found isLinked
  rcases idle closure (List.mem_of_getElem? found) with ⟨result, isFinished⟩
  simp [isLinked] at isFinished

/-- No other record is missing than that of the closure whose turn it was. -/
theorem Represents.others_of_set (represents : rsm.Represents deva) {closure next : OpClosure}
    (found : rsm.closures[index]? = some closure) {id : UUID}
    (here : closure.phase = .linked → closure.request.id? ≠ some id)
    (others : ∀ (other : ℕ) (otherClosure : OpClosure),
      (rsm.closures.set index next)[other]? = some otherClosure →
        otherClosure.phase = .linked → otherClosure.request.id? ≠ some id) :
    deva.fileInfos[id]? = rsm.container.fileInfos[id]? := by
  apply represents.others id
  intro other otherClosure foundOther isLinked
  by_cases same : index = other
  · subst same
    rw [found, Option.some.injEq] at foundOther
    exact foundOther ▸ here (foundOther ▸ isLinked)
  · exact others other otherClosure (by rwa [List.getElem?_set_ne same]) isLinked

theorem Represents.handed (represents : rsm.Represents deva) (request : Request) :
    Represents ⟨rsm.container, rsm.closures ++ [⟨request, .started⟩]⟩ deva where
  names := represents.names
  linked := by
    intro index closure type creation found isLinked creates
    rcases Lib.getElem?_append_cases found with ⟨-, rfl⟩ | old
    · cases isLinked
    · exact represents.linked old isLinked creates
  others := by
    intro id notLinked
    apply represents.others id
    intro index closure found
    have inside := (List.getElem?_eq_some_iff.mp found).1
    exact notLinked index closure (by simpa only [List.getElem?_append_left inside] using found)

/-- A turn that leaves the container alone, and neither comes from the new entry nor leads there. -/
theorem Represents.passed (represents : rsm.Represents deva) {closure next : OpClosure}
    (found : rsm.closures[index]? = some closure) (notLinked : closure.phase ≠ .linked)
    (notYet : next.phase ≠ .linked) :
    Represents ⟨rsm.container, rsm.closures.set index next⟩ deva where
  names := represents.names
  linked := by
    intro other otherClosure type creation foundOther isLinked creates
    rcases Lib.getElem?_set_cases foundOther with ⟨-, rfl⟩ | ⟨-, old⟩
    · exact absurd isLinked notYet
    · exact represents.linked old isLinked creates
  others _ others :=
    represents.others_of_set found (fun isLinked => absurd isLinked notLinked) others

variable {type : FileType} {creation : CreateRequest}

/-- The record and the entry of a creation are there at once in the container that is represented,
while the replica has the entry only. -/
theorem Represents.link (represents : rsm.Represents deva) {parent : UUID}
    (found : rsm.closures[index]? = some ⟨request, .resolved parent⟩)
    (creates : request.creates = some (type, creation))
    (alone : rsm.BringsAlone index creation.id) :
    Represents
      ⟨{ rsm.container with
          names :=
            (rsm.container.names.create parent (filename creation.path) type creation.id).2 },
        rsm.closures.set index ⟨request, .linked⟩⟩
      { names := (deva.names.create parent (filename creation.path) type creation.id).2
        fileInfos := deva.fileInfos.insert creation.id (Deva.newFileInfo type creation) } where
  names := by simp only [represents.names]
  linked := by
    intro other otherClosure otherType otherCreation foundOther isLinked otherCreates
    rcases Lib.getElem?_set_cases foundOther with ⟨-, rfl⟩ | ⟨different, old⟩
    · simp only [creates, Option.some.injEq, Prod.mk.injEq] at otherCreates
      rcases otherCreates with ⟨rfl, rfl⟩
      simp
    · have apart := alone other otherClosure old different
      simp only [Request.id?, otherCreates, Option.map_some, ne_eq, Option.some.injEq] at apart
      simp [Std.ExtTreeMap.getElem?_insert, Ne.symm apart,
        represents.linked old isLinked otherCreates]
  others := by
    intro id others
    have inside := (List.getElem?_eq_some_iff.mp found).1
    have apart := others index ⟨request, .linked⟩ (List.getElem?_set_self inside) rfl
    simp only [Request.id?, creates, Option.map_some, ne_eq, Option.some.injEq] at apart
    simp only [Std.ExtTreeMap.getElem?_insert, Std.LawfulEqCmp.compare_eq_iff_eq, apart, if_false]
    exact represents.others_of_set found (by simp) others

/-- When a linked closure has written its record, the record is no longer missing. -/
theorem Represents.record (represents : rsm.Represents deva)
    (found : rsm.closures[index]? = some ⟨request, .linked⟩)
    (creates : request.creates = some (type, creation))
    (result : Except Failure (Option FileInfo)) :
    Represents
      ⟨{ rsm.container with
          fileInfos := rsm.container.fileInfos.insert creation.id
            (Deva.newFileInfo type creation) },
        rsm.closures.set index ⟨request, .finished result⟩⟩ deva where
  names := represents.names
  linked := by
    intro other otherClosure otherType otherCreation foundOther isLinked otherCreates
    rcases Lib.getElem?_set_cases foundOther with ⟨-, rfl⟩ | ⟨different, old⟩
    · cases isLinked
    · exact represents.linked old isLinked otherCreates
  others := by
    intro id others
    by_cases same : creation.id = id
    · subst same
      simp [represents.linked found rfl creates]
    · simp only [Std.ExtTreeMap.getElem?_insert, Std.LawfulEqCmp.compare_eq_iff_eq, same, if_false]
      exact represents.others_of_set found (fun _ => by simpa [Request.id?, creates] using same)
        others

/-- An entry without a closure is processed at once, with the same effect on both. -/
theorem Represents.process (represents : rsm.Represents deva)
    (wellFormed : rsm.container.WellFormed)
    (alone : ∀ (other : ℕ) (closure : OpClosure) (id : UUID),
      rsm.closures[other]? = some closure → request.id? = some id →
        closure.request.id? ≠ some id) :
    Represents ⟨(rsm.container.process request).2, rsm.closures⟩ (deva.process request).2 := by
  cases creates : request.creates with
  | none =>
      simp only [Deva.process_of_creates_none creates]
      exact represents
  | some creation =>
      rcases creation with ⟨type, creation⟩
      simp only [Deva.process_of_creates creates]
      cases resolved : rsm.container.resolveParent creation.path with
      | error failure =>
          have resolvedDeva := (represents.resolveParent creation.path).trans resolved
          simp only [Deva.createEntry_of_error resolved, Deva.createEntry_of_error resolvedDeva]
          exact represents
      | ok parent =>
          rcases wellFormed.resolves resolved with ⟨listed, present⟩
          have resolvedDeva := (represents.resolveParent creation.path).trans resolved
          have presentDeva := present
          rw [← represents.names] at presentDeva
          simp only [Deva.createEntry_of_ok resolved present,
            Deva.createEntry_of_ok resolvedDeva presentDeva]
          constructor
          · simp only [represents.names]
          · intro other closure otherType otherCreation found isLinked otherCreates
            have apart := alone other closure creation.id found (by simp [Request.id?, creates])
            simp only [Request.id?, otherCreates, Option.map_some, ne_eq, Option.some.injEq]
              at apart
            simp [Std.ExtTreeMap.getElem?_insert, Ne.symm apart,
              represents.linked found isLinked otherCreates]
          · intro id others
            simp only [Std.ExtTreeMap.getElem?_insert, represents.others id others]

end Representation

/-- The replica is where the requests of the run lead when they are served in the order of their
effects. An identifier is not used before the request that brings it takes effect, and a closure
that has found its directory would find it again. -/
structure Linear (protobuf : Protobuf) (events : List Event) (rsm : Rsm) : Prop where
  represents : rsm.Represents (served (effectOrder protobuf events))
  replied : ∀ {index : ℕ} {closure : OpClosure} {result : Except Failure (Option FileInfo)},
    rsm.closures[index]? = some closure → closure.outcome? = some result →
      ServedWith (effectOrder protobuf events) (some index) closure.request result
  waiting : ∀ {index : ℕ} {closure : OpClosure} {id : UUID},
    rsm.closures[index]? = some closure → closure.outcome? = none →
      closure.request.id? = some id → rsm.container.Unused id
  resolved : ∀ {index : ℕ} {request : Request} {parent : UUID},
    rsm.closures[index]? = some ⟨request, .resolved parent⟩ →
      ∃ type creation, request.creates = some (type, creation) ∧
        rsm.container.resolveParent creation.path = .ok parent

section Linear

variable {protobuf : Protobuf} {rsm : Rsm} {events : List Event} {event : Event} {index : ℕ}
  {closure next : OpClosure} {container : Deva} {id : UUID}

theorem resolveParent_mono {deva after : Deva} (grows : deva.names.Extends after.names)
    {path : Bytes} {parent : UUID} (resolved : deva.resolveParent path = .ok parent) :
    after.resolveParent path = .ok parent :=
  Deva.resolveParent_eq_ok.mpr (grows.lookup (Deva.resolveParent_eq_ok.mp resolved))

/-- A turn uses no identifier but its own. -/
theorem unused_of_turn (turn : OpClosure.Turn rsm.container closure next container)
    (apart : closure.request.id? ≠ some id) (unused : rsm.container.Unused id) :
    container.Unused id := by
  cases turn with
  | ignore | unresolved | resolve | unlinked => exact unused
  | link creates present =>
      simp only [Request.id?, creates, Option.map_some, ne_eq, Option.some.injEq] at apart
      exact unused.link present apart
  | record creates =>
      simp only [Request.id?, creates, Option.map_some, ne_eq, Option.some.injEq] at apart
      exact unused.insertRecord apart _

/-- A turn only adds to the namespace. -/
theorem extends_of_turn (turn : OpClosure.Turn rsm.container closure next container)
    (waiting : ∀ id, closure.outcome? = none → closure.request.id? = some id →
      rsm.container.Unused id) :
    rsm.container.names.Extends container.names := by
  cases turn with
  | ignore | unresolved | resolve | unlinked | record => exact Namespace.Extends.refl _
  | link creates present =>
      apply Namespace.create_extends
      exact (waiting _ rfl (by simp [Request.id?, creates])).directory

/-- The identifier that the request of a closure brings is brought by no other closure. -/
theorem Accounted.alone (accounted : Accounted protobuf events rsm)
    (distinct : DistinctIds (requests protobuf events))
    (found : rsm.closures[index]? = some closure)
    (brings : closure.request.id? = some id) : rsm.BringsAlone index id := by
  have nodup := distinct.nodup.sublist (accounted.submitted.filterMap Request.id?)
  have pairwise := List.pairwise_map.mp (List.pairwise_filterMap.mp nodup)
  rw [List.pairwise_iff_getElem] at pairwise
  intro other otherClosure foundOther different otherBrings
  rcases List.getElem?_eq_some_iff.mp found with ⟨inside, rfl⟩
  rcases List.getElem?_eq_some_iff.mp foundOther with ⟨otherInside, rfl⟩
  rcases Nat.lt_or_gt_of_ne different with before | behind
  · exact pairwise index other inside otherInside before id brings id otherBrings rfl
  · exact pairwise other index otherInside inside behind id otherBrings id brings rfl

/-- The identifier that an entry brings is brought by no closure, and is not used. -/
theorem Accounted.new (accounted : Accounted protobuf events rsm)
    (ran : Lib.exec (step protobuf) initial events = some rsm) {request : Request}
    (distinct : DistinctIds (requests protobuf events ++ [request]))
    (brings : request.id? = some id) :
    rsm.container.Unused id ∧ ∀ (other : ℕ) (closure : OpClosure),
      rsm.closures[other]? = some closure → closure.request.id? ≠ some id := by
  have nodup := distinct.nodup
  have notRoot := distinct.notRoot
  simp only [List.filterMap_append, List.filterMap_cons, brings, List.filterMap_nil,
    List.mem_append, List.mem_singleton, not_or] at nodup notRoot
  have notBrought : id ∉ (requests protobuf events).filterMap Request.id? :=
    fun earlier => List.disjoint_of_nodup_append nodup earlier (List.mem_singleton_self id)
  refine ⟨exec_unused ran (Ne.symm notRoot.2) notBrought, ?_⟩
  intro other closure found otherBrings
  apply notBrought
  apply List.mem_filterMap.mpr
  refine ⟨closure.request, ?_, otherBrings⟩
  exact accounted.submitted.subset (List.mem_map_of_mem (List.mem_of_getElem? found))

/-- An entry that is handed to a closure changes nothing yet. -/
theorem Linear.handed (linear : Linear protobuf events rsm) {entry : Entry} {request : Request}
    (same : effectOrder protobuf (events ++ [.apply entry]) = effectOrder protobuf events)
    (unused : ∀ id, request.id? = some id → rsm.container.Unused id) :
    Linear protobuf (events ++ [.apply entry])
      ⟨rsm.container, rsm.closures ++ [⟨request, .started⟩]⟩ where
  represents := by
    rw [same]
    exact linear.represents.handed request
  replied := by
    intro index closure result found settled
    rw [same]
    rcases Lib.getElem?_append_cases found with ⟨-, rfl⟩ | old
    · cases settled
    · exact linear.replied old settled
  waiting := by
    intro index closure id found isOpen brings
    rcases Lib.getElem?_append_cases found with ⟨-, rfl⟩ | old
    · exact unused id brings
    · exact linear.waiting old isOpen brings
  resolved := by
    intro index request parent found
    rcases Lib.getElem?_append_cases found with ⟨-, isNew⟩ | old
    · simp at isNew
    · exact linear.resolved old

/-- An entry that is replayed is served at the end of the order. -/
theorem Linear.replayed (linear : Linear protobuf events rsm)
    (wellFormed : rsm.container.WellFormed) {entry : Entry} {request : Request}
    (new : effectOrder protobuf (events ++ [.apply entry]) =
      effectOrder protobuf events ++ [(none, request)])
    (newIds : rsm.container.NewIds [request])
    (alone : ∀ (other : ℕ) (closure : OpClosure) (id : UUID),
      rsm.closures[other]? = some closure → request.id? = some id →
        closure.request.id? ≠ some id) :
    Linear protobuf (events ++ [.apply entry])
      ⟨(rsm.container.process request).2, rsm.closures⟩ where
  represents := by
    rw [new, served_snoc]
    exact linear.represents.process wellFormed alone
  replied := by
    intro index closure result found settled
    rw [new]
    exact (linear.replied found settled).append _
  waiting := by
    intro index closure id found isOpen brings
    apply Deva.process_unused wellFormed (linear.waiting found isOpen brings)
    exact fun same => alone index closure id found same brings
  resolved := by
    intro index request parent found
    rcases linear.resolved found with ⟨type, creation, creates, resolved⟩
    exact ⟨type, creation, creates,
      resolveParent_mono (Deva.process_extends wellFormed newIds) resolved⟩

/-- What a turn does to the container that is represented: nothing, unless the request takes effect
at the turn. -/
theorem Linear.represents_turned (linear : Linear protobuf events rsm)
    (wellFormed : rsm.container.WellFormed) (found : rsm.closures[index]? = some closure)
    (turn : OpClosure.Turn rsm.container closure next container)
    (alone : ∀ id, closure.request.id? = some id → rsm.BringsAlone index id) :
    (next.outcome? = closure.outcome? ∧
      Represents ⟨container, rsm.closures.set index next⟩
        (served (effectOrder protobuf events))) ∨
    (closure.outcome? = none ∧
      next.outcome? =
        some ((served (effectOrder protobuf events)).process closure.request).1 ∧
      Represents ⟨container, rsm.closures.set index next⟩
        ((served (effectOrder protobuf events)).process closure.request).2) := by
  have represents := linear.represents
  generalize served (effectOrder protobuf events) = deva at represents ⊢
  cases turn with
  | ignore creates =>
      right
      simp only [Deva.process_of_creates_none creates]
      exact ⟨rfl, rfl, represents.passed found (by simp) (by simp)⟩
  | @unresolved request type creation failure creates resolved =>
      right
      have resolvedDeva := (represents.resolveParent creation.path).trans resolved
      simp only [Deva.process_of_creates creates, Deva.createEntry_of_error resolvedDeva]
      exact ⟨rfl, rfl, represents.passed found (by simp) (by simp)⟩
  | resolve creates resolved =>
      left
      exact ⟨rfl, represents.passed found (by simp) (by simp)⟩
  | unlinked creates missing =>
      rcases linear.resolved found with ⟨type, creation, -, resolved⟩
      rcases wellFormed.resolves resolved with ⟨listed, present⟩
      simp [missing] at present
  | @link request type creation parent listed creates present =>
      right
      rcases linear.resolved found with ⟨foundType, foundCreation, foundCreates, resolved⟩
      simp only [creates, Option.some.injEq, Prod.mk.injEq] at foundCreates
      rcases foundCreates with ⟨rfl, rfl⟩
      have resolvedDeva := (represents.resolveParent creation.path).trans resolved
      have presentDeva := present
      rw [← represents.names] at presentDeva
      simp only [Deva.process_of_creates creates,
        Deva.createEntry_of_ok resolvedDeva presentDeva]
      refine ⟨rfl, ?_, ?_⟩
      · simp [OpClosure.outcome?, creates, Except.map]
      · exact represents.link found creates (alone creation.id (by simp [Request.id?, creates]))
  | record creates =>
      left
      refine ⟨by simp [OpClosure.outcome?, creates], ?_⟩
      exact represents.record found creates _

/-- The turn at which a closure takes effect serves its request at the end of the order. -/
theorem Linear.turned (linear : Linear protobuf events rsm)
    (wellFormed : rsm.container.WellFormed) (found : rsm.closures[index]? = some closure)
    (turn : OpClosure.Turn rsm.container closure next container)
    (new : effectOrder protobuf (events ++ [.turn index]) = effectOrder protobuf events ++
      (if closure.outcome?.isNone && next.outcome?.isSome then some (some index, closure.request)
        else none).toList)
    (alone : ∀ id, closure.request.id? = some id → rsm.BringsAlone index id) :
    Linear protobuf (events ++ [.turn index]) ⟨container, rsm.closures.set index next⟩ := by
  have waiting : ∀ {other : ℕ} {otherClosure : OpClosure} {id : UUID},
      (rsm.closures.set index next)[other]? = some otherClosure →
        otherClosure.outcome? = none → otherClosure.request.id? = some id →
          container.Unused id := by
    intro other otherClosure id foundOther isOpen brings
    rcases Lib.getElem?_set_cases foundOther with ⟨rfl, rfl⟩ | ⟨different, old⟩
    · cases turn with
      | ignore | unresolved | unlinked | link | record => cases isOpen
      | resolve => exact linear.waiting found rfl brings
    · apply unused_of_turn turn _ (linear.waiting old isOpen brings)
      exact fun same => alone id same other otherClosure old different brings
  have resolved : ∀ {other : ℕ} {request : Request} {parent : UUID},
      (rsm.closures.set index next)[other]? = some ⟨request, .resolved parent⟩ →
        ∃ type creation, request.creates = some (type, creation) ∧
          container.resolveParent creation.path = .ok parent := by
    intro other request parent foundOther
    rcases Lib.getElem?_set_cases foundOther with ⟨rfl, isNext⟩ | ⟨-, old⟩
    · subst isNext
      cases turn with
      | resolve creates resolved => exact ⟨_, _, creates, resolved⟩
    · rcases linear.resolved old with ⟨type, creation, creates, resolved⟩
      have grows := extends_of_turn turn (fun id isOpen => linear.waiting found isOpen)
      exact ⟨type, creation, creates, resolveParent_mono grows resolved⟩
  rcases linear.represents_turned wellFormed found turn alone with
    ⟨same, represents⟩ | ⟨isOpen, settled, represents⟩
  · have order : effectOrder protobuf (events ++ [.turn index]) = effectOrder protobuf events := by
      cases outcome : closure.outcome? <;> simp [new, same, outcome]
    refine ⟨by rwa [order], ?_, waiting, resolved⟩
    intro other otherClosure result foundOther isSettled
    rw [order]
    rcases Lib.getElem?_set_cases foundOther with ⟨rfl, rfl⟩ | ⟨-, old⟩
    · rw [turn.request_eq]
      exact linear.replied found (same ▸ isSettled)
    · exact linear.replied old isSettled
  · have order : effectOrder protobuf (events ++ [.turn index]) =
        effectOrder protobuf events ++ [(some index, closure.request)] := by
      simp [new, isOpen, settled]
    refine ⟨by rwa [order, served_snoc], ?_, waiting, resolved⟩
    intro other otherClosure result foundOther isSettled
    rw [order]
    rcases Lib.getElem?_set_cases foundOther with ⟨rfl, rfl⟩ | ⟨-, old⟩
    · rw [settled, Option.some.injEq] at isSettled
      rw [turn.request_eq]
      exact Lib.replied_last isSettled
    · exact (linear.replied old isSettled).append _

/-- Every run is linear. -/
theorem exec_linear (ran : Lib.exec (step protobuf) initial events = some rsm)
    (distinct : DistinctIds (requests protobuf events)) : Linear protobuf events rsm := by
  refine Lib.exec_history
    (fun events rsm => DistinctIds (requests protobuf events) → Linear protobuf events rsm)
    ?_ ?_ ran distinct
  · intro _
    refine ⟨⟨rfl, ?_, fun _ _ => rfl⟩, ?_, ?_, ?_⟩ <;> simp [initial]
  · intro events middle event next ranBefore holds stepped distinct
    rw [requests_append] at distinct
    have linear := holds distinct.left
    have accounted := exec_accounted ranBefore
    have wellFormed := exec_wellFormed ranBefore
    have order := effectOrder_snoc ranBefore stepped
    cases step_cases stepped with
    | @handed entry request done =>
        have brought : requests protobuf [.apply entry] = [request] := by
          simp [requests, Event.entry?, Entry.request?, done]
        rw [brought] at distinct
        apply linear.handed (by simp [order, takesEffect, done])
        exact fun id brings => (accounted.new ranBefore distinct brings).1
    | @replayed entry request done carried =>
        have brought : requests protobuf [.apply entry] = [request] := by
          simp [requests, Event.entry?, carried]
        rw [brought] at distinct
        apply linear.replayed wellFormed (by simp [order, takesEffect, done, carried])
          (newIds_of_distinct ranBefore distinct)
        exact fun other closure id found brings =>
          (accounted.new ranBefore distinct brings).2 other closure found
    | turned found turn =>
        rw [takesEffect_of_turn found turn] at order
        apply linear.turned wellFormed found turn order
        exact fun id brings => accounted.alone distinct.left found brings

end Linear

section Results

variable {protobuf : Protobuf} {rsm : Rsm} {events : List Event}

/-- The order of the effects only grows. -/
theorem effectOrder_append (ran : Lib.exec (step protobuf) initial events = some rsm)
    (more : List Event) :
    ∃ behind, effectOrder protobuf (events ++ more) = effectOrder protobuf events ++ behind :=
  ⟨_, Lib.outputs_append ran⟩

theorem served_eq (order : List (Option ℕ × Request)) :
    served order = Deva.fresh.processAll (order.map Prod.snd) := by
  simp only [served, Lib.performed, Deva.processAll, List.foldl_map]

theorem served_wellFormed (order : List (Option ℕ × Request)) : (served order).WellFormed := by
  rw [served_eq]
  exact Deva.processAll_wellFormed Deva.fresh_wellFormed _

/-- The requests of the order have distinct identifiers if those of the run have. -/
theorem Accounted.distinct (accounted : Accounted protobuf events rsm)
    (distinct : DistinctIds (requests protobuf events)) :
    DistinctIds ((effectOrder protobuf events).map Prod.snd) := by
  have perm := accounted.perm.filterMap Request.id?
  apply DistinctIds.left
  constructor
  · exact perm.nodup_iff.mpr distinct.nodup
  · exact fun isRoot => distinct.notRoot (perm.mem_iff.mp isRoot)

/-- The leader is linearizable. In every run, in which the closures take their turns in any order:
every closure that has or is going to have a result has one place in the order of the effects, and
its result is what the request is given when all requests are served in that order; a place is
never taken back; the replica is on its way to the container that the order leads to; and when all
closures have run, it is there, and the order is one of all requests of the run. -/
theorem leader_linearizable (protobuf : Protobuf) {events : List Event} {rsm : Rsm}
    (ran : Lib.exec (step protobuf) initial events = some rsm)
    (distinct : DistinctIds (requests protobuf events)) :
    (∀ (index : ℕ) (closure : OpClosure) (result : Except Failure (Option FileInfo)),
      rsm.closures[index]? = some closure → closure.outcome? = some result →
        ServedWith (effectOrder protobuf events) (some index) closure.request result) ∧
    ((effectOrder protobuf events).filterMap Prod.fst).Nodup ∧
    (∀ more, effectOrder protobuf events <+: effectOrder protobuf (events ++ more)) ∧
    rsm.Represents (served (effectOrder protobuf events)) ∧
    (rsm.Idle → rsm.container = served (effectOrder protobuf events) ∧
      ((effectOrder protobuf events).map Prod.snd).Perm (requests protobuf events)) := by
  have accounted := exec_accounted ran
  have linear := exec_linear ran distinct
  refine ⟨fun _ _ _ => linear.replied, accounted.callers, ?_, linear.represents, ?_⟩
  · intro more
    rcases effectOrder_append ran more with ⟨behind, whole⟩
    exact ⟨behind, whole.symm⟩
  · intro idle
    refine ⟨(linear.represents.eq_container idle).symm, ?_⟩
    have noneOpen : rsm.closures.filterMap OpClosure.unsettled? = [] := by
      apply List.filterMap_eq_nil_iff.mpr
      intro closure member
      rcases idle closure member with ⟨result, isFinished⟩
      simp [OpClosure.unsettled?, OpClosure.outcome?, isFinished]
    simpa only [noneOpen, List.append_nil] using accounted.perm

/-- The directory `/a` and the file `/b`, whose closure overtakes the other one after the lookup. -/
theorem leader_linearizable_overtaken :
    ∃ rsm, Lib.exec (step .wire) initial
        [.apply ⟨[], some (.createDir ⟨[47, 97], ⟨4, 1⟩, 5, 5, 5, 511, 0, 0⟩)⟩,
          .apply ⟨[], some (.createFile ⟨[47, 98], ⟨4, 2⟩, 6, 6, 6, 438, 0, 0⟩)⟩,
          .turn 0, .turn 1, .turn 1, .turn 0, .turn 1, .turn 0] = some rsm ∧
      rsm.container = Deva.fresh.processAll
        [.createFile ⟨[47, 98], ⟨4, 2⟩, 6, 6, 6, 438, 0, 0⟩,
          .createDir ⟨[47, 97], ⟨4, 1⟩, 5, 5, 5, 511, 0, 0⟩] := by
  have ran : Lib.exec (step .wire) initial
      [.apply ⟨[], some (.createDir ⟨[47, 97], ⟨4, 1⟩, 5, 5, 5, 511, 0, 0⟩)⟩,
        .apply ⟨[], some (.createFile ⟨[47, 98], ⟨4, 2⟩, 6, 6, 6, 438, 0, 0⟩)⟩,
        .turn 0, .turn 1, .turn 1, .turn 0, .turn 1, .turn 0] =
      some ⟨Deva.fresh.processAll [.createFile ⟨[47, 98], ⟨4, 2⟩, 6, 6, 6, 438, 0, 0⟩,
          .createDir ⟨[47, 97], ⟨4, 1⟩, 5, 5, 5, 511, 0, 0⟩],
        [⟨.createDir ⟨[47, 97], ⟨4, 1⟩, 5, 5, 5, 511, 0, 0⟩, .finished (.ok (some
            (Deva.newFileInfo .kDirectory ⟨[47, 97], ⟨4, 1⟩, 5, 5, 5, 511, 0, 0⟩)))⟩,
          ⟨.createFile ⟨[47, 98], ⟨4, 2⟩, 6, 6, 6, 438, 0, 0⟩, .finished (.ok (some
            (Deva.newFileInfo .kFile ⟨[47, 98], ⟨4, 2⟩, 6, 6, 6, 438, 0, 0⟩)))⟩]⟩ := rfl
  rcases leader_linearizable .wire ran ⟨by decide, by decide⟩ with ⟨-, -, -, -, whenIdle⟩
  refine ⟨_, ran, (whenIdle ?_).1.trans rfl⟩
  intro closure member
  simp only [List.mem_cons, List.not_mem_nil, or_false] at member
  rcases member with rfl | rfl
  · exact ⟨_, rfl⟩
  · exact ⟨_, rfl⟩

/-- In every state of every run with distinct identifiers the namespace of the leader is a tree that
matches the file table, but for the records that closures are about to add, and when all closures
have run it is one. The closures take the turns of `OpClosure.turn`, each in one step. -/
theorem leader_tree (protobuf : Protobuf) {events : List Event} {rsm : Rsm}
    (ran : Lib.exec (step protobuf) initial events = some rsm)
    (distinct : DistinctIds (requests protobuf events)) :
    (∃ deva, rsm.Represents deva ∧ deva.Tree) ∧ (rsm.Idle → rsm.container.Tree) := by
  have represents := (exec_linear ran distinct).represents
  have tree : (served (effectOrder protobuf events)).Tree := by
    rw [served_eq]
    rcases Deva.processAll_agrees_rooted ((exec_accounted ran).distinct distinct) with
      ⟨agrees, rooted⟩
    exact rooted.tree agrees
  refine ⟨⟨_, represents, tree⟩, ?_⟩
  intro idle
  rwa [← represents.eq_container idle]

/-- The directory `/a` before its record is there. -/
theorem leader_tree_before_record :
    ∃ rsm, Lib.exec (step .wire) initial
        [.apply ⟨[], some (.createDir ⟨[47, 97], ⟨4, 1⟩, 5, 5, 5, 511, 0, 0⟩)⟩, .turn 0,
          .turn 0] = some rsm ∧
      rsm.container.fileInfos = ∅ ∧ ∃ deva, rsm.Represents deva ∧ deva.Tree := by
  have ran : Lib.exec (step .wire) initial
      [.apply ⟨[], some (.createDir ⟨[47, 97], ⟨4, 1⟩, 5, 5, 5, 511, 0, 0⟩)⟩, .turn 0,
        .turn 0] = some _ := rfl
  exact ⟨_, ran, rfl, (leader_tree .wire ran ⟨by decide, by decide⟩).1⟩

end Results

end Rsm

end Pain.Deva
