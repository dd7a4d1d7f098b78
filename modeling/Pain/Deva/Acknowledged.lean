import Pain.Deva.Linearized
import Pain.Deva.UniqueNames

/-!
# What a client was told stays true

A creation is acknowledged when its closure has finished. This file proves that
nothing that happens on the leader afterwards takes it back: the record and the
entry stay where they are, and every path that leads somewhere leads to the same
place in every later state.
-/

set_option linter.dupNamespace false

namespace Pain.Deva

namespace Rsm

variable {protobuf : Protobuf} {rsm final : Rsm} {events more : List Event}

theorem walk_of_holds {names : Namespace} {directory : UUID} {entry : DirEntry} {type : FileType}
    (holds : names.Holds directory entry) :
    ∃ found, names.walk [entry.name] directory type = .ok found := by
  rcases holds with ⟨listed, present, member⟩
  have isNamed : (listed.find? (fun other => other.name = entry.name)).isSome :=
    List.find?_isSome.mpr ⟨entry, member, by simp⟩
  rcases Option.isSome_iff_exists.mp isNamed with ⟨first, isFirst⟩
  refine ⟨(first.inode, first.type), ?_⟩
  exact Namespace.walk_cons_eq_ok.mpr ⟨listed, first, present, isFirst, fun _ => rfl, rfl⟩

theorem newIds_of_served {history coming : List (Option ℕ × Request)}
    (distinct : DistinctIds ((history ++ coming).map Prod.snd)) :
    (served history).NewIds (coming.map Prod.snd) := by
  rw [List.map_append] at distinct
  rw [served_eq]
  constructor
  · intro request member type creation creates
    apply distinct.unused
    exact List.mem_filterMap.mpr ⟨request, member, by simp [Request.id?, creates]⟩
  · have nodup := distinct.nodup
    rw [List.filterMap_append] at nodup
    exact nodup.of_append_right

theorem served_append (history coming : List (Option ℕ × Request)) :
    served (history ++ coming) = (served history).processAll (coming.map Prod.snd) := by
  simp only [served_eq, List.map_append, Deva.processAll_append]

/-- Requests leave the records of identifiers that they do not bring. -/
theorem processAll_record_eq {deva : Deva} (wellFormed : deva.WellFormed)
    {coming : List Request} {id : UUID} (notBrought : id ∉ coming.filterMap Request.id?) :
    (deva.processAll coming).fileInfos[id]? = deva.fileInfos[id]? := by
  induction coming generalizing deva with
  | nil => rfl
  | cons request coming ih =>
      simp only [List.mem_filterMap, List.mem_cons, not_exists, not_and, forall_eq_or_imp]
        at notBrought
      have later : id ∉ coming.filterMap Request.id? := by
        simpa only [List.mem_filterMap, not_exists, not_and] using notBrought.2
      rw [Deva.processAll_cons, ih (Deva.process_wellFormed wellFormed request) later]
      rcases wellFormed.process_cases request with
        ⟨same, -⟩ | ⟨type, creation, parent, listed, creates, -, -, processed⟩
      · rw [same]
      · have different := notBrought.1
        simp only [Request.id?, creates, Option.map_some, Option.some.injEq] at different
        simp [processed, Std.ExtTreeMap.getElem?_insert, different]

/-- What a creation that succeeded leaves behind, whatever requests are processed after it. -/
theorem process_stays {deva : Deva} (wellFormed : deva.WellFormed) {request : Request}
    {coming : List Request} {info : FileInfo} (newIds : deva.NewIds (request :: coming))
    (given : (deva.process request).1 = .ok (some info)) :
    ∃ type creation parent, request.creates = some (type, creation) ∧
      info = Deva.newFileInfo type creation ∧
      (deva.processAll (request :: coming)).fileInfos[creation.id]? = some info ∧
      (deva.processAll (request :: coming)).resolveParent creation.path = .ok parent ∧
      (deva.processAll (request :: coming)).names.Holds parent
        ⟨creation.id, filename creation.path, type⟩ := by
  rcases wellFormed.process_cases request with
    ⟨-, notCreated, -⟩ | ⟨type, creation, parent, listed, creates, resolved, present, processed⟩
  · exact absurd given (notCreated info)
  have unused := newIds.unused request List.mem_cons_self type creation creates
  have isInfo : info = Deva.newFileInfo type creation := by
    rw [processed, Except.ok.injEq, Option.some.injEq] at given
    exact given.symm
  have listedAfter := Deva.process_listed wellFormed creates unused resolved present
  have wellFormedAfter := Deva.process_wellFormed wellFormed request
  have grows := Deva.process_extends wellFormed newIds
  have growsAfter := Deva.processAll_extends wellFormedAfter (newIds.process wellFormed)
  have notBrought : creation.id ∉ coming.filterMap Request.id? := by
    have nodup := newIds.nodup
    simp only [List.filterMap_cons, Request.id?, creates, Option.map_some,
      List.nodup_cons] at nodup
    exact nodup.1
  refine ⟨type, creation, parent, creates, isInfo, ?_, ?_, ?_⟩
  · rw [Deva.processAll_cons, processAll_record_eq wellFormedAfter notBrought, processed, isInfo]
    simp
  · exact resolveParent_mono (grows.trans growsAfter) resolved
  · rcases growsAfter parent _ listedAfter with ⟨added, presentAfter⟩
    exact ⟨_, presentAfter, by simp⟩

/-- What a run goes on with takes nothing away that resolves. -/
theorem exec_extends (ran : Lib.exec (step protobuf) initial events = some rsm)
    (ranMore : Lib.exec (step protobuf) rsm more = some final)
    (distinct : DistinctIds (requests protobuf (events ++ more))) :
    rsm.container.names.Extends final.container.names := by
  have ranAll : Lib.exec (step protobuf) initial (events ++ more) = some final := by
    rw [Lib.exec_append, ran, Option.bind_some, ranMore]
  have distinctBefore := (requests_append events more ▸ distinct).left
  have before := (exec_linear ran distinctBefore).represents
  have after := (exec_linear ranAll distinct).represents
  have distinctAll := (exec_accounted ranAll).distinct distinct
  rcases effectOrder_append ran more with ⟨behind, whole⟩
  rw [whole] at after distinctAll
  rw [← before.names, ← after.names, served_append]
  exact Deva.processAll_extends (served_wellFormed _) (newIds_of_served distinctAll)

/-- The result of a closure is final. -/
theorem exec_finished {index : ℕ} {request : Request} {result : Except Failure (Option FileInfo)}
    (finished : rsm.closures[index]? = some ⟨request, .finished result⟩)
    (ranMore : Lib.exec (step protobuf) rsm more = some final) :
    final.closures[index]? = some ⟨request, .finished result⟩ := by
  apply Lib.exec_invariant
    (fun rsm => rsm.closures[index]? = some ⟨request, .finished result⟩) _ finished ranMore
  intro middle event next here stepped
  have inside := (List.getElem?_eq_some_iff.mp here).1
  cases step_cases stepped with
  | handed => simpa only [List.getElem?_append_left inside] using here
  | replayed => exact here
  | @turned other closure next container found turn =>
      have different : other ≠ index := by
        rintro rfl
        rw [here, Option.some.injEq] at found
        exact turn.unfinished ⟨result, by rw [← found]⟩
      simpa only [List.getElem?_set_ne different] using here

/-- What the success of a creation says about the replica: the record is in the file table, the
directory of the path is there and lists the entry, and a path that can be found again leads
somewhere. -/
structure Created (rsm : Rsm) (type : FileType) (creation : CreateRequest) : Prop where
  record : rsm.container.fileInfos[creation.id]? = some (Deva.newFileInfo type creation)
  entry : ∃ parent,
    rsm.container.names.lookup (parentPath creation.path) = .ok (parent, .kDirectory) ∧
      rsm.container.names.Holds parent ⟨creation.id, filename creation.path, type⟩
  resolves : 0 ∉ creation.path → creation.path.getLast? ≠ some slash →
    ∃ found, rsm.container.names.lookup creation.path = .ok found

/-- A closure that has succeeded has created its entry and its record. -/
theorem created_of_finished (ran : Lib.exec (step protobuf) initial events = some rsm)
    (distinct : DistinctIds (requests protobuf events)) {index : ℕ} {request : Request}
    {info : FileInfo}
    (finished : rsm.closures[index]? = some ⟨request, .finished (.ok (some info))⟩) :
    ∃ type creation, request.creates = some (type, creation) ∧
      info = Deva.newFileInfo type creation ∧ rsm.Created type creation := by
  have accounted := exec_accounted ran
  have linear := exec_linear ran distinct
  have distinctOrder := accounted.distinct distinct
  have represents := linear.represents
  rcases linear.replied finished rfl with ⟨front, back, order, given⟩
  rw [order] at represents distinctOrder
  rw [served_append] at represents
  rcases process_stays (served_wellFormed front) (newIds_of_served distinctOrder) given with
    ⟨type, creation, parent, creates, isInfo, recorded, resolved, holds⟩
  have alone := accounted.alone distinct finished
    (by simp [Request.id?, creates] : request.id? = some creation.id)
  rw [← List.map_cons, represents.resolveParent] at resolved
  rw [← List.map_cons, represents.names] at holds
  refine ⟨type, creation, creates, isInfo, ?_, ?_, ?_⟩
  · rw [← represents.others creation.id, List.map_cons, recorded, isInfo]
    intro other closure found isLinked
    by_cases same : index = other
    · subst same
      rw [finished, Option.some.injEq] at found
      subst found
      cases isLinked
    · exact alone other closure found same
  · exact ⟨parent, Deva.resolveParent_eq_ok.mp resolved, holds⟩
  · intro noNul named
    rw [Deva.lookup_eq_walk resolved noNul named (Namespace.Extends.refl _)]
    exact walk_of_holds holds

/-- A creation that a client was told of stays, in a run whose requests bring distinct identifiers.
Once a closure has succeeded, in every later state of the run its record is in the file table, the
directory of its path is there and lists its entry, and every path that led somewhere when it
succeeded, its own among them, leads to the same place. The closures take the turns of
`OpClosure.turn`, each in one step. -/
theorem acknowledged_persists (protobuf : Protobuf) {events more : List Event} {rsm final : Rsm}
    {index : ℕ} {request : Request} {info : FileInfo}
    (ran : Lib.exec (step protobuf) initial events = some rsm)
    (ranMore : Lib.exec (step protobuf) rsm more = some final)
    (distinct : DistinctIds (requests protobuf (events ++ more)))
    (acknowledged : rsm.closures[index]? = some ⟨request, .finished (.ok (some info))⟩) :
    ∃ type creation, request.creates = some (type, creation) ∧
      info = Deva.newFileInfo type creation ∧ rsm.Created type creation ∧
      final.Created type creation ∧ ∀ path found, rsm.container.names.lookup path = .ok found →
        final.container.names.lookup path = .ok found := by
  have ranAll : Lib.exec (step protobuf) initial (events ++ more) = some final := by
    rw [Lib.exec_append, ran, Option.bind_some, ranMore]
  have distinctBefore := (requests_append events more ▸ distinct).left
  rcases created_of_finished ran distinctBefore acknowledged with
    ⟨type, creation, creates, isInfo, createdBefore⟩
  rcases created_of_finished ranAll distinct (exec_finished acknowledged ranMore) with
    ⟨_, _, createsAfter, -, createdAfter⟩
  rw [creates, Option.some.injEq, Prod.mk.injEq] at createsAfter
  rcases createsAfter with ⟨rfl, rfl⟩
  refine ⟨type, creation, creates, isInfo, createdBefore, createdAfter, ?_⟩
  exact fun path found => (exec_extends ran ranMore distinct).lookup

/-- A second creation of the file `/a` does not take the first one away: the path still leads to the
first. -/
theorem acknowledged_persists_same_path :
    ∃ rsm final, Lib.exec (step .wire) initial
        [.apply ⟨[], some (.createFile ⟨[47, 97], ⟨4, 1⟩, 5, 5, 5, 438, 0, 0⟩)⟩, .turn 0, .turn 0,
          .turn 0] = some rsm ∧
      Lib.exec (step .wire) rsm
        [.apply ⟨[], some (.createFile ⟨[47, 97], ⟨4, 2⟩, 6, 6, 6, 438, 0, 0⟩)⟩, .turn 1, .turn 1,
          .turn 1] = some final ∧
      final.container.names.lookup [47, 97] = .ok (⟨4, 1⟩, .kFile) := by
  have ran : Lib.exec (step .wire) initial
      [.apply ⟨[], some (.createFile ⟨[47, 97], ⟨4, 1⟩, 5, 5, 5, 438, 0, 0⟩)⟩, .turn 0, .turn 0,
        .turn 0] =
      some ⟨Deva.fresh.processAll [.createFile ⟨[47, 97], ⟨4, 1⟩, 5, 5, 5, 438, 0, 0⟩],
        [⟨.createFile ⟨[47, 97], ⟨4, 1⟩, 5, 5, 5, 438, 0, 0⟩, .finished (.ok (some
          (Deva.newFileInfo .kFile ⟨[47, 97], ⟨4, 1⟩, 5, 5, 5, 438, 0, 0⟩)))⟩]⟩ := rfl
  have ranMore : Lib.exec (step .wire)
      ⟨Deva.fresh.processAll [.createFile ⟨[47, 97], ⟨4, 1⟩, 5, 5, 5, 438, 0, 0⟩],
        [⟨.createFile ⟨[47, 97], ⟨4, 1⟩, 5, 5, 5, 438, 0, 0⟩, .finished (.ok (some
          (Deva.newFileInfo .kFile ⟨[47, 97], ⟨4, 1⟩, 5, 5, 5, 438, 0, 0⟩)))⟩]⟩
      [.apply ⟨[], some (.createFile ⟨[47, 97], ⟨4, 2⟩, 6, 6, 6, 438, 0, 0⟩)⟩, .turn 1, .turn 1,
        .turn 1] = some _ := rfl
  rcases @acknowledged_persists .wire _ _ _ _ 0 _ _ ran ranMore ⟨by decide, by decide⟩ rfl with
    ⟨type, creation, -, -, -, -, stays⟩
  exact ⟨_, _, ran, ranMore, stays [47, 97] (⟨4, 1⟩, .kFile) (by decide)⟩

end Rsm

end Pain.Deva
