import Pain.Asura.Registry
import Pain.Lib.Run

/-!
# Concurrent registrations

The handlers of register requests run in parallel, with nothing around the
lookup and the write of a server. A handler takes two turns for a server that
is not found, one for `hexists` and one for `hset`, and the turns of different
handlers alternate in any order. Either call into the store may fail; to
`hexists` a failed read is the same as an absent server.
-/

namespace Pain.Asura

open Common

/-- A running `RegisterDeva`: the servers that it has not answered yet, whether the first of them
has been looked up and not been found, and the answers so far. -/
structure Handler where
  servers : List DevaServer
  checked : Bool
  answers : List (DevaServer × Result)

namespace Handler

/-- A handler at the start of its request. -/
def start (servers : List DevaServer) : Handler := ⟨servers, false, []⟩

/-- The handler goes on to its next server. -/
def advance (handler : Handler) (server : DevaServer) (result : Result) : Handler where
  servers := handler.servers.tail
  checked := false
  answers := handler.answers ++ [(server, result)]

/-- One call of a handler into the store, which may fail. -/
def turn (text : UUID.Text) (codec : Codec DevaServer) (fault : Option String)
    (handler : Handler) (db : DB) : Handler × DB :=
  match handler.servers with
  | [] => (handler, db)
  | server :: _ =>
      if handler.checked then
        let (result, db) := RegisterDeva.store text codec server fault db
        (handler.advance server result, db)
      else
        match RegisterDeva.check text server fault db with
        | some result => (handler.advance server result, db)
        | none => ({ handler with checked := true }, db)

/-- The handler has answered the server with `0`. -/
def Reported (handler : Handler) (server : DevaServer) : Prop :=
  ∃ result, (server, result) ∈ handler.answers ∧ result.code = 0

/-- The reports after an answer are the earlier ones, and one of the server if it is `0`. -/
theorem reported_advance (handler : Handler) (server : DevaServer) (result : Result)
    (other : DevaServer) :
    (handler.advance server result).Reported other ↔
      handler.Reported other ∨ other = server ∧ result.code = 0 := by
  simp only [Reported, advance, List.mem_append, List.mem_singleton, Prod.mk.injEq]
  constructor
  · rintro ⟨answer, earlier | ⟨rfl, rfl⟩, zero⟩
    · exact .inl ⟨answer, earlier, zero⟩
    · exact .inr ⟨rfl, zero⟩
  · rintro (⟨answer, earlier, zero⟩ | ⟨rfl, zero⟩)
    · exact ⟨answer, .inl earlier, zero⟩
    · exact ⟨result, .inr ⟨rfl, rfl⟩, zero⟩

/-- What a turn can do: it leaves the store and the reports alone, or it writes the server that was
looked up and reports it. -/
inductive Turn (text : UUID.Text) (codec : Codec DevaServer) (fault : Option String)
    (handler : Handler) (db : DB) : Handler × DB → Prop where
  | silent {after : Handler}
      (sameReports : ∀ server, after.Reported server ↔ handler.Reported server)
      (harmless : handler.servers = [] ∨ handler.checked = false ∨ fault ≠ none) :
      Turn text codec fault handler db (after, db)
  | write {after : Handler} {server : DevaServer} {rest : List DevaServer}
      (current : handler.servers = server :: rest) (checked : handler.checked = true)
      (noFault : fault = none)
      (reports : ∀ other, after.Reported other ↔ handler.Reported other ∨ other = server) :
      Turn text codec fault handler db (after, (RocksdbStore.hset none asuraDeva
        (text.str server.uuid) (codec.serialize server) db).2)

/-- Every turn is one of the two kinds. -/
theorem turn_cases (text : UUID.Text) (codec : Codec DevaServer) (fault : Option String)
    (handler : Handler) (db : DB) :
    Turn text codec fault handler db (handler.turn text codec fault db) := by
  rcases handler with ⟨_ | ⟨server, rest⟩, checked, answers⟩
  · exact .silent (fun _ => Iff.rfl) (.inl rfl)
  · cases checked with
    | false =>
        simp only [turn, Bool.false_eq_true, if_false, RegisterDeva.check]
        cases RocksdbStore.hexists fault asuraDeva (text.str server.uuid) db with
        | true =>
            refine .silent ?_ (.inr (.inl rfl))
            intro other
            simp [reported_advance, existed, Errno.number]
        | false => exact .silent (fun _ => Iff.rfl) (.inr (.inl rfl))
    | true =>
        simp only [turn, if_true, RegisterDeva.store]
        cases fault with
        | some failure =>
            refine .silent ?_ (.inr (.inr (by simp)))
            intro other
            simp [reported_advance, storeServer, RocksdbStore.hset, DB.put, answered, Errno.number]
        | none =>
            simp only [storeServer_none]
            refine .write rfl rfl rfl ?_
            intro other
            simp [reported_advance]

/-- A handler that runs alone, with store calls that succeed, answers as `RegisterDeva` does. -/
theorem exists_turns_alone (text : UUID.Text) (codec : Codec DevaServer)
    (servers : List DevaServer) (answers : List (DevaServer × Result)) (db : DB) :
    ∃ turns, (fun (handler, db) => turn text codec none handler db)^[turns]
        (⟨servers, false, answers⟩, db) =
      (⟨[], false, answers ++ servers.zip (registerDeva text codec servers db).1⟩,
        (registerDeva text codec servers db).2) := by
  induction servers generalizing answers db with
  | nil => exact ⟨0, by simp [registerDeva, registerEach]⟩
  | cons server servers ih =>
      simp only [registerDeva, registerEach] at ih ⊢
      cases checked : RegisterDeva.check text server none db with
      | some result =>
          rcases ih (answers ++ [(server, result)]) db with ⟨turns, reached⟩
          refine ⟨turns + 1, ?_⟩
          simp only [Function.iterate_succ_apply]
          simpa [turn, checked, advance, RegisterDeva.body] using reached
      | none =>
          rcases ih (answers ++ [(server, (RegisterDeva.store text codec server none db).1)])
            (RegisterDeva.store text codec server none db).2 with ⟨turns, reached⟩
          refine ⟨turns + 2, ?_⟩
          simp only [Function.iterate_succ_apply]
          simpa [turn, checked, advance, RegisterDeva.body] using reached

end Handler

/-- The store and the handlers that have been started. -/
structure Service where
  db : DB
  handlers : List Handler

namespace Service

/-- A service with an empty store. -/
def fresh : Service := ⟨∅, []⟩

/-- What can happen: a request arrives, or a handler makes its next call into the store, which fails
if there is a fault. -/
inductive Event where
  | start (servers : List DevaServer)
  | turn (index : ℕ) (fault : Option String)

/-- A new request, or a turn of one of the handlers. -/
def step (text : UUID.Text) (codec : Codec DevaServer) (service : Service) :
    Event → Option Service
  | .start servers => some { service with handlers := service.handlers ++ [.start servers] }
  | .turn index fault =>
      match service.handlers[index]? with
      | none => some service
      | some handler =>
          let (handler, db) := handler.turn text codec fault service.db
          some ⟨db, service.handlers.set index handler⟩

/-- The handler has answered the server with `0`. -/
def Reported (service : Service) (index : ℕ) (server : DevaServer) : Prop :=
  ∃ handler, service.handlers[index]? = some handler ∧ handler.Reported server

/-- Every record that was answered with `0` is in the store, and no two handlers have answered `0`
for one identifier. -/
structure Undisturbed (text : UUID.Text) (codec : Codec DevaServer) (service : Service) : Prop where
  kept : ∀ index server, service.Reported index server →
    RocksdbStore.hget none asuraDeva (text.str server.uuid) service.db =
      .ok (codec.serialize server)
  unique : ∀ index server otherIndex other, service.Reported index server →
    service.Reported otherIndex other → server.uuid = other.uuid → index = otherIndex

/-- A turn does not write a server whose identifier is in the store, unless the handler itself has
put this very record there. -/
def Safe (text : UUID.Text) (service : Service) : Event → Prop
  | .start _ => True
  | .turn index fault =>
      ∀ handler server rest, service.handlers[index]? = some handler →
        handler.servers = server :: rest → handler.checked = true → fault = none →
          RocksdbStore.hexists none asuraDeva (text.str server.uuid) service.db = false ∨
            service.Reported index server

section Steps

variable {text : UUID.Text} {codec : Codec DevaServer}

/-- What a step can do: it leaves the store and the reports alone, or it writes the server that a
handler has looked up and reports it. -/
inductive Step (text : UUID.Text) (codec : Codec DevaServer) (service : Service) :
    Event → Service → Prop where
  | silent {event : Event} {next : Service} (sameStore : next.db = service.db)
      (sameReports : ∀ index server, next.Reported index server ↔ service.Reported index server)
      (safe : service.Safe text event) : Step text codec service event next
  | write {index : ℕ} {handler : Handler} {server : DevaServer} {rest : List DevaServer}
      {next : Service} (running : service.handlers[index]? = some handler)
      (current : handler.servers = server :: rest) (checked : handler.checked = true)
      (written : next.db = (RocksdbStore.hset none asuraDeva (text.str server.uuid)
        (codec.serialize server) service.db).2)
      (reports : ∀ otherIndex other, next.Reported otherIndex other ↔
        service.Reported otherIndex other ∨ otherIndex = index ∧ other = server) :
      Step text codec service (.turn index none) next

theorem reported_iff {service : Service} {index : ℕ} {handler : Handler}
    (running : service.handlers[index]? = some handler) (server : DevaServer) :
    service.Reported index server ↔ handler.Reported server := by
  simp [Reported, running]

/-- A turn of one handler leaves the reports of the others. -/
theorem reported_set {service : Service} {index : ℕ} {handler after : Handler}
    (running : service.handlers[index]? = some handler) (db : DB) {otherIndex : ℕ}
    {server : DevaServer} :
    Reported ⟨db, service.handlers.set index after⟩ otherIndex server ↔
      otherIndex = index ∧ after.Reported server ∨
        otherIndex ≠ index ∧ service.Reported otherIndex server := by
  have bound := (List.getElem?_eq_some_iff.mp running).1
  by_cases same : otherIndex = index
  · subst same
    simp [Reported, bound]
  · simp [Reported, List.getElem?_set_ne (Ne.symm same), same]

/-- A new request has no reports. -/
theorem reported_start (service : Service) (servers : List DevaServer) (index : ℕ)
    (server : DevaServer) :
    Reported { service with handlers := service.handlers ++ [.start servers] } index server ↔
      service.Reported index server := by
  constructor
  · rintro ⟨handler, found, reported⟩
    simp only [List.getElem?_append] at found
    split at found
    · exact ⟨handler, found, reported⟩
    · simp only [List.getElem?_singleton, Option.ite_none_right_eq_some, Option.some.injEq] at found
      rcases found with ⟨-, rfl⟩
      simp [Handler.Reported, Handler.start] at reported
  · rintro ⟨handler, found, reported⟩
    have bound := (List.getElem?_eq_some_iff.mp found).1
    exact ⟨handler, by simp [List.getElem?_append_left bound, found], reported⟩

/-- Every step is one of the two kinds. -/
theorem step_cases {service next : Service} {event : Event}
    (stepped : service.step text codec event = some next) : Step text codec service event next := by
  cases event with
  | start servers =>
      simp only [step, Option.some.injEq] at stepped
      subst stepped
      exact .silent rfl (reported_start service servers) trivial
  | turn index fault =>
      cases running : service.handlers[index]? with
      | none =>
          simp only [step, running, Option.some.injEq] at stepped
          subst stepped
          refine .silent rfl (fun _ _ => Iff.rfl) ?_
          intro handler server rest found
          simp [running] at found
      | some handler =>
          simp only [step, running, Option.some.injEq] at stepped
          have turned := handler.turn_cases text codec fault service.db
          generalize handler.turn text codec fault service.db = outcome at stepped turned
          cases turned with
          | silent sameReports harmless =>
              subst stepped
              refine .silent rfl ?_ ?_
              · intro otherIndex server
                simp only [reported_set running, sameReports]
                by_cases same : otherIndex = index
                · simp [same, reported_iff running]
                · simp [same]
              · intro found server rest foundAt current checked noFault
                simp only [running, Option.some.injEq] at foundAt
                subst foundAt
                rcases harmless with done | unchecked | failed
                · simp [done] at current
                · simp [unchecked] at checked
                · exact absurd noFault failed
          | write current checked noFault reports =>
              subst stepped
              subst noFault
              refine .write running current checked rfl ?_
              intro otherIndex other
              simp only [reported_set running, reports]
              by_cases same : otherIndex = index
              · simp [same, reported_iff running]
              · simp [same]

/-- Every identifier in the store was answered with `0` by some handler. -/
def Accounted (text : UUID.Text) (service : Service) : Prop :=
  ∀ id, RocksdbStore.hexists none asuraDeva (text.str id) service.db = true →
    ∃ index server, service.Reported index server ∧ server.uuid = id

/-- A step keeps every identifier in the store accounted for. -/
theorem step_accounted {service next : Service} {event : Event}
    (accounted : service.Accounted text) (stepped : service.step text codec event = some next) :
    next.Accounted text := by
  intro id present
  cases step_cases stepped with
  | silent sameStore sameReports safe =>
      simp only [sameStore] at present
      rcases accounted id present with ⟨index, server, reported, same⟩
      exact ⟨index, server, (sameReports index server).mpr reported, same⟩
  | @write index handler server rest _ running current checked written reports =>
      simp only [written, RocksdbStore.hexists, hget_hset, text.str_inj] at present
      by_cases same : server.uuid = id
      · exact ⟨index, server, (reports index server).mpr (.inr ⟨rfl, rfl⟩), same⟩
      · simp only [same, if_false] at present
        rcases accounted id present with ⟨otherIndex, other, reported, sameId⟩
        exact ⟨otherIndex, other, (reports otherIndex other).mpr (.inl reported), sameId⟩

theorem hexists_of_hget {key field value : Bytes} {db : DB}
    (found : RocksdbStore.hget none key field db = .ok value) :
    RocksdbStore.hexists none key field db = true := by
  simp [RocksdbStore.hexists, found]

theorem Undisturbed.of_sameReports {service next : Service}
    (undisturbed : service.Undisturbed text codec) (sameStore : next.db = service.db)
    (sameReports : ∀ index server, next.Reported index server ↔ service.Reported index server) :
    next.Undisturbed text codec where
  kept index server reported :=
    sameStore ▸ undisturbed.kept index server ((sameReports index server).mp reported)
  unique index server otherIndex other reported otherReported :=
    undisturbed.unique index server otherIndex other ((sameReports index server).mp reported)
      ((sameReports otherIndex other).mp otherReported)

section Write

variable {service next : Service} {index : ℕ} {server : DevaServer}

/-- Of an identifier that was free, or that the handler had itself reported, the only report after
the write is that of the handler. -/
theorem Undisturbed.eq_of_reported (undisturbed : service.Undisturbed text codec)
    (reports : ∀ otherIndex other, next.Reported otherIndex other ↔
      service.Reported otherIndex other ∨ otherIndex = index ∧ other = server)
    (free : RocksdbStore.hexists none asuraDeva (text.str server.uuid) service.db = false ∨
      service.Reported index server)
    {otherIndex : ℕ} {other : DevaServer} (reported : next.Reported otherIndex other)
    (sameId : other.uuid = server.uuid) : otherIndex = index ∧ other = server := by
  rcases (reports otherIndex other).mp reported with earlier | same
  · have stored := undisturbed.kept otherIndex other earlier
    rcases free with absent | ownReported
    · simp [← sameId, hexists_of_hget stored] at absent
    · have ownStored := undisturbed.kept index server ownReported
      simp only [sameId, ownStored, Except.ok.injEq] at stored
      exact ⟨undisturbed.unique otherIndex other index server earlier ownReported sameId,
        (codec.serialize_injective stored).symm⟩
  · exact same

/-- A write adds reports for its own identifier only. -/
theorem reported_of_uuid_ne
    (reports : ∀ otherIndex other, next.Reported otherIndex other ↔
      service.Reported otherIndex other ∨ otherIndex = index ∧ other = server)
    {otherIndex : ℕ} {other : DevaServer} (reported : next.Reported otherIndex other)
    (different : other.uuid ≠ server.uuid) : service.Reported otherIndex other := by
  rcases (reports otherIndex other).mp reported with earlier | ⟨-, rfl⟩
  · exact earlier
  · exact absurd rfl different

/-- A write of a free identifier, or of the record that the handler has stored, disturbs nothing. -/
theorem Undisturbed.write (undisturbed : service.Undisturbed text codec)
    (written : next.db = (RocksdbStore.hset none asuraDeva (text.str server.uuid)
      (codec.serialize server) service.db).2)
    (reports : ∀ otherIndex other, next.Reported otherIndex other ↔
      service.Reported otherIndex other ∨ otherIndex = index ∧ other = server)
    (free : RocksdbStore.hexists none asuraDeva (text.str server.uuid) service.db = false ∨
      service.Reported index server) : next.Undisturbed text codec where
  kept := by
    intro otherIndex other reported
    simp only [written, hget_hset, text.str_inj]
    by_cases sameId : other.uuid = server.uuid
    · rcases undisturbed.eq_of_reported reports free reported sameId with ⟨-, rfl⟩
      simp
    · simp only [Ne.symm sameId, if_false]
      exact undisturbed.kept otherIndex other (reported_of_uuid_ne reports reported sameId)
  unique := by
    intro firstIndex first secondIndex second firstReported secondReported sameId
    by_cases ofServer : first.uuid = server.uuid
    · have firstAt := (undisturbed.eq_of_reported reports free firstReported ofServer).1
      have secondAt :=
        (undisturbed.eq_of_reported reports free secondReported (sameId ▸ ofServer)).1
      exact firstAt.trans secondAt.symm
    · exact undisturbed.unique firstIndex first secondIndex second
        (reported_of_uuid_ne reports firstReported ofServer)
        (reported_of_uuid_ne reports secondReported (sameId ▸ ofServer)) sameId

/-- A write keeps every report true exactly if the identifier was free, or the handler had put the
same record there. -/
theorem undisturbed_write_iff (accounted : service.Accounted text)
    (undisturbed : service.Undisturbed text codec)
    (written : next.db = (RocksdbStore.hset none asuraDeva (text.str server.uuid)
      (codec.serialize server) service.db).2)
    (reports : ∀ otherIndex other, next.Reported otherIndex other ↔
      service.Reported otherIndex other ∨ otherIndex = index ∧ other = server) :
    next.Undisturbed text codec ↔
      RocksdbStore.hexists none asuraDeva (text.str server.uuid) service.db = false ∨
        service.Reported index server := by
  constructor
  · intro nextUndisturbed
    have own : next.Reported index server := (reports index server).mpr (.inr ⟨rfl, rfl⟩)
    by_cases present :
        RocksdbStore.hexists none asuraDeva (text.str server.uuid) service.db = true
    · rcases accounted server.uuid present with ⟨otherIndex, other, reported, sameId⟩
      have later := (reports otherIndex other).mpr (.inl reported)
      have sameIndex := nextUndisturbed.unique otherIndex other index server later own sameId
      have stored := nextUndisturbed.kept otherIndex other later
      simp only [sameId, nextUndisturbed.kept index server own, Except.ok.injEq] at stored
      have sameServer := codec.serialize_injective stored
      exact .inr (sameServer ▸ sameIndex ▸ reported)
    · exact .inl (by simpa using present)
  · exact undisturbed.write written reports

end Write

/-- A step keeps the reports true exactly if it is safe. -/
theorem step_undisturbed_iff {service next : Service} {event : Event}
    (accounted : service.Accounted text) (undisturbed : service.Undisturbed text codec)
    (stepped : service.step text codec event = some next) :
    next.Undisturbed text codec ↔ service.Safe text event := by
  cases step_cases stepped with
  | silent sameStore sameReports safe =>
      exact ⟨fun _ => safe, fun _ => undisturbed.of_sameReports sameStore sameReports⟩
  | @write index handler server rest _ running current checked written reports =>
      simp only [undisturbed_write_iff accounted undisturbed written reports]
      constructor
      · intro free found other otherRest foundAt otherCurrent _ _
        simp only [running, Option.some.injEq] at foundAt
        subst foundAt
        simp only [current, List.cons.injEq] at otherCurrent
        exact otherCurrent.1 ▸ free
      · intro safe
        exact safe handler server rest running current checked rfl

/-- No step is refused. -/
theorem exists_step (service : Service) (event : Event) :
    ∃ next, service.step text codec event = some next := by
  cases event with
  | start servers => exact ⟨_, rfl⟩
  | turn index fault =>
      simp only [step]
      cases service.handlers[index]? with
      | none => exact ⟨_, rfl⟩
      | some handler => exact ⟨_, rfl⟩

theorem fresh_accounted : fresh.Accounted text := by
  intro id present
  simp [fresh, RocksdbStore.hexists, RocksdbStore.hget, DB.get] at present

theorem fresh_undisturbed : fresh.Undisturbed text codec where
  kept index server reported := by simp [Reported, fresh] at reported
  unique index server otherIndex other reported := by simp [Reported, fresh] at reported

/-- In every interleaving of handlers, with store calls that fail at any point, all states keep the
records that were answered with `0` exactly if no step writes over one. -/
theorem undisturbed_iff_safe (text : UUID.Text) (codec : Codec DevaServer) (events : List Event) :
    Lib.Throughout (step text codec) (Undisturbed text codec) fresh events ↔
      Lib.Guarded (step text codec) (Safe text) fresh events := by
  apply Lib.throughout_iff_guarded (Accounted text) (Undisturbed text codec) _ fresh_accounted
    fresh_undisturbed (fun _ _ => trivial)
  intro service event accounted _ undisturbed
  rcases exists_step service event with ⟨next, stepped⟩
  exact ⟨next, stepped, step_accounted accounted stepped,
    step_undisturbed_iff accounted undisturbed stepped⟩

/-- Two requests for one identifier, each looked up before either is written: both are answered
with `0`. -/
theorem not_undisturbed_race :
    ¬∀ events : List Event, Lib.Throughout (step .canonical DevaServer.wire)
      (Undisturbed .canonical DevaServer.wire) fresh events := by
  intro throughout
  have race := throughout [.start [⟨some ⟨0, 1⟩, .empty, 8000⟩],
    .start [⟨some ⟨0, 1⟩, .empty, 8001⟩], .turn 0 none, .turn 1 none, .turn 0 none, .turn 1 none]
  have same := (race.last rfl).unique 0 ⟨some ⟨0, 1⟩, .empty, 8000⟩ 1 ⟨some ⟨0, 1⟩, .empty, 8001⟩
    ⟨_, rfl, ⟨⟨0, 1⟩, 0, bytesOf "ok"⟩, .head _, rfl⟩
    ⟨_, rfl, ⟨⟨0, 1⟩, 0, bytesOf "ok"⟩, .head _, rfl⟩ rfl
  cases same

end Steps

end Service

end Pain.Asura
