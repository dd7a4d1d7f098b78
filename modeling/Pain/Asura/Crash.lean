import Pain.Asura.Concurrent

/-!
# Registrations and crashes

`hset` writes with `disableWAL` and without `sync`, so that what it has written
is in memory only until RocksDB flushes, or until the store is closed. A crash
loses it. This file follows one process of the topology service after another
on the same path: the handlers of `Service` take their turns, and their calls
into the store may fail; RocksDB flushes whenever it chooses; a process ends by
a clean close, once `Join` has seen every handler finish, or by a crash at any
point, also in the middle of a request.

A record that was stored and reported with `0` before a flush or a close is on
the disk from then on. It is lost from there only where another record is
stored over it, by two handlers that race or after a lookup that failed.
-/

namespace Pain.Asura

open Common

/-- A process of the service, and what of its store is on the disk. -/
structure Process where
  service : Service
  disk : DB

namespace Process

/-- The first process on an empty path. -/
def fresh : Process := ⟨.fresh, ∅⟩

/-- What can happen to the service, to its store and to the process. -/
inductive Event where
  /-- A new request, or a turn of one of the handlers. -/
  | serve (event : Service.Event)
  /-- RocksDB writes its memory to the disk. -/
  | flush
  /-- `Server::Join`, `RocksdbStore::close`, and `RocksdbStore::open` by the next process. -/
  | close
  /-- A crash, and `RocksdbStore::open` by the next process. -/
  | crash

/-- One event; a process is not closed while one of its handlers has servers to answer. -/
def step (text : UUID.Text) (codec : Codec DevaServer) (process : Process) :
    Event → Option Process
  | .serve event =>
      (process.service.step text codec event).map fun service => { process with service }
  | .flush => some { process with disk := process.service.db }
  | .close =>
      if ∀ handler ∈ process.service.handlers, handler.servers = [] then
        some ⟨⟨process.service.db, []⟩, process.service.db⟩
      else none
  | .crash => some ⟨⟨process.disk, []⟩, process.disk⟩

/-- The event makes durable what has been written. -/
def Event.IsSync : Event → Prop
  | .flush | .close => True
  | _ => False

end Process

/-- The hash of the deva servers holds the record of the server. -/
def Stored (text : UUID.Text) (codec : Codec DevaServer) (server : DevaServer) (db : DB) : Prop :=
  RocksdbStore.hget none asuraDeva (text.str server.uuid) db = .ok (codec.serialize server)

/-- The hash of the deva servers holds some record of the identifier. -/
def Present (text : UUID.Text) (id : UUID) (db : DB) : Prop :=
  RocksdbStore.hexists none asuraDeva (text.str id) db = true

/-- Every entry of the hash of the deva servers is a server, stored under its identifier. -/
def Filed (text : UUID.Text) (codec : Codec DevaServer) (db : DB) : Prop :=
  ∀ flat value, db[flat]? = some value → asuraDeva <+: flat →
    ∃ server : DevaServer, flat = RocksdbStore.makeKey asuraDeva (text.str server.uuid) ∧
      value = codec.serialize server

section Stores

variable {text : UUID.Text} {codec : Codec DevaServer} {db : DB} {server : DevaServer}

theorem filed_empty : Filed text codec ∅ := by
  intro flat value found
  simp at found

/-- A write of a server files it under its identifier. -/
theorem Filed.hset (filed : Filed text codec db) (server : DevaServer) :
    Filed text codec (RocksdbStore.hset none asuraDeva (text.str server.uuid)
      (codec.serialize server) db).2 := by
  intro flat value found starts
  have performed := Call.getElem?_perform
    (.hset asuraDeva (text.str server.uuid) (codec.serialize server)) db flat
  simp only [Call.perform, Call.pair, Call.written] at performed
  rw [performed] at found
  by_cases same : RocksdbStore.makeKey asuraDeva (text.str server.uuid) = flat
  · simp only [same, if_true, Option.some.injEq] at found
    exact ⟨server, same.symm, found.symm⟩
  · simp only [same, if_false] at found
    exact filed flat value found starts

/-- A write of a server takes no identifier away. -/
theorem Present.hset {id : UUID} (present : Present text id db) (server : DevaServer) :
    Present text id (RocksdbStore.hset none asuraDeva (text.str server.uuid)
      (codec.serialize server) db).2 := by
  simp only [Present, RocksdbStore.hexists, hget_hset] at present ⊢
  by_cases same : text.str server.uuid = text.str id
  · simp [same]
  · simpa [same] using present

theorem stored_hset : Stored text codec server (RocksdbStore.hset none asuraDeva
    (text.str server.uuid) (codec.serialize server) db).2 := by
  simp [Stored, hget_hset]

theorem Stored.present (stored : Stored text codec server db) : Present text server.uuid db :=
  Service.hexists_of_hget stored

/-- `ListDeva` parses the values behind all keys that start with `asura_deva`. -/
theorem mem_listDeva_iff :
    server ∈ listDeva codec db ↔
      ∃ flat value, db[flat]? = some value ∧ asuraDeva <+: flat ∧ codec.parse value = server := by
  simp [listDeva, listServers_eq_map, mem_elements_hgetall, and_assoc]

theorem hget_eq_ok_iff {id : UUID} {value : Bytes} :
    RocksdbStore.hget none asuraDeva (text.str id) db = .ok value ↔
      db[RocksdbStore.makeKey asuraDeva (text.str id)]? = some value := by
  simp only [RocksdbStore.hget, DB.get]
  cases db[RocksdbStore.makeKey asuraDeva (text.str id)]? with
  | none => simp
  | some found => simp

/-- A record that is stored is listed. -/
theorem Stored.listed (stored : Stored text codec server db) : server ∈ listDeva codec db :=
  mem_listDeva_iff.mpr ⟨_, _, hget_eq_ok_iff.mp stored, isPrefix_makeKey _ _,
    codec.parse_serialize server⟩

/-- For an identifier that is present, a server with this identifier is listed. -/
theorem Filed.listed {id : UUID} (filed : Filed text codec db) (present : Present text id db) :
    ∃ server ∈ listDeva codec db, server.uuid = id := by
  simp only [Present, RocksdbStore.hexists] at present
  cases found : RocksdbStore.hget none asuraDeva (text.str id) db with
  | error failure => simp [found] at present
  | ok value =>
      have entry := hget_eq_ok_iff.mp found
      rcases filed _ _ entry (isPrefix_makeKey _ _) with ⟨server, sameKey, rfl⟩
      have sameId := text.str_inj.mp (makeKey_injective asuraDeva sameKey)
      subst sameId
      exact ⟨server, Stored.listed (hget_eq_ok_iff.mpr entry), rfl⟩

end Stores

namespace Service

/-- A turn does not store another record over the record of the server. -/
def Spares (text : UUID.Text) (codec : Codec DevaServer) (server : DevaServer)
    (service : Service) : Event → Prop
  | .start _ => True
  | .turn index fault =>
      ∀ handler other rest, service.handlers[index]? = some handler →
        handler.servers = other :: rest → handler.checked = true → fault = none →
          other.uuid = server.uuid → Stored text codec server service.db → other = server

variable {text : UUID.Text} {codec : Codec DevaServer} {service next : Service} {event : Event}

/-- No step of the service files a record under the identifier of another. -/
theorem step_filed (filed : Filed text codec service.db)
    (stepped : service.step text codec event = some next) : Filed text codec next.db := by
  cases step_cases stepped with
  | silent sameStore sameReports safe => exact sameStore ▸ filed
  | write running current checked written reports => exact written ▸ filed.hset _

/-- No step of the service takes an identifier away. -/
theorem step_present {id : UUID} (present : Present text id service.db)
    (stepped : service.step text codec event = some next) : Present text id next.db := by
  cases step_cases stepped with
  | silent sameStore sameReports safe => exact sameStore ▸ present
  | write running current checked written reports => exact written ▸ present.hset _

/-- A step that spares the record of a server leaves it where it is. -/
theorem step_stored {server : DevaServer} (stored : Stored text codec server service.db)
    (spares : service.Spares text codec server event)
    (stepped : service.step text codec event = some next) : Stored text codec server next.db := by
  cases step_cases stepped with
  | silent sameStore sameReports safe => exact sameStore ▸ stored
  | @write index handler other rest _ running current checked written reports =>
      by_cases sameId : other.uuid = server.uuid
      · have same := spares handler other rest running current checked rfl sameId stored
        subst same
        exact written ▸ stored_hset
      · simpa [Stored, written, hget_hset, text.str_inj, sameId] using stored

/-- Every report is of an identifier that has a record. -/
def Backed (text : UUID.Text) (service : Service) : Prop :=
  ∀ index server, service.Reported index server → Present text server.uuid service.db

theorem backed_of_unstarted (db : DB) : Backed text ⟨db, []⟩ := by
  intro index server reported
  simp [Reported] at reported

/-- A report is made with the write of its record, and no record goes away. -/
theorem step_backed (backed : service.Backed text)
    (stepped : service.step text codec event = some next) : next.Backed text := by
  intro index server reported
  cases step_cases stepped with
  | silent sameStore sameReports safe =>
      exact sameStore ▸ backed index server ((sameReports index server).mp reported)
  | write running current checked written reports =>
      rcases (reports index server).mp reported with earlier | ⟨-, rfl⟩
      · exact written ▸ (backed index server earlier).hset _
      · have stored : Stored text codec server next.db := written ▸ stored_hset
        exact stored.present

/-- The record of the server is there, once it has been reported. -/
def Keeps (text : UUID.Text) (codec : Codec DevaServer) (server : DevaServer)
    (service : Service) : Prop :=
  ∀ index, service.Reported index server → Stored text codec server service.db

theorem keeps_of_unstarted (server : DevaServer) (db : DB) : Keeps text codec server ⟨db, []⟩ := by
  intro index reported
  simp [Reported] at reported

/-- A report of the server is made with the write of its record, and a step that spares the record
leaves it. -/
theorem step_keeps {server : DevaServer} (keeps : service.Keeps text codec server)
    (spares : service.Spares text codec server event)
    (stepped : service.step text codec event = some next) :
    next.Keeps text codec server := by
  intro index reported
  by_cases earlier : service.Reported index server
  · exact step_stored (keeps index earlier) spares stepped
  · cases step_cases stepped with
    | silent sameStore sameReports safe =>
        exact absurd ((sameReports index server).mp reported) earlier
    | write running current checked written reports =>
        rcases (reports index server).mp reported with before | ⟨-, rfl⟩
        · exact absurd before earlier
        · exact written ▸ stored_hset

end Service

namespace Process

section Steps

variable {text : UUID.Text} {codec : Codec DevaServer} {process next : Process} {event : Event}

/-- No event stores another record over the record of the server. -/
def Spares (text : UUID.Text) (codec : Codec DevaServer) (server : DevaServer)
    (process : Process) : Event → Prop
  | .serve event => process.service.Spares text codec server event
  | _ => True

/-- What an event can do: the service takes a step, or the store is written to the disk, or a new
process starts from the disk. -/
inductive Step (text : UUID.Text) (codec : Codec DevaServer) (process : Process) :
    Event → Process → Prop where
  | serve {event : Service.Event} {service : Service}
      (served : process.service.step text codec event = some service) :
      Step text codec process (.serve event) { process with service }
  | flush : Step text codec process .flush ⟨process.service, process.service.db⟩
  | close : Step text codec process .close ⟨⟨process.service.db, []⟩, process.service.db⟩
  | crash : Step text codec process .crash ⟨⟨process.disk, []⟩, process.disk⟩

/-- Every event is one of the four kinds. -/
theorem step_cases (stepped : process.step text codec event = some next) :
    Step text codec process event next := by
  cases event with
  | serve event =>
      simp only [step, Option.map_eq_some_iff] at stepped
      rcases stepped with ⟨service, served, rfl⟩
      exact .serve served
  | flush =>
      simp only [step, Option.some.injEq] at stepped
      exact stepped ▸ .flush
  | close =>
      simp only [step, Option.ite_none_right_eq_some, Option.some.injEq] at stepped
      exact stepped.2 ▸ .close
  | crash =>
      simp only [step, Option.some.injEq] at stepped
      exact stepped ▸ .crash

/-- The store has the property, and so has the disk. -/
def Durable (holds : DB → Prop) (process : Process) : Prop :=
  holds process.service.db ∧ holds process.disk

/-- What every step of the service keeps of the store, every event keeps of the store and of the
disk. -/
theorem step_durable {holds : DB → Prop} (durable : process.Durable holds)
    (kept : ∀ {inner service}, event = .serve inner →
      process.service.step text codec inner = some service →
        holds process.service.db → holds service.db)
    (stepped : process.step text codec event = some next) : next.Durable holds := by
  cases step_cases stepped with
  | serve served => exact ⟨kept rfl served durable.1, durable.2⟩
  | flush => exact ⟨durable.1, durable.1⟩
  | close => exact ⟨durable.1, durable.1⟩
  | crash => exact ⟨durable.2, durable.2⟩

/-- What the store has when it is written to the disk, the store and the disk have from then on. -/
theorem durable_of_sync {holds : DB → Prop} (isSync : event.IsSync)
    (stepped : process.step text codec event = some next) (here : holds process.service.db) :
    next.Durable holds := by
  cases step_cases stepped with
  | serve | crash => exact isSync.elim
  | flush | close => exact ⟨here, here⟩

/-- What every step of the service keeps, and what holds where no handler has been started, every
event keeps. -/
theorem step_service {holds : Service → Prop} (here : holds process.service)
    (unstarted : ∀ db, holds ⟨db, []⟩)
    (kept : ∀ {inner service}, event = .serve inner →
      process.service.step text codec inner = some service → holds service)
    (stepped : process.step text codec event = some next) : holds next.service := by
  cases step_cases stepped with
  | serve served => exact kept rfl served
  | flush => exact here
  | close => exact unstarted _
  | crash => exact unstarted _

end Steps

section Runs

variable {text : UUID.Text} {codec : Codec DevaServer} {process final : Process}
  {events : List Event} {server : DevaServer}

/-- In every run, the store and the disk hold records under their own identifiers only. -/
theorem exec_filed (ran : Lib.exec (step text codec) fresh events = some final) :
    final.Durable (Filed text codec) := by
  refine Lib.exec_invariant (Durable (Filed text codec)) ?_ ⟨filed_empty, filed_empty⟩ ran
  intro before event after durable stepped
  exact step_durable durable (fun _ served filed => Service.step_filed filed served) stepped

/-- An identifier that is on the disk stays, through all crashes. -/
theorem exec_present {id : UUID} (durable : process.Durable (Present text id))
    (ran : Lib.exec (step text codec) process events = some final) :
    final.Durable (Present text id) := by
  refine Lib.exec_invariant (Durable (Present text id)) ?_ durable ran
  intro before event after beforeDurable stepped
  exact step_durable beforeDurable (fun _ served here => Service.step_present here served) stepped

/-- A record that is on the disk stays, through all crashes, if the run spares it. -/
theorem exec_stored (durable : process.Durable (Stored text codec server))
    (spares : Lib.Guarded (step text codec) (Spares text codec server) process events)
    (ran : Lib.exec (step text codec) process events = some final) :
    final.Durable (Stored text codec server) := by
  refine Lib.exec_preserves (Durable (Stored text codec server)) ?_ durable spares ran
  intro before event after beforeDurable here stepped
  refine step_durable beforeDurable ?_ stepped
  rintro inner service rfl served stored
  exact Service.step_stored stored here served

/-- In every run, each report of the present process has a record. -/
theorem exec_backed (ran : Lib.exec (step text codec) fresh events = some final) :
    final.service.Backed text := by
  refine Lib.exec_invariant (fun process => process.service.Backed text) ?_
    (Service.backed_of_unstarted ∅) ran
  intro before event after backed stepped
  exact step_service backed Service.backed_of_unstarted
    (fun _ served => Service.step_backed backed served) stepped

/-- In every run that spares the record of a server, it is there once it has been reported. -/
theorem exec_keeps
    (spares : Lib.Guarded (step text codec) (Spares text codec server) fresh events)
    (ran : Lib.exec (step text codec) fresh events = some final) :
    final.service.Keeps text codec server := by
  refine Lib.exec_preserves (fun process => process.service.Keeps text codec server) ?_
    (Service.keeps_of_unstarted server ∅) spares ran
  intro before event after keeps here stepped
  refine step_service keeps (Service.keeps_of_unstarted server) ?_ stepped
  rintro inner service rfl served
  exact Service.step_keeps keeps here served

/-- Every server that a handler has stored and reported with `0` before a flush or a clean close is
listed in every state from then on, whatever crashes there are, as long as no handler stores another
record over it; a server of its identifier is listed in any case. -/
theorem listed_after_crash (text : UUID.Text) (codec : Codec DevaServer)
    {before after : List Event} {process final : Process}
    (ran : Lib.exec (step text codec) fresh before = some process)
    {index : ℕ} {server : DevaServer} (reported : process.service.Reported index server)
    {sync : Event} (isSync : sync.IsSync)
    (ranOn : Lib.exec (step text codec) process (sync :: after) = some final) :
    (∃ listed ∈ listDeva codec final.service.db, listed.uuid = server.uuid) ∧
      (Lib.Guarded (step text codec) (Spares text codec server) fresh (before ++ sync :: after) →
        server ∈ listDeva codec final.service.db) := by
  have ranAll : Lib.exec (step text codec) fresh (before ++ sync :: after) = some final := by
    rw [Lib.exec_append, ran]
    exact ranOn
  have filed := (exec_filed ranAll).1
  rw [Lib.exec_cons, Option.bind_eq_some_iff] at ranOn
  rcases ranOn with ⟨synced, stepped, rest⟩
  constructor
  · have present := exec_backed ran index server reported
    exact filed.listed (exec_present (durable_of_sync isSync stepped present) rest).1
  · intro spares
    rcases spares.split ran with ⟨earlier, later⟩
    have stored := exec_keeps earlier ran index reported
    exact (exec_stored (durable_of_sync isSync stepped stored) (later.2 synced stepped) rest).1
      |>.listed

/-- A request of two servers, of which the first is stored, then a flush and a crash before the
second is looked up, so that no response is sent: the first is listed. -/
theorem listed_after_crash_flushed :
    ∃ final, Lib.exec (step .canonical DevaServer.wire) fresh
        ([.serve (.start [⟨some ⟨0, 1⟩, .empty, 8000⟩, ⟨some ⟨0, 2⟩, .empty, 8001⟩]),
          .serve (.turn 0 none), .serve (.turn 0 none)] ++ .flush :: [.crash]) = some final ∧
      ⟨some ⟨0, 1⟩, .empty, 8000⟩ ∈ listDeva DevaServer.wire final.service.db := by
  refine ⟨_, rfl, (@listed_after_crash .canonical DevaServer.wire
    [.serve (.start [⟨some ⟨0, 1⟩, .empty, 8000⟩, ⟨some ⟨0, 2⟩, .empty, 8001⟩]),
      .serve (.turn 0 none), .serve (.turn 0 none)] [.crash] _ _ rfl 0
    ⟨some ⟨0, 1⟩, .empty, 8000⟩ ⟨_, rfl, ⟨⟨0, 1⟩, 0, bytesOf "ok"⟩, .head _, rfl⟩
    .flush trivial rfl).2 ?_⟩
  refine Lib.guarded_cons trivial rfl (Lib.guarded_cons ?_ rfl (Lib.guarded_cons ?_ rfl
    (Lib.guarded_cons trivial rfl (Lib.guarded_cons trivial rfl trivial))))
  · rintro handler other rest found current checked - - -
    cases found
    cases checked
  · rintro handler other rest found current - - - -
    cases found
    cases current
    rfl

/-- One server, whose request is finished with `0`, and a crash before anything is flushed: nothing
is listed. -/
theorem not_listed_after_crash_unflushed :
    ¬∀ (events : List Event) (process final : Process) (index : ℕ) (handler : Handler)
        (server : DevaServer),
      Lib.exec (step .canonical DevaServer.wire) fresh events = some process →
        process.service.handlers[index]? = some handler → handler.servers = [] →
          handler.Reported server →
            Lib.exec (step .canonical DevaServer.wire) process [.crash] = some final →
              server ∈ listDeva DevaServer.wire final.service.db := by
  intro survives
  have listed := survives [.serve (.start [⟨some ⟨0, 1⟩, .empty, 8000⟩]), .serve (.turn 0 none),
    .serve (.turn 0 none)] _ fresh 0 _ ⟨some ⟨0, 1⟩, .empty, 8000⟩ rfl rfl rfl
    ⟨⟨⟨0, 1⟩, 0, bytesOf "ok"⟩, .head _, rfl⟩ rfl
  have nothing : listDeva DevaServer.wire fresh.service.db = [] := rfl
  simp only [nothing, List.not_mem_nil] at listed

end Runs

end Process

end Pain.Asura
