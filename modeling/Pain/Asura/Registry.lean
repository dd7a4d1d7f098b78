import Pain.Asura.Service
import Pain.Base.UuidText

/-!
# The first registration of an identifier

A registry is meant to keep, for each identifier, the first record registered
under it, to answer `0` to that registration and `EEXIST` to every later one,
and to list the records that it keeps. `FirstWins` and `Listed` say this for
the servers of any registry, in the order in which they were registered.

`RegisterDeva` satisfies both for every history. `RegisterManusya` answers
`EEXIST` to every server, since its lookup finds nothing and is taken for a
hit, and satisfies the law only where no request carries a server.
-/

namespace Pain.Asura

open Common

section Law

variable {Server : Type} (uuid : Server → UUID)

/-- The record is the first one registered under its identifier. -/
def IsFirst (servers : List Server) (server : Server) : Prop :=
  servers.find? (fun other => uuid other = uuid server) = some server

/-- Of the servers of a request, those whose identifier was not registered before are answered with
`0`, the others with `EEXIST`. -/
def FirstWins (earlier servers : List Server) (results : List Result) : Prop :=
  results.length = servers.length ∧
    ∀ before server after, servers = before ++ server :: after →
      ∃ result, results[before.length]? = some result ∧ result.id = uuid server ∧
        result.code =
          if uuid server ∈ (earlier ++ before).map uuid then Errno.EEXIST.number else 0

/-- The listed records are the first ones of their identifiers, each of them once. -/
def Listed (registered listed : List Server) : Prop :=
  (listed.map uuid).Nodup ∧ ∀ server, server ∈ listed ↔ IsFirst uuid registered server

end Law

section Records

variable {Server : Type} (uuid : Server → UUID) (text : UUID.Text) (codec : Codec Server)

/-- The hash of a registry that keeps the first record of every identifier. -/
def records (servers : List Server) : Map Bytes Bytes :=
  servers.foldl
    (fun hash server => hash.insertIfNew (text.str (uuid server)) (codec.serialize server)) ∅

theorem records_append_singleton (servers : List Server) (server : Server) :
    records uuid text codec (servers ++ [server]) =
      (records uuid text codec servers).insertIfNew (text.str (uuid server))
        (codec.serialize server) := by
  simp [records]

/-- Behind an identifier stands the first record that was registered under it. -/
theorem getElem?_records (servers : List Server) (id : UUID) :
    (records uuid text codec servers)[text.str id]? =
      (servers.find? fun server => uuid server = id).map codec.serialize := by
  induction servers using List.reverseRecOn with
  | nil => simp [records]
  | append_singleton servers server ih =>
      simp only [records_append_singleton, List.find?_append,
        Std.ExtTreeMap.getElem?_insertIfNew, Std.ExtTreeMap.mem_iff_isSome_getElem?]
      by_cases same : uuid server = id
      · subst same
        simp only [ih]
        cases servers.find? (fun other => uuid other = uuid server) with
        | none => simp
        | some first => simp
      · simp [same, ih]

theorem exists_of_mem_records {servers : List Server} {field : Bytes}
    (present : field ∈ records uuid text codec servers) :
    ∃ id, field = text.str id := by
  induction servers using List.reverseRecOn with
  | nil => simp [records] at present
  | append_singleton servers server ih =>
      simp only [records_append_singleton, Std.ExtTreeMap.mem_insertIfNew,
        Std.LawfulEqCmp.compare_eq_iff_eq] at present
      rcases present with same | earlier
      · exact ⟨uuid server, same.symm⟩
      · exact ih earlier

theorem isFirst_of_find? {servers : List Server} {id : UUID} {server : Server}
    (found : servers.find? (fun other => uuid other = id) = some server) :
    uuid server = id ∧ IsFirst uuid servers server := by
  have same : uuid server = id := by simpa using List.find?_some found
  exact ⟨same, by simpa [IsFirst, same] using found⟩

/-- The entries of the hash are the first records, each under its identifier. -/
theorem getElem?_records_eq_some_iff (servers : List Server) (field value : Bytes) :
    (records uuid text codec servers)[field]? = some value ↔
      ∃ server, IsFirst uuid servers server ∧ field = text.str (uuid server) ∧
        value = codec.serialize server := by
  constructor
  · intro found
    have present : field ∈ records uuid text codec servers := Map.mem_of_getElem? found
    rcases exists_of_mem_records uuid text codec present with ⟨id, rfl⟩
    simp only [getElem?_records, Option.map_eq_some_iff] at found
    rcases found with ⟨server, first, rfl⟩
    rcases isFirst_of_find? uuid first with ⟨rfl, isFirst⟩
    exact ⟨server, isFirst, rfl, rfl⟩
  · rintro ⟨server, first, rfl, rfl⟩
    simp only [IsFirst] at first
    simp [getElem?_records, first]

/-- The fields of the hash are the texts of the registered identifiers. -/
theorem mem_records_iff (servers : List Server) (id : UUID) :
    text.str id ∈ records uuid text codec servers ↔ id ∈ servers.map uuid := by
  simp [Std.ExtTreeMap.mem_iff_isSome_getElem?, getElem?_records]

/-- A registration of a known identifier changes nothing. -/
theorem records_append_of_mem {servers : List Server} {server : Server}
    (known : uuid server ∈ servers.map uuid) :
    records uuid text codec (servers ++ [server]) = records uuid text codec servers := by
  have present := (mem_records_iff uuid text codec servers (uuid server)).mpr known
  apply Std.ExtTreeMap.ext_getElem?
  intro field
  simp [records_append_singleton, Std.ExtTreeMap.getElem?_insertIfNew, present]

/-- A registration of a new identifier is an insertion. -/
theorem records_append_of_not_mem {servers : List Server} {server : Server}
    (new : uuid server ∉ servers.map uuid) :
    records uuid text codec (servers ++ [server]) =
      (records uuid text codec servers).insert (text.str (uuid server))
        (codec.serialize server) := by
  have absent := mt (mem_records_iff uuid text codec servers (uuid server)).mp new
  apply Std.ExtTreeMap.ext_getElem?
  intro field
  simp [records_append_singleton, Std.ExtTreeMap.getElem?_insertIfNew,
    Std.ExtTreeMap.getElem?_insert, absent]

variable {uuid} {text} {codec}

/-- The lookup finds exactly the registered identifiers. -/
theorem hexists_eq_mem {key : Bytes} {db : DB} {servers : List Server}
    (represents : Represents db key (records uuid text codec servers)) (id : UUID) :
    RocksdbStore.hexists none key (text.str id) db = decide (id ∈ servers.map uuid) := by
  apply Bool.eq_iff_iff.mpr
  simp only [represents.hexists_eq, ← Std.ExtTreeMap.mem_iff_isSome_getElem?, mem_records_iff,
    decide_eq_true_eq]

/-- A list request parses every value that the iterator yields. -/
theorem listServers_eq_map (codec : Codec Server) (key : Bytes) (db : DB) :
    listServers codec key db =
      (RocksdbStore.hgetall key db).elements.map fun entry => codec.parse entry.2 := by
  have appended : ∀ (entries : List (Bytes × Bytes)) (servers : List Server),
      entries.foldl (fun servers entry => servers ++ [codec.parse entry.2]) servers =
        servers ++ entries.map fun entry => codec.parse entry.2 := by
    intro entries servers
    induction entries generalizing servers with
    | nil => simp
    | cons entry entries ih => simp [ih]
  simp [listServers, RocksdbStore.Iterator.whileValid_eq_foldl, appended]

theorem listServers_eq {key : Bytes} {db : DB} {hash : Map Bytes Bytes}
    (represents : Represents db key hash) :
    listServers codec key db = hash.toList.map fun entry => codec.parse entry.2 := by
  simp [listServers_eq_map, represents.elements_hgetall]

/-- A store whose hash keeps the first records lists them. -/
theorem listed_of_represents {key : Bytes} {db : DB} {servers : List Server}
    (represents : Represents db key (records uuid text codec servers)) :
    Listed uuid servers (listServers codec key db) := by
  have entry_iff : ∀ entry, entry ∈ (records uuid text codec servers).toList ↔
      ∃ server, IsFirst uuid servers server ∧
        entry = (text.str (uuid server), codec.serialize server) := by
    rintro ⟨field, value⟩
    simp only [Std.ExtTreeMap.mem_toList_iff_getElem?_eq_some, getElem?_records_eq_some_iff,
      Prod.mk.injEq]
  simp only [listServers_eq represents]
  constructor
  · simp only [List.map_map]
    apply List.pairwise_map.mpr
    apply List.Pairwise.imp_of_mem _ Std.ExtTreeMap.distinct_keys_toList
    intro first second firstMem secondMem distinct same
    rcases (entry_iff first).mp firstMem with ⟨server, -, rfl⟩
    rcases (entry_iff second).mp secondMem with ⟨other, -, rfl⟩
    simp only [Function.comp_apply, codec.parse_serialize] at same
    simp [same] at distinct
  · intro server
    simp only [List.mem_map, entry_iff]
    constructor
    · rintro ⟨entry, ⟨first, isFirst, rfl⟩, rfl⟩
      simpa only [codec.parse_serialize] using isFirst
    · intro isFirst
      exact ⟨_, ⟨server, isFirst, rfl⟩, codec.parse_serialize server⟩

end Records

section Requests

variable {Server : Type} {uuid : Server → UUID}

/-- What the body of the loop guarantees for each server, the loop guarantees for the request. -/
theorem registerEach_firstWins {body : Server → DB → Result × DB} (Inv : List Server → DB → Prop)
    (bodyLaw : ∀ {earlier db} (server : Server), Inv earlier db →
      Inv (earlier ++ [server]) (body server db).2 ∧ (body server db).1.id = uuid server ∧
        (body server db).1.code =
          if uuid server ∈ earlier.map uuid then Errno.EEXIST.number else 0)
    {earlier : List Server} {db : DB} (holds : Inv earlier db) (servers : List Server) :
    FirstWins uuid earlier servers (registerEach body servers db).1 ∧
      Inv (earlier ++ servers) (registerEach body servers db).2 := by
  induction servers generalizing earlier db with
  | nil => exact ⟨⟨rfl, by simp⟩, by simpa [registerEach] using holds⟩
  | cons server servers ih =>
      rcases bodyLaw server holds with ⟨stepped, sameId, code⟩
      rcases ih stepped with ⟨⟨sameLength, later⟩, reached⟩
      refine ⟨⟨by simp [registerEach, sameLength], ?_⟩, by simpa [registerEach] using reached⟩
      intro before chosen after split
      cases before with
      | nil =>
          simp only [List.nil_append, List.cons.injEq] at split
          rcases split with ⟨rfl, -⟩
          exact ⟨_, rfl, sameId, by simpa using code⟩
      | cons first before =>
          simp only [List.cons_append, List.cons.injEq] at split
          rcases split with ⟨rfl, rest⟩
          rcases later before chosen after rest with ⟨result, found, idOf, codeOf⟩
          exact ⟨result, by simpa [registerEach] using found, idOf, by simpa using codeOf⟩

end Requests

/-- The deva servers of a history, in the order of their registration. -/
def devaServers (history : List Request) : List DevaServer :=
  history.flatMap fun request =>
    match request with
    | .registerDeva servers => servers
    | .registerManusya _ => []

/-- The chunk servers of a history, in the order of their registration. -/
def manusyaServers (history : List Request) : List ManusyaServer :=
  history.flatMap fun request =>
    match request with
    | .registerDeva _ => []
    | .registerManusya servers => servers

theorem asuraDeva_apart (field : Bytes) :
    ¬asuraDeva <+: RocksdbStore.makeKey asuraManusya field := by
  simp [asuraDeva, asuraManusya, RocksdbStore.makeKey, List.cons_prefix_cons]

theorem asuraManusya_apart (field : Bytes) :
    ¬asuraManusya <+: RocksdbStore.makeKey asuraDeva field := by
  simp [asuraDeva, asuraManusya, RocksdbStore.makeKey, List.cons_prefix_cons]

section Histories

variable {text : UUID.Text} {devaCodec : Codec DevaServer} {manusyaCodec : Codec ManusyaServer}

theorem storeServer_none (text : UUID.Text) (key : Bytes) (uuid : UUID) (value : Bytes) (db : DB) :
    storeServer text key uuid value none db =
      (⟨uuid, 0, bytesOf "ok"⟩, (RocksdbStore.hset none key (text.str uuid) value db).2) :=
  rfl

/-- One server of `RegisterDeva`: the first registration wins. -/
theorem RegisterDeva.body_firstWins {earlier : List DevaServer} {db : DB} (server : DevaServer)
    (represents : Represents db asuraDeva (records DevaServer.uuid text devaCodec earlier)) :
    Represents (body text devaCodec server db).2 asuraDeva
        (records DevaServer.uuid text devaCodec (earlier ++ [server])) ∧
      (body text devaCodec server db).1.id = server.uuid ∧
      (body text devaCodec server db).1.code =
        if server.uuid ∈ earlier.map DevaServer.uuid then Errno.EEXIST.number else 0 := by
  have looked := hexists_eq_mem represents server.uuid
  by_cases known : server.uuid ∈ earlier.map DevaServer.uuid
  · simp only [known, decide_true] at looked
    simp only [body, check, looked, if_true, records_append_of_mem _ _ _ known, known]
    exact ⟨represents, rfl, rfl⟩
  · simp only [known, decide_false] at looked
    simp only [body, check, looked, Bool.false_eq_true, if_false, store, storeServer_none,
      records_append_of_not_mem _ _ _ known, known, and_true]
    exact represents.hset _ _

/-- One request of `RegisterDeva`: the first registrations win. -/
theorem registerDeva_firstWins {earlier : List DevaServer} {db : DB}
    (represents : Represents db asuraDeva (records DevaServer.uuid text devaCodec earlier))
    (servers : List DevaServer) :
    FirstWins DevaServer.uuid earlier servers (registerDeva text devaCodec servers db).1 ∧
      Represents (registerDeva text devaCodec servers db).2 asuraDeva
        (records DevaServer.uuid text devaCodec (earlier ++ servers)) :=
  registerEach_firstWins
    (fun earlier db => Represents db asuraDeva (records DevaServer.uuid text devaCodec earlier))
    RegisterDeva.body_firstWins represents servers

/-- A register request keeps the hash of a key from which all its own flattened keys are apart. -/
theorem registerEach_represents {Server : Type} {body : Server → DB → Result × DB} {key : Bytes}
    {hash : Map Bytes Bytes}
    (bodyKeeps : ∀ {db} (server : Server), Represents db key hash →
      Represents (body server db).2 key hash)
    {db : DB} (represents : Represents db key hash) (servers : List Server) :
    Represents (registerEach body servers db).2 key hash := by
  induction servers generalizing db with
  | nil => exact represents
  | cons server servers ih => exact ih (bodyKeeps server represents)

/-- `RegisterDeva` leaves the registry of the chunk servers alone. -/
theorem registerDeva_represents_manusya {hash : Map Bytes Bytes} {db : DB}
    (represents : Represents db asuraManusya hash) (servers : List DevaServer) :
    Represents (registerDeva text devaCodec servers db).2 asuraManusya hash := by
  apply registerEach_represents _ represents
  intro db server represents
  simp only [RegisterDeva.body]
  cases RegisterDeva.check text server none db with
  | some result => exact represents
  | none => exact represents.hset_apart (asuraManusya_apart _) _

/-- `RegisterManusya` leaves the registry of the deva servers alone. -/
theorem registerManusya_represents_deva {hash : Map Bytes Bytes} {db : DB}
    (represents : Represents db asuraDeva hash) (servers : List ManusyaServer) :
    Represents (registerManusya text manusyaCodec servers db).2 asuraDeva hash := by
  apply registerEach_represents _ represents
  intro db server represents
  simp only [RegisterManusya.body]
  cases RegisterManusya.check text server none db with
  | some result => exact represents
  | none => exact represents.hset_apart (asuraDeva_apart _) _

theorem serve_append_singleton (history : List Request) (request : Request) :
    serve text devaCodec manusyaCodec (history ++ [request]) =
      handle text devaCodec manusyaCodec (serve text devaCodec manusyaCodec history) request := by
  simp [serve]

/-- After every history, the hash of the deva servers holds the first records. -/
theorem represents_deva (history : List Request) :
    Represents (serve text devaCodec manusyaCodec history) asuraDeva
      (records DevaServer.uuid text devaCodec (devaServers history)) := by
  induction history using List.reverseRecOn with
  | nil => exact Represents.empty asuraDeva
  | append_singleton history request ih =>
      simp only [serve_append_singleton]
      cases request with
      | registerDeva servers =>
          simpa [devaServers, handle] using (registerDeva_firstWins ih servers).2
      | registerManusya servers =>
          simpa [devaServers, handle] using registerManusya_represents_deva ih servers

/-- The registry of the deva servers: over every history of requests, the first registration of an
identifier is answered with `0` and every later one with `EEXIST`, and the first records are
listed. -/
theorem deva_registry (text : UUID.Text) (devaCodec : Codec DevaServer)
    (manusyaCodec : Codec ManusyaServer) (history : List Request) :
    (∀ before servers after, history = before ++ .registerDeva servers :: after →
      FirstWins DevaServer.uuid (devaServers before) servers
        (registerDeva text devaCodec servers (serve text devaCodec manusyaCodec before)).1) ∧
    Listed DevaServer.uuid (devaServers history)
      (listDeva devaCodec (serve text devaCodec manusyaCodec history)) := by
  constructor
  · intro before servers after _
    exact (registerDeva_firstWins (represents_deva before) servers).1
  · exact listed_of_represents (represents_deva history)

/-- The registry of the chunk servers, over one history of requests. -/
def ManusyaRegistry (text : UUID.Text) (devaCodec : Codec DevaServer)
    (manusyaCodec : Codec ManusyaServer) (history : List Request) : Prop :=
  (∀ before servers after, history = before ++ .registerManusya servers :: after →
    FirstWins ManusyaServer.uuid (manusyaServers before) servers
      (registerManusya text manusyaCodec servers (serve text devaCodec manusyaCodec before)).1) ∧
  Listed ManusyaServer.uuid (manusyaServers history)
    (listManusya manusyaCodec (serve text devaCodec manusyaCodec history))

/-- On an empty registry, `RegisterManusya` takes every server for a known one. -/
theorem RegisterManusya.body_of_empty {db : DB} (server : ManusyaServer)
    (represents : Represents db asuraManusya ∅) :
    body text manusyaCodec server db = (existed text server.uuid server.ip server.port, db) := by
  simp [body, check, represents.hexists_eq]

theorem registerManusya_represents_manusya {db : DB} (represents : Represents db asuraManusya ∅)
    (servers : List ManusyaServer) :
    Represents (registerManusya text manusyaCodec servers db).2 asuraManusya ∅ := by
  apply registerEach_represents _ represents
  intro db server represents
  simp only [RegisterManusya.body_of_empty server represents]
  exact represents

/-- After every history, the registry of the chunk servers is empty. -/
theorem represents_manusya (history : List Request) :
    Represents (serve text devaCodec manusyaCodec history) asuraManusya ∅ := by
  induction history using List.reverseRecOn with
  | nil => exact Represents.empty asuraManusya
  | append_singleton history request ih =>
      simp only [serve_append_singleton]
      cases request with
      | registerDeva servers => exact registerDeva_represents_manusya ih servers
      | registerManusya servers => exact registerManusya_represents_manusya ih servers

/-- A history with a chunk server has a first one. -/
theorem exists_first_server {history : List Request} {carried : List ManusyaServer}
    (requested : .registerManusya carried ∈ history) (nonempty : carried ≠ []) :
    ∃ before server servers after,
      history = before ++ .registerManusya (server :: servers) :: after ∧
        manusyaServers before = [] := by
  induction history with
  | nil => simp at requested
  | cons request history ih =>
      have later : manusyaServers [request] = [] → .registerManusya carried ∈ history →
          ∃ before server servers after,
            request :: history = before ++ .registerManusya (server :: servers) :: after ∧
              manusyaServers before = [] := by
        intro none requestedLater
        rcases ih requestedLater with ⟨before, server, servers, after, rfl, noneBefore⟩
        refine ⟨request :: before, server, servers, after, rfl, ?_⟩
        simp only [manusyaServers, List.flatMap_cons, List.append_eq_nil_iff] at none noneBefore ⊢
        exact ⟨none.1, noneBefore⟩
      cases request with
      | registerDeva servers =>
          exact later rfl (by simpa using requested)
      | registerManusya servers =>
          cases servers with
          | nil =>
              apply later rfl
              rcases List.mem_cons.mp requested with same | requestedLater
              · cases same
                exact absurd rfl nonempty
              · exact requestedLater
          | cons server servers => exact ⟨[], server, servers, history, rfl, rfl⟩

/-- The registry of the chunk servers keeps the law exactly where no request carries a server. -/
theorem manusya_registry_iff (text : UUID.Text) (devaCodec : Codec DevaServer)
    (manusyaCodec : Codec ManusyaServer) (history : List Request) :
    ManusyaRegistry text devaCodec manusyaCodec history ↔
      ∀ servers, .registerManusya servers ∈ history → servers = [] := by
  constructor
  · rintro ⟨codes, -⟩ carried requested
    by_contra nonempty
    rcases exists_first_server requested nonempty with
      ⟨before, server, servers, after, rfl, noneBefore⟩
    have answers := codes before (server :: servers) after rfl
    rcases answers.2 [] server servers rfl with ⟨result, found, -, code⟩
    simp only [registerManusya, registerEach, List.length_nil, List.getElem?_cons_zero,
      Option.some.injEq, RegisterManusya.body_of_empty server (represents_manusya before)] at found
    simp [← found, existed, noneBefore, Errno.number] at code
  · intro none
    have empty : manusyaServers history = [] := by
      apply List.flatMap_eq_nil_iff.mpr
      intro request requested
      cases request with
      | registerDeva servers => rfl
      | registerManusya servers => exact none servers requested
    constructor
    · intro before servers after split
      have noServers := none servers (by simp [split])
      subst noServers
      exact ⟨rfl, by simp⟩
    · simp only [empty]
      exact @listed_of_represents _ _ text _ _ _ [] (represents_manusya history)

/-- One chunk server in one request, the first ever: it is answered with `EEXIST`. -/
theorem not_manusya_registry_first_server :
    ¬∀ history : List Request,
      ManusyaRegistry .canonical DevaServer.wire ManusyaServer.wire history := by
  intro registry
  have answers := (registry [.registerManusya [⟨some ⟨0, 1⟩, .empty, 8000, none⟩]]).1 [] _ [] rfl
  rcases answers.2 [] _ [] rfl with ⟨result, found, -, code⟩
  simp only [registerManusya, registerEach, List.length_nil, List.getElem?_cons_zero,
    Option.some.injEq, RegisterManusya.body_of_empty _
      (@represents_manusya .canonical DevaServer.wire ManusyaServer.wire [])] at found
  simp [← found, existed, manusyaServers, Errno.number] at code

end Histories

end Pain.Asura
