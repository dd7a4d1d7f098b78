import Pain.Asura.Proto
import Pain.Common.Hashes

/-!
# The topology service

`AsuraServiceImpl` keeps two registries in one `RocksdbStore`, the deva servers
under the key `asura_deva` and the chunk servers under `asura_manusya`. A
register request is a loop over its servers: each is looked up by its
identifier and, if the lookup allows it, stored under it. A list request parses
every value that the iterator over the key yields.

The two register handlers are twins but for one sign: `RegisterManusya` goes on
to store a server only if the lookup has found it.
-/

namespace Pain.Asura

open Common

/-- The bytes of a text. -/
def bytesOf (text : String) : Bytes :=
  text.toUTF8.data.toList

/-- `ASURA_DEVA`, the text `asura_deva`. -/
def asuraDeva : Bytes := [97, 115, 117, 114, 97, 95, 100, 101, 118, 97]

/-- `ASURA_MANUSYA`, the text `asura_manusya`. -/
def asuraManusya : Bytes := [97, 115, 117, 114, 97, 95, 109, 97, 110, 117, 115, 121, 97]

/-- The answer for one server of a register request. -/
structure Result where
  id : UUID
  code : ℕ
  message : Bytes
deriving DecidableEq

/-- The identifier of a server; a missing one reads as zero. -/
def DevaServer.uuid (server : DevaServer) : UUID :=
  server.id.getD ⟨0, 0⟩

/-- The identifier of a server; a missing one reads as zero. -/
def ManusyaServer.uuid (server : ManusyaServer) : UUID :=
  server.id.getD ⟨0, 0⟩

/-- The answer where the registration stops at the lookup. -/
def existed (text : UUID.Text) (uuid : UUID) (ip : ProtoString) (port : UInt32) : Result where
  id := uuid
  code := Errno.EEXIST.number
  message := text.str uuid ++ bytesOf " existed. ip:" ++ ip.val ++ bytesOf ", port:" ++
    bytesOf (toString port.toNat)

/-- The answer after `hset`. -/
def answered (uuid : UUID) : Status → Result
  | .ok () => ⟨uuid, 0, bytesOf "ok"⟩
  | .error failure => ⟨uuid, failure.code.number, bytesOf failure.message⟩

section Registries

variable {Server : Type}

/-- The write of a server. -/
def storeServer (text : UUID.Text) (key : Bytes) (uuid : UUID) (value : Bytes)
    (fault : Option String) (db : DB) : Result × DB :=
  let (status, db) := RocksdbStore.hset fault key (text.str uuid) value db
  (answered uuid status, db)

/-- The loop of a register request; `body` answers one server. -/
def registerEach (body : Server → DB → Result × DB) : List Server → DB → List Result × DB
  | [], db => ([], db)
  | server :: servers, db =>
      let (result, db) := body server db
      let (results, db) := registerEach body servers db
      (result :: results, db)

/-- The loop of a list request. -/
def listServers (codec : Codec Server) (key : Bytes) (db : DB) : List Server :=
  (RocksdbStore.hgetall key db).whileValid
    (fun servers _ value => servers ++ [codec.parse value]) []

end Registries

namespace RegisterDeva

/-- The lookup of a server; with an answer the loop continues with the next server. -/
def check (text : UUID.Text) (server : DevaServer) (fault : Option String) (db : DB) :
    Option Result :=
  if RocksdbStore.hexists fault asuraDeva (text.str server.uuid) db then
    some (existed text server.uuid server.ip server.port)
  else none

/-- The write of a server. -/
def store (text : UUID.Text) (codec : Codec DevaServer) (server : DevaServer) :
    Option String → DB → Result × DB :=
  storeServer text asuraDeva server.uuid (codec.serialize server)

/-- The body of the loop, with store calls that succeed. -/
def body (text : UUID.Text) (codec : Codec DevaServer) (server : DevaServer) (db : DB) :
    Result × DB :=
  match check text server none db with
  | some result => (result, db)
  | none => store text codec server none db

end RegisterDeva

/-- `AsuraServiceImpl::RegisterDeva`, with store calls that succeed. -/
def registerDeva (text : UUID.Text) (codec : Codec DevaServer) :
    List DevaServer → DB → List Result × DB :=
  registerEach (RegisterDeva.body text codec)

namespace RegisterManusya

/-- The lookup of a server; with an answer the loop continues with the next server. -/
def check (text : UUID.Text) (server : ManusyaServer) (fault : Option String) (db : DB) :
    Option Result :=
  if !RocksdbStore.hexists fault asuraManusya (text.str server.uuid) db then
    some (existed text server.uuid server.ip server.port)
  else none

/-- The write of a server. -/
def store (text : UUID.Text) (codec : Codec ManusyaServer) (server : ManusyaServer) :
    Option String → DB → Result × DB :=
  storeServer text asuraManusya server.uuid (codec.serialize server)

/-- The body of the loop, with store calls that succeed. -/
def body (text : UUID.Text) (codec : Codec ManusyaServer) (server : ManusyaServer) (db : DB) :
    Result × DB :=
  match check text server none db with
  | some result => (result, db)
  | none => store text codec server none db

end RegisterManusya

/-- `AsuraServiceImpl::RegisterManusya`, with store calls that succeed. -/
def registerManusya (text : UUID.Text) (codec : Codec ManusyaServer) :
    List ManusyaServer → DB → List Result × DB :=
  registerEach (RegisterManusya.body text codec)

/-- `AsuraServiceImpl::ListDeva`. -/
def listDeva (codec : Codec DevaServer) : DB → List DevaServer :=
  listServers codec asuraDeva

/-- `AsuraServiceImpl::ListManusya`. -/
def listManusya (codec : Codec ManusyaServer) : DB → List ManusyaServer :=
  listServers codec asuraManusya

/-- A request that may change the registries. -/
inductive Request where
  | registerDeva (servers : List DevaServer)
  | registerManusya (servers : List ManusyaServer)

section Serve

variable (text : UUID.Text) (devaCodec : Codec DevaServer) (manusyaCodec : Codec ManusyaServer)

/-- What a request leaves in the store. -/
def handle (db : DB) : Request → DB
  | .registerDeva servers => (registerDeva text devaCodec servers db).2
  | .registerManusya servers => (registerManusya text manusyaCodec servers db).2

/-- The store after a history of requests, handled one at a time from an empty store on. -/
def serve (history : List Request) : DB :=
  history.foldl (handle text devaCodec manusyaCodec) ∅

end Serve

end Pain.Asura
