import Pain.Deva.Namespace
import Pain.Lib.Run

/-!
# The metadata container

`Deva` is the state that the replicas of the metadata server agree on: the
namespace and a record for every file and directory. Requests are processed one
at a time; the two creating requests differ in the type that they pass on, and
the others do nothing yet.
-/

set_option linter.dupNamespace false

namespace Pain.Deva

/-- `pain::proto::FileType`. -/
inductive ProtoFileType where
  | FILE_TYPE_NONE
  | FILE_TYPE_FILE
  | FILE_TYPE_DIRECTORY
deriving DecidableEq, Repr

/-- The type that the record of an entry carries. -/
def FileType.proto : FileType → ProtoFileType
  | .kFile => .FILE_TYPE_FILE
  | .kDirectory => .FILE_TYPE_DIRECTORY

/-- `pain::proto::FileInfo`, without the lists that no request fills. -/
structure FileInfo where
  fileId : UUID
  type : ProtoFileType
  size : UInt64
  atime : UInt64
  mtime : UInt64
  ctime : UInt64
  mode : UInt32
  uid : UInt32
  gid : UInt32
deriving DecidableEq, Repr

/-- The fields that `CreateFileRequest` and `CreateDirRequest` share. -/
structure CreateRequest where
  path : Bytes
  id : UUID
  atime : UInt64
  mtime : UInt64
  ctime : UInt64
  mode : UInt32
  uid : UInt32
  gid : UInt32
deriving DecidableEq, Repr

/-- The requests of `deva_store.proto`. -/
inductive Request where
  | createFile (request : CreateRequest)
  | createDir (request : CreateRequest)
  | removeFile
  | sealFile
  | createChunk
  | checkInChunk
  | sealChunk
  | sealAndNewChunk
deriving DecidableEq, Repr

/-- What a creating request creates. -/
def Request.creates : Request → Option (FileType × CreateRequest)
  | .createFile request => some (.kFile, request)
  | .createDir request => some (.kDirectory, request)
  | _ => none

/-- The identifier that a creating request brings. -/
def Request.id? (request : Request) : Option UUID :=
  request.creates.map (fun creation => creation.2.id)

/-- `pain::deva::Deva`: the namespace and `_file_infos`. -/
@[ext]
structure Deva where
  names : Namespace
  fileInfos : Map UUID FileInfo
deriving DecidableEq

namespace Deva

/-- A container that has just been constructed. -/
def fresh : Deva where
  names := .initial
  fileInfos := ∅

/-- The text of a path in a message, byte by byte. -/
def pathText (path : Bytes) : String :=
  String.ofList (path.map (fun char => Char.ofNat char.toNat))

/-- The first half of `Deva::create`: the directory in which a path is to be created. -/
def resolveParent (path : Bytes) (deva : Deva) : Except Failure UUID :=
  match deva.names.lookup (parentPath path) with
  | .error failure => .error failure
  | .ok (parent, type) =>
      if type ≠ .kDirectory then
        .error ⟨.EINVAL, pathText (cStr (parentPath path)) ++ " is not a directory"⟩
      else .ok parent

/-- `Deva::create`. -/
def create (path : Bytes) (id : UUID) (type : FileType) (deva : Deva) : Status × Deva :=
  match deva.resolveParent path with
  | .error failure => (.error failure, deva)
  | .ok parent =>
      let (status, names) := deva.names.create parent (filename path) type id
      (status, { deva with names := names })

/-- The record of a new file or directory. -/
def newFileInfo (type : FileType) (request : CreateRequest) : FileInfo where
  fileId := request.id
  type := type.proto
  size := 0
  atime := request.atime
  mtime := request.mtime
  ctime := request.ctime
  mode := request.mode
  uid := request.uid
  gid := request.gid

/-- What `Deva::CreateFile` and `Deva::CreateDir` share: the record goes to the response and into
`_file_infos`. -/
def createEntry (type : FileType) (request : CreateRequest) (deva : Deva) :
    Except Failure FileInfo × Deva :=
  match deva.create request.path request.id type with
  | (.error failure, deva) => (.error failure, deva)
  | (.ok _, deva) =>
      let info := newFileInfo type request
      (.ok info, { deva with fileInfos := deva.fileInfos.insert request.id info })

/-- `Deva::CreateFile`. -/
def createFile (request : CreateRequest) (deva : Deva) : Except Failure FileInfo × Deva :=
  deva.createEntry .kFile request

/-- `Deva::CreateDir`. -/
def createDir (request : CreateRequest) (deva : Deva) : Except Failure FileInfo × Deva :=
  deva.createEntry .kDirectory request

/-- `Deva::process`, with the record that the response carries. -/
def process (request : Request) (deva : Deva) : Except Failure (Option FileInfo) × Deva :=
  match request with
  | .createFile request =>
      let (result, deva) := deva.createFile request
      (result.map some, deva)
  | .createDir request =>
      let (result, deva) := deva.createDir request
      (result.map some, deva)
  | .removeFile | .sealFile | .createChunk | .checkInChunk | .sealChunk | .sealAndNewChunk =>
      (.ok none, deva)

/-- The container after requests that are processed one after another. -/
def processAll (requests : List Request) (deva : Deva) : Deva :=
  requests.foldl (fun deva request => (deva.process request).2) deva

@[simp]
theorem processAll_nil (deva : Deva) : deva.processAll [] = deva := rfl

@[simp]
theorem processAll_cons (request : Request) (requests : List Request) (deva : Deva) :
    deva.processAll (request :: requests) = (deva.process request).2.processAll requests := rfl

theorem processAll_append (first second : List Request) (deva : Deva) :
    deva.processAll (first ++ second) = (deva.processAll first).processAll second := by
  simp [processAll]

/-- Processing a request, as a step that never aborts. -/
def step (deva : Deva) (request : Request) : Option Deva :=
  some (deva.process request).2

theorem exec_step (deva : Deva) (requests : List Request) :
    Lib.exec step deva requests = some (deva.processAll requests) := by
  induction requests generalizing deva with
  | nil => rfl
  | cons request requests ih => simp [step, ih]

/-- A creation goes through `Deva::create`. -/
theorem process_of_creates {request : Request} {type : FileType} {creation : CreateRequest}
    (creates : request.creates = some (type, creation)) (deva : Deva) :
    deva.process request =
      ((deva.createEntry type creation).1.map some, (deva.createEntry type creation).2) := by
  cases request <;> simp only [Request.creates, Option.some.injEq, Prod.mk.injEq,
    reduceCtorEq] at creates
  · rcases creates with ⟨rfl, rfl⟩
    rfl
  · rcases creates with ⟨rfl, rfl⟩
    rfl

/-- The other requests change nothing. -/
theorem process_of_creates_none {request : Request} (creates : request.creates = none)
    (deva : Deva) : deva.process request = (.ok none, deva) := by
  cases request <;> simp_all [Request.creates, process]

theorem resolveParent_eq_ok {path : Bytes} {deva : Deva} {parent : UUID} :
    deva.resolveParent path = .ok parent ↔
      deva.names.lookup (parentPath path) = .ok (parent, .kDirectory) := by
  simp only [resolveParent]
  cases looked : deva.names.lookup (parentPath path) with
  | error failure => simp
  | ok found =>
      rcases found with ⟨found, type⟩
      cases type <;> simp

/-- Without a parent directory nothing is created. -/
theorem createEntry_of_error {type : FileType} {request : CreateRequest} {deva : Deva}
    {failure : Failure} (unresolved : deva.resolveParent request.path = .error failure) :
    deva.createEntry type request = (.error failure, deva) := by
  simp [createEntry, create, unresolved]

/-- In a directory that is there, the entry is linked and its record written. -/
theorem createEntry_of_ok {type : FileType} {request : CreateRequest} {deva : Deva}
    {parent : UUID} {listed : List DirEntry}
    (resolved : deva.resolveParent request.path = .ok parent)
    (present : deva.names.entries[parent]? = some listed) :
    deva.createEntry type request =
      (.ok (newFileInfo type request),
        { names := (deva.names.create parent (filename request.path) type request.id).2
          fileInfos := deva.fileInfos.insert request.id (newFileInfo type request) }) := by
  have created := (Namespace.create_eq_ok (filename request.path) type request.id present).1
  cases called : deva.names.create parent (filename request.path) type request.id with
  | mk status names =>
      simp only [called] at created
      simp [createEntry, create, resolved, called, created]

end Deva

end Pain.Deva
