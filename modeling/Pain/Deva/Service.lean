import Pain.Deva.Deva

/-!
# The metadata service

`DevaServiceImpl` turns a request of a client into an operation of the
replicated container, with an identifier and times of its own, waits for the
operation, and puts its status into the header of the response. Of its methods
only `OpenFile` and `Mkdir` do something.
-/

set_option linter.dupNamespace false

namespace Pain.Deva

/-- What becomes of an operation: the log passes an error to its closure, or it is applied to the
container. -/
inductive Replicated where
  | failed (failure : Failure)
  | applied (deva : Deva)

/-- The status that `bridge` yields, with the record in the response of the operation. -/
def bridge (request : Request) : Replicated → Except Failure (Option FileInfo)
  | .failed failure => .error failure
  | .applied deva => (deva.process request).1

/-- A method of the service at work: the identifier and the times that it draws, and what becomes
of its operation. -/
structure Serving where
  id : UUID
  atime : UInt64
  mtime : UInt64
  ctime : UInt64
  replicated : Replicated

/-- `OPEN_READ`. -/
def OPEN_READ : UInt32 := 1

/-- `OPEN_APPEND`. -/
def OPEN_APPEND : UInt32 := 2

/-- `OPEN_CREATE`. -/
def OPEN_CREATE : UInt32 := 4

/-- `pain::proto::deva::OpenFileRequest`. -/
structure OpenFileRequest where
  path : Bytes
  flags : UInt32

/-- The response of `OpenFile` and of `Mkdir`. -/
structure Response where
  header : Header
  fileInfo : Option FileInfo

/-- The header that reports an error. -/
def errorHeader (failure : Failure) : Header where
  status := .ofNat failure.code.number
  message := failure.message

namespace Serving

/-- The `CreateFileRequest` of `OpenFile`. -/
def createFileRequest (serving : Serving) (path : Bytes) : Request :=
  .createFile ⟨path, serving.id, serving.atime, serving.mtime, serving.ctime, 0o666, 0, 0⟩

/-- The `CreateDirRequest` of `Mkdir`. -/
def createDirRequest (serving : Serving) (path : Bytes) : Request :=
  .createDir ⟨path, serving.id, serving.atime, serving.mtime, serving.ctime, 0o777, 0, 0⟩

/-- `DevaServiceImpl::OpenFile`. -/
def openFile (serving : Serving) (request : OpenFileRequest) : Response :=
  if request.flags &&& OPEN_CREATE ≠ 0 then
    match bridge (serving.createFileRequest request.path) serving.replicated with
    | .error failure => ⟨errorHeader failure, none⟩
    | .ok fileInfo => ⟨⟨0, "ok"⟩, fileInfo⟩
  else ⟨⟨0, "ok"⟩, none⟩

/-- `DevaServiceImpl::Mkdir`; without an error the response stays empty. -/
def mkdir (serving : Serving) (path : Bytes) : Response :=
  match bridge (serving.createDirRequest path) serving.replicated with
  | .error failure => ⟨errorHeader failure, none⟩
  | .ok _ => ⟨⟨0, ""⟩, none⟩

end Serving

end Pain.Deva
