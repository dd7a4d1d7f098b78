import Pain.Base.UuidText
import Pain.Deva.Service
import Pain.Sdk.CallRpc

/-!
# The file system of the client library

`FileSystem::mkdir` and `FileSystem::open` each make one call to the group
`default` and look at the status of `call_rpc` only. That status says whether a
response came; whether the operation succeeded stands in the header of the
response, which neither of them reads.
-/

namespace Pain.Sdk

open Deva (Replicated Serving OpenFileRequest FileInfo bridge OPEN_READ OPEN_APPEND OPEN_CREATE)

/-- `O_RDONLY`. -/
def O_RDONLY : UInt32 := 0

/-- `O_WRONLY`. -/
def O_WRONLY : UInt32 := 1

/-- `O_CREAT`. -/
def O_CREAT : UInt32 := 0o100

/-- A `FileStreamImpl`. -/
structure FileStream where
  fileInfo : Option FileInfo
  fileId : Bytes

/-- The request of `FileSystem::open`. -/
def openRequest (path : Bytes) (flags : UInt32) : OpenFileRequest where
  path := path
  flags :=
    (if flags &&& O_CREAT ≠ 0 then OPEN_CREATE else 0) |||
      (if flags &&& O_RDONLY ≠ 0 then OPEN_READ else 0) |||
      (if flags &&& O_WRONLY ≠ 0 then OPEN_APPEND else 0)

/-- What `FileSystem::open` makes of the return of `call_rpc`: a status and, with `OK`, a stream. -/
def openResult (text : UUID.Text) : Except Failure Deva.Response → Status × Option FileStream
  | .error failure => (Status.fail failure.code failure.message, none)
  | .ok response =>
      let fileId := (response.fileInfo.map FileInfo.fileId).getD ⟨0, 0⟩
      (Status.OK, some ⟨response.fileInfo, text.str fileId⟩)

/-- What `FileSystem::mkdir` makes of the return of `call_rpc`. -/
def mkdirResult : Except Failure Deva.Response → Status
  | .error failure => Status.fail failure.code failure.message
  | .ok _ => Status.OK

/-- The operation was applied and returned `OK`. -/
def Applied (request : Deva.Request) (replicated : Replicated) : Prop :=
  ∃ deva info, replicated = .applied deva ∧ (deva.process request).1 = .ok info

/-- A call of `FileSystem::open`: after its return, `OK` or a stream means that the operation of the
response was applied and returned `OK`. -/
def OpenTells (text : UUID.Text) (request : OpenFileRequest) (call : Call Serving) : Prop :=
  ∀ table result, call = .returned table result →
    (openResult text (result.map fun serving => serving.openFile request)).1 = Status.OK ∨
      (openResult text (result.map fun serving => serving.openFile request)).2.isSome →
    ∃ serving, result = .ok serving ∧
      Applied (serving.createFileRequest request.path) serving.replicated

/-- A call of `FileSystem::mkdir`: after its return, `OK` means that the operation of the response
was applied and returned `OK`. -/
def MkdirTells (path : Bytes) (call : Call Serving) : Prop :=
  ∀ table result, call = .returned table result →
    mkdirResult (result.map fun serving => serving.mkdir path) = Status.OK →
    ∃ serving, result = .ok serving ∧ Applied (serving.createDirRequest path) serving.replicated

theorem openTells_iff (text : UUID.Text) (request : OpenFileRequest) (call : Call Serving) :
    OpenTells text request call ↔
      ReturnsOnly (fun serving =>
        Applied (serving.createFileRequest request.path) serving.replicated) call := by
  constructor
  · intro tells table serving returned
    rcases tells table (.ok serving) returned (.inl rfl) with ⟨answered, same, applied⟩
    cases same
    exact applied
  · intro returnsOnly table result returned succeeded
    cases result with
    | error failure => simp [openResult, Except.map] at succeeded
    | ok serving => exact ⟨serving, rfl, returnsOnly table serving returned⟩

theorem mkdirTells_iff (path : Bytes) (call : Call Serving) :
    MkdirTells path call ↔
      ReturnsOnly (fun serving =>
        Applied (serving.createDirRequest path) serving.replicated) call := by
  constructor
  · intro tells table serving returned
    rcases tells table (.ok serving) returned rfl with ⟨answered, same, applied⟩
    cases same
    exact applied
  · intro returnsOnly table result returned succeeded
    cases result with
    | error failure => simp [mkdirResult, Except.map] at succeeded
    | ok serving => exact ⟨serving, rfl, returnsOnly table serving returned⟩

/-- In every call of `mkdir` and of `open`, whatever the nodes answer, success tells that the
operation was applied and returned `OK` exactly if every attempt is answered by a node where it was,
or is redirected. -/
theorem tells_iff (text : UUID.Text) (path : Bytes) (flags : UInt32) (table : RouteTable)
    (turns : List (Turn Serving)) :
    (Lib.Throughout (loopStep (fun serving => (serving.mkdir path).header) "default")
        (MkdirTells path) (.trying table) turns ↔
      Lib.Guarded (loopStep (fun serving => (serving.mkdir path).header) "default")
        (AnswersOnly (fun serving => (serving.mkdir path).header) "default" fun serving =>
          Applied (serving.createDirRequest path) serving.replicated)
        (.trying table) turns) ∧
    (Lib.Throughout
        (loopStep (fun serving => (serving.openFile (openRequest path flags)).header) "default")
        (OpenTells text (openRequest path flags)) (.trying table) turns ↔
      Lib.Guarded
        (loopStep (fun serving => (serving.openFile (openRequest path flags)).header) "default")
        (AnswersOnly (fun serving => (serving.openFile (openRequest path flags)).header) "default"
          fun serving => Applied (serving.createFileRequest path) serving.replicated)
        (.trying table) turns) := by
  have mkdirTells := funext fun call => propext (mkdirTells_iff path call)
  have openTells := funext fun call => propext (openTells_iff text (openRequest path flags) call)
  constructor
  · simp only [mkdirTells]
    exact throughout_returnsOnly_iff _ table turns
  · simp only [openTells]
    exact throughout_returnsOnly_iff _ table turns

/-- `mkdir` of `/a/b` on an empty file system, where `/a` does not exist: the operation returns
`ENOENT` and the caller gets `OK`. -/
theorem not_tells_missing_parent :
    ¬∀ (path : Bytes) (table : RouteTable) (turns : List (Turn Serving)),
      Lib.Throughout (loopStep (fun serving => (serving.mkdir path).header) "default")
        (MkdirTells path) (.trying table) turns := by
  intro tells
  have throughout := tells [47, 97, 47, 98] (fun _ => some "127.0.0.1:8001:0")
    [⟨.ok "127.0.0.1:8001:0", .answered ⟨⟨0, 1⟩, 0, 0, 0, .applied .fresh⟩⟩]
  rcases throughout.last rfl _ _ rfl rfl with ⟨serving, same, deva, info, applied, succeeded⟩
  cases same
  cases applied
  have missing : ((Deva.Deva.fresh).process
      (Serving.createDirRequest ⟨⟨0, 1⟩, 0, 0, 0, .applied .fresh⟩ [47, 97, 47, 98])).1 =
        .error Deva.Namespace.noSuchFile := by
    decide
  simp [missing] at succeeded

end Pain.Sdk
