import Pain.Deva.Proto

/-!
# The replicated state machine

braft hands committed log entries to `Rsm::on_apply`. An entry that this node
submitted comes with its closure, which a guard starts in a bthread of its own;
any other entry is decoded from its bytes and processed at once. The closures
have no lock on the container, so a closure is modelled by the point that it
has reached: the lookup of the parent directory, the new entry in the namespace
and the new record are three separate turns.

Each turn is taken as one step. `Namespace` has a mutex for the first two. The
table of the records has none, and two closures that write their records at the
same time race in the hash table itself; what that may do to it is left out.
-/

set_option linter.dupNamespace false

namespace Pain.Deva

/-- The record that `ContainerOp::apply` submits to the log. -/
def ContainerOp.encode (protobuf : Protobuf) (timestamp : UInt64) (request : Request) :
    Option Bytes :=
  (protobuf.serialize request).map (Deva.encode timestamp request.opType)

/-- The `BRANCH` lines of `decode`. -/
def branches : List OpType :=
  [.kCreateFile, .kRemoveFile, .kSealFile, .kCreateChunk, .kCheckInChunk, .kSealChunk,
    .kSealAndNewChunk]

/-- The operation that the dispatch creates, parsed from `buf`; `none` where an assertion fails. -/
def decodeOp (protobuf : Protobuf) (type : UInt32) (buf : Bytes) : Option Request :=
  (branches.find? (fun branch => branch.code = type)).bind
    (fun branch => protobuf.parse branch buf)

/-- How far a closure has come. -/
inductive Phase where
  | started
  | resolved (parent : UUID)
  | linked
  | finished (result : Except Failure (Option FileInfo))

/-- `OpClosure`, with the request of its operation. -/
structure OpClosure where
  request : Request
  phase : Phase

/-- A committed entry; `done` is the operation of its closure, if there is one. -/
structure Entry where
  data : Bytes
  done : Option Request

/-- `pain::deva::Rsm`: the container and the closures that have been handed over. -/
structure Rsm where
  container : Deva
  closures : List OpClosure

namespace OpClosure

/-- A closure up to its next access to the container, none if it has finished. The last access, the
write of the record, is one step here although the code does not lock the table. -/
def turn (closure : OpClosure) (deva : Deva) : Option (OpClosure × Deva) :=
  match closure.phase, closure.request.creates with
  | .started, none => some ({ closure with phase := .finished (.ok none) }, deva)
  | .started, some (_, creation) =>
      match deva.resolveParent creation.path with
      | .error failure => some ({ closure with phase := .finished (.error failure) }, deva)
      | .ok parent => some ({ closure with phase := .resolved parent }, deva)
  | .resolved parent, some (type, creation) =>
      match deva.names.create parent (filename creation.path) type creation.id with
      | (.error failure, names) =>
          some ({ closure with phase := .finished (.error failure) },
            { deva with names := names })
      | (.ok _, names) => some ({ closure with phase := .linked }, { deva with names := names })
  | .linked, some (type, creation) =>
      let info := Deva.newFileInfo type creation
      some ({ closure with phase := .finished (.ok (some info)) },
        { deva with fileInfos := deva.fileInfos.insert creation.id info })
  | _, _ => none

/-- The closure has run. -/
def Finished (closure : OpClosure) : Prop :=
  ∃ result, closure.phase = .finished result

end OpClosure

namespace Rsm

/-- A state machine that has just been constructed. -/
def initial : Rsm where
  container := .fresh
  closures := []

/-- The body of the loop of `Rsm::on_apply`. -/
def applyEntry (protobuf : Protobuf) (rsm : Rsm) (entry : Entry) : Option Rsm :=
  match entry.done with
  | some request => some { rsm with closures := rsm.closures ++ [⟨request, .started⟩] }
  | none =>
      let (type, payload) := (decode entry.data).1
      (decodeOp protobuf type payload).map
        (fun request => { rsm with container := (rsm.container.process request).2 })

/-- `Rsm::on_apply`; `none` where an assertion fails. -/
abbrev onApply (protobuf : Protobuf) (rsm : Rsm) (entries : List Entry) : Option Rsm :=
  Lib.exec (applyEntry protobuf) rsm entries

/-- A turn of the closure at `index`. -/
def turn (rsm : Rsm) (index : ℕ) : Option Rsm := do
  let closure ← rsm.closures[index]?
  let (closure, container) ← closure.turn rsm.container
  return { container := container, closures := rsm.closures.set index closure }

/-- All closures have run. -/
def Idle (rsm : Rsm) : Prop :=
  ∀ closure ∈ rsm.closures, closure.Finished

/-- The files that a `braft::SnapshotWriter` holds, by name. -/
abbrev Snapshot := List (Bytes × Bytes)

/-- `Rsm::on_snapshot_save`: the status with which the closure runs, and the files written. The path
of the snapshot is computed and nothing is put there. -/
def onSnapshotSave (_ : Rsm) (writer : Snapshot) : Status × Snapshot :=
  (Status.OK, writer)

/-- `Rsm::on_snapshot_load`, which leaves the container alone; `none` where the check fails. -/
def onSnapshotLoad (isLeader : Bool) (_ : Snapshot) (rsm : Rsm) : Option Rsm :=
  if isLeader then none else some rsm

end Rsm

end Pain.Deva
