import Pain.Base.Future
import Pain.Deva.Rsm

/-!
# From a request to its promise

`bridge` makes a promise and an operation that sets it, and applies the
operation. `ContainerOp::apply` allocates an `OpClosure` and gives it, in a task,
to `Rsm::apply`, which passes the task on to the raft node. There is no node
until `Rsm::start` has succeeded, and a task that comes before that is passed to
nobody: its closure is not run, and the promise is never set. The server accepts
requests before the state machine is started.

braft runs every closure that it is given once, with `OK` after the entry is
committed or with the status of an error. Its choices are steps here.
-/

set_option linter.dupNamespace false

namespace Pain.Deva

/-- Where the closure of an operation is: with braft, run, or with nobody. -/
inductive ClosureState where
  | handed
  | ran
  | dropped
deriving DecidableEq, Repr

/-- An operation that `bridge` has made, its closure, and the promise that its callback sets. -/
structure Submission where
  request : Request
  closure : ClosureState
  promise : FutureState Status

/-- A deva server: its container, whether `_node` is set, and the operations so far. -/
structure Submissions where
  container : Deva
  hasNode : Bool
  submissions : List Submission

namespace Submissions

/-- A server whose state machine has just been constructed. -/
def initial : Submissions where
  container := .fresh
  hasNode := false
  submissions := []

/-- `Rsm::start`, with the outcome of `braft::Node::init`. -/
def start (succeeds : Bool) (state : Submissions) : Submissions :=
  if succeeds then { state with hasNode := true } else state

/-- `Rsm::apply`: what becomes of the closure of a task. -/
def rsmApply (state : Submissions) : ClosureState :=
  if state.hasNode then .handed else .dropped

/-- `bridge`, which calls `ContainerOp::apply`; `none` where the request does not serialize. -/
def bridge (protobuf : Protobuf) (timestamp : UInt64) (request : Request) (state : Submissions) :
    Option Submissions :=
  (ContainerOp.encode protobuf timestamp request).map (fun _ =>
    { state with submissions := state.submissions ++ [⟨request, state.rsmApply, .future⟩] })

/-- The status that the callback of an operation gets, from `OpClosure::Run`, and the container
after it. -/
def finish (request : Request) (status : Status) (container : Deva) : Status × Deva :=
  match status with
  | .ok _ =>
      let (result, container) := container.process request
      (result.map (fun _ => ()), container)
  | .error failure => (.error failure, container)

/-- `OpClosure::Run` for a closure that braft holds; `none` where the promise is set already. -/
def runClosure (index : ℕ) (status : Status) (state : Submissions) : Option Submissions :=
  match state.submissions[index]? with
  | some ⟨request, .handed, promise⟩ =>
      let (status, container) := finish request status state.container
      (promise.setValue status).map (fun promise =>
        { state with
          container := container
          submissions := state.submissions.set index ⟨request, .ran, promise⟩ })
  | _ => some state

/-- What happens to a server. -/
inductive Event where
  | start (succeeds : Bool)
  | bridge (timestamp : UInt64) (request : Request)
  | run (index : ℕ) (status : Status)

/-- One event: a start, a request that is bridged, or a closure that braft runs. -/
def step (protobuf : Protobuf) (state : Submissions) : Event → Option Submissions
  | .start succeeds => some (state.start succeeds)
  | .bridge timestamp request => state.bridge protobuf timestamp request
  | .run index status => state.runClosure index status

/-- The server after a sequence of steps. -/
abbrev run (protobuf : Protobuf) (state : Submissions) (events : List Event) :
    Option Submissions :=
  Lib.exec (step protobuf) state events

/-- Every closure has been handed to braft. -/
def NoneDropped (state : Submissions) : Prop :=
  ∀ submission ∈ state.submissions, submission.closure ≠ .dropped

/-- An operation is submitted to a node. -/
def ToNode (state : Submissions) : Event → Prop
  | .bridge _ _ => state.hasNode = true
  | _ => True

/-- A promise is set exactly if the closure of its operation has run. -/
def Consistent (state : Submissions) : Prop :=
  ∀ submission ∈ state.submissions,
    if submission.closure = .ran then ∃ status, submission.promise = .result status
    else submission.promise = .future

/-- Before the first request there are no closures. -/
theorem initial_consistent : initial.Consistent := by
  intro submission member
  simp [initial] at member

variable {protobuf : Protobuf} {state next : Submissions}

/-- A closure that braft holds finds its promise unset, and sets it. -/
theorem runClosure_spec (consistent : state.Consistent) (index : ℕ) (status : Status) :
    state.runClosure index status = some state ∨
      ∃ request, state.submissions[index]? = some ⟨request, .handed, .future⟩ ∧
        state.runClosure index status =
          some { state with
            container := (finish request status state.container).2
            submissions := state.submissions.set index
              ⟨request, .ran, .result (finish request status state.container).1⟩ } := by
  unfold runClosure
  split
  · rename_i request promise found
    have waits := consistent _ (List.mem_of_getElem? found)
    simp only [reduceCtorEq, if_false] at waits
    subst waits
    exact Or.inr ⟨request, found, by simp [FutureState.setValue]⟩
  · exact Or.inl rfl

/-- A promise is set exactly if its closure has been run. -/
theorem step_consistent {event : Event} (consistent : state.Consistent)
    (took : state.step protobuf event = some next) : next.Consistent := by
  cases event with
  | start succeeds =>
      simp only [step, Option.some.injEq] at took
      subst took
      cases succeeds <;> exact consistent
  | bridge timestamp request =>
      simp only [step, bridge, Option.map_eq_some_iff] at took
      rcases took with ⟨data, -, rfl⟩
      intro submission member
      rcases List.mem_append.mp member with old | new
      · exact consistent submission old
      · simp only [List.mem_singleton] at new
        subst new
        cases hasNode : state.hasNode <;> simp [rsmApply, hasNode]
  | run index status =>
      rcases runClosure_spec consistent index status with idle | ⟨request, found, ran⟩
      · simp only [step, idle, Option.some.injEq] at took
        exact took ▸ consistent
      · simp only [step, ran, Option.some.injEq] at took
        subst took
        intro submission member
        rcases List.mem_or_eq_of_mem_set member with old | new
        · exact consistent submission old
        · subst new
          exact ⟨_, rfl⟩

/-- A step leaves no closure dropped exactly if none was dropped before and it submits to a node. -/
theorem step_noneDropped_iff {event : Event} (took : state.step protobuf event = some next) :
    next.NoneDropped ↔ state.NoneDropped ∧ state.ToNode event := by
  cases event with
  | start succeeds =>
      simp only [step, Option.some.injEq] at took
      subst took
      cases succeeds <;> simp [start, NoneDropped, ToNode]
  | bridge timestamp request =>
      simp only [step, bridge, Option.map_eq_some_iff] at took
      rcases took with ⟨data, -, rfl⟩
      cases hasNode : state.hasNode <;>
        simp [NoneDropped, ToNode, rsmApply, hasNode, or_imp, forall_and]
  | run index status =>
      simp only [step, runClosure] at took
      simp only [ToNode, and_true]
      split at took
      · rename_i request promise found
        simp only [Option.map_eq_some_iff] at took
        rcases took with ⟨settled, -, rfl⟩
        constructor
        · intro kept submission member
          rcases List.getElem?_of_mem member with ⟨other, foundOther⟩
          by_cases same : index = other
          · subst same
            rw [found, Option.some.injEq] at foundOther
            subst foundOther
            simp
          · apply kept submission
            apply List.mem_of_getElem?
            rw [List.getElem?_set_ne same]
            exact foundOther
        · intro kept submission member
          rcases List.mem_or_eq_of_mem_set member with old | new
          · exact kept submission old
          · subst new
            simp
      · simp only [Option.some.injEq] at took
        rw [took]

/-- The completion of operations. For every order of starts, whether they succeed or fail, of
requests, and of closures that braft runs with any status: no promise is set a second time; every
closure has been handed to braft if and only if every request was made after a start that
succeeded; and once braft has run all closures that it was given, every promise is set if and only
if the same holds. -/
theorem bridge_completes_iff (protobuf : Protobuf) (events : List Event) (final : Submissions)
    (ran : initial.run protobuf events = some final) :
    (∀ index status, (final.step protobuf (.run index status)).isSome) ∧
    (final.NoneDropped ↔ Lib.Guarded (step protobuf) ToNode initial events) ∧
    ((∀ submission ∈ final.submissions, submission.closure ≠ .handed) →
      ((∀ submission ∈ final.submissions, ∃ status, submission.promise = .result status) ↔
        Lib.Guarded (step protobuf) ToNode initial events)) := by
  have consistent : final.Consistent :=
    Lib.exec_invariant Consistent step_consistent initial_consistent ran
  have dropsNone : final.NoneDropped ↔ Lib.Guarded (step protobuf) ToNode initial events := by
    rw [Lib.exec_iff_guarded NoneDropped step_noneDropped_iff ran, and_iff_right]
    intro submission member
    simp [initial] at member
  refine ⟨?_, dropsNone, ?_⟩
  · intro index status
    rcases runClosure_spec consistent index status with idle | ⟨request, -, runs⟩
    · simp [step, idle]
    · simp [step, runs]
  · intro quiet
    rw [← dropsNone]
    constructor
    · intro allSet submission member isDropped
      have unset := consistent submission member
      rcases allSet submission member with ⟨status, isSet⟩
      simp [isDropped, isSet] at unset
    · intro kept submission member
      have isRan : submission.closure = .ran := by
        cases closure : submission.closure with
        | handed => exact absurd closure (quiet submission member)
        | ran => rfl
        | dropped => exact absurd closure (kept submission member)
      have isSet := consistent submission member
      rw [if_pos isRan] at isSet
      exact isSet

/-- A start that fails, one that succeeds, and two requests, one of which braft rejects. -/
theorem bridge_completes_started :
    ∃ final, initial.run .wire
        [.start false, .start true, .bridge 0 (.createDir ⟨[47, 97], ⟨4, 1⟩, 5, 5, 5, 511, 0, 0⟩),
          .bridge 1 (.createFile ⟨[47, 98], ⟨4, 2⟩, 6, 6, 6, 438, 0, 0⟩),
          .run 1 (Status.fail .EPERM "is not leader"), .run 0 Status.OK] = some final ∧
      ∀ submission ∈ final.submissions, ∃ status, submission.promise = .result status := by
  refine ⟨_, rfl, ?_⟩
  apply ((bridge_completes_iff .wire
    [.start false, .start true, .bridge 0 (.createDir ⟨[47, 97], ⟨4, 1⟩, 5, 5, 5, 511, 0, 0⟩),
      .bridge 1 (.createFile ⟨[47, 98], ⟨4, 2⟩, 6, 6, 6, 438, 0, 0⟩),
      .run 1 (Status.fail .EPERM "is not leader"), .run 0 Status.OK] _ rfl).2.2 ?_).mpr
  · apply Lib.guarded_cons trivial rfl
    apply Lib.guarded_cons trivial rfl
    refine Lib.guarded_cons ?_ rfl ?_
    · rfl
    refine Lib.guarded_cons ?_ rfl ?_
    · rfl
    apply Lib.guarded_cons trivial rfl
    apply Lib.guarded_cons trivial rfl
    trivial
  · decide

/-- A `CreateDir` before the start: its closure is with nobody, and stays so. -/
theorem bridge_drops_closure :
    ∃ final, initial.run .wire
        [.bridge 0 (.createDir ⟨[47, 97], ⟨4, 1⟩, 5, 5, 5, 511, 0, 0⟩), .start true] = some final ∧
      final.submissions =
        [⟨.createDir ⟨[47, 97], ⟨4, 1⟩, 5, 5, 5, 511, 0, 0⟩, .dropped, .future⟩] :=
  ⟨_, rfl, rfl⟩

end Submissions

end Pain.Deva
