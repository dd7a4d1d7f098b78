import Pain.Base.Types

/-!
# Futures and promises

`pain::Future` and `pain::Promise` share a `FutureState`. Its `state` field and
the union it guards are one inductive type here, so a result can only be read
from a state that holds one.

`BOOST_ASSERT` ends the process. An operation that can reach a failing
assertion therefore returns an `Option`, and `none` is the failed assertion.
`set_exception` assigns the member `ex` of the union whatever the union holds.
Over a value this is undefined, since the old bytes are taken for an exception
that is released, and is `none` too.
-/

namespace Pain

universe u

/-- `FutureState<T>`: `kFuture`, or `kResult` and `kException` with what they hold. -/
inductive FutureState (T : Type u) where
  | future
  | result (value : T)
  | exception (what : String)
deriving DecidableEq, Repr

namespace FutureState

variable {T : Type u}

/-- `FutureState::set_value`: asserts that nothing has been set yet. -/
def setValue (value : T) : FutureState T → Option (FutureState T)
  | .future => some (.result value)
  | .result _ | .exception _ => none

/-- `FutureState::available`, which is also `Promise::is_ready`. -/
def available : FutureState T → Bool
  | .future => false
  | .result _ | .exception _ => true

/-- `FutureState::set_exception`, which does not look at what has been set: it replaces an
exception, and assigns over a value. -/
def setException (what : String) : FutureState T → Option (FutureState T)
  | .future | .exception _ => some (.exception what)
  | .result _ => none

/-- What `~Promise` does to the state that the promise owns. -/
def breakPromise : FutureState T → FutureState T
  | .future => .exception "Broken Promise"
  | .result value => .result value
  | .exception what => .exception what

/-- `~Promise` asks before it sets the exception, so that nothing is replaced or assigned over. -/
theorem breakPromise_eq (state : FutureState T) :
    (if state.available then some state else state.setException "Broken Promise") =
      some state.breakPromise := by
  cases state <;> simp [available, setException, breakPromise]

/-- The guarded assignment `if (!promise.is_ready()) promise.set_value(value)`. -/
def setValueIfNotReady (value : T) (state : FutureState T) : Option (FutureState T) :=
  if state.available then some state else state.setValue value

/-- The guarded assignment never reaches the assertion of `setValue`. -/
theorem setValueIfNotReady_eq (value : T) (state : FutureState T) :
    state.setValueIfNotReady value =
      some (if state.available then state else .result value) := by
  cases state <;> simp [setValueIfNotReady, setValue, available]

end FutureState

end Pain
