import Pain.Base.Future
import Pain.Lib.Run

/-!
# Owners of future states

A `FutureState` has three writers, `set_value`, `set_exception` and the
destructor of its promise. The first asserts that nothing has been set, the last
asks, and the second does neither: it replaces an exception that is there, and
over a value it writes `kException` and then assigns to a member of the union
that is not there.

Promises own their states and hand them on by moves. This file gives a
population of promises and of the futures obtained from them, and proves when
every state that a future waits for is ready or has exactly one owner that can
still make it ready. A move assignment drops the state that its target owned
without a word to the futures, and a move from a promise that has been moved
from follows a null pointer.
-/

namespace Pain

universe u

namespace FutureState

variable {T : Type u}

/-- The writers of a state. -/
inductive Write (T : Type u) where
  | setValue (value : T)
  | setException (what : String)
  | destroyPromise
deriving DecidableEq, Repr

/-- Why a write does not return: the assertion of `set_value`, or an assignment to `u.ex` while the
union holds a value. -/
inductive WriteFault where
  | assertion
  | valueAlive
deriving DecidableEq, Repr

/-- A write. -/
def write (state : FutureState T) : Write T → Except WriteFault (FutureState T)
  | .setValue value =>
      match state.setValue value with
      | some next => .ok next
      | none => .error .assertion
  | .setException what =>
      match state.setException what with
      | some next => .ok next
      | none => .error .valueAlive
  | .destroyPromise => .ok state.breakPromise

/-- A write, as a step of a run that ends where a write does not return. -/
def writeStep (state : FutureState T) (write : Write T) : Option (FutureState T) :=
  (state.write write).toOption

/-- An exception comes to a state without an outcome, or is the one that the state holds. -/
def AddsOutcome (state : FutureState T) : Write T → Prop
  | .setException what => state = .future ∨ state = .exception what
  | _ => True

/-- A write that leaves a state with an outcome as it is, and that is not undefined. -/
theorem keeps_iff_addsOutcome (state : FutureState T) (write : Write T) :
    ((state.available = true → ∀ next, state.writeStep write = some next → next = state) ∧
      state.write write ≠ .error .valueAlive) ↔ state.AddsOutcome write := by
  cases state with
  | future =>
      cases write <;> simp [available, AddsOutcome, FutureState.write, setValue, setException]
  | result value =>
      cases write <;> simp [available, AddsOutcome, writeStep, FutureState.write, setValue,
        setException, breakPromise, Except.toOption]
  | exception what =>
      cases write with
      | setValue value =>
          simp [AddsOutcome, writeStep, FutureState.write, setValue, Except.toOption]
      | setException other =>
          simp [available, AddsOutcome, writeStep, FutureState.write, setException,
            Except.toOption, eq_comm]
      | destroyPromise =>
          simp [available, AddsOutcome, writeStep, FutureState.write, breakPromise,
            Except.toOption]

/-- An outcome is written once. For every sequence of writes to a new state, a failed assertion
ending it, no write is undefined and the state does not change any more once it is ready, if and
only if every exception that is set comes to a state without an outcome, or is the one that the
state holds already. -/
theorem write_once_iff (writes : List (Write T)) :
    (Lib.Settles writeStep (fun state => state.available = true) .future writes ∧
      Lib.Guarded writeStep (fun state write => state.write write ≠ .error .valueAlive) .future
        writes) ↔
      Lib.Guarded writeStep AddsOutcome .future writes := by
  rw [Lib.settles_iff_guarded, ← Lib.guarded_and_iff]
  exact Lib.guarded_congr keeps_iff_addsOutcome (FutureState.future : FutureState T) writes

/-- Two exceptions: the first is gone. -/
theorem setException_replaces_exception :
    Lib.exec writeStep (.future : FutureState ℕ) [.setException "first"] =
        some (.exception "first") ∧
      Lib.exec writeStep (.exception "first" : FutureState ℕ) [.setException "second"] =
        some (.exception "second") ∧
      ¬ Lib.Settles writeStep (fun state => state.available = true) (.future : FutureState ℕ)
        [.setException "first", .setException "second"] := by
  refine ⟨rfl, rfl, ?_⟩
  intro settles
  have same := settles [.setException "first"] [.setException "second"] []
    (.exception "first") (.exception "second") rfl rfl rfl rfl
  simp at same

/-- A value, and an exception after it: the assignment is undefined. -/
example : (FutureState.result 5).write (.setException "late") = .error .valueAlive := rfl

end FutureState

/-- A `FutureState` as a `shared_ptr` shows it, with its pointer back to the promise. -/
structure SharedState (T : Type u) where
  state : FutureState T
  promise : Option ℕ

/-- A `Promise` object: its `_state`, for as long as it lives. -/
inductive PromiseObject where
  | live (state : Option ℕ)
  | destroyed
deriving DecidableEq, Repr

/-- All states, all promise objects, and the states of the futures that have been obtained. Objects
and states are named by their positions. -/
structure Promises (T : Type u) where
  states : List (SharedState T)
  objects : List PromiseObject
  futures : List ℕ

namespace Promises

variable {T : Type u}

/-- No objects yet. -/
def empty : Promises T where
  states := []
  objects := []
  futures := []

/-- The operations on promises. -/
inductive Op (T : Type u) where
  | construct
  | moveConstruct (other : ℕ)
  | moveAssign (target other : ℕ)
  | getFuture (promise : ℕ)
  | setValue (promise : ℕ) (value : T)
  | destroy (promise : ℕ)
deriving DecidableEq, Repr

/-- Why an operation does not return. -/
inductive Fault where
  | nullState
  | assertion
deriving DecidableEq, Repr

/-- `_state->promise = this`. -/
def claim (promise : ℕ) (shared : SharedState T) : SharedState T :=
  { shared with promise := some promise }

/-- The body of `~Promise` for a state. -/
def release (shared : SharedState T) : SharedState T where
  state := shared.state.breakPromise
  promise := none

/-- An operation. Only live objects are operated on. -/
def perform (promises : Promises T) : Op T → Except Fault (Promises T)
  | .construct =>
      .ok { promises with
        states := promises.states ++ [⟨.future, some promises.objects.length⟩]
        objects := promises.objects ++ [.live (some promises.states.length)] }
  | .moveConstruct other =>
      match promises.objects[other]? with
      | some (.live (some state)) =>
          .ok { promises with
            states := promises.states.modify state (claim promises.objects.length)
            objects := promises.objects.set other (.live none) ++ [.live (some state)] }
      | some (.live none) => .error .nullState
      | _ => .ok promises
  | .moveAssign target other =>
      match promises.objects[target]?, promises.objects[other]? with
      | some (.live _), some (.live source) =>
          if target = other then .ok promises
          else
            match source with
            | none => .error .nullState
            | some state =>
                .ok { promises with
                  states := promises.states.modify state (claim target)
                  objects := (promises.objects.set other (.live none)).set target
                    (.live (some state)) }
      | _, _ => .ok promises
  | .getFuture promise =>
      match promises.objects[promise]? with
      | some (.live (some state)) => .ok { promises with futures := promises.futures ++ [state] }
      | some (.live none) => .error .assertion
      | _ => .ok promises
  | .setValue promise value =>
      match promises.objects[promise]? with
      | some (.live (some state)) =>
          match promises.states[state]? with
          | none => .ok promises
          | some shared =>
              match shared.state.setValue value with
              | none => .error .assertion
              | some written =>
                  .ok { promises with
                    states := promises.states.set state { shared with state := written } }
      | some (.live none) => .error .nullState
      | _ => .ok promises
  | .destroy promise =>
      match promises.objects[promise]? with
      | some (.live (some state)) =>
          .ok { promises with
            states := promises.states.modify state release
            objects := promises.objects.set promise .destroyed }
      | some (.live none) =>
          .ok { promises with objects := promises.objects.set promise .destroyed }
      | _ => .ok promises

/-- An operation, as a step of a run that ends where an operation does not return. -/
def step (promises : Promises T) (op : Op T) : Option (Promises T) :=
  (promises.perform op).toOption

/-- The promise is alive and owns the state. -/
def Owns (promises : Promises T) (promise state : ℕ) : Prop :=
  promises.objects[promise]? = some (.live (some state))

/-- `FutureState::available`. -/
def Ready (promises : Promises T) (state : ℕ) : Prop :=
  ∃ shared, promises.states[state]? = some shared ∧ shared.state.available = true

/-- A state that a promise or a future still refers to. -/
def Refers (promises : Promises T) (state : ℕ) : Prop :=
  state ∈ promises.futures ∨ ∃ promise, promises.Owns promise state

/-- Every state is ready or owned by exactly one live promise. -/
def AllOwned (promises : Promises T) : Prop :=
  ∀ state, promises.Refers state →
    promises.Ready state ∨ ∃! promise, promises.Owns promise state

/-- The operation destroys or overwrites a promise that owns the state. -/
def Drops (promises : Promises T) (state : ℕ) : Op T → Prop
  | .destroy promise => promises.Owns promise state
  | .moveAssign target other =>
      promises.Owns target state ∧ target ≠ other ∧
        ∃ source, promises.objects[other]? = some (.live source)
  | _ => False

/-- The operation does not follow a null pointer and leaves no state without an owner, and if it
drops a state that is not ready, the futures of that state get the exception. -/
structure Keeps (promises : Promises T) (op : Op T) : Prop where
  derefs : promises.perform op ≠ .error .nullState
  owned : ∀ next, promises.perform op = .ok next → next.AllOwned
  broken : ∀ next state, promises.perform op = .ok next → promises.Drops state op →
    state ∈ promises.futures → ¬ promises.Ready state →
      ∃ shared, next.states[state]? = some shared ∧
        shared.state = .exception "Broken Promise"

/-- A promise that has been moved from is not moved from again and not set, and no promise with a
state that a future waits for is overwritten. -/
def Careful (promises : Promises T) : Op T → Prop
  | .moveConstruct other => promises.objects[other]? ≠ some (.live none)
  | .moveAssign target other =>
      target ≠ other → ∀ old source, promises.objects[target]? = some (.live old) →
        promises.objects[other]? = some (.live source) →
          source ≠ none ∧
            ∀ state, old = some state → state ∈ promises.futures → promises.Ready state
  | .setValue promise _ => promises.objects[promise]? ≠ some (.live none)
  | _ => True

/-- The invariant: no two promises own a state, and every state that a future refers to is ready or
owned. -/
structure Sound (promises : Promises T) : Prop where
  single : ∀ left right state, promises.Owns left state → promises.Owns right state → left = right
  bounded : ∀ promise state, promises.Owns promise state → state < promises.states.length
  waits : ∀ state ∈ promises.futures,
    promises.Ready state ∨ ∃ promise, promises.Owns promise state

variable {promises next : Promises T}

/-- A promise owns one state at most. -/
theorem Owns.unique {promise left right : ℕ} (ownsLeft : promises.Owns promise left)
    (ownsRight : promises.Owns promise right) : left = right := by
  have same := ownsLeft.symm.trans ownsRight
  simpa using same

theorem allOwned_iff
    (single : ∀ left right state, promises.Owns left state → promises.Owns right state →
      left = right) :
    promises.AllOwned ↔ ∀ state ∈ promises.futures,
      promises.Ready state ∨ ∃ promise, promises.Owns promise state := by
  constructor
  · intro allOwned state obtained
    exact (allOwned state (.inl obtained)).imp_right ExistsUnique.exists
  · rintro waits state (obtained | ⟨promise, owns⟩)
    · rcases waits state obtained with ready | ⟨promise, owns⟩
      · exact .inl ready
      · exact .inr ⟨promise, owns, fun other otherOwns => single other promise state otherOwns owns⟩
    · exact .inr ⟨promise, owns, fun other otherOwns => single other promise state otherOwns owns⟩

/-- Before the first promise there is nothing to lose. -/
theorem empty_sound : (empty : Promises T).Sound where
  single := by
    intro left right state owns
    simp [Owns, empty] at owns
  bounded := by
    intro promise state owns
    simp [Owns, empty] at owns
  waits := by
    intro state obtained
    simp [empty] at obtained

section Frames

theorem ready_modify (index : ℕ) {change : SharedState T → SharedState T}
    {objects : List PromiseObject} {futures : List ℕ} (state : ℕ) :
    (Promises.mk (promises.states.modify index change) objects futures).Ready state ↔
      ∃ shared, promises.states[state]? = some shared ∧
        (if index = state then change shared else shared).state.available = true := by
  simp only [Ready, List.getElem?_modify, Option.map_eq_map, Option.map_eq_some_iff]
  constructor
  · rintro ⟨changed, ⟨shared, found, rfl⟩, available⟩
    exact ⟨shared, found, available⟩
  · rintro ⟨shared, found, available⟩
    exact ⟨_, ⟨shared, found, rfl⟩, available⟩

theorem ready_claim (index promise : ℕ) {objects : List PromiseObject} {futures : List ℕ}
    (state : ℕ) :
    (Promises.mk (promises.states.modify index (claim promise)) objects futures).Ready state ↔
      promises.Ready state := by
  rw [ready_modify]
  apply exists_congr
  intro shared
  apply and_congr_right
  intro _
  split <;> rfl

end Frames

/-- A move of a state from one promise to another that is new or gets overwritten. -/
structure Moved (promises next : Promises T) (target other state : ℕ) : Prop where
  source : promises.Owns other state
  apart : target ≠ other
  owns : ∀ promise owned, next.Owns promise owned ↔
    promise = target ∧ owned = state ∨
      promise ≠ target ∧ promise ≠ other ∧ promises.Owns promise owned
  ready : ∀ owned, next.Ready owned ↔ promises.Ready owned
  futures : next.futures = promises.futures
  length : next.states.length = promises.states.length

/-- A move leaves no state behind exactly if the target had none that a future waits for. -/
theorem Moved.waits_iff {target other state : ℕ} (moved : Moved promises next target other state)
    (sound : promises.Sound) :
    (∀ owned ∈ next.futures, next.Ready owned ∨ ∃ promise, next.Owns promise owned) ↔
      ∀ owned, promises.Owns target owned → owned ∈ promises.futures → promises.Ready owned := by
  rw [moved.futures]
  simp only [moved.ready, moved.owns]
  constructor
  · intro waits owned ownsTarget obtained
    rcases waits owned obtained with ready | ⟨promise, ⟨-, rfl⟩ | ⟨notTarget, -, owns⟩⟩
    · exact ready
    · exact absurd (sound.single target other owned ownsTarget moved.source) moved.apart
    · exact absurd (sound.single promise target owned owns ownsTarget) notTarget
  · intro overwritten owned obtained
    rcases sound.waits owned obtained with ready | ⟨promise, owns⟩
    · exact .inl ready
    · by_cases isTarget : promise = target
      · exact .inl (overwritten owned (isTarget ▸ owns) obtained)
      · by_cases isOther : promise = other
        · subst isOther
          exact .inr ⟨target, .inl ⟨rfl, owns.unique moved.source⟩⟩
        · exact .inr ⟨promise, .inr ⟨isTarget, isOther, owns⟩⟩

theorem Moved.single {target other state : ℕ} (moved : Moved promises next target other state)
    (sound : promises.Sound) (left right owned : ℕ) (ownsLeft : next.Owns left owned)
    (ownsRight : next.Owns right owned) : left = right := by
  rw [moved.owns] at ownsLeft ownsRight
  rcases ownsLeft with ⟨rfl, rfl⟩ | ⟨-, notLeft, left⟩
  · rcases ownsRight with ⟨rfl, -⟩ | ⟨-, notOther, right⟩
    · rfl
    · exact absurd (sound.single _ _ _ right moved.source) notOther
  · rcases ownsRight with ⟨rfl, rfl⟩ | ⟨-, -, right⟩
    · exact absurd (sound.single _ _ _ left moved.source) notLeft
    · exact sound.single _ _ _ left right

theorem Moved.bounded {target other state : ℕ} (moved : Moved promises next target other state)
    (sound : promises.Sound) (promise owned : ℕ) (owns : next.Owns promise owned) :
    owned < next.states.length := by
  rw [moved.length]
  rcases (moved.owns promise owned).mp owns with ⟨-, rfl⟩ | ⟨-, -, old⟩
  · exact sound.bounded other owned moved.source
  · exact sound.bounded promise owned old

/-- A move into a promise keeps the invariant exactly if the state that the promise had is ready or
has no future. -/
theorem Moved.sound_iff {target other state : ℕ} (moved : Moved promises next target other state)
    (sound : promises.Sound) :
    next.Sound ↔
      ∀ owned, promises.Owns target owned → owned ∈ promises.futures → promises.Ready owned := by
  rw [← moved.waits_iff sound]
  exact ⟨fun nextSound => nextSound.waits,
    fun waits => ⟨moved.single sound, moved.bounded sound, waits⟩⟩

theorem perform_moveConstruct {other state : ℕ} (owns : promises.Owns other state) :
    ∃ next, promises.perform (.moveConstruct other) = .ok next ∧
      Moved promises next promises.objects.length other state := by
  have inside : other < promises.objects.length := (List.getElem?_eq_some_iff.mp owns).1
  have found : promises.objects[other]? = some (.live (some state)) := owns
  refine ⟨⟨promises.states.modify state (claim promises.objects.length),
    promises.objects.set other (.live none) ++ [.live (some state)], promises.futures⟩,
    by simp only [perform, found], ⟨owns, inside.ne', ?_, ?_, rfl, by simp⟩⟩
  · intro promise owned
    simp only [Owns]
    by_cases isNew : promise = promises.objects.length
    · subst isNew
      simp [eq_comm]
    · by_cases isOther : promise = other
      · subst isOther
        simp [List.getElem?_append, inside, isNew]
      · by_cases old : promise < promises.objects.length
        · simp [List.getElem?_append, old, isNew, isOther, Ne.symm isOther]
        · have beyond : (promises.objects.set other (.live none) ++
              [.live (some state)])[promise]? = none := by
            apply List.getElem?_eq_none
            simp only [List.length_append, List.length_set, List.length_singleton]
            omega
          simp [beyond, List.getElem?_eq_none (Nat.le_of_not_lt old), isNew]
  · exact fun owned => ready_claim _ _ owned

theorem perform_moveAssign {target other state : ℕ} {old : Option ℕ}
    (found : promises.objects[target]? = some (.live old)) (owns : promises.Owns other state)
    (apart : target ≠ other) :
    ∃ next, promises.perform (.moveAssign target other) = .ok next ∧
      Moved promises next target other state := by
  have inside : target < promises.objects.length := (List.getElem?_eq_some_iff.mp found).1
  have foundOther : promises.objects[other]? = some (.live (some state)) := owns
  refine ⟨⟨promises.states.modify state (claim target),
    (promises.objects.set other (.live none)).set target (.live (some state)), promises.futures⟩,
    by simp only [perform, found, foundOther, if_neg apart], ⟨owns, apart, ?_, ?_, rfl, by simp⟩⟩
  · intro promise owned
    simp only [Owns, List.getElem?_set]
    by_cases isTarget : promise = target
    · subst isTarget
      simp [inside, eq_comm]
    · by_cases isOther : promise = other
      · subst isOther
        simp [isTarget, Ne.symm isTarget]
      · simp [isTarget, isOther, Ne.symm isTarget, Ne.symm isOther]
  · exact fun owned => ready_claim _ _ owned

/-- A new promise is not ready, and owned. -/
theorem construct_sound (sound : promises.Sound)
    (performed : promises.perform .construct = .ok next) : next.Sound := by
  simp only [perform, Except.ok.injEq] at performed
  subst performed
  have owns : ∀ promise state, (Promises.mk
      (promises.states ++ [⟨.future, some promises.objects.length⟩])
      (promises.objects ++ [.live (some promises.states.length)]) promises.futures).Owns
        promise state →
      promises.Owns promise state ∨
        promise = promises.objects.length ∧ state = promises.states.length := by
    intro promise state owns
    simp only [Owns, List.getElem?_append] at owns
    split at owns
    · exact .inl owns
    · rename_i beyond
      rw [List.getElem?_singleton] at owns
      split at owns
      · simp only [Option.some.injEq, PromiseObject.live.injEq] at owns
        exact .inr ⟨by omega, owns.symm⟩
      · cases owns
  refine ⟨?_, ?_, ?_⟩
  · intro left right state ownsLeft ownsRight
    rcases owns left state ownsLeft with oldLeft | ⟨rfl, rfl⟩
    · rcases owns right state ownsRight with oldRight | ⟨rfl, rfl⟩
      · exact sound.single left right state oldLeft oldRight
      · exact absurd (sound.bounded left _ oldLeft) (lt_irrefl _)
    · rcases owns right _ ownsRight with oldRight | ⟨rfl, -⟩
      · exact absurd (sound.bounded right _ oldRight) (lt_irrefl _)
      · rfl
  · intro promise state ownsNext
    simp only [List.length_append, List.length_singleton]
    rcases owns promise state ownsNext with old | ⟨-, rfl⟩
    · exact (sound.bounded promise state old).trans (Nat.lt_succ_self _)
    · exact Nat.lt_succ_self _
  · intro state obtained
    rcases sound.waits state obtained with ⟨shared, found, available⟩ | ⟨promise, old⟩
    · refine .inl ⟨shared, ?_, available⟩
      rw [List.getElem?_append_left (List.getElem?_eq_some_iff.mp found).1]
      exact found
    · refine .inr ⟨promise, ?_⟩
      simp only [Owns]
      rw [List.getElem?_append_left (List.getElem?_eq_some_iff.mp old).1]
      exact old

/-- An operation that gives no state to a promise, and leaves none unready that it drops. -/
theorem Sound.shrink (sound : promises.Sound)
    (owns : ∀ promise state, next.Owns promise state → promises.Owns promise state)
    (length : next.states.length = promises.states.length)
    (waits : ∀ state ∈ next.futures, next.Ready state ∨ ∃ promise, next.Owns promise state) :
    next.Sound where
  single := fun left right state ownsLeft ownsRight =>
    sound.single left right state (owns left state ownsLeft) (owns right state ownsRight)
  bounded := fun promise state ownsNext => length ▸ sound.bounded promise state (owns _ _ ownsNext)
  waits := waits

/-- `get_future` takes nothing from its promise. -/
theorem getFuture_sound (sound : promises.Sound) {promise : ℕ}
    (performed : promises.perform (.getFuture promise) = .ok next) : next.Sound := by
  simp only [perform] at performed
  split at performed
  · rename_i state found
    simp only [Except.ok.injEq] at performed
    subst performed
    refine sound.shrink (fun _ _ owns => owns) rfl ?_
    intro waited obtained
    rcases List.mem_append.mp obtained with old | isNew
    · exact sound.waits waited old
    · rw [List.mem_singleton] at isNew
      exact .inr ⟨promise, isNew ▸ found⟩
  · cases performed
  · simp only [Except.ok.injEq] at performed
    exact performed ▸ sound

/-- `set_value` makes a state ready. -/
theorem setValue_sound (sound : promises.Sound) {promise : ℕ} {value : T}
    (performed : promises.perform (.setValue promise value) = .ok next) : next.Sound := by
  simp only [perform] at performed
  split at performed
  · rename_i state found
    split at performed
    · simp only [Except.ok.injEq] at performed
      exact performed ▸ sound
    · rename_i shared foundState
      split at performed
      · cases performed
      · rename_i written wrote
        simp only [Except.ok.injEq] at performed
        subst performed
        refine sound.shrink (fun _ _ owns => owns) (by simp) ?_
        intro waited obtained
        by_cases same : state = waited
        · subst same
          exact .inr ⟨promise, found⟩
        · rcases sound.waits waited obtained with ⟨other, foundOther, available⟩ | owned
          · refine .inl ⟨other, ?_, available⟩
            rw [List.getElem?_set_ne same]
            exact foundOther
          · exact .inr owned
  · cases performed
  · simp only [Except.ok.injEq] at performed
    exact performed ▸ sound

theorem owns_of_owns_set_destroyed {promise other state : ℕ} {states : List (SharedState T)}
    {futures : List ℕ} :
    (Promises.mk states (promises.objects.set promise .destroyed) futures).Owns other state ↔
      other ≠ promise ∧ promises.Owns other state := by
  simp only [Owns, List.getElem?_set]
  by_cases same : promise = other
  · subst same
    simp
  · simp [same, Ne.symm same]

/-- The destructor leaves a state ready. -/
theorem available_release (shared : SharedState T) : (release shared).state.available = true := by
  cases held : shared.state <;>
    simp [release, held, FutureState.breakPromise, FutureState.available]

/-- The destructor makes the state of its promise ready. -/
theorem destroy_sound (sound : promises.Sound) {promise : ℕ}
    (performed : promises.perform (.destroy promise) = .ok next) : next.Sound := by
  simp only [perform] at performed
  split at performed
  · rename_i state found
    simp only [Except.ok.injEq] at performed
    subst performed
    refine sound.shrink (fun _ _ owns => (owns_of_owns_set_destroyed.mp owns).2) (by simp) ?_
    intro waited obtained
    rw [ready_modify]
    by_cases same : state = waited
    · subst same
      have inside := sound.bounded promise state found
      refine .inl ⟨_, List.getElem?_eq_getElem inside, ?_⟩
      rw [if_pos rfl]
      exact available_release _
    · rcases sound.waits waited obtained with ⟨shared, held, available⟩ | ⟨owner, owns⟩
      · refine .inl ⟨shared, held, ?_⟩
        rw [if_neg same]
        exact available
      · refine .inr ⟨owner, owns_of_owns_set_destroyed.mpr ⟨?_, owns⟩⟩
        rintro rfl
        exact same (Owns.unique found owns)
  · rename_i found
    simp only [Except.ok.injEq] at performed
    subst performed
    refine sound.shrink (fun _ _ owns => (owns_of_owns_set_destroyed.mp owns).2) rfl ?_
    intro waited obtained
    rcases sound.waits waited obtained with ready | ⟨owner, owns⟩
    · exact .inl ready
    · refine .inr ⟨owner, owns_of_owns_set_destroyed.mpr ⟨?_, owns⟩⟩
      rintro rfl
      simp [Owns, found] at owns
  · simp only [Except.ok.injEq] at performed
    exact performed ▸ sound

/-- A promise that is destroyed breaks its word to the futures of its state. -/
theorem destroy_breaks (sound : promises.Sound) {promise state : ℕ}
    (performed : promises.perform (.destroy promise) = .ok next)
    (owns : promises.Owns promise state) (notReady : ¬ promises.Ready state) :
    ∃ shared, next.states[state]? = some shared ∧
      shared.state = .exception "Broken Promise" := by
  have found : promises.objects[promise]? = some (.live (some state)) := owns
  have inside := sound.bounded promise state owns
  have held := List.getElem?_eq_getElem inside
  have unset : promises.states[state].state = .future := by
    cases isState : promises.states[state].state with
    | future => rfl
    | result value => exact absurd ⟨_, held, by simp [isState, FutureState.available]⟩ notReady
    | exception what => exact absurd ⟨_, held, by simp [isState, FutureState.available]⟩ notReady
  simp only [perform, found, Except.ok.injEq] at performed
  subst performed
  refine ⟨release promises.states[state], ?_, ?_⟩
  · simp [held]
  · simp [release, FutureState.breakPromise, unset]

theorem keeps_of_sound {op : Op T} (derefs : promises.perform op ≠ .error .nullState)
    (sounds : ∀ next, promises.perform op = .ok next → next.Sound)
    (broken : ∀ next state, promises.perform op = .ok next → promises.Drops state op →
      state ∈ promises.futures → ¬ promises.Ready state →
        ∃ shared, next.states[state]? = some shared ∧
          shared.state = .exception "Broken Promise") : promises.Keeps op where
  derefs := derefs
  owned := fun next performed =>
    (allOwned_iff (sounds next performed).single).mpr (sounds next performed).waits
  broken := broken

theorem perform_moveConstruct_cases (promises : Promises T) (other : ℕ) :
    (∃ state, promises.Owns other state) ∨
      promises.objects[other]? = some (.live none) ∧
        promises.perform (.moveConstruct other) = .error .nullState ∨
      promises.objects[other]? ≠ some (.live none) ∧
        promises.perform (.moveConstruct other) = .ok promises := by
  cases found : promises.objects[other]? with
  | none => simp [perform, found]
  | some object =>
      cases object with
      | destroyed => simp [perform, found]
      | live state =>
          cases state with
          | none => simp [perform, found]
          | some state => exact .inl ⟨state, found⟩

theorem perform_moveAssign_cases (promises : Promises T) (target other : ℕ) :
    promises.perform (.moveAssign target other) = .ok promises ∨
      target ≠ other ∧ ∃ old source, promises.objects[target]? = some (.live old) ∧
        promises.objects[other]? = some (.live source) := by
  cases found : promises.objects[target]? with
  | none => simp [perform, found]
  | some object =>
      cases object with
      | destroyed => simp [perform, found]
      | live old =>
          cases foundOther : promises.objects[other]? with
          | none => simp [perform, found, foundOther]
          | some object =>
              cases object with
              | destroyed => simp [perform, found, foundOther]
              | live source =>
                  by_cases same : target = other
                  · simp [perform, foundOther, same]
                  · exact .inr ⟨same, old, source, rfl, rfl⟩

theorem perform_moveAssign_null {target other : ℕ} {old : Option ℕ}
    (found : promises.objects[target]? = some (.live old))
    (foundOther : promises.objects[other]? = some (.live none)) (apart : target ≠ other) :
    promises.perform (.moveAssign target other) = .error .nullState := by
  simp [perform, found, foundOther, apart]

/-- A careful operation keeps every state owned or ready. -/
theorem perform_sound (sound : promises.Sound) {op : Op T} (careful : promises.Careful op)
    (performed : promises.perform op = .ok next) : next.Sound := by
  cases op with
  | construct => exact construct_sound sound performed
  | getFuture promise => exact getFuture_sound sound performed
  | setValue promise value => exact setValue_sound sound performed
  | destroy promise => exact destroy_sound sound performed
  | moveConstruct other =>
      rcases perform_moveConstruct_cases promises other with
        ⟨state, owns⟩ | ⟨-, failed⟩ | ⟨-, idle⟩
      · rcases perform_moveConstruct owns with ⟨moved, performedTo, isMove⟩
        rw [performed, Except.ok.injEq] at performedTo
        subst performedTo
        apply (isMove.sound_iff sound).mpr
        intro owned ownsNew
        simp [Owns] at ownsNew
      · rw [performed] at failed
        cases failed
      · rw [performed, Except.ok.injEq] at idle
        exact idle ▸ sound
  | moveAssign target other =>
      rcases perform_moveAssign_cases promises target other with
        idle | ⟨apart, old, source, found, foundOther⟩
      · rw [performed, Except.ok.injEq] at idle
        exact idle ▸ sound
      · rcases careful apart old source found foundOther with ⟨notNull, overwritten⟩
        rcases Option.ne_none_iff_exists'.mp notNull with ⟨state, rfl⟩
        rcases perform_moveAssign found foundOther apart with ⟨moved, performedTo, isMove⟩
        rw [performed, Except.ok.injEq] at performedTo
        subst performedTo
        apply (isMove.sound_iff sound).mpr
        intro owned owns obtained
        refine overwritten owned ?_ obtained
        simpa [Owns, found] using owns

/-- A careful operation does not use a promise that has been moved from. -/
theorem perform_ne_nullState {op : Op T} (careful : promises.Careful op) :
    promises.perform op ≠ .error .nullState := by
  intro failed
  cases op with
  | construct => cases failed
  | getFuture promise =>
      simp only [perform] at failed
      split at failed <;> cases failed
  | destroy promise =>
      simp only [perform] at failed
      split at failed <;> cases failed
  | setValue promise value =>
      simp only [perform] at failed
      split at failed
      · split at failed
        · cases failed
        · split at failed <;> cases failed
      · rename_i null
        exact careful null
      · cases failed
  | moveConstruct other =>
      rcases perform_moveConstruct_cases promises other with
        ⟨state, owns⟩ | ⟨null, -⟩ | ⟨-, idle⟩
      · rcases perform_moveConstruct owns with ⟨moved, performed, -⟩
        rw [performed] at failed
        cases failed
      · exact careful null
      · rw [idle] at failed
        cases failed
  | moveAssign target other =>
      rcases perform_moveAssign_cases promises target other with
        idle | ⟨apart, old, source, found, foundOther⟩
      · rw [idle] at failed
        cases failed
      · rcases Option.ne_none_iff_exists'.mp
          (careful apart old source found foundOther).1 with ⟨state, rfl⟩
        rcases perform_moveAssign found foundOther apart with ⟨moved, performed, -⟩
        rw [performed] at failed
        cases failed

/-- In a sound population an operation keeps its word exactly if it is careful. -/
theorem keeps_iff_careful (sound : promises.Sound) (op : Op T) :
    promises.Keeps op ↔ promises.Careful op := by
  constructor
  · intro keeps
    cases op with
    | construct => trivial
    | getFuture promise => trivial
    | destroy promise => trivial
    | setValue promise value =>
        intro null
        exact keeps.derefs (by simp [perform, null])
    | moveConstruct other =>
        intro null
        exact keeps.derefs (by simp [perform, null])
    | moveAssign target other =>
        intro apart old source found foundOther
        cases source with
        | none => exact absurd (perform_moveAssign_null found foundOther apart) keeps.derefs
        | some state =>
            refine ⟨by simp, ?_⟩
            rintro owned rfl obtained
            rcases perform_moveAssign found foundOther apart with ⟨moved, performed, isMove⟩
            have waits := (allOwned_iff (isMove.single sound)).mp (keeps.owned moved performed)
            exact (isMove.waits_iff sound).mp waits owned found obtained
  · intro careful
    refine keeps_of_sound (perform_ne_nullState careful)
      (fun next performed => perform_sound sound careful performed) ?_
    intro next state performed drops obtained notReady
    cases op with
    | destroy promise => exact destroy_breaks sound performed drops notReady
    | moveAssign target other =>
        rcases drops with ⟨owns, apart, source, foundOther⟩
        exact absurd ((careful apart _ source owns foundOther).2 state rfl obtained) notReady
    | construct => exact drops.elim
    | getFuture promise => exact drops.elim
    | setValue promise value => exact drops.elim
    | moveConstruct other => exact drops.elim

theorem perform_of_step {op : Op T} (stepped : promises.step op = some next) :
    promises.perform op = .ok next := by
  cases performed : promises.perform op with
  | error fault => simp [step, performed, Except.toOption] at stepped
  | ok result => simpa [step, performed, Except.toOption] using stepped

/-- No future is abandoned. For every sequence of operations on any number of promises, every
operation follows no null pointer and leaves every state ready or owned by exactly one live promise,
and the futures of a state that is dropped before it is ready get the exception, if and only if
no promise is moved from or set after it has been moved from, and none is overwritten while a future
waits for its state. -/
theorem promises_kept_iff (ops : List (Op T)) :
    Lib.Guarded step Keeps empty ops ↔ Lib.Guarded step Careful empty ops := by
  refine Lib.guarded_iff_of_invariant Sound ?_ ?_ empty_sound
  · intro promises op sound
    exact keeps_iff_careful sound op
  · intro promises op next sound careful stepped
    exact perform_sound sound careful (perform_of_step stepped)

/-- A promise whose future has been obtained is overwritten: nobody can make the future ready. -/
theorem moveAssign_abandons :
    ∃ promises next : Promises ℕ,
      Lib.exec step empty [.construct, .getFuture 0, .construct] = some promises ∧
      promises.perform (.moveAssign 0 1) = .ok next ∧
      0 ∈ next.futures ∧ ¬ next.Ready 0 ∧ (∀ promise, ¬ next.Owns promise 0) ∧
      ¬ Lib.Guarded step Keeps (empty : Promises ℕ)
        [.construct, .getFuture 0, .construct, .moveAssign 0 1] := by
  have notReady : ¬ (Promises.mk [⟨.future, some 0⟩, ⟨.future, some 0⟩]
      [.live (some 1), .live none] [0] : Promises ℕ).Ready 0 := by
    rintro ⟨shared, found, available⟩
    cases found
    cases available
  have unowned : ∀ promise, ¬ (Promises.mk [⟨.future, some 0⟩, ⟨.future, some 0⟩]
      [.live (some 1), .live none] [0] : Promises ℕ).Owns promise 0 := by
    intro promise owns
    have member := List.mem_of_getElem? owns
    simp at member
  refine ⟨_, _, rfl, rfl, by decide, notReady, unowned, ?_⟩
  rintro ⟨-, first⟩
  rcases first _ rfl with ⟨-, second⟩
  rcases second _ rfl with ⟨-, third⟩
  rcases third _ rfl with ⟨keeps, -⟩
  rcases keeps.owned _ rfl 0 (.inl (by decide)) with ready | ⟨promise, owns, -⟩
  · exact notReady ready
  · exact unowned promise owns

end Promises

end Pain
