import Pain.Base.Future
import Pain.Lib.Monitor

/-!
# Futures under threads

A `FutureState` is shared by the threads that hold its promise and its futures.
Its methods lock `_mutex`, and `get` waits at `_cond` until something has been
set. Here each statement that reads or writes a member is one atomic step, so
that the threads may interleave inside the methods: `set_value` writes `state`
before it constructs the value in the union, and `get` reads them one after the
other.

Reading a member of the union that is not there is undefined behaviour, and so is
the assignment to `u.ex` while the union holds a value, which releases the bytes
of the value as if they were an exception. These, and the failed assertion of
`set_value`, are failing steps: they end the process.
-/

namespace Pain

open Pain.Lib

universe u v

/-- `FutureState::State`. -/
inductive FutureTag where
  | kFuture
  | kResult
  | kException
deriving DecidableEq, Repr

/-- The union `FutureState::Any`: raw memory, a value or an exception. -/
inductive FutureAny (T : Type u) where
  | raw
  | value (value : T)
  | ex (what : String)
deriving DecidableEq, Repr

/-- The members `state` and `u`. -/
structure FutureFields (T : Type u) where
  state : FutureTag
  u : FutureAny T
deriving DecidableEq, Repr

/-- What the methods return or throw. -/
inductive FutureReply (T : Type u) where
  | got (value : T)
  | rethrown (what : String)
  | valueSet (value : T)
  | exceptionSet (what : String)
  | available (answer : Bool)
  | failed (answer : Bool)
deriving DecidableEq, Repr

/-- The places inside the methods between two accesses. -/
inductive FutureLabel (T : Type u) where
  | getLoop
  | getCheck
  | getRethrow
  | getMove
  | setValueAssert (value : T)
  | setValueState (value : T)
  | setValueConstruct (value : T)
  | setExceptionState (what : String)
  | setExceptionStore (what : String)
  | notifyOne (reply : FutureReply T)
  | finish (reply : FutureReply T)
  | available
  | failed
deriving DecidableEq, Repr

namespace FutureThreads

variable {T : Type u}

/-- The methods of `FutureState`. `get` moves the value out, and `moved` is what that leaves. -/
def micro (moved : T → T) :
    FutureLabel T → FutureFields T → Micro (FutureFields T) (FutureLabel T) (FutureReply T)
  | .getLoop, fields =>
      if fields.state = .kFuture then .wait .getLoop else .goto fields .getCheck
  | .getCheck, fields =>
      if fields.state = .kException then .goto fields .getRethrow else .goto fields .getMove
  | .getRethrow, fields =>
      match fields.u with
      | .ex what => .ret (.rethrown what)
      | .raw | .value _ => .fail
  | .getMove, fields =>
      match fields.u with
      | .value value => .goto { fields with u := .value (moved value) } (.finish (.got value))
      | .raw | .ex _ => .fail
  | .setValueAssert value, fields =>
      if fields.state = .kFuture then .goto fields (.setValueState value) else .fail
  | .setValueState value, fields =>
      .goto { fields with state := .kResult } (.setValueConstruct value)
  | .setValueConstruct value, fields =>
      .goto { fields with u := .value value } (.notifyOne (.valueSet value))
  | .setExceptionState what, fields =>
      .goto { fields with state := .kException } (.setExceptionStore what)
  | .setExceptionStore what, fields =>
      match fields.u with
      | .raw | .ex _ => .goto { fields with u := .ex what } (.notifyOne (.exceptionSet what))
      | .value _ => .fail
  | .notifyOne reply, _ => .notify (.finish reply)
  | .finish reply, _ => .ret reply
  | .available, fields =>
      .ret (.available (fields.state = .kResult ∨ fields.state = .kException))
  | .failed, fields => .ret (.failed (fields.state = .kException))

/-- The first places of the methods. -/
inductive Start : FutureLabel T → Prop where
  | get : Start .getLoop
  | setValue (value : T) : Start (.setValueAssert value)
  | setException (what : String) : Start (.setExceptionState what)
  | available : Start .available
  | failed : Start .failed

/-- A state as `std::make_shared` makes it. -/
def unset : FutureFields T := ⟨.kFuture, .raw⟩

/-- The members of a state that nobody is changing. -/
def represent : FutureState T → FutureFields T
  | .future => unset
  | .result value => ⟨.kResult, .value value⟩
  | .exception what => ⟨.kException, .ex what⟩

/-- What a sequential `FutureState` does when a method returns `reply`; `none` if the method cannot
return it. -/
def accept [DecidableEq T] (moved : T → T) (object : FutureState T) :
    FutureReply T → Option (FutureState T)
  | .got value => if object = .result value then some (.result (moved value)) else none
  | .rethrown what => if object = .exception what then some object else none
  | .valueSet value => object.setValue value
  | .exceptionSet what => object.setException what
  | .available answer => if answer = object.available then some object else none
  | .failed answer =>
      if answer = decide ((represent object).state = .kException) then some object else none

/-- What holds at each place of the members, and of the state they had when the mutex was locked. -/
def At [DecidableEq T] (moved : T → T) :
    FutureLabel T → FutureFields T → FutureState T → Prop
  | .getLoop, fields, object | .setValueAssert _, fields, object
  | .setExceptionState _, fields, object | .available, fields, object
  | .failed, fields, object => fields = represent object
  | .getCheck, fields, object => fields = represent object ∧ object ≠ .future
  | .getRethrow, fields, object =>
      fields = represent object ∧ ∃ what, object = .exception what
  | .getMove, fields, object => fields = represent object ∧ ∃ value, object = .result value
  | .setValueState _, fields, object => fields = represent object ∧ object = .future
  | .setValueConstruct _, fields, object => fields.state = .kResult ∧ object = .future
  | .setExceptionStore _, fields, object =>
      fields.state = .kException ∧ fields.u = (represent object).u
  | .notifyOne reply, fields, object | .finish reply, fields, object =>
      ∃ later, accept moved object reply = some later ∧ fields = represent later

variable {moved : T → T} {label later : FutureLabel T} {fields changed : FutureFields T}
  {object : FutureState T}

/-- Only `get` waits, before something has been set. -/
theorem eq_getLoop_of_wait (does : micro moved label fields = .wait later) :
    label = .getLoop ∧ later = .getLoop ∧ fields.state = .kFuture := by
  cases label <;> simp only [micro] at does <;> (try split at does) <;> simp_all

/-- Only a setter that has set something notifies. -/
theorem eq_finish_of_notify (does : micro moved label fields = .notify later) :
    ∃ reply, label = .notifyOne reply ∧ later = .finish reply := by
  cases label <;> simp only [micro] at does <;> (try split at does) <;> simp_all

section Atomicity

variable [DecidableEq T]

theorem at_of_start (starts : Start label) (represents : fields = represent object) :
    At moved label fields object := by
  cases starts <;> exact represents

/-- Each statement of a method takes what holds before it to what holds after it. -/
theorem at_of_goto (holds : At moved label fields object)
    (does : micro moved label fields = .goto changed later) : At moved later changed object := by
  cases label with
  | getLoop =>
      simp only [micro] at does
      split at does
      · simp at does
      · next set =>
          simp only [Micro.goto.injEq] at does
          rcases does with ⟨rfl, rfl⟩
          refine ⟨holds, ?_⟩
          rintro rfl
          exact set (by rw [show fields = represent .future from holds]; rfl)
  | getCheck =>
      rcases holds with ⟨rfl, set⟩
      cases object with
      | future => exact absurd rfl set
      | result value =>
          simp only [micro, represent, reduceCtorEq, if_false, Micro.goto.injEq] at does
          rcases does with ⟨rfl, rfl⟩
          exact ⟨rfl, value, rfl⟩
      | exception what =>
          simp only [micro, represent, if_true, Micro.goto.injEq] at does
          rcases does with ⟨rfl, rfl⟩
          exact ⟨rfl, what, rfl⟩
  | getRethrow =>
      rcases holds with ⟨rfl, what, rfl⟩
      simp [micro, represent] at does
  | getMove =>
      rcases holds with ⟨rfl, value, rfl⟩
      simp only [micro, represent, Micro.goto.injEq] at does
      rcases does with ⟨rfl, rfl⟩
      exact ⟨.result (moved value), by simp [accept], rfl⟩
  | setValueAssert value =>
      simp only [micro] at does
      split at does
      · next unset =>
          simp only [Micro.goto.injEq] at does
          rcases does with ⟨rfl, rfl⟩
          refine ⟨holds, ?_⟩
          have represents : fields = represent object := holds
          cases object <;> simp_all [represent]
      · simp at does
  | setValueState value =>
      simp only [micro, Micro.goto.injEq] at does
      rcases does with ⟨rfl, rfl⟩
      exact ⟨rfl, holds.2⟩
  | setValueConstruct value =>
      rcases holds with ⟨state, rfl⟩
      simp only [micro, Micro.goto.injEq] at does
      rcases does with ⟨rfl, rfl⟩
      exact ⟨.result value, rfl, by simp [represent, state]⟩
  | setExceptionState what =>
      have union : fields.u = (represent object).u := congrArg FutureFields.u holds
      simp only [micro, Micro.goto.injEq] at does
      rcases does with ⟨rfl, rfl⟩
      exact ⟨rfl, union⟩
  | setExceptionStore what =>
      rcases holds with ⟨state, union⟩
      cases object with
      | result value => simp [micro, union, represent] at does
      | future =>
          simp only [micro, union, represent, unset, Micro.goto.injEq] at does
          rcases does with ⟨rfl, rfl⟩
          exact ⟨.exception what, rfl, by simp [represent, state]⟩
      | exception other =>
          simp only [micro, union, represent, Micro.goto.injEq] at does
          rcases does with ⟨rfl, rfl⟩
          exact ⟨.exception what, rfl, by simp [represent, state]⟩
  | notifyOne reply | finish reply | available | failed => simp [micro] at does

/-- What a method returns is what the sequential state returns. -/
theorem accept_of_ret {reply : FutureReply T} (holds : At moved label fields object)
    (does : micro moved label fields = .ret reply) :
    ∃ later, accept moved object reply = some later ∧ fields = represent later := by
  cases label with
  | getRethrow =>
      rcases holds with ⟨rfl, what, rfl⟩
      simp only [micro, represent, Micro.ret.injEq] at does
      subst does
      exact ⟨.exception what, by simp [accept], rfl⟩
  | finish other =>
      simp only [micro, Micro.ret.injEq] at does
      exact does ▸ holds
  | available =>
      simp only [micro, Micro.ret.injEq] at does
      refine ⟨object, ?_, holds⟩
      have represents : fields = represent object := holds
      subst does
      cases object <;> simp [accept, represents, represent, unset, FutureState.available]
  | failed =>
      simp only [micro, Micro.ret.injEq] at does
      refine ⟨object, ?_, holds⟩
      have represents : fields = represent object := holds
      subst does
      simp [accept, represents]
  | _ =>
      simp only [micro] at does
      (try split at does) <;> simp at does

/-- What ends the process: the assertion of `set_value` where something has been set, or the
assignment of `set_exception` where a value has been set. -/
inductive Ends : FutureLabel T → FutureState T → Prop where
  | assertion (value : T) {object : FutureState T} (set : object.available = true) :
      Ends (.setValueAssert value) object
  | assignment (what : String) (value : T) : Ends (.setExceptionStore what) (.result value)

/-- A thread that cannot go on is at one of the two places where the process ends. -/
theorem ends_of_fail (holds : At moved label fields object)
    (does : micro moved label fields = .fail) : Ends label object := by
  cases label with
  | setValueAssert value =>
      have represents : fields = represent object := holds
      apply Ends.assertion value
      cases object <;> simp_all [micro, represent, unset, FutureState.available]
  | setExceptionStore what =>
      rcases holds with ⟨-, union⟩
      cases object with
      | result value => exact .assignment what value
      | future => simp [micro, union, represent, unset] at does
      | exception other => simp [micro, union, represent] at does
  | getRethrow =>
      rcases holds with ⟨rfl, what, rfl⟩
      simp [micro, represent] at does
  | getMove =>
      rcases holds with ⟨rfl, value, rfl⟩
      simp [micro, represent] at does
  | _ =>
      simp only [micro] at does
      (try split at does) <;> simp at does

/-- The statements of each method add up to the method of a sequential `FutureState`. -/
theorem law (moved : T → T) :
    Monitor.Law (micro moved) (accept moved) Start (fun fields object => fields = represent object)
      (At moved) := by
  constructor
  · exact at_of_start
  · exact at_of_goto
  · intro label fields object later holds does
    rcases eq_finish_of_notify does with ⟨reply, rfl, rfl⟩
    exact holds
  · intro label fields object later holds does
    rcases eq_getLoop_of_wait does with ⟨rfl, rfl, -⟩
    exact ⟨.get, holds⟩
  · exact accept_of_ret

variable {Thread : Type v} [DecidableEq Thread]
  {events : List (Thread × Move Thread (FutureLabel T))}
  {final : Monitor Thread (FutureFields T) (FutureLabel T)}

/-- However the statements of the methods interleave, what the methods return, in the order of their
unlocks, is what a sequential `FutureState` returns, and no thread reads a member of the union that
is not there: the process can only end in the assertion of `set_value` after something has been set,
and in the assignment of `set_exception` after a value has been set. -/
theorem linearizable (begins : ∀ event ∈ events, ∀ label, event.2 = .call label → Start label)
    (ran : exec (Monitor.step (micro moved)) (Monitor.fresh unset) events = some final) :
    ∃ later,
      exec (accept moved) .future (Monitor.replies (micro moved) (Monitor.fresh unset) events) =
        some later ∧
      (final.owner = none → final.data = represent later) ∧
      ∀ thread label, final.place thread = .inside label → micro moved label final.data = .fail →
        Ends label later := by
  have obeys : Monitor.Obeys Start (fun fields object => fields = represent object) (At moved)
      (Monitor.fresh unset : Monitor Thread (FutureFields T) (FutureLabel T)) .future :=
    Monitor.obeys_fresh rfl
  rcases obeys.run (law moved) begins ran with ⟨later, accepted, finalObeys⟩
  refine ⟨later, accepted, finalObeys.free, ?_⟩
  intro thread label inside fails
  exact ends_of_fail (finalObeys.inside thread label inside) fails

/-- A getter that waits for a setter. -/
theorem linearizable_get_before_set :
    ∃ later, exec (accept (fun _ => 0)) (.future : FutureState ℕ)
      (Monitor.replies (micro fun _ => 0) (Monitor.fresh unset)
        [(true, .call .getLoop), (true, .lock), (true, .run none),
          (false, .call (.setValueAssert 5)), (false, .lock), (false, .run none),
          (false, .run none), (false, .run none), (false, .run (some true)), (false, .run none),
          (true, .lock), (true, .run none), (true, .run none), (true, .run none),
          (true, .run none)]) = some later := by
  refine (@linearizable ℕ (fun _ => 0) _ Bool _ _ _ ?_ rfl).imp (fun _ accepted => accepted.1)
  simp [Start.get, Start.setValue]

end Atomicity

section Wakeups

variable {Thread : Type v} [DecidableEq Thread]
  {monitor next : Monitor Thread (FutureFields T) (FutureLabel T)} {thread getter setter : Thread}

/-- The statements between the change of `state` and the notification. -/
inductive Pending : FutureLabel T → Prop where
  | construct (value : T) : Pending (.setValueConstruct value)
  | store (what : String) : Pending (.setExceptionStore what)
  | notify (reply : FutureReply T) : Pending (.notifyOne reply)

/-- Where only one thread gets, nobody waits any more once the notification is made. -/
structure OneGetter (getter : Thread) (monitor : Monitor Thread (FutureFields T) (FutureLabel T)) :
    Prop where
  entering : ∀ thread, monitor.place thread = .entering .getLoop → thread = getter
  inside : ∀ thread, monitor.place thread = .inside .getLoop → thread = getter
  waiting : ∀ thread label, monitor.place thread = .waiting label →
    thread = getter ∧ label = .getLoop
  pending : monitor.data.state ≠ .kFuture → monitor.queue ≠ [] →
    ∃ thread label, monitor.place thread = .inside label ∧ Pending label

theorem ne_getLoop_of_goto (does : micro moved label fields = .goto changed later) :
    later ≠ .getLoop := by
  rintro rfl
  cases label <;> simp only [micro] at does <;> (try split at does) <;> simp_all

/-- A statement after which nothing is pending neither sets the state nor was pending itself. -/
theorem pending_of_goto (does : micro moved label fields = .goto changed later) :
    Pending later ∨ changed.state = fields.state ∧ ¬ Pending label := by
  cases label with
  | setValueState value =>
      simp only [micro, Micro.goto.injEq] at does
      exact .inl (does.2 ▸ .construct value)
  | setValueConstruct value =>
      simp only [micro, Micro.goto.injEq] at does
      exact .inl (does.2 ▸ .notify _)
  | setExceptionState what =>
      simp only [micro, Micro.goto.injEq] at does
      exact .inl (does.2 ▸ .store what)
  | setExceptionStore what =>
      simp only [micro] at does
      split at does <;> simp only [Micro.goto.injEq, reduceCtorEq] at does <;>
        exact .inl (does.2 ▸ .notify _)
  | notifyOne reply => simp [micro] at does
  | getMove =>
      right
      refine ⟨?_, by rintro ⟨⟩⟩
      simp only [micro] at does
      split at does <;> simp only [Micro.goto.injEq, reduceCtorEq] at does
      exact does.1 ▸ rfl
  | _ =>
      right
      refine ⟨?_, by rintro ⟨⟩⟩
      simp only [micro] at does
      (try split at does) <;> simp_all

theorem not_pending_of_ret {reply : FutureReply T}
    (does : micro moved label fields = .ret reply) : ¬ Pending label := by
  rintro (value | what | other) <;> simp only [micro] at does <;> (try split at does) <;>
    simp at does

omit [DecidableEq Thread] in
theorem oneGetter_fresh (getter : Thread) :
    OneGetter getter (Monitor.fresh (unset : FutureFields T)) := by
  constructor <;> simp [Monitor.fresh]

theorem OneGetter.sent (one : OneGetter getter monitor) {data : FutureFields T}
    {owner : Option Thread} {queue : List Thread} {place : Place (FutureLabel T)}
    (entering : place = .entering .getLoop → thread = getter)
    (inside : place = .inside .getLoop → thread = getter)
    (waiting : ∀ label, place = .waiting label → thread = getter ∧ label = .getLoop)
    (pending : data.state ≠ .kFuture → queue ≠ [] →
      (∃ label, place = .inside label ∧ Pending label) ∨
        ∃ other label, other ≠ thread ∧ monitor.place other = .inside label ∧ Pending label) :
    OneGetter getter (Monitor.move thread place
      { monitor with data := data, owner := owner, queue := queue }) := by
  constructor
  · intro other there
    by_cases same : other = thread
    · exact same.trans (entering (by simpa [Monitor.move, same] using there))
    · exact one.entering other (by simpa [Monitor.move, same] using there)
  · intro other there
    by_cases same : other = thread
    · exact same.trans (inside (by simpa [Monitor.move, same] using there))
    · exact one.inside other (by simpa [Monitor.move, same] using there)
  · intro other label there
    by_cases same : other = thread
    · exact same ▸ waiting label (by simpa [Monitor.move, same] using there)
    · exact one.waiting other label (by simpa [Monitor.move, same] using there)
  · intro set queued
    rcases pending set queued with ⟨label, rfl, isPending⟩ | ⟨other, label, different, rest⟩
    · exact ⟨thread, label, by simp [Monitor.move], isPending⟩
    · exact ⟨other, label, by simpa [Monitor.move, different] using rest⟩

/-- When the waiting thread wakes up, the queue is empty. -/
theorem OneGetter.erase_eq_nil (one : OneGetter getter monitor) (coherent : monitor.Coherent)
    (waiting : monitor.place thread = .waiting label) : monitor.queue.erase thread = [] := by
  rw [List.eq_nil_iff_forall_not_mem]
  intro other queued
  rw [coherent.nodup.mem_erase_iff, coherent.mem_queue] at queued
  rcases queued with ⟨different, otherLabel, otherWaiting⟩
  exact different ((one.waiting other _ otherWaiting).1.trans (one.waiting thread _ waiting).1.symm)

theorem OneGetter.awoken (one : OneGetter getter monitor) (coherent : monitor.Coherent)
    (waiting : monitor.place thread = .waiting label) :
    OneGetter getter (Monitor.move thread (.entering label)
      { monitor with queue := monitor.queue.erase thread }) := by
  refine one.sent ?_ ?_ ?_ ?_
  · exact fun _ => (one.waiting thread label waiting).1
  · simp
  · simp
  · exact fun _ queued => absurd (one.erase_eq_nil coherent waiting) queued

/-- A step keeps it so that one thread gets. -/
theorem OneGetter.after {move : Move Thread (FutureLabel T)} (one : OneGetter getter monitor)
    (coherent : monitor.Coherent) (begins : move = .call .getLoop → thread = getter)
    (stepped : Monitor.Stepped (micro moved) monitor thread move next) : OneGetter getter next := by
  cases stepped with
  | called outside =>
      refine one.sent ?_ ?_ ?_ ?_
      · simpa using begins
      · simp
      · simp
      · intro set queued
        rcases one.pending set queued with ⟨other, label, inside, isPending⟩
        refine .inr ⟨other, label, ?_, inside, isPending⟩
        rintro rfl
        simp [outside] at inside
  | locked entering free =>
      refine one.sent ?_ ?_ ?_ ?_
      · simp
      · intro same
        simp only [Place.inside.injEq] at same
        exact one.entering thread (same ▸ entering)
      · simp
      · intro set queued
        rcases one.pending set queued with ⟨other, label, inside, -⟩
        simp [coherent.owner_of_inside inside] at free
  | went inside does =>
      refine one.sent ?_ ?_ ?_ ?_
      · simp
      · simpa using fun same => absurd same (ne_getLoop_of_goto does)
      · simp
      · intro set queued
        rcases pending_of_goto does with isPending | ⟨same, notPending⟩
        · exact .inl ⟨_, rfl, isPending⟩
        · rcases one.pending (same ▸ set) queued with ⟨other, label, otherInside, isPending⟩
          have alone := coherent.alone inside otherInside
          subst alone
          rw [inside, Place.inside.injEq] at otherInside
          exact absurd (otherInside ▸ isPending) notPending
  | notifiedNobody inside does nobody =>
      rcases eq_finish_of_notify does with ⟨reply, -, rfl⟩
      refine one.sent ?_ ?_ ?_ ?_
      · simp
      · simp
      · simp
      · exact fun _ queued => absurd nobody queued
  | notified inside does wokenWaiting =>
      rcases eq_finish_of_notify does with ⟨reply, -, rfl⟩
      refine (one.awoken coherent wokenWaiting).sent ?_ ?_ ?_ ?_
      · simp
      · simp
      · simp
      · exact fun _ queued => absurd (one.erase_eq_nil coherent wokenWaiting) queued
  | waited inside does =>
      rcases eq_getLoop_of_wait does with ⟨rfl, rfl, state⟩
      refine one.sent ?_ ?_ ?_ ?_
      · simp
      · simp
      · simpa using one.inside thread inside
      · exact fun set _ => absurd state set
  | returned inside does =>
      refine one.sent ?_ ?_ ?_ ?_
      · simp
      · simp
      · simp
      · intro set queued
        rcases one.pending set queued with ⟨other, label, otherInside, isPending⟩
        have alone := coherent.alone inside otherInside
        subst alone
        rw [inside, Place.inside.injEq] at otherInside
        exact absurd (otherInside ▸ isPending) (not_pending_of_ret does)
  | woke waiting => exact one.awoken coherent waiting

variable {events : List (Thread × Move Thread (FutureLabel T))}
  {final : Monitor Thread (FutureFields T) (FutureLabel T)}

/-- A run in which one thread gets keeps it so. -/
theorem oneGetter_of_exec (one : OneGetter getter monitor) (coherent : monitor.Coherent)
    (gets : ∀ event ∈ events, event.2 = .call .getLoop → event.1 = getter)
    (ran : exec (Monitor.step (micro moved)) monitor events = some final) :
    OneGetter getter final := by
  have guarded : Guarded (Monitor.step (micro moved))
      (fun _ event => event.2 = .call .getLoop → event.1 = getter) monitor events :=
    guarded_of_forall_mem gets
  refine (exec_preserves (fun state => state.Coherent ∧ OneGetter getter state) ?_
    ⟨coherent, one⟩ guarded ran).2
  intro state event next holds begins stepped
  have does := Monitor.stepped_of_step stepped
  exact ⟨holds.1.after does, holds.2.after holds.1 begins does⟩

/-- Where one thread gets, it is not left waiting: once something has been set and nobody can go on,
every call has returned, unless the assertion of `set_value` or the assignment of `set_exception`
has ended the process. -/
theorem getter_returns [DecidableEq T]
    (begins : ∀ event ∈ events, ∀ label, event.2 = .call label → Start label)
    (gets : ∀ event ∈ events, event.2 = .call .getLoop → event.1 = getter)
    (ran : exec (Monitor.step (micro moved)) (Monitor.fresh unset) events = some final)
    (quiet : final.Quiet (micro moved)) (set : final.data.state ≠ .kFuture) :
    (∃ thread value, final.place thread = .inside (.setValueAssert value)) ∨
      (∃ thread what, final.place thread = .inside (.setExceptionStore what)) ∨
      ∀ thread, final.place thread = .outside := by
  rw [or_iff_not_imp_left, or_iff_not_imp_left]
  intro noAssertion noAssignment
  have coherent := Monitor.coherent_of_exec (Monitor.coherent_fresh unset) ran
  have one := oneGetter_of_exec (oneGetter_fresh getter) (Monitor.coherent_fresh unset) gets ran
  rcases linearizable begins ran with ⟨object, -, -, ends⟩
  have sound : ∀ thread label, final.place thread = .inside label →
      micro moved label final.data ≠ .fail := by
    intro thread label inside fails
    cases ends thread label inside fails with
    | assertion value set => exact noAssertion ⟨thread, value, inside⟩
    | assignment what value => exact noAssignment ⟨thread, what, inside⟩
  have idle := (coherent.quiet_iff sound).mp quiet
  have empty : final.queue = [] := by
    by_contra queued
    rcases one.pending set queued with ⟨thread, label, inside, -⟩
    rcases idle thread with place | ⟨other, place⟩ <;> simp [inside] at place
  intro thread
  rcases idle thread with place | ⟨label, place⟩
  · exact place
  · have queued := (coherent.mem_queue thread).mpr ⟨label, place⟩
    simp [empty] at queued

/-- The statements of the methods that set nothing, and the end of those that do. -/
inductive Reads : FutureLabel T → Prop where
  | getLoop : Reads .getLoop
  | getCheck : Reads .getCheck
  | getRethrow : Reads .getRethrow
  | getMove : Reads .getMove
  | finish (reply : FutureReply T) : Reads (.finish reply)
  | available : Reads .available
  | failed : Reads .failed

theorem reads_of_goto (reads : Reads label)
    (does : micro moved label fields = .goto changed later) : Reads later := by
  cases reads <;> simp only [micro] at does <;> (try split at does) <;>
    simp only [Micro.goto.injEq, reduceCtorEq] at does <;> rcases does with ⟨-, rfl⟩ <;> constructor

theorem not_notify_of_reads (reads : Reads label) : micro moved label fields ≠ .notify later := by
  intro does
  rcases eq_finish_of_notify does with ⟨reply, rfl, -⟩
  cases reads

/-- The thread is outside, or in a method that sets nothing. -/
def ReadsAt (place : Place (FutureLabel T)) : Prop :=
  ∀ label, place = .entering label ∨ place = .inside label ∨ place = .waiting label → Reads label

/-- The setter has still to notify if `remaining` is 1 and has done so if it is 0; all other threads
set nothing. -/
structure Notifying (setter : Thread) (remaining : ℕ)
    (monitor : Monitor Thread (FutureFields T) (FutureLabel T)) : Prop where
  others : ∀ thread, thread ≠ setter ∨ remaining = 0 → ReadsAt (monitor.place thread)
  setter : remaining ≠ 0 →
    remaining = 1 ∧ ∃ reply, monitor.place setter = .inside (.notifyOne reply)

variable {remaining : ℕ}

omit [DecidableEq Thread] in
/-- A thread that is not about to notify sets nothing. -/
theorem Notifying.reads (notifying : Notifying setter remaining monitor)
    (elsewhere : ∀ reply, monitor.place thread ≠ .inside (.notifyOne reply)) :
    ReadsAt (monitor.place thread) := by
  apply notifying.others
  by_contra both
  simp only [not_or, not_not] at both
  rcases both with ⟨rfl, pending⟩
  rcases (notifying.setter pending).2 with ⟨reply, inside⟩
  exact elsewhere reply inside

omit [DecidableEq Thread] in
/-- Only the setter is about to notify, and only once. -/
theorem Notifying.eq_of_notify (notifying : Notifying setter remaining monitor)
    (inside : monitor.place thread = .inside label)
    (does : micro moved label fields = .notify later) : thread = setter ∧ remaining = 1 := by
  have notReads : ¬ ReadsAt (monitor.place thread) :=
    fun reads => not_notify_of_reads (reads label (.inr (.inl inside))) does
  have isSetter : ¬ (thread ≠ setter ∨ remaining = 0) :=
    fun other => notReads (notifying.others thread other)
  simp only [not_or, not_not] at isSetter
  exact ⟨isSetter.1, (notifying.setter isSetter.2).1⟩

theorem Notifying.sent (notifying : Notifying setter remaining monitor) {data : FutureFields T}
    {owner : Option Thread} {queue : List Thread} {place : Place (FutureLabel T)}
    (elsewhere : ∀ reply, monitor.place thread ≠ .inside (.notifyOne reply))
    (reads : ReadsAt place) :
    Notifying setter remaining (Monitor.move thread place
      { monitor with data := data, owner := owner, queue := queue }) := by
  constructor
  · intro other isOther
    by_cases same : other = thread
    · simpa [Monitor.move, same] using reads
    · simpa [Monitor.move, same] using notifying.others other isOther
  · intro pending
    rcases notifying.setter pending with ⟨one, reply, inside⟩
    refine ⟨one, reply, ?_⟩
    have different : setter ≠ thread := by
      rintro rfl
      exact elsewhere reply inside
    simpa [Monitor.move, different] using inside

theorem Notifying.done (notifying : Notifying setter 1 monitor) {reply : FutureReply T} :
    Notifying setter 0 (Monitor.move setter (.inside (.finish reply)) monitor) := by
  constructor
  · intro other _
    by_cases same : other = setter
    · rintro label (there | there | there) <;> simp [Monitor.move, same] at there
      exact there ▸ .finish reply
    · simpa [Monitor.move, same] using notifying.others other (.inl same)
  · simp

/-- Each release is the notification of the setter, if nobody wakes up for no reason. -/
theorem Notifying.after {move : Move Thread (FutureLabel T)}
    (notifying : Notifying setter remaining monitor)
    (begins : ∀ label, move = .call label → Reads label) (noWake : move ≠ .wake)
    (stepped : Monitor.Stepped (micro moved) monitor thread move next) :
    ∃ left, Notifying setter left next ∧
      (if monitor.releases (micro moved) (thread, move) then 1 else 0) + left = remaining := by
  cases stepped with
  | @called start outside =>
      refine ⟨remaining, notifying.sent (by simp [outside]) ?_, by simp [Monitor.releases]⟩
      rintro label (there | there | there) <;>
        simp only [reduceCtorEq, Place.entering.injEq] at there
      exact there ▸ begins start rfl
  | @locked here entering free =>
      have elsewhere : ∀ reply, monitor.place thread ≠ .inside (.notifyOne reply) := by
        simp [entering]
      refine ⟨remaining, notifying.sent elsewhere ?_, by simp [Monitor.releases]⟩
      rintro label (there | there | there) <;>
        simp only [reduceCtorEq, Place.inside.injEq] at there
      exact there ▸ notifying.reads elsewhere here (.inl entering)
  | @went here later data woken inside does =>
      have elsewhere : ∀ reply, monitor.place thread ≠ .inside (.notifyOne reply) := by
        intro reply there
        rw [inside, Place.inside.injEq] at there
        simp [there, micro] at does
      refine ⟨remaining, notifying.sent elsewhere ?_, by simp [Monitor.releases, inside, does]⟩
      rintro label (there | there | there) <;>
        simp only [reduceCtorEq, Place.inside.injEq] at there
      exact there ▸ reads_of_goto (notifying.reads elsewhere here (.inr (.inl inside))) does
  | notifiedNobody inside does nobody =>
      rcases notifying.eq_of_notify inside does with ⟨rfl, rfl⟩
      rcases eq_finish_of_notify does with ⟨reply, -, rfl⟩
      exact ⟨0, notifying.done, by simp [Monitor.releases, inside, does]⟩
  | @notified here later waiting woken inside does wokenWaiting =>
      rcases notifying.eq_of_notify inside does with ⟨rfl, rfl⟩
      rcases eq_finish_of_notify does with ⟨reply, -, rfl⟩
      have elsewhere : ∀ reply, monitor.place woken ≠ .inside (.notifyOne reply) := by
        simp [wokenWaiting]
      refine ⟨0, (notifying.sent elsewhere ?_).done, by simp [Monitor.releases, inside, does]⟩
      rintro label (there | there | there) <;>
        simp only [reduceCtorEq, Place.entering.injEq] at there
      exact there ▸ notifying.reads elsewhere waiting (.inr (.inr wokenWaiting))
  | waited inside does =>
      rcases eq_getLoop_of_wait does with ⟨rfl, rfl, -⟩
      refine ⟨remaining, notifying.sent (by simp [inside]) ?_,
        by simp [Monitor.releases, inside, does]⟩
      rintro label (there | there | there) <;>
        simp only [reduceCtorEq, Place.waiting.injEq] at there
      exact there ▸ .getLoop
  | returned inside does =>
      refine ⟨remaining, notifying.sent ?_ ?_, by simp [Monitor.releases, inside, does]⟩
      · intro reply there
        rw [inside, Place.inside.injEq] at there
        simp [there, micro] at does
      · rintro label (there | there | there) <;> simp at there
  | woke waiting => exact absurd rfl noWake

/-- A run in which nobody else sets anything notifies once. -/
theorem Notifying.run (notifying : Notifying setter remaining monitor)
    (begins : ∀ event ∈ events, ∀ label, event.2 = .call label → Reads label)
    (noWake : ∀ event ∈ events, event.2 ≠ .wake)
    (ran : exec (Monitor.step (micro moved)) monitor events = some final) :
    ∃ left, Notifying setter left final ∧
      monitor.releaseCount (micro moved) events + left = remaining := by
  induction events generalizing monitor remaining with
  | nil =>
      simp only [exec_nil, Option.some.injEq] at ran
      subst ran
      exact ⟨remaining, notifying, by simp [Monitor.releaseCount]⟩
  | cons event events ih =>
      simp only [exec_cons, Option.bind_eq_some_iff] at ran
      rcases ran with ⟨next, stepped, rest⟩
      rcases notifying.after (begins event (by simp)) (noWake event (by simp))
        (Monitor.stepped_of_step stepped) with ⟨middle, nextNotifying, here⟩
      rcases ih nextNotifying (fun later laterMem => begins later (by simp [laterMem]))
        (fun later laterMem => noWake later (by simp [laterMem])) rest with
        ⟨left, finalNotifying, behind⟩
      refine ⟨left, finalNotifying, ?_⟩
      simp only [Monitor.releaseCount, stepped, Option.map_some, Option.getD_some]
      rw [← here, ← behind, Nat.add_assoc]

/-- What has been set stays set. -/
theorem stays_set (set : fields.state ≠ .kFuture)
    (does : micro moved label fields = .goto changed later) : changed.state ≠ .kFuture := by
  cases label <;> simp only [micro] at does <;> (try split at does) <;>
    simp only [Micro.goto.injEq, reduceCtorEq] at does <;> rcases does with ⟨rfl, -⟩ <;> simp_all

/-- `notify_one` wakes one thread only. If several threads wait when the value is set, then however
the threads go on, all but one of them are still waiting when nobody can go on, unless something is
set again or a thread wakes up for no reason; every other thread has returned. -/
theorem waiters_left [DecidableEq T] {before : List (Thread × Move Thread (FutureLabel T))}
    (beginsBefore : ∀ event ∈ before, ∀ label, event.2 = .call label → Start label)
    (ranBefore : exec (Monitor.step (micro moved)) (Monitor.fresh unset) before = some monitor)
    (set : monitor.data.state ≠ .kFuture) (notifying : Notifying setter 1 monitor)
    (begins : ∀ event ∈ events, ∀ label, event.2 = .call label → Start label ∧ Reads label)
    (noWake : ∀ event ∈ events, event.2 ≠ .wake)
    (ran : exec (Monitor.step (micro moved)) monitor events = some final)
    (quiet : final.Quiet (micro moved)) :
    final.queue.Sublist monitor.queue ∧ final.queue.length = monitor.queue.length - 1 ∧
      ∀ thread, thread ∉ final.queue → final.place thread = .outside := by
  have coherentBefore := Monitor.coherent_of_exec (Monitor.coherent_fresh unset) ranBefore
  have coherent := Monitor.coherent_of_exec coherentBefore ran
  have finalIsReached : exec (Monitor.step (micro moved)) (Monitor.fresh unset) (before ++ events) =
      some final := by
    rw [exec_append, ranBefore, Option.bind_some, ran]
  have beginsAll : ∀ event ∈ before ++ events, ∀ label, event.2 = .call label → Start label := by
    intro event eventMem
    rcases List.mem_append.mp eventMem with early | late
    · exact beginsBefore event early
    · exact fun label calls => (begins event late label calls).1
  rcases linearizable beginsAll finalIsReached with ⟨object, -, -, ends⟩
  rcases notifying.run (fun event eventMem label calls => (begins event eventMem label calls).2)
    noWake ran with ⟨left, finalNotifying, counted⟩
  have sound : ∀ thread label, final.place thread = .inside label →
      micro moved label final.data ≠ .fail := by
    intro thread label inside fails
    have ended := ends thread label inside fails
    have elsewhere : ∀ reply, final.place thread ≠ .inside (.notifyOne reply) := by
      intro reply there
      rw [inside, Place.inside.injEq] at there
      subst there
      cases ended
    have reads := finalNotifying.reads elsewhere label (.inr (.inl inside))
    cases ended <;> cases reads
  have idle := (coherent.quiet_iff sound).mp quiet
  have notified : left = 0 := by
    by_contra pending
    rcases (finalNotifying.setter pending).2 with ⟨reply, inside⟩
    rcases idle setter with place | ⟨label, place⟩ <;> simp [inside] at place
  rcases Monitor.length_queue_of_exec (fun fields => fields.state ≠ .kFuture) coherentBefore set
    stays_set (fun set does => set (eq_getLoop_of_wait does).2.2) ran with
    ⟨-, sublist, length⟩
  rw [show Monitor.releaseCount (micro moved) monitor events = 1 by omega] at length
  refine ⟨sublist, length, ?_⟩
  intro thread notQueued
  rcases idle thread with place | ⟨label, place⟩
  · exact place
  · exact absurd ((coherent.mem_queue thread).mpr ⟨label, place⟩) notQueued

/-- A getter that waits for a setter, and returns. -/
theorem getter_returns_get_before_set :
    ∃ final : Monitor Bool (FutureFields ℕ) (FutureLabel ℕ),
      exec (Monitor.step (micro fun _ => 0)) (Monitor.fresh unset)
        [(true, .call .getLoop), (true, .lock), (true, .run none),
          (false, .call (.setValueAssert 5)), (false, .lock), (false, .run none),
          (false, .run none), (false, .run none), (false, .run (some true)), (false, .run none),
          (true, .lock), (true, .run none), (true, .run none), (true, .run none),
          (true, .run none)] = some final ∧
      ((∃ thread value, final.place thread = .inside (.setValueAssert value)) ∨
        (∃ thread what, final.place thread = .inside (.setExceptionStore what)) ∨
        ∀ thread, final.place thread = .outside) := by
  refine Exists.imp (p := fun final => exec _ _ _ = some final ∧ final.Quiet (micro fun _ => 0) ∧
    final.data.state ≠ .kFuture) (fun final facts => ⟨facts.1,
      @getter_returns ℕ (fun _ => 0) Bool _ true _ _ _ ?_ ?_ facts.1 facts.2.1 facts.2.2⟩)
    ⟨_, rfl, ?_, ?_⟩
  · simp [Start.get, Start.setValue]
  · simp
  · intro thread
    cases thread <;> exact ⟨rfl, fun _ => rfl⟩
  · decide

omit [DecidableEq Thread] in
theorem notifying_of_waiting {reply : FutureReply T}
    (setterInside : monitor.place setter = .inside (.notifyOne reply))
    (othersWait : ∀ thread, thread ≠ setter → monitor.place thread = .waiting .getLoop) :
    Notifying setter 1 monitor := by
  constructor
  · intro thread other
    simp only [one_ne_zero, or_false] at other
    rintro label (there | there | there) <;> simp [othersWait thread other] at there
    exact there ▸ .getLoop
  · exact fun _ => ⟨rfl, reply, setterInside⟩

/-- Two getters wait; after the value has been set one of them still does. -/
theorem waiters_left_two_getters :
    ∃ monitor : Monitor (Fin 3) (FutureFields ℕ) (FutureLabel ℕ),
      exec (Monitor.step (micro fun _ => 0)) (Monitor.fresh unset)
        [(1, .call .getLoop), (1, .lock), (1, .run none), (2, .call .getLoop), (2, .lock),
          (2, .run none), (0, .call (.setValueAssert 5)), (0, .lock), (0, .run none),
          (0, .run none), (0, .run none)] = some monitor ∧
      ∃ final, exec (Monitor.step (micro fun _ => 0)) monitor
        [(0, .run (some 1)), (0, .run none), (1, .lock), (1, .run none), (1, .run none),
          (1, .run none), (1, .run none)] = some final ∧
        final.queue.length = monitor.queue.length - 1 := by
  have runs : ∃ monitor : Monitor (Fin 3) (FutureFields ℕ) (FutureLabel ℕ),
      exec (Monitor.step (micro fun _ => 0)) (Monitor.fresh unset)
        [(1, .call .getLoop), (1, .lock), (1, .run none), (2, .call .getLoop), (2, .lock),
          (2, .run none), (0, .call (.setValueAssert 5)), (0, .lock), (0, .run none),
          (0, .run none), (0, .run none)] = some monitor ∧
      (monitor.data.state ≠ .kFuture ∧ Notifying 0 1 monitor) ∧
      ∃ final, exec (Monitor.step (micro fun _ => 0)) monitor
        [(0, .run (some 1)), (0, .run none), (1, .lock), (1, .run none), (1, .run none),
          (1, .run none), (1, .run none)] = some final ∧ final.Quiet (micro fun _ => 0) := by
    refine ⟨_, rfl, ⟨by decide, notifying_of_waiting rfl (by decide)⟩, ?_⟩
    refine ⟨_, rfl, ?_⟩
    intro thread
    fin_cases thread <;> exact ⟨rfl, fun _ => rfl⟩
  rcases runs with ⟨monitor, ranBefore, ⟨set, notifying⟩, final, ran, quiet⟩
  refine ⟨monitor, ranBefore, final, ran,
    (waiters_left ?_ ranBefore set notifying ?_ ?_ ran quiet).2.1⟩
  · simp [Start.get, Start.setValue]
  · simp
  · simp

end Wakeups

end FutureThreads

end Pain
