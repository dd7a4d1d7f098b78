import Pain.Lib.Run

/-!
# Monitors

A monitor is data behind a mutex with one condition variable. A thread that
calls a method locks the mutex, goes through the method one atomic step after
another, and unlocks. A step may notify one of the waiting threads, and it may
wait, which unlocks the mutex and queues the thread in one go; a waiting thread
that is notified, or wakes up for no reason, has to lock the mutex again before
it goes on.

Three rules are proved of the runs of a monitor, in which the threads take steps
in any order. The rule of the monitor invariant says what the data satisfies
while nobody is inside, and that the replies are those of a sequential object.
The rule of the count says how many threads are left waiting once no step waits
any more. The rule of progress says when no thread can go on.
-/

namespace Pain.Lib

universe u v w x y

variable {Thread : Type u} {Data : Type v} {Label : Type w} {Reply : Type x}

/-- One atomic step of a method, from its label and the data. -/
inductive Micro (Data : Type v) (Label : Type w) (Reply : Type x) where
  | goto (data : Data) (next : Label)
  | notify (next : Label)
  | wait (next : Label)
  | ret (reply : Reply)
  | fail
deriving DecidableEq, Repr

/-- Where a thread is: outside, about to lock the mutex, inside with the mutex, or waiting. -/
inductive Place (Label : Type w) where
  | outside
  | entering (next : Label)
  | inside (next : Label)
  | waiting (next : Label)
deriving DecidableEq, Repr

/-- The data, the owner of the mutex, the waiting threads and where each thread is. -/
structure Monitor (Thread : Type u) (Data : Type v) (Label : Type w) where
  data : Data
  owner : Option Thread
  queue : List Thread
  place : Thread → Place Label

/-- What a thread does next. A step that notifies wakes `woken`, if anybody waits. -/
inductive Move (Thread : Type u) (Label : Type w) where
  | call (start : Label)
  | lock
  | run (woken : Option Thread)
  | wake
deriving DecidableEq, Repr

namespace Monitor

/-- Nobody is inside and nobody waits. -/
def fresh (data : Data) : Monitor Thread Data Label := ⟨data, none, [], fun _ => .outside⟩

/-- The owner is the one thread inside, and the queue lists the waiting threads, each once. -/
structure Coherent (monitor : Monitor Thread Data Label) : Prop where
  owner_iff : ∀ thread, monitor.owner = some thread ↔ ∃ label, monitor.place thread = .inside label
  mem_queue : ∀ thread, thread ∈ monitor.queue ↔ ∃ label, monitor.place thread = .waiting label
  nodup : monitor.queue.Nodup

theorem coherent_fresh (data : Data) : (fresh data : Monitor Thread Data Label).Coherent := by
  constructor <;> simp [fresh]

theorem Coherent.owner_of_inside {monitor : Monitor Thread Data Label} (coherent : monitor.Coherent)
    {thread : Thread} {label : Label} (inside : monitor.place thread = .inside label) :
    monitor.owner = some thread :=
  (coherent.owner_iff thread).mpr ⟨label, inside⟩

theorem Coherent.not_mem_queue {monitor : Monitor Thread Data Label} (coherent : monitor.Coherent)
    (thread : Thread) (notWaiting : ∀ label, monitor.place thread ≠ .waiting label) :
    thread ∉ monitor.queue := by
  intro queued
  rcases (coherent.mem_queue thread).mp queued with ⟨label, waiting⟩
  exact notWaiting label waiting

/-- Nobody else is inside together with a thread that is. -/
theorem Coherent.alone {monitor : Monitor Thread Data Label} (coherent : monitor.Coherent)
    {thread other : Thread} {label otherLabel : Label}
    (inside : monitor.place thread = .inside label)
    (otherInside : monitor.place other = .inside otherLabel) : other = thread := by
  have owner := coherent.owner_of_inside inside
  rw [coherent.owner_of_inside otherInside, Option.some.injEq] at owner
  exact owner

variable [DecidableEq Thread]

/-- Send a thread to a place. -/
def move (thread : Thread) (place : Place Label) (monitor : Monitor Thread Data Label) :
    Monitor Thread Data Label :=
  { monitor with place := Function.update monitor.place thread place }

/-- A waiting thread leaves the queue and has to lock the mutex again. -/
def awaken (thread : Thread) (monitor : Monitor Thread Data Label) :
    Option (Monitor Thread Data Label) :=
  match monitor.place thread with
  | .waiting next =>
      some (move thread (.entering next) { monitor with queue := monitor.queue.erase thread })
  | .outside | .entering _ | .inside _ => none

/-- Wake the thread of the choice, which is nobody exactly if nobody waits. -/
def notify (woken : Option Thread) (monitor : Monitor Thread Data Label) :
    Option (Monitor Thread Data Label) :=
  match woken with
  | none => if monitor.queue = [] then some monitor else none
  | some thread => monitor.awaken thread

/-- The step of the owner of the mutex. -/
def perform (thread : Thread) (woken : Option Thread) (monitor : Monitor Thread Data Label) :
    Micro Data Label Reply → Option (Monitor Thread Data Label)
  | .goto data next => some (move thread (.inside next) { monitor with data := data })
  | .notify next => (monitor.notify woken).map (move thread (.inside next))
  | .wait next =>
      some (move thread (.waiting next)
        { monitor with owner := none, queue := monitor.queue ++ [thread] })
  | .ret _ => some (move thread .outside { monitor with owner := none })
  | .fail => none

/-- One step of one thread; `none` if the thread cannot take it. -/
def step (micro : Label → Data → Micro Data Label Reply) (monitor : Monitor Thread Data Label)
    (event : Thread × Move Thread Label) : Option (Monitor Thread Data Label) :=
  match event.2, monitor.place event.1 with
  | .call start, .outside => some (move event.1 (.entering start) monitor)
  | .lock, .entering next =>
      if monitor.owner = none then
        some (move event.1 (.inside next) { monitor with owner := some event.1 })
      else none
  | .run woken, .inside next => monitor.perform event.1 woken (micro next monitor.data)
  | .wake, .waiting _ => monitor.awaken event.1
  | _, _ => none

/-- What the step returns to the caller of the method, if it is the last one. -/
def reply (micro : Label → Data → Micro Data Label Reply) (monitor : Monitor Thread Data Label)
    (event : Thread × Move Thread Label) : Option Reply :=
  match event.2, monitor.place event.1 with
  | .run _, .inside next =>
      match micro next monitor.data with
      | .ret reply => some reply
      | .goto _ _ | .notify _ | .wait _ | .fail => none
  | _, _ => none

/-- What the methods return, in the order in which they unlock the mutex. -/
def replies (micro : Label → Data → Micro Data Label Reply) :
    Monitor Thread Data Label → List (Thread × Move Thread Label) → List Reply
  | _, [] => []
  | monitor, event :: events =>
      (monitor.reply micro event).toList ++
        ((monitor.step micro event).map (fun next => replies micro next events)).getD []

variable {micro : Label → Data → Micro Data Label Reply} {monitor next : Monitor Thread Data Label}
  {thread : Thread}

/-- Everything a step of a thread can do. -/
inductive Stepped (micro : Label → Data → Micro Data Label Reply)
    (monitor : Monitor Thread Data Label) (thread : Thread) :
    Move Thread Label → Monitor Thread Data Label → Prop where
  | called {start : Label} : monitor.place thread = .outside →
      Stepped micro monitor thread (.call start) (move thread (.entering start) monitor)
  | locked {label : Label} : monitor.place thread = .entering label → monitor.owner = none →
      Stepped micro monitor thread .lock
        (move thread (.inside label) { monitor with owner := some thread })
  | went {label after : Label} {data : Data} {woken : Option Thread} :
      monitor.place thread = .inside label → micro label monitor.data = .goto data after →
      Stepped micro monitor thread (.run woken)
        (move thread (.inside after) { monitor with data := data })
  | notifiedNobody {label after : Label} :
      monitor.place thread = .inside label → micro label monitor.data = .notify after →
      monitor.queue = [] →
      Stepped micro monitor thread (.run none) (move thread (.inside after) monitor)
  | notified {label after waiting : Label} {woken : Thread} :
      monitor.place thread = .inside label → micro label monitor.data = .notify after →
      monitor.place woken = .waiting waiting →
      Stepped micro monitor thread (.run (some woken))
        (move thread (.inside after)
          (move woken (.entering waiting) { monitor with queue := monitor.queue.erase woken }))
  | waited {label after : Label} {woken : Option Thread} :
      monitor.place thread = .inside label → micro label monitor.data = .wait after →
      Stepped micro monitor thread (.run woken)
        (move thread (.waiting after)
          { monitor with owner := none, queue := monitor.queue ++ [thread] })
  | returned {label : Label} {reply : Reply} {woken : Option Thread} :
      monitor.place thread = .inside label → micro label monitor.data = .ret reply →
      Stepped micro monitor thread (.run woken)
        (move thread .outside { monitor with owner := none })
  | woke {label : Label} : monitor.place thread = .waiting label →
      Stepped micro monitor thread .wake
        (move thread (.entering label) { monitor with queue := monitor.queue.erase thread })

theorem awaken_eq {woken : Thread} {label : Label}
    (waiting : monitor.place woken = .waiting label) :
    monitor.awaken woken = some (move woken (.entering label)
      { monitor with queue := monitor.queue.erase woken }) := by
  simp only [awaken, waiting]

theorem stepped_of_run {woken : Option Thread} {label : Label}
    (inside : monitor.place thread = .inside label)
    (stepped : monitor.perform thread woken (micro label monitor.data) = some next) :
    Stepped micro monitor thread (.run woken) next := by
  cases does : micro label monitor.data with
  | goto data after =>
      simp only [perform, does, Option.some.injEq] at stepped
      exact stepped ▸ .went inside does
  | notify after =>
      simp only [perform, does, Option.map_eq_some_iff] at stepped
      rcases stepped with ⟨notified, notifiedEq, rfl⟩
      cases woken with
      | none =>
          simp only [notify, Option.ite_none_right_eq_some, Option.some.injEq] at notifiedEq
          rcases notifiedEq with ⟨nobody, rfl⟩
          exact .notifiedNobody inside does nobody
      | some woken =>
          simp only [notify] at notifiedEq
          cases place : monitor.place woken with
          | waiting waiting =>
              simp only [awaken_eq place, Option.some.injEq] at notifiedEq
              subst notifiedEq
              exact .notified inside does place
          | outside => simp [awaken, place] at notifiedEq
          | entering other => simp [awaken, place] at notifiedEq
          | inside other => simp [awaken, place] at notifiedEq
  | wait after =>
      simp only [perform, does, Option.some.injEq] at stepped
      exact stepped ▸ .waited inside does
  | ret reply =>
      simp only [perform, does, Option.some.injEq] at stepped
      exact stepped ▸ .returned inside does
  | fail => simp [perform, does] at stepped

theorem stepped_of_step {move : Move Thread Label}
    (stepped : monitor.step micro (thread, move) = some next) :
    Stepped micro monitor thread move next := by
  cases place : monitor.place thread <;> cases move <;>
    simp only [step, place, reduceCtorEq, Option.some.injEq,
      Option.ite_none_right_eq_some] at stepped
  case outside.call => exact stepped ▸ .called place
  case entering.lock => exact stepped.2 ▸ .locked place stepped.1
  case inside.run => exact stepped_of_run place stepped
  case waiting.wake =>
    simp only [awaken_eq place, Option.some.injEq] at stepped
    exact stepped ▸ .woke place

/-- A thread may be sent to another place if the owner and the queue follow it. -/
theorem Coherent.sent (coherent : monitor.Coherent) {data : Data} {owner : Option Thread}
    {queue : List Thread} {place : Place Label}
    (ownerSelf : owner = some thread ↔ ∃ label, place = .inside label)
    (ownerOther : ∀ other, other ≠ thread → (owner = some other ↔ monitor.owner = some other))
    (queueSelf : thread ∈ queue ↔ ∃ label, place = .waiting label)
    (queueOther : ∀ other, other ≠ thread → (other ∈ queue ↔ other ∈ monitor.queue))
    (nodup : queue.Nodup) :
    (move thread place { monitor with data := data, owner := owner, queue := queue }).Coherent := by
  constructor
  · intro other
    by_cases same : other = thread
    · simpa [move, same] using ownerSelf
    · simpa [move, same, ownerOther other same] using coherent.owner_iff other
  · intro other
    by_cases same : other = thread
    · simpa [move, same] using queueSelf
    · simpa [move, same, queueOther other same] using coherent.mem_queue other
  · exact nodup

/-- A waiting thread that wakes up is not the owner and leaves the queue. -/
theorem Coherent.awoken (coherent : monitor.Coherent) {woken : Thread} {label : Label}
    (waiting : monitor.place woken = .waiting label) :
    (move woken (.entering label)
      { monitor with queue := monitor.queue.erase woken }).Coherent := by
  refine coherent.sent ?_ ?_ ?_ ?_ (coherent.nodup.erase woken)
  · have notOwner : monitor.owner ≠ some woken := by
      simp [coherent.owner_iff, waiting]
    simp [notOwner]
  · intro other _
    rfl
  · simp [coherent.nodup.mem_erase_iff]
  · intro other different
    simp [coherent.nodup.mem_erase_iff, different]

theorem Coherent.after {move : Move Thread Label} (coherent : monitor.Coherent)
    (stepped : Stepped micro monitor thread move next) : next.Coherent := by
  cases stepped with
  | called outside =>
      have notQueued := coherent.not_mem_queue thread (by simp [outside])
      have notOwner : monitor.owner ≠ some thread := by simp [coherent.owner_iff, outside]
      refine coherent.sent ?_ ?_ ?_ ?_ coherent.nodup <;> simp [notQueued, notOwner]
  | locked entering free =>
      have notQueued := coherent.not_mem_queue thread (by simp [entering])
      refine coherent.sent ?_ ?_ ?_ ?_ coherent.nodup <;> simp [notQueued, free]
      exact fun other different same => different same.symm
  | went inside does =>
      have notQueued := coherent.not_mem_queue thread (by simp [inside])
      have owner := coherent.owner_of_inside inside
      refine coherent.sent ?_ ?_ ?_ ?_ coherent.nodup <;> simp [notQueued, owner]
  | notifiedNobody inside does nobody =>
      have notQueued := coherent.not_mem_queue thread (by simp [inside])
      have owner := coherent.owner_of_inside inside
      refine coherent.sent ?_ ?_ ?_ ?_ coherent.nodup <;> simp [notQueued, owner]
  | @notified label after waiting woken inside does wokenWaiting =>
      have awoken := coherent.awoken wokenWaiting
      have different : thread ≠ woken := by
        rintro rfl
        simp [inside] at wokenWaiting
      have notQueued := coherent.not_mem_queue thread (by simp [inside])
      have stillOut : thread ∉ monitor.queue.erase woken :=
        fun queued => notQueued (List.mem_of_mem_erase queued)
      have owner := coherent.owner_of_inside inside
      refine awoken.sent ?_ ?_ ?_ ?_ awoken.nodup <;> simp [Monitor.move, stillOut, owner]
  | waited inside does =>
      have notQueued := coherent.not_mem_queue thread (by simp [inside])
      have owner := coherent.owner_of_inside inside
      refine coherent.sent ?_ ?_ ?_ ?_ ?_
      · simp
      · intro other different
        simp [owner, Ne.symm different]
      · simp
      · intro other different
        simp [different]
      · simpa [List.nodup_append, notQueued] using
          ⟨coherent.nodup, fun other queued same => notQueued (same ▸ queued)⟩
  | returned inside does =>
      have notQueued := coherent.not_mem_queue thread (by simp [inside])
      have owner := coherent.owner_of_inside inside
      refine coherent.sent ?_ ?_ ?_ ?_ coherent.nodup
      · simp
      · intro other different
        simp [owner, Ne.symm different]
      · simp [notQueued]
      · intro other _
        rfl
  | woke waiting => exact coherent.awoken waiting

theorem coherent_of_exec {state final : Monitor Thread Data Label}
    {events : List (Thread × Move Thread Label)} (coherent : state.Coherent)
    (ran : exec (step micro) state events = some final) : final.Coherent :=
  exec_invariant Coherent
    (fun holds stepped => holds.after (stepped_of_step stepped)) coherent ran

section Law

variable {Abstract : Type y}

/-- The rule of the monitor invariant. The data satisfies `Inv` whenever the mutex is free, and
`At label` while a thread is inside at the label; methods begin and resume at a label of `Start`;
and what a method returns is accepted by the abstract object that the data stands for. -/
structure Law (micro : Label → Data → Micro Data Label Reply)
    (accept : Abstract → Reply → Option Abstract) (Start : Label → Prop)
    (Inv : Data → Abstract → Prop) (At : Label → Data → Abstract → Prop) : Prop where
  enter : ∀ {label data object}, Start label → Inv data object → At label data object
  goto : ∀ {label data object changed after}, At label data object →
    micro label data = .goto changed after → At after changed object
  notify : ∀ {label data object after}, At label data object →
    micro label data = .notify after → At after data object
  wait : ∀ {label data object after}, At label data object →
    micro label data = .wait after → Start after ∧ Inv data object
  ret : ∀ {label data object reply}, At label data object →
    micro label data = .ret reply → ∃ later, accept object reply = some later ∧ Inv data later

/-- What the rule of the monitor invariant says of one state. -/
structure Obeys (Start : Label → Prop) (Inv : Data → Abstract → Prop)
    (At : Label → Data → Abstract → Prop) (monitor : Monitor Thread Data Label)
    (object : Abstract) : Prop where
  coherent : monitor.Coherent
  starts : ∀ thread label,
    monitor.place thread = .entering label ∨ monitor.place thread = .waiting label → Start label
  free : monitor.owner = none → Inv monitor.data object
  inside : ∀ thread label, monitor.place thread = .inside label → At label monitor.data object

variable {accept : Abstract → Reply → Option Abstract} {Start : Label → Prop}
  {Inv : Data → Abstract → Prop} {At : Label → Data → Abstract → Prop} {object : Abstract}

omit [DecidableEq Thread] in
theorem obeys_fresh {data : Data} (inv : Inv data object) :
    Obeys Start Inv At (fresh data : Monitor Thread Data Label) object := by
  constructor
  · exact coherent_fresh data
  · simp [fresh]
  · exact fun _ => inv
  · simp [fresh]

/-- A step in which the mutex changes hands keeps the rule if the new owner is where it holds. -/
theorem Obeys.sent (obeys : Obeys Start Inv At monitor object) {data : Data}
    {owner : Option Thread} {queue : List Thread} {place : Place Label} {later : Abstract}
    (coherent : (move thread place
      { monitor with data := data, owner := owner, queue := queue }).Coherent)
    (starts : ∀ label, place = .entering label ∨ place = .waiting label → Start label)
    (free : owner = none → Inv data later)
    (self : ∀ label, place = .inside label → At label data later)
    (others : ∀ other label, other ≠ thread → monitor.place other = .inside label →
      At label data later) :
    Obeys Start Inv At
      (move thread place { monitor with data := data, owner := owner, queue := queue }) later := by
  constructor
  · exact coherent
  · intro other label there
    by_cases same : other = thread
    · exact starts label (by simpa [move, same] using there)
    · exact obeys.starts other label (by simpa [move, same] using there)
  · exact free
  · intro other label there
    by_cases same : other = thread
    · exact self label (by simpa [move, same] using there)
    · exact others other label same (by simpa [move, same] using there)

/-- One step of any thread keeps the rule, and what it returns is accepted. -/
theorem Obeys.after {move : Move Thread Label} (obeys : Obeys Start Inv At monitor object)
    (law : Law micro accept Start Inv At) (begins : ∀ label, move = .call label → Start label)
    (stepped : Stepped micro monitor thread move next) :
    ∃ later, exec accept object (monitor.reply micro (thread, move)).toList = some later ∧
      Obeys Start Inv At next later := by
  have coherent := obeys.coherent.after stepped
  cases stepped with
  | @called start outside =>
      refine ⟨object, by simp [reply], obeys.sent coherent ?_ obeys.free ?_ ?_⟩
      · simpa using begins
      · simp
      · exact fun other label _ inside => obeys.inside other label inside
  | @locked label entering free =>
      have inv := obeys.free free
      refine ⟨object, by simp [reply], obeys.sent coherent ?_ ?_ ?_ ?_⟩
      · simp
      · simp
      · simpa using law.enter (obeys.starts thread label (.inl entering)) inv
      · intro other otherLabel _ inside
        have owned := obeys.coherent.owner_of_inside inside
        simp [free] at owned
  | went inside does =>
      have holds := law.goto (obeys.inside thread _ inside) does
      refine ⟨object, by simp [reply, inside, does], obeys.sent coherent ?_ ?_ ?_ ?_⟩
      · simp
      · simp [obeys.coherent.owner_of_inside inside]
      · simpa using holds
      · exact fun other _ different there =>
          absurd (obeys.coherent.alone inside there) different
  | notifiedNobody inside does nobody =>
      have holds := law.notify (obeys.inside thread _ inside) does
      refine ⟨object, by simp [reply, inside, does], obeys.sent coherent ?_ obeys.free ?_ ?_⟩
      · simp
      · simpa using holds
      · exact fun other label _ there => obeys.inside other label there
  | @notified label after waiting woken inside does wokenWaiting =>
      have holds := law.notify (obeys.inside thread _ inside) does
      have awoken : Obeys Start Inv At (Monitor.move woken (.entering waiting)
          { monitor with queue := monitor.queue.erase woken }) object := by
        refine obeys.sent (obeys.coherent.awoken wokenWaiting) ?_ obeys.free ?_ ?_
        · simpa using obeys.starts woken waiting (.inr wokenWaiting)
        · simp
        · exact fun other label _ there => obeys.inside other label there
      refine ⟨object, by simp [reply, inside, does], awoken.sent coherent ?_ awoken.free ?_ ?_⟩
      · simp
      · simpa [Monitor.move] using holds
      · exact fun other label _ there => awoken.inside other label there
  | waited inside does =>
      rcases law.wait (obeys.inside thread _ inside) does with ⟨starts, inv⟩
      refine ⟨object, by simp [reply, inside, does], obeys.sent coherent ?_ ?_ ?_ ?_⟩
      · simpa using starts
      · exact fun _ => inv
      · simp
      · exact fun other _ different there =>
          absurd (obeys.coherent.alone inside there) different
  | returned inside does =>
      rcases law.ret (obeys.inside thread _ inside) does with ⟨later, accepted, inv⟩
      refine ⟨later, by simp [reply, inside, does, accepted], obeys.sent coherent ?_ ?_ ?_ ?_⟩
      · simp
      · exact fun _ => inv
      · simp
      · exact fun other _ different there =>
          absurd (obeys.coherent.alone inside there) different
  | @woke label waiting =>
      refine ⟨object, by simp [reply], obeys.sent coherent ?_ obeys.free ?_ ?_⟩
      · simpa using obeys.starts thread label (.inr waiting)
      · simp
      · exact fun other label _ there => obeys.inside other label there

/-- In every run the replies, in the order of the unlocks, are those of the sequential object. -/
theorem Obeys.run {final : Monitor Thread Data Label} {events : List (Thread × Move Thread Label)}
    (obeys : Obeys Start Inv At monitor object) (law : Law micro accept Start Inv At)
    (begins : ∀ event ∈ events, ∀ label, event.2 = .call label → Start label)
    (ran : exec (step micro) monitor events = some final) :
    ∃ later, exec accept object (monitor.replies micro events) = some later ∧
      Obeys Start Inv At final later := by
  induction events generalizing monitor object with
  | nil =>
      simp only [exec_nil, Option.some.injEq] at ran
      exact ⟨object, rfl, ran ▸ obeys⟩
  | cons event events ih =>
      simp only [exec_cons, Option.bind_eq_some_iff] at ran
      rcases ran with ⟨next, stepped, rest⟩
      rcases obeys.after law (begins event (by simp)) (stepped_of_step stepped) with
        ⟨middle, accepted, nextObeys⟩
      rcases ih nextObeys (fun later laterMem => begins later (by simp [laterMem])) rest with
        ⟨later, acceptedRest, finalObeys⟩
      refine ⟨later, ?_, finalObeys⟩
      simp [replies, exec_append, accepted, stepped, acceptedRest]

end Law

/-- The step is one after which a waiting thread goes on: a notification, or a waking up. -/
def releases (micro : Label → Data → Micro Data Label Reply) (monitor : Monitor Thread Data Label)
    (event : Thread × Move Thread Label) : Bool :=
  match event.2, monitor.place event.1 with
  | .run _, .inside label =>
      match micro label monitor.data with
      | .notify _ => true
      | .goto _ _ | .wait _ | .ret _ | .fail => false
  | .wake, .waiting _ => true
  | _, _ => false

/-- The number of notifications and wakings in a run. -/
def releaseCount (micro : Label → Data → Micro Data Label Reply) :
    Monitor Thread Data Label → List (Thread × Move Thread Label) → ℕ
  | _, [] => 0
  | monitor, event :: events =>
      (if monitor.releases micro event then 1 else 0) +
        ((monitor.step micro event).map (fun next => releaseCount micro next events)).getD 0

section Settled

variable (settled : Data → Prop)

/-- Where nobody starts to wait any more, each release shortens the queue by one. -/
theorem Stepped.length_queue {move : Move Thread Label} (coherent : monitor.Coherent)
    (settledNow : settled monitor.data)
    (stays : ∀ {label data changed after}, settled data →
      micro label data = .goto changed after → settled changed)
    (noWait : ∀ {label data after}, settled data → micro label data ≠ .wait after)
    (stepped : Stepped micro monitor thread move next) :
    settled next.data ∧ next.queue.Sublist monitor.queue ∧
      next.queue.length =
        monitor.queue.length - if monitor.releases micro (thread, move) then 1 else 0 := by
  cases stepped with
  | called outside => exact ⟨settledNow, .refl _, by simp [releases, Monitor.move]⟩
  | locked entering free => exact ⟨settledNow, .refl _, by simp [releases, Monitor.move]⟩
  | went inside does =>
      exact ⟨stays settledNow does, .refl _, by simp [releases, inside, does, Monitor.move]⟩
  | notifiedNobody inside does nobody =>
      exact ⟨settledNow, .refl _, by simp [releases, inside, does, nobody, Monitor.move]⟩
  | @notified label after waiting woken inside does wokenWaiting =>
      have queued := (coherent.mem_queue woken).mpr ⟨waiting, wokenWaiting⟩
      refine ⟨settledNow, List.erase_sublist, ?_⟩
      simp [releases, inside, does, Monitor.move, List.length_erase_of_mem queued]
  | waited inside does => exact absurd does (noWait settledNow)
  | returned inside does =>
      exact ⟨settledNow, .refl _, by simp [releases, inside, does, Monitor.move]⟩
  | woke waiting =>
      have queued := (coherent.mem_queue thread).mpr ⟨_, waiting⟩
      refine ⟨settledNow, List.erase_sublist, ?_⟩
      simp [releases, waiting, Monitor.move, List.length_erase_of_mem queued]

/-- The rule of the count: as many threads stay in the queue as there are not released. -/
theorem length_queue_of_exec {final : Monitor Thread Data Label}
    {events : List (Thread × Move Thread Label)} (coherent : monitor.Coherent)
    (settledNow : settled monitor.data)
    (stays : ∀ {label data changed after}, settled data →
      micro label data = .goto changed after → settled changed)
    (noWait : ∀ {label data after}, settled data → micro label data ≠ .wait after)
    (ran : exec (step micro) monitor events = some final) :
    settled final.data ∧ final.queue.Sublist monitor.queue ∧
      final.queue.length = monitor.queue.length - releaseCount micro monitor events := by
  induction events generalizing monitor with
  | nil =>
      simp only [exec_nil, Option.some.injEq] at ran
      subst ran
      exact ⟨settledNow, .refl _, rfl⟩
  | cons event events ih =>
      simp only [exec_cons, Option.bind_eq_some_iff] at ran
      rcases ran with ⟨next, stepped, rest⟩
      have does := stepped_of_step stepped
      rcases does.length_queue settled coherent settledNow stays noWait with
        ⟨settledNext, sublist, length⟩
      rcases ih (coherent.after does) settledNext rest with
        ⟨settledFinal, sublistRest, lengthRest⟩
      refine ⟨settledFinal, sublistRest.trans sublist, ?_⟩
      simp only [releaseCount, stepped, Option.map_some, Option.getD_some, lengthRest, length,
        Nat.sub_sub]

end Settled

/-- Nobody can go on without a new call, unless a waiting thread wakes up for no reason. -/
def Quiet (micro : Label → Data → Micro Data Label Reply)
    (monitor : Monitor Thread Data Label) : Prop :=
  ∀ thread, monitor.step micro (thread, .lock) = none ∧
    ∀ woken, monitor.step micro (thread, .run woken) = none

/-- The owner of the mutex can always go on, except where its step fails. -/
theorem Coherent.exists_run (coherent : monitor.Coherent) {label : Label}
    (inside : monitor.place thread = .inside label) (sound : micro label monitor.data ≠ .fail) :
    ∃ woken next, monitor.step micro (thread, .run woken) = some next := by
  cases does : micro label monitor.data with
  | goto data after => exact ⟨none, _, by simp [step, inside, does, perform]; rfl⟩
  | notify after =>
      cases queued : monitor.queue with
      | nil => exact ⟨none, _, by simp [step, inside, does, perform, notify, queued]; rfl⟩
      | cons woken queue =>
          rcases (coherent.mem_queue woken).mp (by simp [queued]) with ⟨waiting, place⟩
          exact ⟨some woken, _, by simp [step, inside, does, perform, notify, awaken_eq place]; rfl⟩
  | wait after => exact ⟨none, _, by simp [step, inside, does, perform]; rfl⟩
  | ret reply => exact ⟨none, _, by simp [step, inside, does, perform]; rfl⟩
  | fail => exact absurd does sound

/-- The rule of progress: nobody can go on exactly if every thread is outside or waits. -/
theorem Coherent.quiet_iff (coherent : monitor.Coherent)
    (sound : ∀ thread label, monitor.place thread = .inside label →
      micro label monitor.data ≠ .fail) :
    monitor.Quiet micro ↔
      ∀ thread, monitor.place thread = .outside ∨
        ∃ label, monitor.place thread = .waiting label := by
  constructor
  · intro quiet
    have nobody : ∀ thread label, monitor.place thread ≠ .inside label := by
      intro thread label inside
      rcases coherent.exists_run inside (sound thread label inside) with ⟨woken, next, stepped⟩
      simp [(quiet thread).2 woken] at stepped
    have free : monitor.owner = none := by
      rw [Option.eq_none_iff_forall_ne_some]
      intro owner owned
      rcases (coherent.owner_iff owner).mp owned with ⟨label, inside⟩
      exact nobody owner label inside
    intro thread
    cases place : monitor.place thread with
    | outside => exact .inl rfl
    | entering label =>
        have locked := (quiet thread).1
        simp [step, place, free] at locked
    | inside label => exact absurd place (nobody thread label)
    | waiting label => exact .inr ⟨label, rfl⟩
  · intro idle thread
    rcases idle thread with place | ⟨label, place⟩
    · simp [step, place]
    · simp [step, place]

end Monitor

end Pain.Lib
