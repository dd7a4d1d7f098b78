import Pain.Lib.RefCount
import Pain.Manusya.Requests

/-!
# The lifetime of a chunk

A chunk counts the pointers to it: the entry of the bank's map, the `ChunkPtr`
of every handler that has looked it up, and the one in every append request. The
last pointer that goes deletes the chunk. This file keeps these pointers beside
the chunk server and the references to its requests, and asks at every step
whether the chunk that it touches is still there.

A handler points to its chunk while it works on it, and a request does while it
is queued. The callback of a timer is the exception. It holds the mutex of the
chunk to the end of its scope, and drops its request before that: if the chunk
has been removed from the bank and the waiting handler has returned by then, the
mutex that the callback unlocks has been deleted with the chunk.

The sections of one chunk are not kept apart while the callback holds the mutex,
so the runs here are at least those of the code in which every change of a
`_use_count` is one step. The counter is a plain `int` that several bthreads
change without a lock; what a race between two changes would do is left out.
-/

namespace Pain.Manusya

/-- What points to a chunk. -/
inductive ChunkHolder where
  | bank (uuid : UUID)
  | handler (handler : ℕ)
  | request (id : ℕ × ℕ)
deriving DecidableEq

/-- The chunk server, the pointers to its chunks, the `ChunkPtr` of each handler, the call in which
a handler waits, and the callbacks of timers that have set a promise and hold the mutex. -/
structure Lifetimes (σ H : Type) where
  server : Requests σ H
  refs : Lib.Refs ChunkHolder ℕ
  chunk : ℕ → Option ℕ
  call : ℕ → Option (ℕ × ℕ)
  locking : List (ℕ × ℕ)

namespace Lifetimes

variable {σ H : Type}

/-- A server without chunks and handlers. -/
def initial (start : σ) : Lifetimes σ H where
  server := .initial start
  refs := .empty
  chunk := fun _ => none
  call := fun _ => none
  locking := []

/-- The methods of the bank and of the chunk that a handler calls, the return of a waiting call, the
end of the handler, and the three parts of the callback of a timer. -/
inductive Event where
  | create (handler : ℕ) (uuid : UUID)
  | get (handler : ℕ) (uuid : UUID)
  | remove (uuid : UUID)
  | append (handler : ℕ) (buf : Bytes) (offset : ℕ)
  | read (handler : ℕ) (offset size : UInt64) (buf : Option Bytes)
  | queryAndSeal (handler : ℕ) (length : OutPointer)
  | look (handler : ℕ)
  | wake (handler : ℕ)
  | finish (handler : ℕ)
  | timeout (id : ℕ × ℕ)
  | release (id : ℕ × ℕ)
  | unlock (id : ℕ × ℕ)
deriving DecidableEq

/-- The chunk is there. -/
def touch (pointer : ℕ) (state : Lifetimes σ H) : Option Unit :=
  if state.refs.deleted pointer then none else some ()

/-- A request whose count is zero is deleted, and its pointer to the chunk with it. -/
def dropRequest (id : ℕ × ℕ) (server : Requests σ H) (refs : Lib.Refs ChunkHolder ℕ) :
    Option (Lib.Refs ChunkHolder ℕ) :=
  match server.requests id with
  | some ⟨0, _, _⟩ => refs.drop (.request id) id.1
  | _ => some refs

/-- `Bank::create_chunk`, called by `CreateChunk`. -/
def create (store : Store σ H) (text : UUID.Text) (handler : ℕ) (uuid : UUID)
    (state : Lifetimes σ H) : Option (Lifetimes σ H) := do
  let server ← state.server.step store text (.server (.createChunk .valid uuid))
  match (state.server.world.createChunk store text .valid uuid).1 with
  | .error _ => return { state with server := server }
  | .ok pointer =>
      let refs ← state.refs.acquire (.handler handler) pointer
      let refs ← refs.acquire (.bank uuid) pointer
      let refs ←
        match state.server.world.bank[uuid]? with
        | none => some refs
        | some old => refs.drop (.bank uuid) old
      return { state with
        server := server
        refs := refs
        chunk := Function.update state.chunk handler (some pointer) }

/-- A section of the chunk that the handler points to. -/
def within (store : Store σ H) (text : UUID.Text) (pointer : ℕ) (event : World.Event)
    (state : Lifetimes σ H) : Option (Lifetimes σ H) := do
  state.touch pointer
  let server ← state.server.step store text (.server event)
  return { state with server := server }

/-- `Chunk::append`, and the request that it allocates if it has to wait. -/
def append (store : Store σ H) (text : UUID.Text) (handler pointer : ℕ) (buf : Bytes)
    (offset : ℕ) (state : Lifetimes σ H) : Option (Lifetimes σ H) := do
  let next ← state.within store text pointer (.append pointer buf offset)
  match Requests.queued? pointer offset state.server.world with
  | none => return next
  | some id =>
      let refs ← state.refs.acquire (.request id) pointer
      return { next with refs := refs, call := Function.update state.call handler (some id) }

/-- The next step; `none` if it touches a chunk that has been deleted. -/
def step (store : Store σ H) (text : UUID.Text) (state : Lifetimes σ H) :
    Event → Option (Lifetimes σ H)
  | .create handler uuid =>
      match state.chunk handler with
      | none => state.create store text handler uuid
      | some _ => some state
  | .get handler uuid =>
      match state.chunk handler, state.server.world.bank[uuid]? with
      | none, some pointer =>
          (state.refs.acquire (.handler handler) pointer).map (fun refs =>
            { state with
              refs := refs
              chunk := Function.update state.chunk handler (some pointer) })
      | _, _ => some state
  | .remove uuid =>
      match state.server.world.bank[uuid]? with
      | none => some state
      | some pointer => do
          let server ← state.server.step store text (.server (.removeChunk uuid))
          let refs ← state.refs.drop (.bank uuid) pointer
          return { state with server := server, refs := refs }
  | .append handler buf offset =>
      match state.chunk handler, state.call handler with
      | some pointer, none => state.append store text handler pointer buf offset
      | _, _ => some state
  | .read handler offset size buf =>
      match state.chunk handler, state.call handler with
      | some pointer, none => state.within store text pointer (.read pointer offset size buf)
      | _, _ => some state
  | .queryAndSeal handler length =>
      match state.chunk handler, state.call handler with
      | some pointer, none => state.within store text pointer (.queryAndSeal pointer length)
      | _, _ => some state
  | .look handler =>
      match state.chunk handler, state.call handler with
      | some pointer, none => (state.touch pointer).map (fun _ => state)
      | _, _ => some state
  | .wake handler =>
      match state.call handler with
      | none => some state
      | some id =>
          match state.server.requests id, state.server.promise? id with
          | some ⟨_, false, _⟩, some promise =>
              if promise.available then do
                let server ← state.server.step store text (.wake id)
                let refs ← dropRequest id server state.refs
                return { state with
                  server := server
                  refs := refs
                  call := Function.update state.call handler none }
              else some state
          | _, _ => some state
  | .finish handler =>
      match state.chunk handler, state.call handler with
      | some pointer, none =>
          (state.refs.drop (.handler handler) pointer).map (fun refs =>
            { state with refs := refs, chunk := Function.update state.chunk handler none })
      | _, _ => some state
  | .timeout id =>
      match state.server.requests id with
      | some ⟨_, _, .armed⟩ => do
          state.touch id.1
          let server ← state.server.step store text (.server (.timeout id.1 id.2))
          match server.requests id with
          | some ⟨_, _, .settled⟩ =>
              return { state with server := server, locking := id :: state.locking }
          | _ => return { state with server := server }
      | _ => some state
  | .release id =>
      match state.server.requests id with
      | some ⟨_, _, .settled⟩ => do
          let server ← state.server.step store text (.release id)
          let refs ← dropRequest id server state.refs
          return { state with server := server, refs := refs }
      | _ => some state
  | .unlock id =>
      match state.server.requests id with
      | some ⟨_, _, .released⟩ =>
          if id ∈ state.locking then
            (state.touch id.1).map (fun _ => { state with locking := state.locking.erase id })
          else some state
      | _ => some state

/-- The state after a sequence of steps. -/
abbrev run (store : Store σ H) (text : UUID.Text) (state : Lifetimes σ H) (events : List Event) :
    Option (Lifetimes σ H) :=
  Lib.exec (step store text) state events

/-- The request has not been deleted. -/
def Live (server : Requests σ H) (id : ℕ × ℕ) : Prop :=
  ∃ request, server.requests id = some request ∧ 0 < request.useCount

/-- The holder points to the chunk. -/
def Points (state : Lifetimes σ H) : ChunkHolder → ℕ → Prop
  | .bank uuid, pointer => state.server.world.bank[uuid]? = some pointer
  | .handler handler, pointer => state.chunk handler = some pointer
  | .request id, pointer => pointer = id.1 ∧ Live state.server id

/-- The bank, a handler or a request points to the chunk. -/
def Referenced (state : Lifetimes σ H) (pointer : ℕ) : Prop :=
  ∃ holder, state.Points holder pointer

/-- The callback of a timer is about to unlock the mutex of its chunk, with its request dropped. -/
def Unlocks (state : Lifetimes σ H) (id : ℕ × ℕ) : Prop :=
  id ∈ state.locking ∧ ∃ useCount returned,
    state.server.requests id = some ⟨useCount, returned, .released⟩

/-- The pointers are those of the bank, the handlers and the requests, and the counts are right. -/
structure Held (state : Lifetimes σ H) : Prop where
  served : state.server.Counted
  counted : state.refs.Counted (fun pointer => pointer < state.server.world.chunks.length)
  points : ∀ holder pointer,
    (holder, pointer) ∈ state.refs.pointers ↔ state.Points holder pointer

variable {store : Store σ H} {text : UUID.Text} {state next : Lifetimes σ H}

/-- A change of one request leaves the other live ones. -/
theorem live_update {server after : Requests σ H} {id : ℕ × ℕ} {request : RequestRefs}
    (recorded : after.requests = Function.update server.requests id (some request))
    (other : ℕ × ℕ) :
    Live after other ↔ other = id ∧ 0 < request.useCount ∨ other ≠ id ∧ Live server other := by
  by_cases same : other = id
  · subst same
    simp [Live, recorded]
  · simp [Live, recorded, same]

theorem live_same {server after : Requests σ H} {id : ℕ × ℕ} {old new : RequestRefs}
    (found : server.requests id = some old)
    (recorded : after.requests = Function.update server.requests id (some new))
    (same : new.useCount = old.useCount) (other : ℕ × ℕ) :
    Live after other ↔ Live server other := by
  rw [live_update recorded]
  by_cases equal : other = id
  · subst equal
    simp [Live, found, same]
  · simp [equal]

theorem initial_held (start : σ) : (initial start : Lifetimes σ H).Held where
  served := Requests.initial_counted start
  counted := Lib.Refs.counted_empty (by simp [initial, Requests.initial, World.initial])
  points := by
    intro holder pointer
    cases holder <;>
      simp [initial, Requests.initial, World.initial, Lib.Refs.empty, Points, Live]

/-- A chunk that something points to has not been deleted. -/
theorem Held.alive {pointer : ℕ} (held : state.Held) (holder : ChunkHolder)
    (points : state.Points holder pointer) : state.refs.deleted pointer = false :=
  held.counted.alive ((held.points holder pointer).mpr points)

theorem Held.inside {holder : ChunkHolder} {pointer : ℕ} (held : state.Held)
    (points : state.Points holder pointer) : pointer < state.server.world.chunks.length :=
  held.counted.known holder pointer ((held.points holder pointer).mpr points)

/-- A chunk that something points to can be touched. -/
theorem Held.touch_eq {pointer : ℕ} (held : state.Held) (holder : ChunkHolder)
    (points : state.Points holder pointer) : state.touch pointer = some () := by
  simp [touch, held.alive holder points]

/-- A chunk is deleted exactly if nothing points to it. -/
theorem Held.deleted_iff {pointer : ℕ} (held : state.Held)
    (inside : pointer < state.server.world.chunks.length) :
    state.refs.deleted pointer = true ↔ ¬state.Referenced pointer := by
  simp [held.counted.freed, inside, Lib.Refs.Unreferenced, held.points, Referenced]

/-- A step after which the same requests live, and no other pointer has changed. -/
theorem Held.keep (held : state.Held) (served : next.server.Counted)
    (bank : next.server.world.bank = state.server.world.bank)
    (length : next.server.world.chunks.length = state.server.world.chunks.length)
    (live : ∀ id, Live next.server id ↔ Live state.server id)
    (refs : next.refs = state.refs) (chunk : next.chunk = state.chunk) : next.Held where
  served := served
  counted := by
    rw [refs, length]
    exact held.counted
  points := by
    intro holder pointer
    rw [refs, held.points]
    cases holder <;> simp [Points, bank, chunk, live]

/-- The waiting call or the callback of the timer drops a request, which may delete it. -/
theorem Held.dropRequest {id : ℕ × ℕ} {old new : RequestRefs} {server : Requests σ H}
    (held : state.Held) (found : state.server.requests id = some old) (positive : 0 < old.useCount)
    (served : server.Counted) (world : server.world = state.server.world)
    (recorded : server.requests = Function.update state.server.requests id (some new))
    (less : new.useCount = old.useCount - 1) (call : ℕ → Option (ℕ × ℕ)) :
    ∃ refs, Lifetimes.dropRequest id server state.refs = some refs ∧
      Held { state with server := server, refs := refs, call := call } := by
  have foundNew : server.requests id = some new := by rw [recorded, Function.update_self]
  have liveOld : Live state.server id := ⟨old, found, positive⟩
  rcases new with ⟨useCount, returned, timer⟩
  cases useCount with
  | zero =>
      have member : (.request id, id.1) ∈ state.refs.pointers :=
        (held.points (.request id) id.1).mpr ⟨rfl, liveOld⟩
      rcases Lib.Refs.drop_counted held.counted member with ⟨refs, dropped, counted, pointers⟩
      refine ⟨refs, by simp [Lifetimes.dropRequest, foundNew, dropped], served, ?_, ?_⟩
      · simpa only [world] using counted
      · intro holder pointer
        simp only [pointers, held.counted.nodup.mem_erase_iff, held.points]
        cases holder with
        | bank uuid => simp [Points, world]
        | handler handler => simp [Points]
        | request other =>
            simp only [Points, live_update recorded]
            by_cases same : other = id
            · subst same
              simp +contextual
            · simp [same]
  | succ useCount =>
      refine ⟨state.refs, by simp [Lifetimes.dropRequest, foundNew], ?_⟩
      refine held.keep served (by simp only [world]) (by simp only [world]) ?_ rfl rfl
      intro other
      rw [live_update recorded]
      by_cases same : other = id
      · subst same
        simp [liveOld]
      · simp [same]

/-- The step succeeds: the pointers and their counts still agree, and the chunk server with its
requests has made a step or is as it was. -/
def Succeeds (store : Store σ H) (text : UUID.Text) (state : Lifetimes σ H)
    (result : Option (Lifetimes σ H)) : Prop :=
  ∃ next, result = some next ∧ next.Held ∧
    (next.server = state.server ∨ ∃ turn, state.server.step store text turn = some next.server)

/-- `get_chunk` finds its chunk alive. -/
theorem get_succeeds {handler pointer : ℕ} {uuid : UUID} (held : state.Held)
    (idle : state.chunk handler = none) (present : state.server.world.bank[uuid]? = some pointer) :
    state.Succeeds store text (state.step store text (.get handler uuid)) := by
  have points : state.Points (.bank uuid) pointer := present
  have new : (.handler handler, pointer) ∉ state.refs.pointers := by
    simp [held.points, Points, idle]
  rcases Lib.Refs.acquire_known held.counted new (held.inside points) (held.alive _ points) with
    ⟨refs, acquired, counted, pointers⟩
  refine ⟨⟨state.server, refs, Function.update state.chunk handler (some pointer), state.call,
    state.locking⟩, by simp only [step, idle, present, acquired, Option.map_some],
    ⟨held.served, counted, ?_⟩, .inl rfl⟩
  intro holder other
  simp only [pointers, List.mem_cons, Prod.mk.injEq, held.points]
  cases holder with
  | bank uuid => simp [Points]
  | request id => simp [Points]
  | handler holder =>
      by_cases same : holder = handler
      · subst same
        simp [Points, idle, eq_comm]
      · simp [Points, same]

/-- A handler can let its chunk go. -/
theorem finish_succeeds {handler pointer : ℕ} (held : state.Held)
    (works : state.chunk handler = some pointer) (returned : state.call handler = none) :
    state.Succeeds store text (state.step store text (.finish handler)) := by
  have member : (.handler handler, pointer) ∈ state.refs.pointers :=
    (held.points (.handler handler) pointer).mpr works
  rcases Lib.Refs.drop_counted held.counted member with ⟨refs, dropped, counted, pointers⟩
  refine ⟨⟨state.server, refs, Function.update state.chunk handler none, state.call,
    state.locking⟩, by simp only [step, works, returned, dropped, Option.map_some],
    ⟨held.served, counted, ?_⟩, .inl rfl⟩
  intro holder other
  simp only [pointers, held.counted.nodup.mem_erase_iff, held.points]
  cases holder with
  | bank uuid => simp [Points]
  | request id => simp [Points]
  | handler holder =>
      by_cases same : holder = handler
      · subst same
        simp [Points, works, eq_comm]
      · simp [Points, same]

/-- The bank can let a chunk go. -/
theorem remove_succeeds {pointer : ℕ} {uuid : UUID} (held : state.Held)
    (present : state.server.world.bank[uuid]? = some pointer) :
    state.Succeeds store text (state.step store text (.remove uuid)) := by
  have member : (.bank uuid, pointer) ∈ state.refs.pointers :=
    (held.points (.bank uuid) pointer).mpr present
  rcases Lib.Refs.drop_counted held.counted member with ⟨refs, dropped, counted, pointers⟩
  have took : state.server.step store text (.server (.removeChunk uuid)) =
      some ⟨(state.server.world.removeChunk store text uuid).2, state.server.requests⟩ := rfl
  refine ⟨⟨_, refs, state.chunk, state.call, state.locking⟩,
    by simp only [step, present, took, dropped, Option.bind_eq_bind, Option.bind_some,
      Option.pure_def], ⟨Requests.step_counted held.served took, ?_, ?_⟩, .inr ⟨_, took⟩⟩
  · simpa only [World.removeChunk, present] using counted
  · intro holder other
    simp only [pointers, held.counted.nodup.mem_erase_iff, held.points]
    cases holder with
    | handler handler => simp [Points]
    | request id => simp [Points, Live]
    | bank holder =>
        by_cases same : holder = uuid
        · subst same
          simp [Points, World.removeChunk, present, eq_comm]
        · simp [Points, World.removeChunk, present, same, Ne.symm same,
            Std.ExtTreeMap.getElem?_erase]

/-- `Bank::create_chunk` fails and leaves the map and the chunks, or adopts a new chunk. -/
theorem createChunk_cases (store : Store σ H) (text : UUID.Text) (uuid : UUID)
    (world : World σ H) :
    (∃ failure, (world.createChunk store text .valid uuid).1 = .error failure ∧
      (world.createChunk store text .valid uuid).2.bank = world.bank ∧
      (world.createChunk store text .valid uuid).2.chunks = world.chunks) ∨
    (world.createChunk store text .valid uuid).1 = .ok world.chunks.length ∧
      (world.createChunk store text .valid uuid).2.bank =
        world.bank.insert uuid world.chunks.length ∧
      (world.createChunk store text .valid uuid).2.chunks.length = world.chunks.length + 1 := by
  unfold World.createChunk Chunk.create
  cases opens : store.openFile (text.str uuid) .createExclusive world.store with
  | mk result state =>
      cases result with
      | error failure => exact .inl ⟨failure, rfl, rfl, rfl⟩
      | ok fh => exact .inr ⟨rfl, rfl, by simp [World.adopt]⟩

/-- What the new entry of the bank does: the handler and the map point to the new chunk, and the
chunk that the map had for the identifier loses that pointer. -/
theorem adopt_refs (handler : ℕ) (uuid : UUID) (held : state.Held) :
    ∃ first second third,
      state.refs.acquire (.handler handler) state.server.world.chunks.length = some first ∧
      first.acquire (.bank uuid) state.server.world.chunks.length = some second ∧
      (match state.server.world.bank[uuid]? with
        | none => some second
        | some old => second.drop (.bank uuid) old) = some third ∧
      third.Counted (fun pointer => pointer < state.server.world.chunks.length + 1) ∧
      ∀ holder pointer, (holder, pointer) ∈ third.pointers ↔
        (holder = .handler handler ∨ holder = .bank uuid) ∧
            pointer = state.server.world.chunks.length ∨
          holder ≠ .bank uuid ∧ state.Points holder pointer := by
  have absent : ∀ holder,
      (holder, state.server.world.chunks.length) ∉ state.refs.pointers := fun holder member =>
    (held.counted.known holder _ member).false
  have alive : state.refs.deleted state.server.world.chunks.length = false := by
    simp [Bool.eq_false_iff, held.counted.freed]
  rcases Lib.Refs.acquire_counted held.counted (absent (.handler handler)) alive with
    ⟨first, acquired, countedFirst, pointersFirst⟩
  have new : (.bank uuid, state.server.world.chunks.length) ∉ first.pointers := by
    simp [pointersFirst, absent]
  have aliveFirst := countedFirst.alive (pointersFirst ▸ List.mem_cons_self)
  rcases Lib.Refs.acquire_counted countedFirst new aliveFirst with
    ⟨second, acquiredSecond, countedSecond, pointersSecond⟩
  have counted : second.Counted
      (fun pointer => pointer < state.server.world.chunks.length + 1) := by
    refine countedSecond.mono ?_
    intro other
    omega
  refine ⟨first, second, ?_⟩
  cases present : state.server.world.bank[uuid]? with
  | none =>
      refine ⟨second, acquired, acquiredSecond, rfl, counted, ?_⟩
      intro holder pointer
      simp only [pointersSecond, pointersFirst, List.mem_cons, Prod.mk.injEq, held.points]
      by_cases same : holder = .bank uuid
      · subst same
        simp [Points, present]
      · simp [same]
  | some old =>
      have before : (.bank uuid, old) ∈ state.refs.pointers :=
        (held.points (.bank uuid) old).mpr present
      have member : (.bank uuid, old) ∈ second.pointers := by
        simp [pointersSecond, pointersFirst, before]
      have different : old ≠ state.server.world.chunks.length :=
        (held.counted.known _ old before).ne
      rcases Lib.Refs.drop_counted counted member with ⟨third, dropped, countedThird, pointers⟩
      refine ⟨third, acquired, acquiredSecond, dropped, countedThird, ?_⟩
      intro holder pointer
      rw [pointers, counted.nodup.mem_erase_iff]
      simp only [pointersSecond, pointersFirst, List.mem_cons, Prod.mk.injEq, ne_eq, held.points]
      by_cases same : holder = .bank uuid
      · subst same
        simp only [Points, present, Option.some.injEq]
        grind
      · simp [same]

/-- A new chunk has the pointers of the bank and of its handler. -/
theorem create_succeeds {handler : ℕ} (uuid : UUID) (held : state.Held)
    (idle : state.chunk handler = none) :
    state.Succeeds store text (state.step store text (.create handler uuid)) := by
  have took : state.server.step store text (.server (.createChunk .valid uuid)) =
      some ⟨(state.server.world.createChunk store text .valid uuid).2, state.server.requests⟩ := rfl
  have served := Requests.step_counted held.served took
  rcases createChunk_cases store text uuid state.server.world with
    ⟨failure, result, bank, chunks⟩ | ⟨result, bank, length⟩
  · have keeps : state.step store text (.create handler uuid) =
        some ⟨⟨(state.server.world.createChunk store text .valid uuid).2, state.server.requests⟩,
          state.refs, state.chunk, state.call, state.locking⟩ := by
      simp only [step, create, idle, took, result, Option.bind_eq_bind, Option.bind_some,
        Option.pure_def]
    exact ⟨_, keeps, held.keep served bank (by rw [chunks]) (fun _ => Iff.rfl) rfl rfl,
      .inr ⟨_, took⟩⟩
  · rcases adopt_refs handler uuid held with
      ⟨first, second, third, acquired, acquiredSecond, dropped, counted, pointers⟩
    refine ⟨⟨⟨(state.server.world.createChunk store text .valid uuid).2, state.server.requests⟩,
      third, Function.update state.chunk handler (some state.server.world.chunks.length),
      state.call, state.locking⟩, ?_, ⟨served, ?_, ?_⟩, .inr ⟨_, took⟩⟩
    · simp only [step, create, idle, took, result, Option.bind_eq_bind, Option.bind_some,
        Option.pure_def, acquired, acquiredSecond]
      cases present : state.server.world.bank[uuid]? with
      | none =>
          simp only [present, Option.some.injEq] at dropped
          rw [dropped]
      | some old =>
          simp only [present] at dropped
          simp only [dropped, Option.bind_some]
    · simpa only [length] using counted
    · intro holder pointer
      rw [pointers]
      cases holder with
      | request id => simp [Points, Live]
      | handler holder =>
          by_cases same : holder = handler
          · subst same
            simp [Points, idle, eq_comm]
          · simp [Points, same]
      | bank holder =>
          by_cases same : holder = uuid
          · subst same
            simp [Points, bank, eq_comm]
          · simp [Points, bank, same, Ne.symm same, Std.ExtTreeMap.getElem?_insert]

/-- A section of a chunk that something points to finds it alive. -/
theorem Held.within {holder : ChunkHolder} {pointer : ℕ} {event : World.Event}
    {server : Requests σ H} (held : state.Held) (points : state.Points holder pointer)
    (took : state.server.step store text (.server event) = some server) :
    state.within store text pointer event = some { state with server := server } := by
  simp only [Lifetimes.within, held.touch_eq holder points, took, Option.bind_eq_bind,
    Option.bind_some, Option.pure_def]

/-- A section of a chunk that starts no request. -/
theorem within_succeeds {pointer : ℕ} {event : World.Event} (held : state.Held)
    (holder : ChunkHolder) (points : state.Points holder pointer) (inChunk : event.InChunk)
    (quiet : state.server.serve store text event =
      (state.server.world.step store text event).map (fun world =>
        { state.server with world := world })) :
    state.Succeeds store text (state.within store text pointer event) := by
  rcases World.step_spec store text held.served.waiting event with ⟨world, took, -⟩
  have served : state.server.step store text (.server event) =
      some ⟨world, state.server.requests⟩ := by
    simp only [Requests.step, quiet, took, Option.map_some]
  rcases World.same_of_step held.served.waiting took inChunk with ⟨bank, length⟩
  exact ⟨_, held.within points served,
    held.keep (Requests.step_counted held.served served) bank length (fun _ => Iff.rfl) rfl rfl,
    .inr ⟨_, served⟩⟩

/-- An append finds its chunk alive, and its request points to the chunk from then on. -/
theorem append_succeeds {handler pointer : ℕ} (buf : Bytes) (offset : ℕ) (held : state.Held)
    (works : state.chunk handler = some pointer) :
    state.Succeeds store text (state.append store text handler pointer buf offset) := by
  have points : state.Points (.handler handler) pointer := works
  rcases World.step_spec store text held.served.waiting (.append pointer buf offset) with
    ⟨world, took, -⟩
  rcases World.same_of_step held.served.waiting took trivial with ⟨bank, length⟩
  cases waits : Requests.queued? pointer offset state.server.world with
  | none =>
      have served : state.server.step store text (.server (.append pointer buf offset)) =
          some ⟨world, state.server.requests⟩ := by
        simp only [Requests.step, Requests.serve, took, waits, Option.map_some]
      have keeps : state.append store text handler pointer buf offset =
          some { state with server := ⟨world, state.server.requests⟩ } := by
        simp only [append, held.within points served, waits, Option.bind_eq_bind,
          Option.bind_some, Option.pure_def]
      exact ⟨_, keeps, held.keep (Requests.step_counted held.served served) bank length
        (fun _ => Iff.rfl) rfl rfl, .inr ⟨_, served⟩⟩
  | some id =>
      have served : state.server.step store text (.server (.append pointer buf offset)) =
          some (Requests.record id .fresh ⟨world, state.server.requests⟩) := by
        simp only [Requests.step, Requests.serve, took, waits, Option.map_some]
      have target := Requests.queued?_fst waits
      have absent : state.server.requests id = none := by
        cases found : state.server.requests id with
        | none => rfl
        | some request =>
            have known := held.served.calls id request found
            simp [(Requests.queued_spec waits took).1] at known
      have new : (.request id, pointer) ∉ state.refs.pointers := by
        simp [held.points, Points, Live, absent]
      rcases Lib.Refs.acquire_known held.counted new (held.inside points)
        (held.alive _ points) with ⟨refs, acquired, counted, pointers⟩
      refine ⟨⟨Requests.record id .fresh ⟨world, state.server.requests⟩, refs, state.chunk,
        Function.update state.call handler (some id), state.locking⟩,
        by simp only [append, held.within points served, waits, acquired, Option.bind_eq_bind,
          Option.bind_some, Option.pure_def],
        ⟨Requests.step_counted held.served served, ?_, ?_⟩, .inr ⟨_, served⟩⟩
      · simpa only [Requests.record, length] using counted
      · intro holder other
        have recorded : (Requests.record id .fresh
            (⟨world, state.server.requests⟩ : Requests σ H)).requests =
          Function.update state.server.requests id (some .fresh) := rfl
        simp only [pointers, List.mem_cons, Prod.mk.injEq, held.points]
        cases holder with
        | bank uuid => simp [Points, Requests.record, bank]
        | handler holder => simp [Points]
        | request holder =>
            simp only [Points, live_update recorded]
            by_cases same : holder = id
            · subst same
              simp [target, Live, absent, RequestRefs.fresh]
            · simp [same]

/-- The callback of a timer finds the chunk alive when it begins. -/
theorem timeout_succeeds {id : ℕ × ℕ} {useCount : ℕ} {returned : Bool} (held : state.Held)
    (armed : state.server.requests id = some ⟨useCount, returned, .armed⟩) :
    state.Succeeds store text (state.step store text (.timeout id)) := by
  have live : Live state.server id := ⟨_, armed, held.served.positive armed (.inr (by simp))⟩
  have touched : state.touch id.1 = some () :=
    held.touch_eq (.request id) ⟨rfl, live⟩
  rcases Option.isSome_iff_exists.mp (held.served.calls id _ armed) with ⟨promise, promised⟩
  cases ready : promise.available with
  | true =>
      have served : state.server.step store text (.server (.timeout id.1 id.2)) =
          some (state.server.record id ⟨useCount, returned, .skipped⟩) := by
        simp only [Requests.step, Requests.serve, Prod.mk.eta, armed, promised, ready, if_true]
      have skips : state.step store text (.timeout id) =
          some { state with server := state.server.record id ⟨useCount, returned, .skipped⟩ } := by
        simp only [step, armed, touched, served, Requests.record, Function.update_self,
          Option.bind_eq_bind, Option.bind_some, Option.pure_def]
      exact ⟨_, skips, held.keep (Requests.step_counted held.served served) rfl rfl
        (live_same armed rfl rfl) rfl rfl, .inr ⟨_, served⟩⟩
  | false =>
      rcases World.step_spec store text held.served.waiting (.timeout id.1 id.2) with
        ⟨world, took, -⟩
      rcases World.same_of_step held.served.waiting took trivial with ⟨bank, length⟩
      have served : state.server.step store text (.server (.timeout id.1 id.2)) =
          some (Requests.record id ⟨useCount, returned, .settled⟩
            ⟨world, state.server.requests⟩) := by
        simp only [Requests.step, Requests.serve, Prod.mk.eta, armed, promised, ready,
          Bool.false_eq_true, if_false, took, Option.map_some]
      have settles : state.step store text (.timeout id) =
          some { state with
            server := Requests.record id ⟨useCount, returned, .settled⟩
              ⟨world, state.server.requests⟩
            locking := id :: state.locking } := by
        simp only [step, armed, touched, served, Requests.record, Function.update_self,
          Option.bind_eq_bind, Option.bind_some, Option.pure_def]
      exact ⟨_, settles, held.keep (Requests.step_counted held.served served) bank length
        (live_same armed rfl rfl) rfl rfl, .inr ⟨_, served⟩⟩

/-- The callback of a timer can drop its request. -/
theorem release_succeeds {id : ℕ × ℕ} {useCount : ℕ} {returned : Bool} (held : state.Held)
    (settled : state.server.requests id = some ⟨useCount, returned, .settled⟩) :
    state.Succeeds store text (state.step store text (.release id)) := by
  have served : state.server.step store text (.release id) =
      some (state.server.record id (RequestRefs.release ⟨useCount, returned, .released⟩)) := by
    simp only [Requests.step, settled]
  rcases held.dropRequest settled (held.served.positive settled (.inr (by simp)))
    (Requests.step_counted held.served served) rfl rfl rfl state.call with ⟨refs, dropped, kept⟩
  refine ⟨_, ?_, kept, .inr ⟨_, served⟩⟩
  simp only [step, settled, served, dropped, Option.bind_eq_bind, Option.bind_some,
    Option.pure_def]

/-- A waiting call can go on when its promise has been set. -/
theorem wake_succeeds {handler : ℕ} {id : ℕ × ℕ} {useCount : ℕ} {timer : TimerState}
    {promise : FutureState Status} (held : state.Held) (waits : state.call handler = some id)
    (waiting : state.server.requests id = some ⟨useCount, false, timer⟩)
    (promised : state.server.promise? id = some promise) (ready : promise.available = true) :
    state.Succeeds store text (state.step store text (.wake handler)) := by
  have served : state.server.step store text (.wake id) =
      some (state.server.record id (RequestRefs.release ⟨useCount, true, timer⟩)) := by
    simp only [Requests.step, waiting, promised, ready, if_true]
  rcases held.dropRequest waiting (held.served.positive waiting (.inl rfl))
    (Requests.step_counted held.served served) rfl rfl rfl
    (Function.update state.call handler none) with ⟨refs, dropped, kept⟩
  refine ⟨_, ?_, kept, .inr ⟨_, served⟩⟩
  simp only [step, waits, waiting, promised, ready, if_true, served, dropped,
    Option.bind_eq_bind, Option.bind_some, Option.pure_def]

theorem Held.idle (held : state.Held) : state.Succeeds store text (some state) :=
  ⟨state, rfl, held, .inl rfl⟩

/-- The event touches a chunk that nothing points to. -/
def Dangles (state : Lifetimes σ H) (event : Event) : Prop :=
  ∃ id, event = .unlock id ∧ state.Unlocks id ∧ ¬state.Referenced id.1

/-- The callback that unlocks the mutex of a deleted chunk has no next state. -/
theorem unlock_of_dangles {event : Event} (held : state.Held) (dangles : state.Dangles event) :
    state.step store text event = none := by
  rcases dangles with ⟨id, rfl, ⟨locks, useCount, returned, released⟩, unreferenced⟩
  have deleted := (held.deleted_iff (held.served.inside released)).mpr unreferenced
  simp [step, released, locks, touch, deleted]

/-- The callback that unlocks the mutex of a chunk that is still there goes on. -/
theorem unlock_succeeds {id : ℕ × ℕ} (held : state.Held)
    (referenced : state.Unlocks id → state.Referenced id.1) :
    state.Succeeds store text (state.step store text (.unlock id)) := by
  simp only [step]
  split
  · rename_i useCount returned released
    split
    · rename_i locks
      rcases referenced ⟨locks, useCount, returned, released⟩ with ⟨holder, points⟩
      rw [held.touch_eq holder points]
      exact ⟨_, rfl, held.keep held.served rfl rfl (fun _ => Iff.rfl) rfl rfl, .inl rfl⟩
    · exact held.idle
  · exact held.idle

/-- Every step succeeds but for the unlocking of the mutex of a chunk that nothing points to. -/
theorem step_succeeds {event : Event} (held : state.Held) (safe : ¬state.Dangles event) :
    state.Succeeds store text (state.step store text event) := by
  cases event with
  | create handler uuid =>
      cases works : state.chunk handler with
      | none => exact create_succeeds uuid held works
      | some pointer => simpa only [step, works] using held.idle
  | get handler uuid =>
      cases works : state.chunk handler with
      | some pointer => simpa only [step, works] using held.idle
      | none =>
          cases present : state.server.world.bank[uuid]? with
          | none => simpa only [step, works, present] using held.idle
          | some pointer => exact get_succeeds held works present
  | remove uuid =>
      cases present : state.server.world.bank[uuid]? with
      | none => simpa only [step, present] using held.idle
      | some pointer => exact remove_succeeds held present
  | append handler buf offset =>
      simp only [step]
      split
      · rename_i works _
        exact append_succeeds buf offset held works
      · exact held.idle
  | read handler offset size buf =>
      simp only [step]
      split
      · rename_i works _
        exact within_succeeds held (.handler handler) works trivial rfl
      · exact held.idle
  | queryAndSeal handler length =>
      simp only [step]
      split
      · rename_i works _
        exact within_succeeds held (.handler handler) works trivial rfl
      · exact held.idle
  | look handler =>
      simp only [step]
      split
      · rename_i works _
        rw [held.touch_eq (.handler handler) works]
        exact held.idle
      · exact held.idle
  | wake handler =>
      cases waits : state.call handler with
      | none => simpa only [step, waits] using held.idle
      | some id =>
          cases found : state.server.requests id with
          | none => simpa only [step, waits, found] using held.idle
          | some request =>
              rcases request with ⟨useCount, returned, timer⟩
              rcases Option.isSome_iff_exists.mp (held.served.calls id _ found) with
                ⟨promise, promised⟩
              cases returned with
              | true => simpa only [step, waits, found, promised] using held.idle
              | false =>
                  cases ready : promise.available with
                  | true => exact wake_succeeds held waits found promised ready
                  | false =>
                      simpa only [step, waits, found, promised, ready, Bool.false_eq_true,
                        if_false] using held.idle
  | finish handler =>
      cases works : state.chunk handler with
      | none => simpa only [step, works] using held.idle
      | some pointer =>
          cases returned : state.call handler with
          | none => exact finish_succeeds held works returned
          | some id => simpa only [step, works, returned] using held.idle
  | timeout id =>
      cases found : state.server.requests id with
      | none => simpa only [step, found] using held.idle
      | some request =>
          rcases request with ⟨useCount, returned, timer⟩
          cases timer with
          | armed => exact timeout_succeeds held found
          | settled => simpa only [step, found] using held.idle
          | released => simpa only [step, found] using held.idle
          | skipped => simpa only [step, found] using held.idle
  | release id =>
      cases found : state.server.requests id with
      | none => simpa only [step, found] using held.idle
      | some request =>
          rcases request with ⟨useCount, returned, timer⟩
          cases timer with
          | settled => exact release_succeeds held found
          | armed => simpa only [step, found] using held.idle
          | released => simpa only [step, found] using held.idle
          | skipped => simpa only [step, found] using held.idle
  | unlock id =>
      apply unlock_succeeds held
      intro unlocks
      by_contra unreferenced
      exact safe ⟨id, rfl, unlocks, unreferenced⟩

/-- Every step keeps the pointers right, and takes at most one turn of the requests. -/
theorem step_spec {event : Event} (held : state.Held)
    (took : state.step store text event = some next) :
    next.Held ∧
      (next.server = state.server ∨
        ∃ turn, state.server.step store text turn = some next.server) := by
  have safe : ¬state.Dangles event := fun dangles => by
    simp [unlock_of_dangles held dangles] at took
  rcases step_succeeds held safe with ⟨next', took', kept⟩
  rw [took, Option.some.injEq] at took'
  exact took' ▸ kept

/-- The pointers are right in every state of a run. -/
theorem run_held {start final : Lifetimes σ H} {events : List Event} (held : start.Held)
    (ran : start.run store text events = some final) : final.Held :=
  Lib.exec_invariant Held (fun heldBefore took => (step_spec heldBefore took).1) held ran

/-- A run is a run of the chunk server with its requests. -/
theorem run_server {start final : Lifetimes σ H} {events : List Event} (held : start.Held)
    (ran : start.run store text events = some final) :
    ∃ turns, start.server.run store text turns = some final.server := by
  induction events generalizing start with
  | nil =>
      simp only [run, Lib.exec_nil, Option.some.injEq] at ran
      exact ⟨[], by rw [ran]; rfl⟩
  | cons event events ih =>
      simp only [run, Lib.exec_cons, Option.bind_eq_some_iff] at ran
      rcases ran with ⟨middle, took, rest⟩
      rcases step_spec held took with ⟨heldMiddle, same | ⟨turn, served⟩⟩
      · rcases ih heldMiddle rest with ⟨turns, ranTurns⟩
        exact ⟨turns, same ▸ ranTurns⟩
      · rcases ih heldMiddle rest with ⟨turns, ranTurns⟩
        refine ⟨turn :: turns, ?_⟩
        simp only [Requests.run, Lib.exec_cons, served, Option.bind_some]
        exact ranTurns

/-- The lifetime of the chunks. In every run of the chunk server, whatever its handlers and timers
do and in whichever order, a chunk is deleted exactly if neither the bank nor a handler nor a
request points to it; and the run touches a chunk that has been deleted if and only if the callback
of a timer comes to unlock the mutex of a chunk to which nothing points any more. -/
theorem touches_deleted_iff (store : Store σ H) (text : UUID.Text) (start : σ)
    (events : List Event) :
    (∀ first rest state, events = first ++ rest →
      (initial start).run store text first = some state →
        ∀ pointer, pointer < state.server.world.chunks.length →
          (state.refs.deleted pointer = true ↔ ¬state.Referenced pointer)) ∧
    ((initial start).run store text events = none ↔
      ∃ first id rest state, events = first ++ .unlock id :: rest ∧
        (initial start).run store text first = some state ∧
        state.Unlocks id ∧ ¬state.Referenced id.1) := by
  have heldAt : ∀ (first : List Event) (state : Lifetimes σ H),
      (initial start).run store text first = some state → state.Held :=
    fun first state ran => run_held (initial_held start) ran
  constructor
  · intro first rest state _ ran pointer inside
    exact (heldAt first state ran).deleted_iff inside
  · constructor
    · intro fails
      by_contra never
      have safe : Lib.Guarded (step store text) (fun state event => ¬state.Dangles event)
          (initial start) events := by
        refine Lib.guarded_of_split ?_
        rintro first event rest state split ran ⟨id, rfl, unlocks, unreferenced⟩
        exact never ⟨first, id, rest, state, split, ran, unlocks, unreferenced⟩
      have progress : ∀ {state : Lifetimes σ H} {event : Event}, state.Held →
          ¬state.Dangles event → ∃ next, state.step store text event = some next ∧ next.Held := by
        intro state event held safe
        rcases step_succeeds held safe with ⟨next, took, kept, -⟩
        exact ⟨next, took, kept⟩
      rcases Lib.exec_total Held progress (initial_held start) safe with ⟨final, ran, -⟩
      simp [run, ran] at fails
    · rintro ⟨first, id, rest, state, rfl, ran, unlocks, unreferenced⟩
      have dangles : state.Dangles (.unlock id) := ⟨id, rfl, unlocks, unreferenced⟩
      have fails : state.step store text (.unlock id) = none :=
        unlock_of_dangles (heldAt first state ran) dangles
      simp only [run, Lib.exec_append] at ran ⊢
      simp [ran, fails]

/-- The callback of a timer that drops the last reference to a removed chunk, and unlocks its mutex
afterwards. -/
example : (initial ∅).run MemStore.store .canonical
    [.create 0 ⟨0, 1⟩, .append 0 [2] 1, .remove ⟨0, 1⟩, .timeout (0, 0), .wake 0, .finish 0,
      .release (0, 0), .unlock (0, 0)] = none := rfl

/-- A request that its timer has found with the promise set keeps its chunk. -/
theorem alive_of_skipped {id : ℕ × ℕ} (held : state.Held) (found : state.server.Found true id) :
    state.refs.deleted id.1 = false := by
  rcases found with ⟨request, present, skipped⟩
  have live : Live state.server id :=
    ⟨request, present, held.served.positive present (.inr (by simp_all))⟩
  exact held.alive (.request id) ⟨rfl, live⟩

/-- The chunks that are never deleted. Once a chunk has been removed from the bank, every handler
that had a pointer to it has ended, and so have the calls and the timers of its requests, the chunk
has been deleted if and only if no timer found the promise of its request set; and if it has not
been deleted by then, nothing that happens later deletes it. -/
theorem deleted_iff_noneSkipped (store : Store σ H) (text : UUID.Text) (start : σ)
    (events : List Event) (state : Lifetimes σ H)
    (ran : (initial start).run store text events = some state) (pointer : ℕ)
    (inside : pointer < state.server.world.chunks.length)
    (removed : ∀ uuid : UUID, state.server.world.bank[uuid]? ≠ some pointer)
    (ended : ∀ handler, state.chunk handler ≠ some pointer)
    (finished : ∀ id request, id.1 = pointer → state.server.requests id = some request →
      request.returned = true ∧ request.timer.hasRun = true) :
    (state.refs.deleted pointer = true ↔
      ∀ id request, id.1 = pointer → state.server.requests id = some request →
        request.timer ≠ .skipped) ∧
    (state.refs.deleted pointer = false → ∀ later final,
      state.run store text later = some final → final.refs.deleted pointer = false) := by
  have held := run_held (initial_held start) ran
  have kept : state.refs.deleted pointer = true ↔
      ∀ id request, id.1 = pointer → state.server.requests id = some request →
        request.timer ≠ .skipped := by
    constructor
    · rintro deleted id request rfl present skipped
      have alive := alive_of_skipped held ⟨request, present, by simpa using skipped⟩
      simp [alive] at deleted
    · intro noneSkipped
      rw [held.deleted_iff inside]
      rintro ⟨holder, points⟩
      cases holder with
      | bank uuid => exact removed uuid points
      | handler handler => exact ended handler points
      | request id =>
          rcases points with ⟨rfl, request, present, positive⟩
          rcases finished id request rfl present with ⟨returned, hasRun⟩
          have count := held.served.count id request present
          have unskipped := noneSkipped id request rfl present
          cases timer : request.timer <;> simp_all [TimerState.hasRun]
  refine ⟨kept, ?_⟩
  intro alive later final ranLater
  have found : ∃ id, id.1 = pointer ∧ state.server.Found true id := by
    by_contra none
    have noneSkipped := kept.mpr (fun id request target present skipped =>
      none ⟨id, target, request, present, by simpa using skipped⟩)
    simp [alive] at noneSkipped
  rcases found with ⟨id, rfl, foundId⟩
  rcases run_server held ranLater with ⟨turns, ranTurns⟩
  exact alive_of_skipped (run_held held ranLater)
    (Requests.run_found held.served foundId ranTurns)

/-- A chunk whose append was drained before its timer: everything has ended, and the chunk stays. -/
theorem deleted_iff_noneSkipped_drained :
    ∃ state, (initial ∅).run MemStore.store .canonical
        [.create 0 ⟨0, 1⟩, .append 0 [2] 1, .get 1 ⟨0, 1⟩, .append 1 [1] 0, .wake 0,
          .timeout (0, 0), .finish 0, .finish 1, .remove ⟨0, 1⟩] = some state ∧
      ∀ later final, state.run MemStore.store .canonical later = some final →
        final.refs.deleted 0 = false := by
  refine ⟨_, rfl, ?_⟩
  refine (deleted_iff_noneSkipped MemStore.store .canonical ∅
    [.create 0 ⟨0, 1⟩, .append 0 [2] 1, .get 1 ⟨0, 1⟩, .append 1 [1] 0, .wake 0,
      .timeout (0, 0), .finish 0, .finish 1, .remove ⟨0, 1⟩] _ rfl 0 (by decide) ?_ ?_ ?_).2 rfl
  · intro uuid
    change ((∅ : Map UUID ℕ).insert ⟨0, 1⟩ 0 |>.erase ⟨0, 1⟩)[uuid]? ≠ some 0
    by_cases same : (⟨0, 1⟩ : UUID) = uuid <;> simp [same]
  · intro handler
    change Function.update (Function.update (Function.update (Function.update
      (fun _ => none) 0 (some 0)) 1 (some 0)) 0 none) 1 none handler ≠ some 0
    rcases handler with _ | _ | handler <;> simp [Function.update]
  · rintro id request - present
    change Function.update (Function.update (Function.update (fun _ => none) (0, 0)
      (some ⟨2, false, .armed⟩)) (0, 0) (some ⟨1, true, .armed⟩)) (0, 0)
        (some ⟨1, true, .skipped⟩) id = some request at present
    by_cases same : id = (0, 0)
    · subst same
      simp only [Function.update_self, Option.some.injEq] at present
      subst present
      exact ⟨rfl, rfl⟩
    · simp [same] at present

end Lifetimes

end Pain.Manusya
