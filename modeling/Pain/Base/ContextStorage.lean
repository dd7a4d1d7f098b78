import Pain.Lib.Family
import Pain.Lib.Scopes
import Pain.Lib.Simulation

/-!
# The stack of trace contexts of a bthread

`pain::BthreadLocalContextStorage` keeps, for every bthread, the trace contexts
attached to it in an array that is doubled when it is full and never given back.
A context is compared by identity, and a token is equal to the context it was
made for.

Every access to the array is checked here, and `none` stands for one that is out
of bounds and for a loop that does not end. The sizes are natural numbers: an
array of `2^64` contexts does not fit in memory.
-/

namespace Pain

open Pain.Lib

universe u v

/-- `BthreadLocalContextStorage::Stack`: `size_`, `capacity_` and the array `base_`, which is null
until the first context is pushed. -/
structure ContextStack (Context : Type u) where
  size : ℕ
  capacity : ℕ
  base : Option (List Context)
deriving DecidableEq, Repr

namespace ContextStack

variable {Context : Type u}

/-- `Stack::Stack`. -/
def empty : ContextStack Context := ⟨0, 0, none⟩

/-- The value of `base_[pos]`. -/
def read (stack : ContextStack Context) (pos : ℕ) : Option Context :=
  stack.base.bind (fun base => base[pos]?)

/-- The assignment `array[pos] = context`. -/
def store (array : List Context) (pos : ℕ) (context : Context) : Option (List Context) :=
  if pos < array.length then some (array.set pos context) else none

/-- The loop of `Stack::Resize` that copies the first `count` contexts into `temp`. -/
def copyInto (base temp : List Context) : ℕ → Option (List Context)
  | 0 => some temp
  | count + 1 =>
      (copyInto base temp count).bind (fun copied =>
        base[count]?.bind (fun context => store copied count context))

/-- The number of contexts that `Stack::Resize` copies. -/
def resizeCopies (newCapacity : ℕ) (stack : ContextStack Context) : ℕ :=
  let oldSize := stack.size - 1
  let newCapacity := if newCapacity = 0 then 2 else newCapacity
  match stack.base with
  | none => 0
  | some _ => min oldSize newCapacity

theorem store_append (front : List Context) (old context : Context) (back : List Context) :
    store (front ++ old :: back) front.length context = some (front ++ context :: back) := by
  simp [store]

/-- The loop of `Resize` copies the contexts in front. -/
theorem copyInto_eq {base temp : List Context} {count : ℕ} (inBase : count ≤ base.length)
    (inTemp : count ≤ temp.length) :
    copyInto base temp count = some (base.take count ++ temp.drop count) := by
  induction count with
  | zero => simp [copyInto]
  | succ count ih =>
      have read : base[count]? = some base[count] := List.getElem?_eq_getElem inBase
      have dropped : temp.drop count = temp[count] :: temp.drop (count + 1) :=
        List.drop_eq_getElem_cons inTemp
      have length : (base.take count).length = count := by
        simp only [List.length_take]
        omega
      have stored := store_append (base.take count) temp[count] base[count] (temp.drop (count + 1))
      rw [length, ← dropped] at stored
      simp only [copyInto, ih (by omega) (by omega), read, Option.bind_some, stored]
      rw [List.take_succ_eq_append_getElem inBase, List.append_assoc, List.singleton_append]

variable [Inhabited Context]

/-- `Stack::Resize`. The new array is made of default contexts. -/
def resize (newCapacity : ℕ) (stack : ContextStack Context) : Option (ContextStack Context) :=
  let oldSize := stack.size - 1
  let newCapacity := if newCapacity = 0 then 2 else newCapacity
  let temp := List.replicate newCapacity default
  let copied :=
    match stack.base with
    | none => some temp
    | some base => copyInto base temp (min oldSize newCapacity)
  copied.map (fun base => { stack with base := some base, capacity := newCapacity })

/-- `Stack::Push`. -/
def push (context : Context) (stack : ContextStack Context) : Option (ContextStack Context) :=
  let grown := { stack with size := stack.size + 1 }
  let room := if grown.capacity < grown.size then grown.resize (grown.size * 2) else some grown
  room.bind (fun stack => stack.base.bind (fun base =>
    (store base (stack.size - 1) context).map (fun base => { stack with base := some base })))

/-- The number of contexts that `Stack::Push` copies into a new array. -/
def pushCopies (stack : ContextStack Context) : ℕ :=
  let grown := { stack with size := stack.size + 1 }
  if grown.capacity < grown.size then grown.resizeCopies (grown.size * 2) else 0

/-- `Stack::Pop`: the context is overwritten by an empty one before the size is decremented. -/
def pop (stack : ContextStack Context) : Option (ContextStack Context) :=
  if stack.size = 0 then some stack
  else
    stack.base.bind (fun base =>
      (store base (stack.size - 1) default).map (fun base =>
        { stack with base := some base, size := stack.size - 1 }))

/-- `Stack::Top`: the default context, if the stack is empty. -/
def top (stack : ContextStack Context) : Option Context :=
  if stack.size = 0 then some default else stack.read (stack.size - 1)

/-- The stack holds the contexts, the one on top first: the rest of the array is empty contexts. -/
structure Holds (stack : ContextStack Context) (contexts : List Context) : Prop where
  size_eq : stack.size = contexts.length
  fits : stack.size ≤ stack.capacity
  base_eq : stack.base.getD [] =
    contexts.reverse ++ List.replicate (stack.capacity - stack.size) default
  unallocated : stack.base = none → stack.capacity = 0

namespace Holds

variable {stack : ContextStack Context} {contexts : List Context} {context : Context}

theorem empty : (empty : ContextStack Context).Holds [] := by
  constructor <;> simp [ContextStack.empty]

/-- Below the size, the array is allocated. -/
theorem exists_base (held : stack.Holds (context :: contexts)) :
    stack.base = some (contexts.reverse ++
      context :: List.replicate (stack.capacity - stack.size) default) := by
  cases same : stack.base with
  | none =>
      have capacity := held.unallocated same
      have fits := held.fits
      have size := held.size_eq
      simp only [List.length_cons] at size
      omega
  | some base =>
      have equal := held.base_eq
      simp only [same, Option.getD_some, List.reverse_cons, List.append_assoc,
        List.cons_append, List.nil_append] at equal
      rw [equal]

theorem size_cons (held : stack.Holds (context :: contexts)) :
    stack.size = contexts.length + 1 := by
  simpa using held.size_eq

theorem read_size (held : stack.Holds (context :: contexts)) :
    stack.read (stack.size - 1) = some context := by
  simp [read, held.exists_base, held.size_cons]

/-- `Top` gives the context that was pushed last, or the default one. -/
theorem top (held : stack.Holds contexts) : stack.top = some (contexts.headD default) := by
  cases contexts with
  | nil => simp [ContextStack.top, held.size_eq]
  | cons context contexts =>
      have positive : stack.size ≠ 0 := by simp [held.size_cons]
      simp [ContextStack.top, positive, held.read_size]

theorem read_of_lt (held : stack.Holds contexts) {pos : ℕ} (below : pos < stack.size) :
    stack.read pos = contexts.reverse[pos]? := by
  have allocated : stack.read pos = (stack.base.getD [])[pos]? := by
    cases same : stack.base <;> simp [read, same]
  rw [allocated, held.base_eq, List.getElem?_append_left]
  simpa [held.size_eq] using below

/-- Popping forgets the context on top, and an empty stack stays empty. -/
theorem pop (held : stack.Holds contexts) :
    ∃ popped, stack.pop = some popped ∧ popped.Holds contexts.tail ∧
      popped.capacity = stack.capacity ∧ popped.size = stack.size - 1 := by
  cases contexts with
  | nil =>
      refine ⟨stack, ?_, held, rfl, ?_⟩
      · simp [ContextStack.pop, held.size_eq]
      · simp [held.size_eq]
  | cons context contexts =>
      have size := held.size_cons
      have fits := held.fits
      have stored := store_append contexts.reverse context default
        (List.replicate (stack.capacity - stack.size) default)
      rw [List.length_reverse] at stored
      refine ⟨{ stack with
        base := some (contexts.reverse ++
          default :: List.replicate (stack.capacity - stack.size) default),
        size := stack.size - 1 }, ?_, ?_, rfl, rfl⟩
      · have positive : stack.size ≠ 0 := by omega
        have last : stack.size - 1 = contexts.length := by omega
        simp [ContextStack.pop, positive, held.exists_base, last, stored]
      · constructor
        · simp [size]
        · show stack.size - 1 ≤ stack.capacity
          omega
        · have room : stack.capacity - (stack.size - 1) = stack.capacity - stack.size + 1 := by
            omega
          simp [room, List.replicate_succ]
        · simp

/-- A new array has the contexts of the old one, and empty contexts behind them. -/
theorem resize (held : stack.Holds contexts) {newCapacity : ℕ}
    (larger : stack.size < newCapacity) :
    ({ stack with size := stack.size + 1 } : ContextStack Context).resize newCapacity =
      some ⟨stack.size + 1, newCapacity,
        some (contexts.reverse ++ List.replicate (newCapacity - stack.size) default)⟩ := by
  have size := held.size_eq
  have positive : newCapacity ≠ 0 := by omega
  have bound : min stack.size newCapacity = stack.size := by omega
  cases same : stack.base with
  | none =>
      have capacity := held.unallocated same
      have fits := held.fits
      have none : contexts = [] := List.eq_nil_of_length_eq_zero (by omega)
      simp [ContextStack.resize, positive, none, show stack.size = 0 by omega]
  | some base =>
      have equal := held.base_eq
      simp only [same, Option.getD_some] at equal
      have inBase : stack.size ≤ base.length := by simp [equal, size]
      have inTemp : stack.size ≤ (List.replicate newCapacity (default : Context)).length := by
        simp only [List.length_replicate]
        omega
      have copied := copyInto_eq inBase inTemp
      have front : base.take stack.size = contexts.reverse := by
        rw [equal, size, ← List.length_reverse, List.take_left]
      simp only [ContextStack.resize, positive, if_false, Nat.add_sub_cancel, bound, copied,
        Option.map_some, front, List.drop_replicate]

/-- Pushing puts the context on top, in an array that is doubled if it was full. -/
theorem push (held : stack.Holds contexts) (context : Context) :
    ∃ pushed, stack.push context = some pushed ∧ pushed.Holds (context :: contexts) ∧
      pushed.size = stack.size + 1 ∧
      pushed.capacity = if stack.capacity = stack.size then (stack.size + 1) * 2
        else stack.capacity := by
  have size := held.size_eq
  have fits := held.fits
  by_cases full : stack.capacity = stack.size
  · have larger : stack.size < (stack.size + 1) * 2 := by omega
    have grown := held.resize larger
    have room : (stack.size + 1) * 2 - stack.size = stack.size + 1 + 1 := by omega
    have stored := store_append contexts.reverse default context
      (List.replicate (stack.size + 1) default)
    rw [List.length_reverse, ← size, ← List.replicate_succ, ← room] at stored
    refine ⟨⟨stack.size + 1, (stack.size + 1) * 2, some (contexts.reverse ++
      context :: List.replicate (stack.size + 1) default)⟩, ?_, ?_, rfl, by simp [full]⟩
    · have overfull : stack.capacity < stack.size + 1 := by omega
      simp [ContextStack.push, overfull, grown, stored]
    · constructor
      · simp [size]
      · show stack.size + 1 ≤ (stack.size + 1) * 2
        omega
      · have back : (stack.size + 1) * 2 - (stack.size + 1) = stack.size + 1 := by omega
        simp [back]
      · simp
  · have room : stack.capacity - stack.size = stack.capacity - (stack.size + 1) + 1 := by omega
    have allocated : stack.base = some (contexts.reverse ++
        default :: List.replicate (stack.capacity - (stack.size + 1)) default) := by
      cases same : stack.base with
      | none =>
          have capacity := held.unallocated same
          omega
      | some base =>
          have equal := held.base_eq
          simp only [same, Option.getD_some, room, List.replicate_succ] at equal
          rw [equal]
    have stored := store_append contexts.reverse default context
      (List.replicate (stack.capacity - (stack.size + 1)) default)
    rw [List.length_reverse, ← size] at stored
    refine ⟨⟨stack.size + 1, stack.capacity, some (contexts.reverse ++
      context :: List.replicate (stack.capacity - (stack.size + 1)) default)⟩, ?_, ?_, rfl,
      by simp [full]⟩
    · have notFull : ¬ stack.capacity < stack.size + 1 := by omega
      simp [ContextStack.push, notFull, allocated, stored]
    · constructor
      · simp [size]
      · show stack.size + 1 ≤ stack.capacity
        omega
      · simp
      · simp

/-- A full array is copied as a whole. -/
theorem pushCopies (held : stack.Holds contexts) :
    stack.pushCopies = if stack.capacity = stack.size then stack.size else 0 := by
  have fits := held.fits
  by_cases full : stack.capacity = stack.size
  · have overfull : stack.capacity < stack.size + 1 := by omega
    have bound : min stack.size ((stack.size + 1) * 2) = stack.size := by omega
    cases same : stack.base with
    | none =>
        have capacity := held.unallocated same
        simp [ContextStack.pushCopies, resizeCopies, same, full, show stack.size = 0 by omega]
    | some base => simp [ContextStack.pushCopies, resizeCopies, same, full, bound]
  · have notFull : ¬ stack.capacity < stack.size + 1 := by omega
    simp [ContextStack.pushCopies, full, notFull]

end Holds

section Tokens

variable [DecidableEq Context]

/-- The loop of `Stack::Contains` from the position `pos` down. -/
def containsFrom (token : Context) (stack : ContextStack Context) : ℕ → Option Bool
  | 0 => some false
  | pos + 1 =>
      (stack.read pos).bind (fun context =>
        if token = context then some true else containsFrom token stack pos)

/-- `Stack::Contains`. -/
def contains (token : Context) (stack : ContextStack Context) : Option Bool :=
  containsFrom token stack stack.size

/-- The loop of `Detach` that pops until the token's context is on top, for `fuel` rounds. -/
def popUntil (token : Context) : ℕ → ContextStack Context → Option (ContextStack Context)
  | 0, _ => none
  | fuel + 1, stack =>
      stack.top.bind (fun context =>
        if token = context then some stack else stack.pop.bind (popUntil token fuel))

/-- `BthreadLocalContextStorage::Detach` on the stack of the bthread. -/
def detach (token : Context) (stack : ContextStack Context) :
    Option (ContextStack Context × Bool) :=
  stack.top.bind (fun context =>
    if token = context then stack.pop.map (fun popped => (popped, true))
    else (stack.contains token).bind (fun present =>
      if !present then some (stack, false)
      else (popUntil token stack.size stack).bind (fun found =>
        found.pop.map (fun popped => (popped, true)))))

variable {stack : ContextStack Context} {contexts : List Context}

namespace Holds

theorem containsFrom (held : stack.Holds contexts) (token : Context) {pos : ℕ}
    (below : pos ≤ stack.size) :
    containsFrom token stack pos = some (decide (token ∈ contexts.reverse.take pos)) := by
  induction pos with
  | zero => simp [ContextStack.containsFrom]
  | succ pos ih =>
      have inside : pos < contexts.reverse.length := by
        simp only [List.length_reverse, ← held.size_eq]
        omega
      have read := held.read_of_lt below
      rw [List.getElem?_eq_getElem inside] at read
      simp only [ContextStack.containsFrom, read, Option.bind_some, ih (by omega),
        List.take_succ_eq_append_getElem inside, List.mem_append, List.mem_singleton]
      split <;> simp_all

/-- `Contains` finds exactly the contexts on the stack, and reads nothing else. -/
theorem contains (held : stack.Holds contexts) (token : Context) :
    stack.contains token = some (decide (token ∈ contexts)) := by
  have all : contexts.reverse.take stack.size = contexts.reverse :=
    List.take_of_length_le (by simp [held.size_eq])
  rw [ContextStack.contains, held.containsFrom token le_rfl, all]
  simp

/-- A token of the stack is found by popping at most as many contexts as there are. -/
theorem popUntil {token : Context} (held : stack.Holds contexts) (present : token ∈ contexts)
    {fuel : ℕ} (enough : contexts.length ≤ fuel) :
    ∃ found, popUntil token fuel stack = some found ∧
      found.Holds (contexts.dropWhile (fun context => context ≠ token)) ∧
      found.capacity = stack.capacity := by
  induction contexts generalizing stack fuel with
  | nil => simp at present
  | cons context contexts ih =>
      cases fuel with
      | zero => simp at enough
      | succ fuel =>
          by_cases same : token = context
          · refine ⟨stack, ?_, ?_, rfl⟩
            · simp [ContextStack.popUntil, held.top, same]
            · simpa [same] using held
          · rcases held.pop with ⟨popped, poppedEq, poppedHeld, capacity, -⟩
            have later : token ∈ contexts := by simpa [same] using present
            have fewer : contexts.length ≤ fuel := by simpa using enough
            rcases ih poppedHeld later fewer with ⟨found, foundEq, foundHeld, kept⟩
            refine ⟨found, ?_, ?_, kept.trans capacity⟩
            · simp [ContextStack.popUntil, held.top, same, poppedEq, foundEq]
            · simpa [Ne.symm same] using foundHeld

/-- Detaching closes the innermost scope of the token. It succeeds if there is one, and for the
empty context also on an empty stack. -/
theorem detach (held : stack.Holds contexts) (token : Context) :
    ∃ next, stack.detach token =
        some (next, decide (token ∈ contexts ∨ contexts = [] ∧ token = default)) ∧
      next.Holds (closeScope token contexts) ∧ next.capacity = stack.capacity := by
  by_cases onTop : token = contexts.headD default
  · rcases held.pop with ⟨popped, poppedEq, poppedHeld, capacity, -⟩
    refine ⟨popped, ?_, ?_, capacity⟩
    · have answer : token ∈ contexts ∨ contexts = [] ∧ token = default := by
        cases contexts <;> simp_all
      simp only [ContextStack.detach, held.top, Option.bind_some, if_pos onTop, poppedEq,
        Option.map_some, answer, decide_true]
    · have closed : closeScope token contexts = contexts.tail := by
        cases contexts <;> simp_all [closeScope]
      rw [closed]
      exact poppedHeld
  · have notDefault : ¬ (contexts = [] ∧ token = default) := by
      rintro ⟨rfl, rfl⟩
      exact onTop rfl
    by_cases present : token ∈ contexts
    · rcases held.popUntil present held.size_eq.ge with ⟨found, foundEq, foundHeld, capacity⟩
      rcases foundHeld.pop with ⟨popped, poppedEq, poppedHeld, kept, -⟩
      refine ⟨popped, ?_, ?_, kept.trans capacity⟩
      · simp only [ContextStack.detach, held.top, Option.bind_some, onTop, if_false,
          held.contains, present, decide_true, Bool.not_true, Bool.false_eq_true, foundEq,
          poppedEq, Option.map_some, true_or]
      · simpa [closeScope, present] using poppedHeld
    · refine ⟨stack, ?_, ?_, rfl⟩
      · simp only [ContextStack.detach, held.top, Option.bind_some, onTop, if_false,
          held.contains, present, decide_false, Bool.not_false, if_true, notDefault, or_self]
      · rw [closeScope_of_not_mem present]
        exact held

end Holds

end Tokens

end ContextStack

/-- The calls into the storage. -/
inductive ContextCall (Context : Type u) where
  | getCurrent
  | attach (context : Context)
  | detach (token : Context)
deriving DecidableEq, Repr

/-- What a call into the storage returns. -/
inductive ContextAnswer (Context : Type u) where
  | current (context : Context)
  | token (context : Context)
  | detached (found : Bool)
deriving DecidableEq, Repr

namespace ContextStorage

variable {Context : Type u} {Bthread : Type v}

/-- `BthreadLocal::get_or_create`, by which `GetStack` finds the stack of the bthread. -/
def getOrCreate (stack : Option (ContextStack Context)) : ContextStack Context :=
  stack.getD .empty

/-- No bthread has used the storage yet. -/
def start : Bthread → Option (ContextStack Context) := fun _ => none

theorem getOrCreate_start [Inhabited Context] (bthread : Bthread) :
    (getOrCreate ((start : Bthread → Option (ContextStack Context)) bthread)).Holds [] :=
  ContextStack.Holds.empty

variable [Inhabited Context] [DecidableEq Context] [DecidableEq Bthread]

/-- The calls of one bthread, on the stack that is local to it. -/
def operate (stack : Option (ContextStack Context)) :
    ContextCall Context → Option (ContextStack Context × ContextAnswer Context)
  | .getCurrent =>
      (getOrCreate stack).top.map (fun context => (getOrCreate stack, .current context))
  | .attach context =>
      ((getOrCreate stack).push context).map (fun pushed => (pushed, .token context))
  | .detach token =>
      ((getOrCreate stack).detach token).map (fun result => (result.1, .detached result.2))

/-- The call of one bthread, as a step of its stack. -/
def localStep (stack : Option (ContextStack Context)) (call : ContextCall Context) :
    Option (Option (ContextStack Context)) :=
  (operate stack call).map (fun result => some result.1)

/-- A call of one of the bthreads. -/
def step (stackOf : Bthread → Option (ContextStack Context))
    (call : Bthread × ContextCall Context) : Option (Bthread → Option (ContextStack Context)) :=
  familyStep localStep stackOf call

/-- What the call returns to the bthread that makes it. -/
def answer (stackOf : Bthread → Option (ContextStack Context))
    (call : Bthread × ContextCall Context) : Option (ContextAnswer Context) :=
  (operate (stackOf call.1) call.2).map Prod.snd

/-- The scopes that a call opens and closes. -/
def scopeCall : ContextCall Context → Option (ScopeCall Context)
  | .getCurrent => none
  | .attach context => some (.attach context)
  | .detach token => some (.detach token)

/-- The scopes that are open in a bthread after a call. -/
def contextsAfter (contexts : List Context) (call : ContextCall Context) : List Context :=
  (scopeCall call).elim contexts (scopesAfter contexts)

/-- What a call returns, in terms of the open scopes. -/
def scopeAnswer (contexts : List Context) : ContextCall Context → ContextAnswer Context
  | .getCurrent => .current (contexts.headD default)
  | .attach context => .token context
  | .detach token =>
      .detached (decide (token ∈ contexts ∨ contexts = [] ∧ token = default))

/-- The open scopes of each bthread, after a call of one of them. -/
def scopesStep (scopes : Bthread → List Context) (call : Bthread × ContextCall Context) :
    Option (Bthread → List Context) :=
  familyStep (fun contexts call => some (contextsAfter contexts call)) scopes call

/-- A call on a stack that holds the open scopes returns what they tell it to. -/
theorem operate_holds {stack : Option (ContextStack Context)} {contexts : List Context}
    (held : (getOrCreate stack).Holds contexts) (call : ContextCall Context) :
    ∃ next, operate stack call = some (next, scopeAnswer contexts call) ∧
      next.Holds (contextsAfter contexts call) := by
  cases call with
  | getCurrent => exact ⟨getOrCreate stack, by simp [operate, held.top, scopeAnswer], held⟩
  | attach context =>
      rcases held.push context with ⟨pushed, pushedEq, pushedHeld, -⟩
      exact ⟨pushed, by simp [operate, pushedEq, scopeAnswer], pushedHeld⟩
  | detach token =>
      rcases held.detach token with ⟨next, nextEq, nextHeld, -⟩
      exact ⟨next, by simp [operate, nextEq, scopeAnswer], nextHeld⟩

/-- A call leaves the stack holding the contexts that it should, and gives the answer that it
should. -/
theorem localStep_holds {stack : Option (ContextStack Context)} {contexts : List Context}
    (held : (getOrCreate stack).Holds contexts) (call : ContextCall Context) :
    ∃ next, localStep stack call = some next ∧
      (getOrCreate next).Holds (contextsAfter contexts call) := by
  rcases operate_holds held call with ⟨next, operated, nextHeld⟩
  exact ⟨some next, by simp [localStep, operated], nextHeld⟩

/-- The calls of one bthread leave the stack holding the contexts that they should. -/
theorem exec_localStep_holds {stack final : Option (ContextStack Context)}
    {contexts : List Context} {calls : List (ContextCall Context)}
    (held : (getOrCreate stack).Holds contexts) (ran : exec localStep stack calls = some final) :
    (getOrCreate final).Holds (calls.foldl contextsAfter contexts) := by
  induction calls generalizing stack contexts with
  | nil =>
      simp only [exec_nil, Option.some.injEq] at ran
      simpa [← ran] using held
  | cons call calls ih =>
      rcases localStep_holds held call with ⟨next, stepped, nextHeld⟩
      simp only [exec_cons, stepped, Option.bind_some] at ran
      exact ih nextHeld ran

/-- Every run goes through to its end. -/
theorem exec_start (calls : List (Bthread × ContextCall Context)) :
    ∃ final : Bthread → Option (ContextStack Context), exec step start calls = some final := by
  have progress : ∀ (stack : Option (ContextStack Context)) (call : ContextCall Context),
      (∃ contexts, (getOrCreate stack).Holds contexts) →
        ∃ next, localStep stack call = some next ∧
          ∃ contexts, (getOrCreate next).Holds contexts := by
    rintro stack call ⟨contexts, held⟩
    rcases localStep_holds held call with ⟨next, stepped, nextHeld⟩
    exact ⟨next, stepped, _, nextHeld⟩
  rcases exec_family_total _ progress
    (fun bthread : Bthread => ⟨[], getOrCreate_start bthread⟩) calls with ⟨final, ran, -⟩
  exact ⟨final, ran⟩

/-- What a call returns, in terms of the open scopes of the bthread that makes it. -/
def scopesAnswer (scopes : Bthread → List Context) (call : Bthread × ContextCall Context) :
    Option (ContextAnswer Context) :=
  some (scopeAnswer (scopes call.1) call.2)

/-- One call keeps the stacks of all bthreads in step with their open scopes. -/
theorem step_holds {stackOf : Bthread → Option (ContextStack Context)}
    {scopes : Bthread → List Context}
    (held : ∀ bthread, (getOrCreate (stackOf bthread)).Holds (scopes bthread))
    (call : Bthread × ContextCall Context) :
    answer stackOf call = scopesAnswer scopes call ∧
      ∃ next scopesNext, step stackOf call = some next ∧
        scopesStep scopes call = some scopesNext ∧
        ∀ bthread, (getOrCreate (next bthread)).Holds (scopesNext bthread) := by
  rcases operate_holds (held call.1) call.2 with ⟨next, operated, nextHeld⟩
  refine ⟨by simp [answer, scopesAnswer, operated], Function.update stackOf call.1 (some next),
    Function.update scopes call.1 (contextsAfter (scopes call.1) call.2), ?_, rfl, ?_⟩
  · simp [step, familyStep, localStep, operated]
  · intro bthread
    by_cases same : bthread = call.1
    · simpa [same, getOrCreate] using nextHeld
    · simpa [same] using held bthread

/-- In every interleaving of the calls of the bthreads no access is out of bounds and no loop runs
forever; the stack of each bthread holds the scopes that its own calls left open, and every call is
answered by the open scopes of the bthread that makes it. -/
theorem run_refines (calls : List (Bthread × ContextCall Context)) :
    (∃ final : Bthread → Option (ContextStack Context), exec step start calls = some final ∧
      ∀ bthread, (getOrCreate (final bthread)).Holds
        ((eventsOf bthread calls).foldl contextsAfter [])) ∧
    transcript step answer (start : Bthread → Option (ContextStack Context)) calls =
      transcript scopesStep scopesAnswer (fun _ => []) calls := by
  constructor
  · rcases exec_start calls with ⟨final, ran⟩
    refine ⟨final, ran, ?_⟩
    intro bthread
    exact exec_localStep_holds (getOrCreate_start bthread) (exec_family ran bthread)
  · have agrees : List.Forall₂ Eq
        (transcript step answer (start : Bthread → Option (ContextStack Context)) calls)
        (transcript scopesStep scopesAnswer (fun _ => []) calls) := by
      refine transcript_agrees (fun stackOf scopes _ => ∀ bthread,
        (getOrCreate (stackOf bthread)).Holds (scopes bthread)) Eq ?_ getOrCreate_start
        (guarded_of_forall_mem (fun _ _ => trivial) :
          Guarded step (fun _ _ => True) start calls)
      intro stackOf scopes call _ held _
      exact step_holds held call
    simpa [List.forall₂_eq_eq_eq] using agrees

omit [Inhabited Context] in
theorem foldl_contextsAfter (contexts : List Context) (calls : List (ContextCall Context)) :
    calls.foldl contextsAfter contexts =
      (calls.filterMap scopeCall).foldl scopesAfter contexts := by
  induction calls generalizing contexts with
  | nil => rfl
  | cons call calls ih =>
      rw [List.foldl_cons, ih]
      cases call <;> rfl

/-- In every interleaving, a bthread whose own calls are well nested finds the context that was
current before them, and each of its detachments succeeds. -/
theorem wellNested_restores {before during : List (Bthread × ContextCall Context)}
    {middle final : Bthread → Option (ContextStack Context)}
    (ranBefore : exec step start before = some middle)
    (ranDuring : exec step middle during = some final) (bthread : Bthread)
    (nested : WellNested ((eventsOf bthread during).filterMap scopeCall)) :
    answer final (bthread, .getCurrent) = answer middle (bthread, .getCurrent) ∧
      ∀ front token back reached, during = front ++ (bthread, .detach token) :: back →
        exec step middle front = some reached →
        answer reached (bthread, .detach token) = some (.detached true) := by
  have heldMiddle := exec_localStep_holds (getOrCreate_start bthread)
    (exec_family ranBefore bthread)
  have heldFinal := exec_localStep_holds heldMiddle (exec_family ranDuring bthread)
  rw [foldl_contextsAfter _ (eventsOf bthread during), nested.restores] at heldFinal
  constructor
  · simp [answer, operate, heldMiddle.top, heldFinal.top]
  · intro front token back reached split ran
    have held := exec_localStep_holds heldMiddle (exec_family ran bthread)
    have splitCalls : (eventsOf bthread during).filterMap scopeCall =
        (eventsOf bthread front).filterMap scopeCall ++
          .detach token :: (eventsOf bthread back).filterMap scopeCall := by
      simp [split, eventsOf, scopeCall]
    rcases nested.innermost ((eventsOf bthread before).foldl contextsAfter []) splitCalls with
      ⟨below, innermost⟩
    rw [foldl_contextsAfter _ (eventsOf bthread front), innermost] at held
    rcases held.detach token with ⟨next, detached, -⟩
    simp [answer, operate, detached]

/-- One bthread opens and closes two scopes, and another one opens a scope between them. -/
theorem wellNested_restores_two_bthreads :
    answer (Function.update (Function.update (Function.update (Function.update start true
        (some ⟨1, 2, some [7, 0]⟩)) true (some ⟨2, 2, some [7, 5]⟩))
        false (some ⟨1, 2, some [9, 0]⟩)) true (some ⟨1, 2, some [7, 0]⟩)) (true, .getCurrent) =
      answer (Function.update start true (some ⟨1, 2, some [7, 0]⟩)) (true, .getCurrent) := by
  have ranBefore : exec step (start : Bool → Option (ContextStack ℕ)) [(true, .attach 7)] =
      some (Function.update start true (some ⟨1, 2, some [7, 0]⟩)) := rfl
  have ranDuring : exec step
      (Function.update start true (some ⟨1, 2, some [7, 0]⟩) : Bool → Option (ContextStack ℕ))
      [(true, .attach 5), (false, .attach 9), (true, .detach 5)] =
      some (Function.update (Function.update (Function.update (Function.update start true
        (some ⟨1, 2, some [7, 0]⟩)) true (some ⟨2, 2, some [7, 5]⟩))
        false (some ⟨1, 2, some [9, 0]⟩)) true (some ⟨1, 2, some [7, 0]⟩)) := rfl
  exact (wellNested_restores ranBefore ranDuring true (.scope 5 .nil .nil)).1

/-- The number of contexts that a call copies into a new array. -/
def callCopies (stack : Option (ContextStack Context)) : ContextCall Context → ℕ
  | .attach _ => (getOrCreate stack).pushCopies
  | .getCurrent | .detach _ => 0

/-- The number of contexts that the calls of one bthread copy into new arrays. -/
def copies (stack : Option (ContextStack Context)) : List (ContextCall Context) → ℕ
  | [] => 0
  | call :: calls =>
      callCopies stack call + ((localStep stack call).map (fun next => copies next calls)).getD 0

/-- The largest size the stack has while the calls are made. -/
def peak (stack : Option (ContextStack Context)) : List (ContextCall Context) → ℕ
  | [] => (getOrCreate stack).size
  | call :: calls =>
      max (getOrCreate stack).size
        (((localStep stack call).map (fun next => peak next calls)).getD 0)

/-- A stack is never larger than its peak. -/
theorem size_le_peak (stack : Option (ContextStack Context)) (calls : List (ContextCall Context)) :
    (getOrCreate stack).size ≤ peak stack calls := by
  cases calls with
  | nil => exact le_rfl
  | cons call calls => exact le_max_left _ _

/-- What a call copies is paid for by the capacity it adds, and the capacity added is at most twice
the size reached. -/
theorem localStep_copies {stack next : Option (ContextStack Context)} {contexts : List Context}
    (held : (getOrCreate stack).Holds contexts) {call : ContextCall Context}
    (stepped : localStep stack call = some next) :
    (getOrCreate stack).capacity + callCopies stack call ≤ (getOrCreate next).capacity ∧
      (getOrCreate next).capacity ≤
        max (getOrCreate stack).capacity (2 * (getOrCreate next).size) := by
  cases call with
  | getCurrent =>
      simp only [localStep, operate, held.top, Option.map_some, Option.some.injEq] at stepped
      subst stepped
      exact ⟨le_rfl, le_max_left _ _⟩
  | attach context =>
      rcases held.push context with ⟨pushed, pushedEq, -, size, capacity⟩
      simp only [localStep, operate, pushedEq, Option.map_some, Option.some.injEq] at stepped
      subst stepped
      have fits := held.fits
      simp only [callCopies, held.pushCopies, show getOrCreate (some pushed) = pushed from rfl,
        capacity, size]
      split <;> constructor <;> omega
  | detach token =>
      rcases held.detach token with ⟨detached, detachedEq, -, capacity⟩
      simp only [localStep, operate, detachedEq, Option.map_some, Option.some.injEq] at stepped
      subst stepped
      exact ⟨capacity.ge, le_max_of_le_left capacity.le⟩

/-- What has been copied fits into what the array has grown by, and the array stays within twice the
peak. -/
theorem exec_copies {stack final : Option (ContextStack Context)} {contexts : List Context}
    {calls : List (ContextCall Context)} (held : (getOrCreate stack).Holds contexts)
    (ran : exec localStep stack calls = some final) :
    (getOrCreate stack).capacity + copies stack calls ≤ (getOrCreate final).capacity ∧
      (getOrCreate final).capacity ≤ max (getOrCreate stack).capacity (2 * peak stack calls) := by
  induction calls generalizing stack contexts with
  | nil =>
      simp only [exec_nil, Option.some.injEq] at ran
      subst ran
      exact ⟨le_rfl, le_max_left _ _⟩
  | cons call calls ih =>
      rcases localStep_holds held call with ⟨next, stepped, nextHeld⟩
      simp only [exec_cons, stepped, Option.bind_some] at ran
      rcases localStep_copies held stepped with ⟨paid, grown⟩
      rcases ih nextHeld ran with ⟨paidLater, grownLater⟩
      have reached := size_le_peak next calls
      simp only [copies, peak, stepped, Option.map_some, Option.getD_some]
      constructor <;> omega

/-- However long it runs, a bthread copies at most twice as many contexts in all as it ever has
attached at once, and its array is at most twice as large. -/
theorem copies_le_peak {calls : List (Bthread × ContextCall Context)}
    {final : Bthread → Option (ContextStack Context)} (ran : exec step start calls = some final)
    (bthread : Bthread) :
    copies none (eventsOf bthread calls) ≤ (getOrCreate (final bthread)).capacity ∧
      (getOrCreate (final bthread)).capacity ≤ 2 * peak none (eventsOf bthread calls) := by
  rcases exec_copies (getOrCreate_start bthread) (exec_family ran bthread) with ⟨paid, grown⟩
  simp only [start, getOrCreate, Option.getD_none, ContextStack.empty, zero_add, zero_le,
    sup_of_le_right] at paid grown ⊢
  exact ⟨paid, grown⟩

/-- Three scopes, for which the array grows twice. -/
theorem copies_le_peak_three_attached :
    copies none [ContextCall.attach 7, .attach 5, .attach 8] ≤ 6 ∧
      6 ≤ 2 * peak none [ContextCall.attach 7, .attach 5, .attach 8] := by
  have ran : exec step (start : Bool → Option (ContextStack ℕ))
      [(true, .attach 7), (true, .attach 5), (false, .attach 9), (true, .attach 8)] =
      some (Function.update (Function.update (Function.update (Function.update start true
        (some ⟨1, 2, some [7, 0]⟩)) true (some ⟨2, 2, some [7, 5]⟩))
        false (some ⟨1, 2, some [9, 0]⟩)) true (some ⟨3, 6, some [7, 5, 8, 0, 0, 0]⟩)) := rfl
  exact copies_le_peak ran true

end ContextStorage

end Pain
