import Pain.Lib.Run

/-!
# Scope guards

A `ScopeExit` holds a function and a flag, and its destructor calls the function
if the flag is set. The move constructor clears the flag of its source and sets
its own, whatever the flag of the source was before.

A chain is the population of guards that descend by moves from one guard that
`make_scope_exit` made. Its operations are moves, calls of `release` and
destructions, of any object and in any order. The owner is the object that the
function has come to, and this file proves for which sequences of operations the
function is called once, or not at all if its owner was released.
-/

namespace Pain

/-- `ScopeExit`. -/
structure ScopeExit (F : Type) where
  func : F
  run : Bool
deriving DecidableEq

namespace ScopeExit

variable {F : Type}

/-- `make_scope_exit`. -/
def makeScopeExit (f : F) : ScopeExit F where
  func := f
  run := true

/-- The move constructor: the new guard, and what becomes of `rhs`. A function that is moved from
turns into what `leave` says. -/
def moveFrom (leave : F → F) (rhs : ScopeExit F) : ScopeExit F × ScopeExit F :=
  ({ func := rhs.func, run := true }, { func := leave rhs.func, run := false })

/-- `release`. -/
def release (guard : ScopeExit F) : ScopeExit F :=
  { guard with run := false }

/-- The destructor: the function that it calls. -/
def destroy (guard : ScopeExit F) : Option F :=
  if guard.run then some guard.func else none

/-- A guard of a chain, or what the destructor of one called. -/
inductive Slot (F : Type) where
  | live (guard : ScopeExit F)
  | destroyed (called : Option F)
deriving DecidableEq

/-- The guards of a chain, in the order of their construction. -/
abbrev Chain (F : Type) := List (Slot F)

/-- The operations on the objects of a chain. -/
inductive Op where
  | move (source : ℕ)
  | release (target : ℕ)
  | destroy (target : ℕ)
deriving DecidableEq

namespace Chain

/-- An operation on a guard that is alive. -/
def step (leave : F → F) (chain : Chain F) : Op → Option (Chain F)
  | .move source =>
      match chain[source]? with
      | some (.live rhs) =>
          let (new, left) := rhs.moveFrom leave
          some (chain.set source (.live left) ++ [.live new])
      | _ => none
  | .release target =>
      match chain[target]? with
      | some (.live guard) => some (chain.set target (.live guard.release))
      | _ => none
  | .destroy target =>
      match chain[target]? with
      | some (.live guard) => some (chain.set target (.destroyed guard.destroy))
      | _ => none

/-- The chain that starts with one `make_scope_exit`. -/
def start (f : F) : Chain F :=
  [.live (makeScopeExit f)]

/-- All objects of the chain have been destroyed. -/
def Gone (chain : Chain F) : Prop :=
  ∀ slot ∈ chain, ∃ called, slot = .destroyed called

/-- The functions that the destructors have called. -/
def calls (chain : Chain F) : List F :=
  chain.filterMap fun slot =>
    match slot with
    | .live _ => none
    | .destroyed called => called

end Chain

/-- How many guards there are, which of them the function has come to, and whether `release` was
called on the guard that was the owner at that time. -/
structure Ownership where
  objects : ℕ := 1
  owner : ℕ := 0
  released : Bool := false

namespace Ownership

/-- A move from the owner makes the new object the owner. -/
def after (ownership : Ownership) : Op → Ownership
  | .move source =>
      { ownership with
        objects := ownership.objects + 1
        owner := if source = ownership.owner then ownership.objects else ownership.owner }
  | .release target =>
      { ownership with released := ownership.released || target == ownership.owner }
  | .destroy _ => ownership

end Ownership

/-- The ownership at the end of a sequence of operations. -/
def ownership (ops : List Op) : Ownership :=
  ops.foldl Ownership.after {}

@[simp]
theorem ownership_nil : ownership [] = {} := rfl

@[simp]
theorem ownership_append_singleton (ops : List Op) (op : Op) :
    ownership (ops ++ [op]) = (ownership ops).after op := by
  simp [ownership]

/-- An object has been moved from or released. -/
def Touched (ops : List Op) (object : ℕ) : Prop :=
  .move object ∈ ops ∨ .release object ∈ ops

/-- The function has been called once, or not at all if its owner was released. -/
def FiresOnce (f : F) (ops : List Op) (chain : Chain F) : Prop :=
  chain.calls = if (ownership ops).released then [] else [f]

/-- Every object but the last owner has been moved from or released, and the last owner has been
released if any owner was. -/
structure Settled (ops : List Op) : Prop where
  others : ∀ object < (ownership ops).objects, object ≠ (ownership ops).owner →
    Touched ops object
  last : (ownership ops).released = true → .release (ownership ops).owner ∈ ops

section Steps

variable {leave : F → F} {f : F} {ops : List Op} {chain next : Chain F} {object : ℕ}

/-- What the destructor of the object calls, or has called. -/
def Slot.fires : Slot F → Option F
  | .live guard => guard.destroy
  | .destroyed called => called

/-- The object holds the function, or its destructor has called no other. -/
def Slot.Carries (f : F) : Slot F → Prop
  | .live guard => guard.func = f
  | .destroyed called => ∀ other ∈ called, other = f

theorem Slot.Carries.fires_eq {slot : Slot F} (carries : slot.Carries f)
    (armed : slot.fires.isSome = true) : slot.fires = some f := by
  rcases Option.isSome_iff_exists.mp armed with ⟨other, called⟩
  cases slot with
  | live guard =>
      simp only [Slot.fires, ScopeExit.destroy] at called ⊢
      split at called
      · rename_i runs
        rw [if_pos runs]
        exact congrArg some carries
      · simp at called
  | destroyed result =>
      simp only [Slot.fires] at called ⊢
      rw [called, carries other called]

@[simp]
theorem touched_append_singleton (op : Op) :
    Touched (ops ++ [op]) object ↔
      Touched ops object ∨ op = .move object ∨ op = .release object := by
  simp only [Touched, List.mem_append, List.mem_singleton, eq_comm]
  tauto

/-- How the slots of a chain change in a step. -/
theorem step_cases {op : Op} (stepped : chain.step leave op = some next) :
    (∃ source rhs, op = .move source ∧ chain[source]? = some (.live rhs) ∧
      next = chain.set source (.live (rhs.moveFrom leave).2) ++
        [.live (rhs.moveFrom leave).1]) ∨
    (∃ target guard, op = .release target ∧ chain[target]? = some (.live guard) ∧
      next = chain.set target (.live guard.release)) ∨
    (∃ target guard, op = .destroy target ∧ chain[target]? = some (.live guard) ∧
      next = chain.set target (.destroyed guard.destroy)) := by
  cases op with
  | move source =>
      simp only [Chain.step] at stepped
      split at stepped
      · rename_i rhs found
        simp only [Option.some.injEq] at stepped
        exact .inl ⟨source, rhs, rfl, found, stepped.symm⟩
      · cases stepped
  | release target =>
      simp only [Chain.step] at stepped
      split at stepped
      · rename_i guard found
        simp only [Option.some.injEq] at stepped
        exact .inr (.inl ⟨target, guard, rfl, found, stepped.symm⟩)
      · cases stepped
  | destroy target =>
      simp only [Chain.step] at stepped
      split at stepped
      · rename_i guard found
        simp only [Option.some.injEq] at stepped
        exact .inr (.inr ⟨target, guard, rfl, found, stepped.symm⟩)
      · cases stepped

/-- What the operations so far say about the objects of the chain. -/
structure Tracks (f : F) (ops : List Op) (chain : Chain F) : Prop where
  objects : (ownership ops).objects = chain.length
  ownerInside : (ownership ops).owner < chain.length
  inside : ∀ object, Touched ops object → object < chain.length
  fires : ∀ object slot, chain[object]? = some slot →
    (slot.fires.isSome = true ↔ ¬Touched ops object)
  carries : ∀ slot, chain[(ownership ops).owner]? = some slot → slot.Carries f
  unmoved : .move (ownership ops).owner ∉ ops
  unreleased : (ownership ops).released = false → .release (ownership ops).owner ∉ ops

theorem eq_of_getElem?_start {slot : Slot F} (found : (Chain.start f)[object]? = some slot) :
    slot = .live (makeScopeExit f) :=
  List.mem_singleton.mp (List.mem_of_getElem? found)

/-- The guard that `make_scope_exit` returns holds the function and is armed. -/
theorem tracks_start (f : F) : Tracks f [] (Chain.start f) where
  objects := rfl
  ownerInside := by simp [Chain.start]
  inside object touched := by simp [Touched] at touched
  fires object slot found := by
    simp [eq_of_getElem?_start found, Slot.fires, destroy, makeScopeExit, Touched]
  carries slot found := by
    simp [eq_of_getElem?_start found, Slot.Carries, makeScopeExit]
  unmoved := List.not_mem_nil
  unreleased _ := List.not_mem_nil

theorem getElem?_set_cases {slots : Chain F} {target : ℕ} {old new slot : Slot F}
    (found : slots[target]? = some old) (now : (slots.set target new)[object]? = some slot) :
    object = target ∧ slot = new ∨ object ≠ target ∧ slots[object]? = some slot := by
  by_cases same : object = target
  · subst same
    have inside := (List.getElem?_eq_some_iff.mp found).1
    simp only [List.getElem?_set_self inside, Option.some.injEq] at now
    exact .inl ⟨rfl, now.symm⟩
  · rw [List.getElem?_set_ne (Ne.symm same)] at now
    exact .inr ⟨same, now⟩

theorem getElem?_append_cases {slots : Chain F} {new slot : Slot F}
    (now : (slots ++ [new])[object]? = some slot) :
    object = slots.length ∧ slot = new ∨ object ≠ slots.length ∧ slots[object]? = some slot := by
  by_cases isNew : object = slots.length
  · subst isNew
    rw [List.getElem?_concat_length, Option.some.injEq] at now
    exact .inl ⟨rfl, now.symm⟩
  · have inside : object < slots.length := by
      have bound := (List.getElem?_eq_some_iff.mp now).1
      rw [List.length_append, List.length_singleton] at bound
      omega
    rw [List.getElem?_append_left inside] at now
    exact .inr ⟨isNew, now⟩

/-- `release` disarms one guard. -/
theorem Tracks.release (tracks : Tracks f ops chain) {target : ℕ} {guard : ScopeExit F}
    (found : chain[target]? = some (.live guard)) :
    Tracks f (ops ++ [.release target]) (chain.set target (.live guard.release)) where
  objects := by simpa [Ownership.after] using tracks.objects
  ownerInside := by simpa [Ownership.after] using tracks.ownerInside
  inside object touched := by
    have targetInside := (List.getElem?_eq_some_iff.mp found).1
    simp only [touched_append_singleton, reduceCtorEq, Op.release.injEq, false_or] at touched
    rcases touched with before | rfl
    · simpa using tracks.inside object before
    · simpa using targetInside
  fires object slot now := by
    rcases getElem?_set_cases found now with ⟨rfl, rfl⟩ | ⟨other, before⟩
    · simp [Slot.fires, ScopeExit.release, ScopeExit.destroy]
    · simp [tracks.fires object slot before, Ne.symm other]
  carries slot now := by
    simp only [ownership_append_singleton, Ownership.after] at now
    rcases getElem?_set_cases found now with ⟨isOwner, rfl⟩ | ⟨-, before⟩
    · exact tracks.carries (.live guard) (isOwner ▸ found)
    · exact tracks.carries slot before
  unmoved := by simpa [Ownership.after] using tracks.unmoved
  unreleased stillHeld := by
    simp only [ownership_append_singleton, Ownership.after, Bool.or_eq_false_iff,
      beq_eq_false_iff_ne] at stillHeld ⊢
    simpa [Ne.symm stillHeld.2] using tracks.unreleased stillHeld.1

/-- The destructor calls the function of an armed guard. -/
theorem Tracks.destroy (tracks : Tracks f ops chain) {target : ℕ} {guard : ScopeExit F}
    (found : chain[target]? = some (.live guard)) :
    Tracks f (ops ++ [.destroy target]) (chain.set target (.destroyed guard.destroy)) where
  objects := by simpa [Ownership.after] using tracks.objects
  ownerInside := by simpa [Ownership.after] using tracks.ownerInside
  inside object touched := by
    simp only [touched_append_singleton, reduceCtorEq, or_false] at touched
    simpa using tracks.inside object touched
  fires object slot now := by
    rcases getElem?_set_cases found now with ⟨rfl, rfl⟩ | ⟨-, before⟩
    · simpa [Slot.fires] using tracks.fires object (.live guard) found
    · simpa using tracks.fires object slot before
  carries slot now := by
    simp only [ownership_append_singleton, Ownership.after] at now
    rcases getElem?_set_cases found now with ⟨isOwner, rfl⟩ | ⟨-, before⟩
    · have held : guard.func = f := tracks.carries (.live guard) (isOwner ▸ found)
      intro other called
      simp only [ScopeExit.destroy] at called
      split at called
      · simp only [Option.mem_def, Option.some.injEq] at called
        rw [← called, held]
      · simp at called
    · exact tracks.carries slot before
  unmoved := by simpa [Ownership.after] using tracks.unmoved
  unreleased stillHeld := by
    simpa [Ownership.after] using tracks.unreleased (by simpa [Ownership.after] using stillHeld)

/-- The move constructor arms the new guard and takes the function from the old one. -/
theorem Tracks.move (tracks : Tracks f ops chain) {source : ℕ} {rhs : ScopeExit F}
    (found : chain[source]? = some (.live rhs)) :
    Tracks f (ops ++ [.move source])
      (chain.set source (.live (rhs.moveFrom leave).2) ++ [.live (rhs.moveFrom leave).1]) where
  objects := by simpa [Ownership.after] using tracks.objects
  ownerInside := by
    have ownerInside := tracks.ownerInside
    have objects := tracks.objects
    simp only [ownership_append_singleton, Ownership.after, List.length_append, List.length_set,
      List.length_singleton]
    split <;> omega
  inside object touched := by
    have sourceInside := (List.getElem?_eq_some_iff.mp found).1
    simp only [touched_append_singleton, reduceCtorEq, Op.move.injEq, or_false] at touched
    simp only [List.length_append, List.length_set, List.length_singleton]
    rcases touched with before | rfl
    · have beforeInside := tracks.inside object before
      omega
    · omega
  fires object slot now := by
    have sourceInside := (List.getElem?_eq_some_iff.mp found).1
    simp only [touched_append_singleton, reduceCtorEq, Op.move.injEq, or_false]
    rcases getElem?_append_cases now with ⟨isNew, rfl⟩ | ⟨-, before⟩
    · rw [List.length_set] at isNew
      have untouched : ¬Touched ops object := by
        intro touched
        have inside := tracks.inside object touched
        omega
      have other : source ≠ object := by omega
      simp [Slot.fires, moveFrom, ScopeExit.destroy, untouched, other]
    · rcases getElem?_set_cases found before with ⟨rfl, rfl⟩ | ⟨other, before⟩
      · simp [Slot.fires, moveFrom, ScopeExit.destroy]
      · simp [tracks.fires object slot before, Ne.symm other]
  carries slot now := by
    have ownerInside := tracks.ownerInside
    have objects := tracks.objects
    simp only [ownership_append_singleton, Ownership.after] at now
    split at now
    · rename_i isOwner
      rcases getElem?_append_cases now with ⟨-, rfl⟩ | ⟨notNew, -⟩
      · exact tracks.carries (.live rhs) (isOwner ▸ found)
      · rw [List.length_set] at notNew
        exact absurd objects notNew
    · rename_i notOwner
      rcases getElem?_append_cases now with ⟨isNew, -⟩ | ⟨-, before⟩
      · rw [List.length_set] at isNew
        omega
      · rcases getElem?_set_cases found before with ⟨isOwner, -⟩ | ⟨-, before⟩
        · exact absurd isOwner.symm notOwner
        · exact tracks.carries slot before
  unmoved := by
    have sourceInside := (List.getElem?_eq_some_iff.mp found).1
    have objects := tracks.objects
    simp only [ownership_append_singleton, Ownership.after, List.mem_append, List.mem_singleton,
      Op.move.injEq, not_or]
    split
    · refine ⟨fun moved => ?_, by omega⟩
      have inside := tracks.inside _ (.inl moved)
      omega
    · exact ⟨tracks.unmoved, by omega⟩
  unreleased stillHeld := by
    have objects := tracks.objects
    simp only [ownership_append_singleton, Ownership.after, List.mem_append, List.mem_singleton,
      reduceCtorEq, or_false] at stillHeld ⊢
    split
    · intro released
      have inside := tracks.inside _ (.inr released)
      omega
    · exact tracks.unreleased stillHeld

/-- What one step preserves. -/
theorem Tracks.step (tracks : Tracks f ops chain) {op : Op}
    (stepped : chain.step leave op = some next) : Tracks f (ops ++ [op]) next := by
  rcases step_cases stepped with ⟨source, rhs, rfl, found, rfl⟩ | ⟨target, guard, rfl, found, rfl⟩ |
    ⟨target, guard, rfl, found, rfl⟩
  · exact tracks.move found
  · exact tracks.release found
  · exact tracks.destroy found

/-- What every run preserves. -/
theorem tracks_of_exec (ran : Lib.exec (Chain.step leave) (Chain.start f) ops = some chain) :
    Tracks f ops chain := by
  induction ops using List.reverseRecOn generalizing chain with
  | nil =>
      simp only [Lib.exec_nil, Option.some.injEq] at ran
      exact ran ▸ tracks_start f
  | append_singleton ops op ih =>
      simp only [Lib.exec_append, Option.bind_eq_some_iff, Lib.exec_cons, Lib.exec_nil,
        Option.some.injEq, exists_eq_right] at ran
      rcases ran with ⟨middle, ranFront, stepped⟩
      exact (ih ranFront).step stepped

/-- When all guards are gone, the calls are those of the armed ones. -/
theorem calls_eq_filterMap (gone : chain.Gone) : chain.calls = chain.filterMap Slot.fires := by
  apply List.filterMap_congr
  intro slot member
  rcases gone slot member with ⟨called, rfl⟩
  rfl

/-- No call was made exactly if every guard was moved from or released. -/
theorem Tracks.calls_eq_nil_iff (tracks : Tracks f ops chain) (gone : chain.Gone) :
    chain.calls = [] ↔ ∀ object < chain.length, Touched ops object := by
  simp only [calls_eq_filterMap gone, List.filterMap_eq_nil_iff, List.forall_mem_iff_getElem]
  apply forall_congr'
  intro object
  apply forall_congr'
  intro inside
  have armed := tracks.fires object _ (List.getElem?_eq_getElem inside)
  rw [← not_iff_not, ← armed, Option.isSome_iff_ne_none]

theorem filterMap_eq_singleton_iff {Item Result : Type} {choose : Item → Option Result}
    {items : List Item} {position : ℕ} {item : Item} {result : Result}
    (here : items[position]? = some item) (chosen : choose item = some result) :
    items.filterMap choose = [result] ↔
      ∀ other item, items[other]? = some item → other ≠ position → choose item = none := by
  rcases List.getElem?_eq_some_iff.mp here with ⟨inside, isItem⟩
  have split : items = items.take position ++ item :: items.drop (position + 1) := by
    rw [← isItem, ← List.drop_eq_getElem_cons inside, List.take_append_drop]
  have found : items.filterMap choose = (items.take position).filterMap choose ++
      result :: (items.drop (position + 1)).filterMap choose := by
    conv_lhs => rw [split]
    rw [List.filterMap_append, List.filterMap_cons_some chosen]
  have onlyOne : items.filterMap choose = [result] ↔
      (items.take position).filterMap choose = [] ∧
        (items.drop (position + 1)).filterMap choose = [] := by
    rw [found, List.append_eq_singleton_iff]
    simp
  rw [onlyOne, List.filterMap_eq_nil_iff, List.filterMap_eq_nil_iff]
  constructor
  · rintro ⟨front, back⟩ other item isOther notHere
    rcases Nat.lt_or_gt_of_ne notHere with before | after
    · exact front item (List.mem_of_getElem? (by rw [List.getElem?_take_of_lt before, isOther]))
    · apply back item
      apply List.mem_of_getElem? (i := other - (position + 1))
      rw [List.getElem?_drop, Nat.add_sub_cancel' after, isOther]
  · intro none
    constructor
    · intro item member
      rcases List.mem_take_iff_getElem.mp member with ⟨other, bound, rfl⟩
      exact none other _ (List.getElem?_eq_getElem _) (by omega)
    · intro item member
      rcases List.mem_drop_iff_getElem.mp member with ⟨other, bound, rfl⟩
      exact none (position + 1 + other) _ (List.getElem?_eq_getElem _) (by omega)

/-- One call was made exactly if every guard but the owner was moved from or released. -/
theorem Tracks.calls_eq_singleton_iff (tracks : Tracks f ops chain) (gone : chain.Gone)
    (held : (ownership ops).released = false) :
    chain.calls = [f] ↔
      ∀ object < chain.length, object ≠ (ownership ops).owner → Touched ops object := by
  have untouched : ¬Touched ops (ownership ops).owner :=
    not_or.mpr ⟨tracks.unmoved, tracks.unreleased held⟩
  have found := List.getElem?_eq_getElem tracks.ownerInside
  have armed := (tracks.fires _ _ found).mpr untouched
  have fires := (tracks.carries _ found).fires_eq armed
  rw [calls_eq_filterMap gone, filterMap_eq_singleton_iff found fires]
  constructor
  · intro none object inside notOwner
    have here := List.getElem?_eq_getElem inside
    have silent := none object _ here notOwner
    by_contra isUntouched
    have armedHere := (tracks.fires object _ here).mpr isUntouched
    rw [silent] at armedHere
    simp at armedHere
  · intro touched object slot here notOwner
    have inside := (List.getElem?_eq_some_iff.mp here).1
    have disarmed := mt (tracks.fires object slot here).mp
      (not_not.mpr (touched object inside notOwner))
    simpa using disarmed

end Steps

section Chains

variable {F : Type} {ops : List Op}

/-- For every sequence of moves, releases and destructions that ends with all objects destroyed. -/
theorem firesOnce_iff (leave : F → F) (f : F) {chain : Chain F}
    (ran : Lib.exec (Chain.step leave) (Chain.start f) ops = some chain) (gone : chain.Gone) :
    FiresOnce f ops chain ↔ Settled ops := by
  have tracks := tracks_of_exec ran
  cases released : (ownership ops).released with
  | false =>
      simp only [FiresOnce, released, Bool.false_eq_true, if_false,
        tracks.calls_eq_singleton_iff gone released, ← tracks.objects]
      constructor
      · intro others
        exact ⟨others, by simp [released]⟩
      · intro settled
        exact settled.others
  | true =>
      simp only [FiresOnce, released, if_true, tracks.calls_eq_nil_iff gone, ← tracks.objects]
      constructor
      · intro touched
        refine ⟨fun object inside _ => touched object inside, fun _ => ?_⟩
        have ownerInside := tracks.objects.symm ▸ tracks.ownerInside
        exact (touched _ ownerInside).resolve_left tracks.unmoved
      · intro settled object inside
        by_cases isOwner : object = (ownership ops).owner
        · exact .inr (isOwner ▸ settled.last released)
        · exact settled.others object inside isOwner

/-- A guard is moved, and the new guard is released. -/
theorem firesOnce_releaseAfterMove :
    FiresOnce () [.move 0, .release 1, .destroy 1, .destroy 0]
        [.destroyed none, .destroyed none] ↔
      Settled [.move 0, .release 1, .destroy 1, .destroy 0] :=
  firesOnce_iff id () rfl (by simp [Chain.Gone])

/-- A guard is released, and then moved: the new guard calls the function. -/
theorem firesOnce_fails_moveAfterRelease :
    ¬ ∀ (ops : List Op) (chain : Chain Unit),
      Lib.exec (Chain.step id) (Chain.start ()) ops = some chain → chain.Gone →
        FiresOnce () ops chain := by
  intro firesOnce
  have rearmed := firesOnce [.release 0, .move 0, .destroy 1, .destroy 0]
    [.destroyed none, .destroyed (some ())] rfl (by simp [Chain.Gone])
  simp [FiresOnce, Chain.calls, ownership, Ownership.after] at rearmed

/-- Every move is a move from the owner. -/
def HandedOn (ops : List Op) : Prop :=
  ∀ before source after, ops = before ++ .move source :: after → source = (ownership before).owner

theorem HandedOn.others (handedOn : HandedOn ops) :
    ∀ object < (ownership ops).objects, object ≠ (ownership ops).owner → Touched ops object := by
  induction ops using List.reverseRecOn with
  | nil =>
      intro object inside notOwner
      exact absurd (Nat.lt_one_iff.mp inside) notOwner
  | append_singleton ops op ih =>
      have earlier : HandedOn ops := by
        intro before source after split
        exact handedOn before source (after ++ [op]) (by simp [split])
      intro object inside notOwner
      rw [touched_append_singleton]
      cases op with
      | move source =>
          have isOwner := handedOn ops source [] rfl
          simp only [ownership_append_singleton, Ownership.after, isOwner, if_true]
            at inside notOwner
          by_cases wasOwner : object = (ownership ops).owner
          · exact .inr (.inl (by rw [isOwner, wasOwner]))
          · exact .inl (ih earlier object (by omega) wasOwner)
      | release target =>
          simp only [ownership_append_singleton, Ownership.after] at inside notOwner
          exact .inl (ih earlier object inside notOwner)
      | destroy target =>
          simp only [ownership_append_singleton, Ownership.after] at inside notOwner
          exact .inl (ih earlier object inside notOwner)

/-- In a chain in which every guard is made from the owner, only the last owner matters. -/
theorem HandedOn.settled_iff (handedOn : HandedOn ops) :
    Settled ops ↔
      ((ownership ops).released = true → .release (ownership ops).owner ∈ ops) :=
  ⟨fun settled => settled.last, fun last => ⟨handedOn.others, last⟩⟩

/-- The function is called as it ought to be if no owner is moved from after its release. -/
theorem HandedOn.settled (handedOn : HandedOn ops)
    (unreleased : ∀ before source after, ops = before ++ .move source :: after →
      (ownership before).released = false) : Settled ops := by
  rw [handedOn.settled_iff]
  clear handedOn
  induction ops using List.reverseRecOn with
  | nil => simp
  | append_singleton ops op ih =>
      have earlier := ih fun before source after split =>
        unreleased before source (after ++ [op]) (by simp [split])
      intro released
      cases op with
      | move source =>
          have held := unreleased ops source [] rfl
          simp [Ownership.after, held] at released
      | release target =>
          simp only [ownership_append_singleton, Ownership.after, Bool.or_eq_true,
            beq_iff_eq] at released ⊢
          rcases released with before | isOwner
          · exact List.mem_append_left _ (earlier before)
          · simp [isOwner]
      | destroy target =>
          simp only [ownership_append_singleton, Ownership.after] at released ⊢
          exact List.mem_append_left _ (earlier released)

/-- A guard that is never moved. -/
theorem settled_of_unmoved (unmoved : ∀ source, .move source ∉ ops) : Settled ops := by
  have noMove : ∀ before source after, ops ≠ before ++ .move source :: after := by
    rintro before source after rfl
    exact unmoved source (by simp)
  apply HandedOn.settled
  · intro before source after split
    exact absurd split (noMove before source after)
  · intro before source after split
    exact absurd split (noMove before source after)

end Chains

end ScopeExit

end Pain
