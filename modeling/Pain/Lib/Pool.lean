import Pain.Lib.History

/-!
# A pool of handlers with locks

A pool is a state that handlers share, and a list of handlers, which grows as
requests arrive. In a step one handler moves on together with the shared state,
or the shared state changes on its own.

Some parts of the shared state are protected by locks. A `Discipline` says that
a handler takes only a lock that is free, that no step changes what another
handler has locked, and how the shared state may develop. Under a discipline no
two handlers hold one lock, and an assertion about a single handler can be
proved from its own steps, if the development of the shared state and of what it
has not locked itself leaves it true.
-/

namespace Pain.Lib

universe u v w x y z

variable {Shared : Type u} {Member : Type v} {Request : Type w} {Input : Type x} {Env : Type y}
  {Key : Type z}

/-- The shared state and the handlers, in the order in which their requests arrived. -/
structure Pool (Shared : Type u) (Member : Type v) where
  shared : Shared
  members : List Member
deriving DecidableEq

/-- What a handler starts with, its steps, and the steps of the shared state on its own. -/
structure PoolProgram (Shared : Type u) (Member : Type v) (Request : Type w) (Input : Type x)
    (Env : Type y) where
  fresh : Request → Member
  handle : Input → Shared → Member → Option (Shared × Member)
  outside : Env → Shared → Option Shared

/-- A request arrives, a handler moves on, or the shared state does. -/
inductive PoolEvent (Request : Type w) (Input : Type x) (Env : Type y) where
  | arrive (request : Request)
  | advance (index : ℕ) (input : Input)
  | outside (env : Env)
deriving DecidableEq

namespace Pool

/-- One step of a pool. -/
def step (program : PoolProgram Shared Member Request Input Env) (pool : Pool Shared Member) :
    PoolEvent Request Input Env → Option (Pool Shared Member)
  | .arrive request => some { pool with members := pool.members ++ [program.fresh request] }
  | .advance index input =>
      match pool.members[index]? with
      | none => some pool
      | some member =>
          (program.handle input pool.shared member).map
            (fun (shared, member) => ⟨shared, pool.members.set index member⟩)
  | .outside env =>
      (program.outside env pool.shared).map (fun shared => { pool with shared := shared })

/-- Which locks a handler holds, which are taken, and when what a lock protects is unchanged. -/
structure Locking (Shared : Type u) (Member : Type v) (Key : Type z) where
  holds : Member → Key → Prop
  taken : Shared → Key → Prop
  same : Key → Shared → Shared → Prop

/-- What a step of one handler, or of the shared state on its own, has to respect. -/
structure Discipline (program : PoolProgram Shared Member Request Input Env)
    (locking : Locking Shared Member Key) (Inv : Shared → Prop) (allowed : Member → Prop)
    (develops : Shared → Shared → Prop) : Prop where
  refl : ∀ shared, develops shared shared
  same_refl : ∀ key shared, locking.same key shared shared
  fresh : ∀ request key, ¬locking.holds (program.fresh request) key
  taken_of_same : ∀ {key shared next}, locking.same key shared next → locking.taken shared key →
    locking.taken next key
  handle : ∀ {input shared member next after}, Inv shared → allowed member →
    (∀ key, locking.holds member key → locking.taken shared key) →
    program.handle input shared member = some (next, after) →
      Inv next ∧ allowed after ∧ develops shared next ∧
        (∀ key, locking.holds after key →
          locking.taken next key ∧ (locking.holds member key ∨ ¬locking.taken shared key)) ∧
        ∀ key, locking.taken shared key → ¬locking.holds member key → locking.same key shared next
  outside : ∀ {env shared next}, Inv shared → program.outside env shared = some next →
    Inv next ∧ develops shared next ∧
      ∀ key, locking.taken shared key → locking.same key shared next

/-- The locks that handlers hold are taken, and no lock is held twice. -/
structure Orderly (locking : Locking Shared Member Key) (Inv : Shared → Prop)
    (allowed : Member → Prop) (pool : Pool Shared Member) : Prop where
  shared : Inv pool.shared
  allowed : ∀ member ∈ pool.members, allowed member
  taken : ∀ member ∈ pool.members, ∀ key, locking.holds member key →
    locking.taken pool.shared key
  alone : ∀ (left right : ℕ) (leftMember rightMember : Member) (key : Key),
    pool.members[left]? = some leftMember → pool.members[right]? = some rightMember →
      locking.holds leftMember key → locking.holds rightMember key → left = right

/-- Only requests arrive whose handlers are allowed. -/
def Admits (program : PoolProgram Shared Member Request Input Env) (allowed : Member → Prop)
    (event : PoolEvent Request Input Env) : Prop :=
  ∀ request, event = .arrive request → allowed (program.fresh request)

theorem orderly_empty {locking : Locking Shared Member Key} {Inv : Shared → Prop}
    {allowed : Member → Prop} {shared : Shared} (holds : Inv shared) :
    Orderly locking Inv allowed ⟨shared, []⟩ where
  shared := holds
  allowed := by simp
  taken := by simp
  alone := by simp

section Steps

variable {program : PoolProgram Shared Member Request Input Env}
  {locking : Locking Shared Member Key} {Inv : Shared → Prop} {allowed : Member → Prop}
  {develops : Shared → Shared → Prop} {pool next : Pool Shared Member}
  {event : PoolEvent Request Input Env}

/-- What one step does to a handler that is there: it is the one that moves on, or it stays and
what it has locked is unchanged. -/
inductive Followed (program : PoolProgram Shared Member Request Input Env)
    (locking : Locking Shared Member Key) (shared next : Shared) (member : Member) :
    Member → Prop where
  | moved {input : Input} {after : Member}
      (handled : program.handle input shared member = some (next, after)) :
      Followed program locking shared next member after
  | stayed (same : ∀ key, locking.holds member key → locking.same key shared next) :
      Followed program locking shared next member member

/-- What one step does to the pool. -/
structure Stepped (program : PoolProgram Shared Member Request Input Env)
    (locking : Locking Shared Member Key) (Inv : Shared → Prop) (allowed : Member → Prop)
    (develops : Shared → Shared → Prop) (pool next : Pool Shared Member) : Prop where
  orderly : Orderly locking Inv allowed next
  develops : develops pool.shared next.shared
  length : pool.members.length ≤ next.members.length
  members : ∀ (index : ℕ) (after : Member), next.members[index]? = some after →
    (pool.members.length ≤ index ∧ next.shared = pool.shared ∧
        ∃ request, after = program.fresh request) ∨
      ∃ member, pool.members[index]? = some member ∧
        Followed program locking pool.shared next.shared member after

/-- The step lemma of a discipline. -/
theorem Discipline.stepped (discipline : Discipline program locking Inv allowed develops)
    (orderly : Orderly locking Inv allowed pool) (admits : Admits program allowed event)
    (took : step program pool event = some next) :
    Stepped program locking Inv allowed develops pool next := by
  have unmoved : ∀ (index : ℕ) (after : Member), pool.members[index]? = some after →
      ∃ member, pool.members[index]? = some member ∧
        Followed program locking pool.shared pool.shared member after :=
    fun _ after found => ⟨after, found, .stayed fun key _ => discipline.same_refl key _⟩
  cases event with
  | arrive request =>
      simp only [step, Option.some.injEq] at took
      subst took
      have cases : ∀ (index : ℕ) (after : Member),
          (pool.members ++ [program.fresh request])[index]? = some after →
            pool.members[index]? = some after ∨
              index = pool.members.length ∧ after = program.fresh request := by
        intro index after found
        rcases lt_or_ge index pool.members.length with old | new
        · rw [List.getElem?_append_left old] at found
          exact .inl found
        · have inside := (List.getElem?_eq_some_iff.mp found).1
          simp only [List.length_append, List.length_singleton] at inside
          have last : index = pool.members.length := by omega
          subst last
          simp only [List.getElem?_concat_length, Option.some.injEq] at found
          exact .inr ⟨rfl, found.symm⟩
      refine ⟨⟨orderly.shared, ?_, ?_, ?_⟩, discipline.refl _, by simp, ?_⟩
      · intro member memberMem
        rcases List.mem_append.mp memberMem with old | new
        · exact orderly.allowed member old
        · rw [List.mem_singleton.mp new]
          exact admits request rfl
      · intro member memberMem key held
        rcases List.mem_append.mp memberMem with old | new
        · exact orderly.taken member old key held
        · rw [List.mem_singleton.mp new] at held
          exact absurd held (discipline.fresh request key)
      · intro left right leftMember rightMember key leftAt rightAt leftHolds rightHolds
        rcases cases left leftMember leftAt with leftOld | ⟨-, rfl⟩
        · rcases cases right rightMember rightAt with rightOld | ⟨-, rfl⟩
          · exact orderly.alone left right leftMember rightMember key leftOld rightOld leftHolds
              rightHolds
          · exact absurd rightHolds (discipline.fresh request key)
        · exact absurd leftHolds (discipline.fresh request key)
      · intro index after found
        rcases cases index after found with old | ⟨last, rfl⟩
        · exact .inr (unmoved index after old)
        · exact .inl ⟨last.ge, rfl, request, rfl⟩
  | outside env =>
      simp only [step, Option.map_eq_some_iff] at took
      rcases took with ⟨shared, ran, rfl⟩
      rcases discipline.outside orderly.shared ran with ⟨holds, developed, kept⟩
      refine ⟨⟨holds, orderly.allowed, ?_, orderly.alone⟩, developed, le_rfl, ?_⟩
      · intro member memberMem key held
        have taken := orderly.taken member memberMem key held
        exact discipline.taken_of_same (kept key taken) taken
      · intro index after found
        refine .inr ⟨after, found, .stayed ?_⟩
        exact fun key held =>
          kept key (orderly.taken after (List.mem_of_getElem? found) key held)
  | advance mover input =>
      simp only [step] at took
      cases present : pool.members[mover]? with
      | none =>
          simp only [present, Option.some.injEq] at took
          subst took
          exact ⟨orderly, discipline.refl _, le_rfl,
            fun index after found => .inr (unmoved index after found)⟩
      | some member =>
          simp only [present, Option.map_eq_some_iff] at took
          rcases took with ⟨⟨shared, moved⟩, handled, rfl⟩
          have memberMem := List.mem_of_getElem? present
          rcases discipline.handle orderly.shared (orderly.allowed member memberMem)
              (orderly.taken member memberMem) handled with
            ⟨holds, movedAllowed, developed, entered, kept⟩
          have undisturbed : ∀ (index : ℕ) (other : Member), mover ≠ index →
              pool.members[index]? = some other → ∀ key, locking.holds other key →
                locking.same key pool.shared shared := by
            intro index other different found key held
            apply kept key (orderly.taken other (List.mem_of_getElem? found) key held)
            intro alsoHeld
            exact different
              (orderly.alone mover index member other key present found alsoHeld held)
          have newcomer : ∀ (index : ℕ) (other : Member) (key : Key), mover ≠ index →
              pool.members[index]? = some other → locking.holds other key →
                ¬locking.holds moved key := by
            intro index other key different found held movedHolds
            rcases (entered key movedHolds).2 with already | free
            · exact different
                (orderly.alone mover index member other key present found already held)
            · exact free (orderly.taken other (List.mem_of_getElem? found) key held)
          refine ⟨⟨holds, ?_, ?_, ?_⟩, developed, by simp, ?_⟩
          · intro other otherMem
            rcases List.mem_or_eq_of_mem_set otherMem with old | rfl
            · exact orderly.allowed other old
            · exact movedAllowed
          · intro other otherMem key held
            rcases List.getElem?_of_mem otherMem with ⟨index, found⟩
            rcases getElem?_set_cases found with ⟨-, rfl⟩ | ⟨different, old⟩
            · exact (entered key held).1
            · exact discipline.taken_of_same (undisturbed index other different old key held)
                (orderly.taken other (List.mem_of_getElem? old) key held)
          · intro left right leftMember rightMember key leftAt rightAt leftHolds rightHolds
            rcases getElem?_set_cases leftAt with ⟨sameLeft, rfl⟩ | ⟨leftOther, leftOld⟩
            · rcases getElem?_set_cases rightAt with ⟨sameRight, -⟩ | ⟨rightOther, rightOld⟩
              · exact sameLeft.symm.trans sameRight
              · exact absurd leftHolds
                  (newcomer right rightMember key rightOther rightOld rightHolds)
            · rcases getElem?_set_cases rightAt with ⟨sameRight, rfl⟩ | ⟨rightOther, rightOld⟩
              · exact absurd rightHolds (newcomer left leftMember key leftOther leftOld leftHolds)
              · exact orderly.alone left right leftMember rightMember key leftOld rightOld leftHolds
                  rightHolds
          · intro index after found
            rcases getElem?_set_cases found with ⟨rfl, rfl⟩ | ⟨different, old⟩
            · exact .inr ⟨member, present, .moved handled⟩
            · exact .inr ⟨after, old, .stayed (undisturbed index after different old)⟩

/-- If no handler aborts and the shared state does not, then no run of the pool aborts. -/
theorem Discipline.exec_total (discipline : Discipline program locking Inv allowed develops)
    (handles : ∀ input shared member, Inv shared → ∃ result,
      program.handle input shared member = some result)
    (outsides : ∀ env shared, Inv shared → ∃ result, program.outside env shared = some result)
    (orderly : Orderly locking Inv allowed pool) {events : List (PoolEvent Request Input Env)}
    (admits : ∀ event ∈ events, Admits program allowed event) :
    ∃ final, exec (step program) pool events = some final ∧
      Orderly locking Inv allowed final := by
  refine Lib.exec_total (Orderly locking Inv allowed) ?_ orderly (guarded_of_forall_mem admits)
  intro before event beforeOrderly eventAdmits
  have progress : ∃ next, step program before event = some next := by
    cases event with
    | arrive request => exact ⟨_, rfl⟩
    | outside env =>
        rcases outsides env before.shared beforeOrderly.shared with ⟨result, ran⟩
        simp only [step, ran, Option.map_some]
        exact ⟨_, rfl⟩
    | advance index input =>
        simp only [step]
        cases before.members[index]? with
        | none => exact ⟨before, rfl⟩
        | some member =>
            rcases handles input before.shared member beforeOrderly.shared with ⟨result, ran⟩
            simp only [ran, Option.map_some]
            exact ⟨_, rfl⟩
  rcases progress with ⟨next, took⟩
  exact ⟨next, took, (discipline.stepped beforeOrderly eventAdmits took).orderly⟩

/-- An assertion about a single handler, in the presence of a fact about the shared state. -/
structure Asserts (program : PoolProgram Shared Member Request Input Env)
    (locking : Locking Shared Member Key) (Inv : Shared → Prop)
    (develops : Shared → Shared → Prop) (fact : Shared → Prop)
    (assertion : Shared → Member → Prop) : Prop where
  stable : ∀ {shared next}, Inv shared → Inv next → develops shared next → fact shared → fact next
  fresh : ∀ {shared} request, Inv shared → fact shared → assertion shared (program.fresh request)
  own : ∀ {input shared member next after}, Inv shared → Inv next → develops shared next →
    fact shared → assertion shared member →
      program.handle input shared member = some (next, after) → assertion next after
  others : ∀ {shared next member}, Inv shared → Inv next → develops shared next → fact shared →
    (∀ key, locking.holds member key → locking.same key shared next) →
      assertion shared member → assertion next member

/-- The rule of assertions: they hold of all handlers from a position on, at the end of every run
that starts where the fact is true and the handlers that are there meet the assertion. -/
theorem Discipline.exec_asserts (discipline : Discipline program locking Inv allowed develops)
    {fact : Shared → Prop} {assertion : Shared → Member → Prop}
    (asserts : Asserts program locking Inv develops fact assertion)
    (orderly : Orderly locking Inv allowed pool) (holds : fact pool.shared) {first : ℕ}
    (met : ∀ (index : ℕ) (member : Member), first ≤ index →
      pool.members[index]? = some member → assertion pool.shared member)
    {events : List (PoolEvent Request Input Env)}
    (admits : ∀ event ∈ events, Admits program allowed event) {final : Pool Shared Member}
    (ran : exec (step program) pool events = some final) :
    Orderly locking Inv allowed final ∧ fact final.shared ∧
      ∀ (index : ℕ) (member : Member), first ≤ index → final.members[index]? = some member →
        assertion final.shared member := by
  refine exec_preserves
    (fun later => Orderly locking Inv allowed later ∧ fact later.shared ∧
      ∀ (index : ℕ) (member : Member), first ≤ index → later.members[index]? = some member →
        assertion later.shared member)
    ?_ ⟨orderly, holds, met⟩ (guarded_of_forall_mem admits) ran
  rintro before event after ⟨beforeOrderly, beforeHolds, beforeMet⟩ eventAdmits took
  have stepped := discipline.stepped beforeOrderly eventAdmits took
  have inv := beforeOrderly.shared
  have invAfter := stepped.orderly.shared
  refine ⟨stepped.orderly, asserts.stable inv invAfter stepped.develops beforeHolds, ?_⟩
  intro index member inRange found
  rcases stepped.members index member found with
    ⟨-, same, request, rfl⟩ | ⟨earlier, earlierAt, followed⟩
  · rw [same]
    exact asserts.fresh request inv beforeHolds
  · have metBefore := beforeMet index earlier inRange earlierAt
    cases followed with
    | moved handled => exact asserts.own inv invAfter stepped.develops beforeHolds metBefore handled
    | stayed same => exact asserts.others inv invAfter stepped.develops beforeHolds same metBefore

end Steps

end Pool

end Pain.Lib
