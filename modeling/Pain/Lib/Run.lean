import Mathlib

/-!
# Runs of a partial step function

A system is a step function from a state and an event to the next state, where
`none` means that the step aborts. This file gives the runs of such a system
and the two rules by which a property of every state of a run is proved: what
one step preserves, every run preserves, and a system in which no step from an
invariant state aborts never aborts.

`Guarded` is the hypothesis that every event of a run meets a condition on the
event and on the state it is taken in. `Throughout` says that every state of a
run has a property; where a step keeps the property exactly if it meets the
condition, the two say the same.
-/

namespace Pain.Lib

universe u v

variable {State : Type u} {Event : Type v}

/-- The state reached by taking `events` in order, unless a step aborts. -/
def exec (step : State → Event → Option State) (state : State) (events : List Event) :
    Option State :=
  events.foldlM step state

section Exec

variable {step : State → Event → Option State}

@[simp]
theorem exec_nil (state : State) : exec step state [] = some state := rfl

@[simp]
theorem exec_cons (state : State) (event : Event) (events : List Event) :
    exec step state (event :: events) =
      (step state event).bind (fun next => exec step next events) := by
  simp only [exec, List.foldlM_cons]
  rfl

theorem exec_append (state : State) (first second : List Event) :
    exec step state (first ++ second) =
      (exec step state first).bind (fun middle => exec step middle second) := by
  simp only [exec, List.foldlM_append]
  rfl

end Exec

/-- Every event of the run meets `guard` in the state in which it is taken. -/
def Guarded (step : State → Event → Option State) (guard : State → Event → Prop) :
    State → List Event → Prop
  | _, [] => True
  | state, event :: events =>
      guard state event ∧ ∀ next, step state event = some next → Guarded step guard next events

/-- Every state of the run, the first and the last included, satisfies `holds`. -/
def Throughout (step : State → Event → Option State) (holds : State → Prop) :
    State → List Event → Prop
  | state, [] => holds state
  | state, event :: events =>
      holds state ∧ ∀ next, step state event = some next → Throughout step holds next events

theorem Throughout.here {step : State → Event → Option State} {holds : State → Prop}
    {state : State} {events : List Event} (throughout : Throughout step holds state events) :
    holds state := by
  cases events with
  | nil => exact throughout
  | cons event events => exact throughout.1

theorem Throughout.mono {step : State → Event → Option State} {holds weaker : State → Prop}
    (implies : ∀ {state}, holds state → weaker state) {state : State} {events : List Event}
    (throughout : Throughout step holds state events) : Throughout step weaker state events := by
  induction events generalizing state with
  | nil => exact implies throughout
  | cons event events ih =>
      exact ⟨implies throughout.1, fun next stepped => ih (throughout.2 next stepped)⟩

theorem Throughout.last {step : State → Event → Option State} {holds : State → Prop}
    {state final : State} {events : List Event} (throughout : Throughout step holds state events)
    (ran : exec step state events = some final) : holds final := by
  induction events generalizing state with
  | nil =>
      simp only [exec_nil, Option.some.injEq] at ran
      exact ran ▸ throughout
  | cons event events ih =>
      simp only [exec_cons, Option.bind_eq_some_iff] at ran
      rcases ran with ⟨next, stepped, rest⟩
      exact ih (throughout.2 next stepped) rest

section Invariants

variable {step : State → Event → Option State} {guard : State → Event → Prop}

theorem guarded_cons {state next : State} {event : Event} {events : List Event}
    (here : guard state event) (stepped : step state event = some next)
    (rest : Guarded step guard next events) : Guarded step guard state (event :: events) := by
  refine ⟨here, ?_⟩
  intro other steppedTo
  simp only [stepped, Option.some.injEq] at steppedTo
  exact steppedTo ▸ rest

theorem Guarded.split {state middle : State} {first second : List Event}
    (guarded : Guarded step guard state (first ++ second))
    (ran : exec step state first = some middle) :
    Guarded step guard state first ∧ Guarded step guard middle second := by
  induction first generalizing state with
  | nil =>
      simp only [exec_nil, Option.some.injEq] at ran
      subst ran
      exact ⟨trivial, guarded⟩
  | cons event first ih =>
      simp only [exec_cons, Option.bind_eq_some_iff] at ran
      rcases ran with ⟨next, stepped, ranRest⟩
      rcases ih (guarded.2 next stepped) ranRest with ⟨front, back⟩
      exact ⟨guarded_cons guarded.1 stepped front, back⟩

theorem guarded_of_forall_mem {allowed : Event → Prop} {state : State} {events : List Event}
    (all : ∀ event ∈ events, allowed event) :
    Guarded step (fun _ event => allowed event) state events := by
  induction events generalizing state with
  | nil => trivial
  | cons event events ih =>
      refine ⟨all event (by simp), ?_⟩
      intro next _
      exact ih (fun later laterMem => all later (by simp [laterMem]))

theorem guarded_of_split {state : State} {events : List Event}
    (each : ∀ before event after middle, events = before ++ event :: after →
      exec step state before = some middle → guard middle event) :
    Guarded step guard state events := by
  induction events generalizing state with
  | nil => trivial
  | cons event events ih =>
      refine ⟨each [] event events state rfl rfl, ?_⟩
      intro next stepped
      apply ih
      intro before later after middle split ran
      exact each (event :: before) later after middle (by simp [split]) (by simp [stepped, ran])

theorem guarded_and_iff {other : State → Event → Prop} {state : State} {events : List Event} :
    Guarded step (fun state event => guard state event ∧ other state event) state events ↔
      Guarded step guard state events ∧ Guarded step other state events := by
  induction events generalizing state with
  | nil => simp [Guarded]
  | cons event events ih =>
      simp only [Guarded, ih]
      constructor
      · rintro ⟨⟨first, second⟩, rest⟩
        exact ⟨⟨first, fun next stepped => (rest next stepped).1⟩,
          second, fun next stepped => (rest next stepped).2⟩
      · rintro ⟨⟨first, firstRest⟩, second, secondRest⟩
        exact ⟨⟨first, second⟩,
          fun next stepped => ⟨firstRest next stepped, secondRest next stepped⟩⟩

theorem guarded_congr {other : State → Event → Prop}
    (same : ∀ state event, guard state event ↔ other state event) (state : State)
    (events : List Event) : Guarded step guard state events ↔ Guarded step other state events := by
  have equal : guard = other := by
    funext state event
    exact propext (same state event)
  simp only [equal]

/-- What one guarded step preserves, a guarded run preserves. -/
theorem exec_preserves (Inv : State → Prop)
    (preserved : ∀ {state event next}, Inv state → guard state event →
      step state event = some next → Inv next)
    {state final : State} {events : List Event} (holds : Inv state)
    (guarded : Guarded step guard state events) (ran : exec step state events = some final) :
    Inv final := by
  induction events generalizing state with
  | nil =>
      simp only [exec_nil, Option.some.injEq] at ran
      exact ran ▸ holds
  | cons event events ih =>
      simp only [exec_cons, Option.bind_eq_some_iff] at ran
      rcases ran with ⟨next, stepped, rest⟩
      exact ih (preserved holds guarded.1 stepped) (guarded.2 next stepped) rest

theorem throughout_of_guarded (Inv : State → Prop)
    (preserved : ∀ {state event next}, Inv state → guard state event →
      step state event = some next → Inv next)
    {state : State} {events : List Event} (holds : Inv state)
    (guarded : Guarded step guard state events) : Throughout step Inv state events := by
  induction events generalizing state with
  | nil => exact holds
  | cons event events ih =>
      refine ⟨holds, ?_⟩
      intro next stepped
      exact ih (preserved holds guarded.1 stepped) (guarded.2 next stepped)

theorem exec_invariant (Inv : State → Prop)
    (preserved : ∀ {state event next}, Inv state → step state event = some next → Inv next)
    {state final : State} {events : List Event} (holds : Inv state)
    (ran : exec step state events = some final) : Inv final := by
  have allowed : Guarded step (fun _ _ => True) state events :=
    guarded_of_forall_mem (fun _ _ => trivial)
  exact exec_preserves Inv (fun stateHolds _ stepped => preserved stateHolds stepped) holds
    allowed ran

/-- The invariant rule for a system in which a step lemma gives the next state. -/
theorem exec_invariant_of_progress (Inv : State → Prop)
    (progress : ∀ {state event}, Inv state → ∃ next, step state event = some next ∧ Inv next)
    {state final : State} {events : List Event} (holds : Inv state)
    (ran : exec step state events = some final) : Inv final := by
  refine exec_invariant Inv ?_ holds ran
  intro before event after stateHolds stepped
  rcases progress stateHolds with ⟨next, steppedTo, nextHolds⟩
  rw [stepped, Option.some.injEq] at steppedTo
  exact steppedTo ▸ nextHolds

/-- If no guarded step from an invariant state aborts, no guarded run aborts. -/
theorem exec_total (Inv : State → Prop)
    (progress : ∀ {state event}, Inv state → guard state event →
      ∃ next, step state event = some next ∧ Inv next)
    {state : State} {events : List Event} (holds : Inv state)
    (guarded : Guarded step guard state events) :
    ∃ final, exec step state events = some final ∧ Inv final := by
  induction events generalizing state with
  | nil => exact ⟨state, rfl, holds⟩
  | cons event events ih =>
      rcases progress holds guarded.1 with ⟨next, stepped, nextHolds⟩
      rcases ih nextHolds (guarded.2 next stepped) with ⟨final, ran, finalHolds⟩
      exact ⟨final, by rw [exec_cons, stepped]; exact ran, finalHolds⟩

/-- If each step of an invariant state that is known to be admissible keeps `holds` exactly when it
meets `guard`, then all states of an admissible run satisfy `holds` exactly when all its steps meet
`guard`. -/
theorem throughout_iff_of_guarded (Inv holds : State → Prop) {known : State → Event → Prop}
    (progress : ∀ {state event}, Inv state → known state event → holds state →
      ∃ next, step state event = some next ∧ Inv next ∧ (holds next ↔ guard state event))
    {state : State} {events : List Event} (invariant : Inv state) (start : holds state)
    (admissible : Guarded step known state events) :
    Throughout step holds state events ↔ Guarded step guard state events := by
  induction events generalizing state with
  | nil => exact ⟨fun _ => trivial, fun _ => start⟩
  | cons event events ih =>
      rcases progress invariant admissible.1 start with ⟨next, stepped, nextInvariant, kept⟩
      have later := fun nextHolds => ih nextInvariant nextHolds (admissible.2 next stepped)
      constructor
      · rintro ⟨-, rest⟩
        have throughout := rest next stepped
        exact guarded_cons (kept.mp throughout.here) stepped
          ((later throughout.here).mp throughout)
      · rintro ⟨here, rest⟩
        refine ⟨start, ?_⟩
        intro other steppedTo
        simp only [stepped, Option.some.injEq] at steppedTo
        subst steppedTo
        exact (later (kept.mpr here)).mpr (rest next stepped)

theorem throughout_iff_guarded (Inv holds : State → Prop) {allowed : Event → Prop}
    (progress : ∀ {state event}, Inv state → allowed event → holds state →
      ∃ next, step state event = some next ∧ Inv next ∧ (holds next ↔ guard state event))
    {state : State} {events : List Event} (invariant : Inv state) (start : holds state)
    (all : ∀ event ∈ events, allowed event) :
    Throughout step holds state events ↔ Guarded step guard state events :=
  throughout_iff_of_guarded Inv holds progress invariant start (guarded_of_forall_mem all)

/-- If the state after each step satisfies `holds` exactly when the state before it did and the step
meets `guard`, then the last state of a run does exactly when the first did and all steps meet
`guard`. -/
theorem exec_iff_guarded (holds : State → Prop)
    (stepwise : ∀ {state event next}, step state event = some next →
      (holds next ↔ holds state ∧ guard state event))
    {state final : State} {events : List Event} (ran : exec step state events = some final) :
    holds final ↔ holds state ∧ Guarded step guard state events := by
  induction events generalizing state with
  | nil =>
      simp only [exec_nil, Option.some.injEq] at ran
      simp [ran, Guarded]
  | cons event events ih =>
      simp only [exec_cons, Option.bind_eq_some_iff] at ran
      rcases ran with ⟨next, stepped, rest⟩
      simp only [ih rest, stepwise stepped, Guarded, stepped, Option.some.injEq, forall_eq',
        and_assoc]

/-- Two conditions that agree in the invariant states of an admissible run hold of the same
admissible runs. -/
theorem guarded_iff_of_guarded {other known : State → Event → Prop} (Inv : State → Prop)
    (agree : ∀ {state event}, Inv state → (guard state event ↔ other state event))
    (kept : ∀ {state event next}, Inv state → known state event → other state event →
      step state event = some next → Inv next)
    {state : State} {events : List Event} (holds : Inv state)
    (admissible : Guarded step known state events) :
    Guarded step guard state events ↔ Guarded step other state events := by
  induction events generalizing state with
  | nil => exact Iff.rfl
  | cons event events ih =>
      simp only [Guarded, agree holds]
      apply and_congr_right
      intro here
      apply forall_congr'
      intro next
      apply imp_congr_right
      intro stepped
      exact ih (kept holds admissible.1 here stepped) (admissible.2 next stepped)

theorem guarded_iff_of_invariant {other : State → Event → Prop} (Inv : State → Prop)
    (agree : ∀ {state event}, Inv state → (guard state event ↔ other state event))
    (kept : ∀ {state event next}, Inv state → other state event →
      step state event = some next → Inv next)
    {state : State} {events : List Event} (holds : Inv state) :
    Guarded step guard state events ↔ Guarded step other state events :=
  guarded_iff_of_guarded Inv agree (fun stateHolds _ here stepped => kept stateHolds here stepped)
    holds (guarded_of_forall_mem (fun _ _ => trivial) : Guarded step (fun _ _ => True) state events)

/-- Once a state of the run satisfies `holds`, the run stays in that state. -/
def Settles (step : State → Event → Option State) (holds : State → Prop) (start : State)
    (events : List Event) : Prop :=
  ∀ (before middle after : List Event) (state later : State), events = before ++ middle ++ after →
    exec step start before = some state → holds state → exec step state middle = some later →
      later = state

theorem Guarded.later_eq {holds : State → Prop} {state later : State} {events : List Event}
    (guarded : Guarded step
      (fun state event => holds state → ∀ next, step state event = some next → next = state)
      state events)
    (reached : holds state) (ran : exec step state events = some later) : later = state := by
  induction events with
  | nil =>
      simp only [exec_nil, Option.some.injEq] at ran
      exact ran.symm
  | cons event events ih =>
      simp only [exec_cons, Option.bind_eq_some_iff] at ran
      rcases ran with ⟨next, stepped, rest⟩
      have same := guarded.1 reached next stepped
      subst same
      exact ih (guarded.2 next stepped) rest

theorem settles_iff_guarded {holds : State → Prop} {start : State} {events : List Event} :
    Settles step holds start events ↔
      Guarded step
        (fun state event => holds state → ∀ next, step state event = some next → next = state)
        start events := by
  constructor
  · intro settles
    induction events generalizing start with
    | nil => trivial
    | cons event events ih =>
        refine ⟨?_, ?_⟩
        · intro reached next stepped
          refine settles [] [event] events start next rfl rfl reached ?_
          simp [stepped]
        · intro next stepped
          apply ih
          intro before middle after state later split ran
          refine settles (event :: before) middle after state later (by simp [split]) ?_
          simp [stepped, ran]
  · intro guarded before middle after state later split ran reached ranMiddle
    rw [split, List.append_assoc] at guarded
    have behind := (guarded.split ran).2
    exact (behind.split ranMiddle).1.later_eq reached ranMiddle

end Invariants

section Commuting

variable {Effect : Type v} {perform : State → Effect → State}

/-- Any two of the effects can be exchanged. -/
def Commuting (perform : State → Effect → State) (effects : List Effect) : Prop :=
  ∀ first ∈ effects, ∀ second ∈ effects, ∀ state,
    perform (perform state first) second = perform (perform state second) first

theorem Commuting.mono {part effects : List Effect} (commuting : Commuting perform effects)
    (included : part ⊆ effects) : Commuting perform part :=
  fun first firstMem second secondMem =>
    commuting first (included firstMem) second (included secondMem)

theorem Commuting.foldl_of_performed {front performed rest : List Effect}
    (commuting : Commuting perform (front ++ (performed ++ rest))) (state : State) :
    (front ++ rest).foldl perform (performed.foldl perform state) =
      (front ++ (performed ++ rest)).foldl perform state := by
  have moved : (front ++ (performed ++ rest)).Perm (performed ++ (front ++ rest)) := by
    simp only [← List.append_assoc]
    exact List.perm_append_comm.append_right rest
  simp only [moved.foldl_eq' commuting state, List.foldl_append]

theorem exists_perm_of_map_perm {Item : Type u} {Image : Type v} {f : Item → Image}
    {items : List Item} {order : List Image} (perm : order.Perm (items.map f)) :
    ∃ arranged : List Item, arranged.Perm items ∧ arranged.map f = order := by
  have images : List.Forall₂ (fun image item => image = f item) (items.map f) items := by
    simp [List.forall₂_map_left_iff, List.forall₂_same]
  rcases List.perm_comp_forall₂ perm images with ⟨arranged, related, arrangedPerm⟩
  refine ⟨arranged, arrangedPerm, ?_⟩
  have equal : List.Forall₂ Eq order (arranged.map f) := List.forall₂_map_right_iff.mpr related
  simp only [List.forall₂_eq_eq_eq] at equal
  exact equal.symm

end Commuting

end Pain.Lib
