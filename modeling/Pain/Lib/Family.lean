import Pain.Lib.Run

/-!
# Independent components

A family of components of one kind, each with a state of its own, where an event
names the component it is for. Whatever the order in which the events of
different components come, each component goes through exactly the run that its
own events make.
-/

namespace Pain.Lib

universe u v w

variable {Index : Type w} {State : Type u} {Event : Type v} [DecidableEq Index]

/-- The event changes the component it names, and no other one. -/
def familyStep (step : State → Event → Option State) (states : Index → State)
    (event : Index × Event) : Option (Index → State) :=
  (step (states event.1) event.2).map (Function.update states event.1)

/-- The events for one component, in their order. -/
def eventsOf (index : Index) (events : List (Index × Event)) : List Event :=
  (events.filter (fun event => event.1 = index)).map Prod.snd

@[simp]
theorem eventsOf_nil (index : Index) : eventsOf index ([] : List (Index × Event)) = [] := rfl

@[simp]
theorem eventsOf_cons_self (index : Index) (event : Event) (events : List (Index × Event)) :
    eventsOf index ((index, event) :: events) = event :: eventsOf index events := by
  simp [eventsOf]

theorem eventsOf_cons_of_ne {index other : Index} (different : other ≠ index) (event : Event)
    (events : List (Index × Event)) :
    eventsOf index ((other, event) :: events) = eventsOf index events := by
  simp [eventsOf, different]

variable {step : State → Event → Option State}

/-- The part of one component in a run of the family is its own run. -/
theorem exec_family {states final : Index → State} {events : List (Index × Event)}
    (ran : exec (familyStep step) states events = some final) (index : Index) :
    exec step (states index) (eventsOf index events) = some (final index) := by
  induction events generalizing states with
  | nil =>
      simp only [exec_nil, Option.some.injEq] at ran
      simp [ran]
  | cons event events ih =>
      rcases event with ⟨other, event⟩
      simp only [exec_cons, familyStep, Option.bind_map, Option.bind_eq_some_iff,
        Function.comp_apply] at ran
      rcases ran with ⟨next, stepped, rest⟩
      have later := ih rest
      by_cases same : other = index
      · subst same
        simp only [Function.update_self] at later
        simp [stepped, later]
      · rw [Function.update_of_ne (Ne.symm same)] at later
        rw [eventsOf_cons_of_ne same]
        exact later

/-- If no component aborts on its own, the family does not abort either. -/
theorem exec_family_total (Inv : State → Prop)
    (progress : ∀ state event, Inv state → ∃ next, step state event = some next ∧ Inv next)
    {states : Index → State} (holds : ∀ index, Inv (states index))
    (events : List (Index × Event)) :
    ∃ final, exec (familyStep step) states events = some final ∧ ∀ index, Inv (final index) := by
  have guarded : Guarded (familyStep step) (fun _ _ => True) states events :=
    guarded_of_forall_mem (fun _ _ => trivial)
  refine exec_total (fun states => ∀ index, Inv (states index)) ?_ holds guarded
  intro before event beforeHolds _
  rcases progress (before event.1) event.2 (beforeHolds event.1) with ⟨next, stepped, nextHolds⟩
  refine ⟨Function.update before event.1 next, by simp [familyStep, stepped], ?_⟩
  intro index
  by_cases same : index = event.1
  · rw [same, Function.update_self]
    exact nextHolds
  · rw [Function.update_of_ne same]
    exact beforeHolds index

end Pain.Lib
