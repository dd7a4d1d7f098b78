import Pain.Lib.Run

/-!
# Two systems that answer alike

The transcript of a run is what a client observes of it, event by event. Where
two systems are related, and one step of both keeps them related and is answered
alike, their transcripts agree.
-/

namespace Pain.Lib

universe u v w

variable {State Other : Type u} {Event : Type v} {Answer : Type w}

/-- The answers to the events of a run, up to the one that aborts it. -/
def transcript (step : State → Event → Option State) (answer : State → Event → Answer) :
    State → List Event → List Answer
  | _, [] => []
  | state, event :: events =>
      answer state event ::
        match step state event with
        | none => []
        | some next => transcript step answer next events

variable {step : State → Event → Option State} {answer : State → Event → Answer}
  {otherStep : Other → Event → Option Other} {otherAnswer : Other → Event → Answer}

/-- If related systems answer alike and stay related, over every guarded step, then they answer
alike over every guarded run. -/
theorem transcript_agrees {guard : State → Event → Prop} (Rel : State → Other → List Event → Prop)
    (agree : Answer → Answer → Prop)
    (simulates : ∀ {state other event events}, Rel state other (event :: events) →
      guard state event → agree (answer state event) (otherAnswer other event) ∧
        ∃ next otherNext, step state event = some next ∧
          otherStep other event = some otherNext ∧ Rel next otherNext events)
    {state : State} {other : Other} {events : List Event} (related : Rel state other events)
    (guarded : Guarded step guard state events) :
    List.Forall₂ agree (transcript step answer state events)
      (transcript otherStep otherAnswer other events) := by
  induction events generalizing state other with
  | nil => exact .nil
  | cons event events ih =>
      rcases simulates related guarded.1 with ⟨agrees, next, otherNext, stepped, followed, kept⟩
      simp only [transcript, stepped, followed]
      exact .cons agrees (ih kept (guarded.2 next stepped))

end Pain.Lib
