import Pain.Lib.Run

/-!
# The past of a run

Some invariants speak of what has happened: what the steps of a run have put
out, in which order, and which operation a caller had at its place there. This
file gives the outputs of a run, the invariant rule for a state together with
the events that have led to it, and the replies of a sequential object that
performs the operations of an order one after another.
-/

namespace Pain.Lib

universe u v w x y

section Outputs

variable {State : Type u} {Event : Type v} {Item : Type w}

/-- What the steps of a run put out, up to the one that aborts. -/
def outputs (step : State → Event → Option State) (output : State → Event → Option Item) :
    State → List Event → List Item
  | _, [] => []
  | state, event :: events =>
      match step state event with
      | none => []
      | some next => (output state event).toList ++ outputs step output next events

variable {step : State → Event → Option State} {output : State → Event → Option Item}
  {state middle : State} {first second events : List Event}

theorem outputs_append (ran : exec step state first = some middle) :
    outputs step output state (first ++ second) =
      outputs step output state first ++ outputs step output middle second := by
  induction first generalizing state with
  | nil =>
      simp only [exec_nil, Option.some.injEq] at ran
      simp [ran, outputs]
  | cons event first ih =>
      simp only [exec_cons, Option.bind_eq_some_iff] at ran
      rcases ran with ⟨next, stepped, ranRest⟩
      simp only [List.cons_append, outputs, stepped, ih ranRest, List.append_assoc]

theorem outputs_snoc {event : Event} {next : State} (ran : exec step state events = some middle)
    (stepped : step middle event = some next) :
    outputs step output state (events ++ [event]) =
      outputs step output state events ++ (output middle event).toList := by
  simp only [outputs_append ran, outputs, stepped, List.append_nil]

/-- An invariant of the state and of the events that have led to it. -/
theorem exec_history (Inv : List Event → State → Prop) (start : Inv [] state)
    (preserved : ∀ {events middle event next}, exec step state events = some middle →
      Inv events middle → step middle event = some next → Inv (events ++ [event]) next)
    {final : State} (ran : exec step state events = some final) : Inv events final := by
  induction events using List.reverseRecOn generalizing final with
  | nil =>
      simp only [exec_nil, Option.some.injEq] at ran
      exact ran ▸ start
  | append_singleton events event ih =>
      simp only [exec_append, exec_cons, exec_nil, Option.bind_eq_some_iff,
        Option.some.injEq] at ran
      rcases ran with ⟨middle, ranBefore, next, stepped, rfl⟩
      exact preserved ranBefore (ih ranBefore) stepped

end Outputs

section Lists

variable {Source : Type u} {Image : Type v}

theorem getElem?_set_cases {sources : List Source} {index other : ℕ} {new found : Source}
    (foundAt : (sources.set index new)[other]? = some found) :
    index = other ∧ found = new ∨ index ≠ other ∧ sources[other]? = some found := by
  rw [List.getElem?_set] at foundAt
  split at foundAt
  · rename_i same
    split at foundAt
    · simp only [Option.some.injEq] at foundAt
      exact .inl ⟨same, foundAt.symm⟩
    · cases foundAt
  · rename_i different
    exact .inr ⟨different, foundAt⟩

theorem getElem?_append_cases {sources : List Source} {index : ℕ} {new found : Source}
    (foundAt : (sources ++ [new])[index]? = some found) :
    index = sources.length ∧ found = new ∨ sources[index]? = some found := by
  by_cases inside : index < sources.length
  · rw [List.getElem?_append_left inside] at foundAt
    exact .inr foundAt
  · have bound := (List.getElem?_eq_some_iff.mp foundAt).1
    rw [List.length_append, List.length_singleton] at bound
    have atEnd : index = sources.length := by omega
    subst atEnd
    rw [List.getElem?_concat_length, Option.some.injEq] at foundAt
    exact .inl ⟨rfl, foundAt.symm⟩

/-- A list in which one item is exchanged has the same images but for those of the two items. -/
theorem perm_filterMap_set {images : Source → Option Image} {sources : List Source} {index : ℕ}
    {old : Source} (new : Source) (found : sources[index]? = some old) :
    ((images old).toList ++ (sources.set index new).filterMap images).Perm
      ((images new).toList ++ sources.filterMap images) := by
  induction sources generalizing index with
  | nil => simp at found
  | cons source sources ih =>
      cases index with
      | zero =>
          simp only [List.getElem?_cons_zero, Option.some.injEq] at found
          subst found
          simp only [List.set_cons_zero, List.filterMap_cons]
          cases images source with
          | none => cases images new <;> simp
          | some image =>
              cases images new with
              | none => simp
              | some other => exact List.Perm.swap other image _
      | succ index =>
          simp only [List.getElem?_cons_succ] at found
          simp only [List.set_cons_succ, List.filterMap_cons]
          cases images source with
          | none => exact ih found
          | some image =>
              apply List.perm_middle.trans
              exact ((ih found).cons image).trans List.perm_middle.symm

end Lists

section Sequential

variable {Object : Type u} {Operation : Type v} {Reply : Type w} {Caller : Type x}
  {perform : Object → Operation → Reply × Object} {start : Object}
  {order more : List (Caller × Operation)} {caller : Caller} {operation : Operation}
  {reply : Reply}

/-- The object after the operations of an order. -/
def performed (perform : Object → Operation → Reply × Object) (start : Object)
    (order : List (Caller × Operation)) : Object :=
  order.foldl (fun object call => (perform object call.2).2) start

/-- The caller has the operation in the order, and is given the reply there. -/
def Replied (perform : Object → Operation → Reply × Object) (start : Object)
    (order : List (Caller × Operation)) (caller : Caller) (operation : Operation)
    (reply : Reply) : Prop :=
  ∃ front back, order = front ++ (caller, operation) :: back ∧
    (perform (performed perform start front) operation).1 = reply

@[simp]
theorem performed_snoc (call : Caller × Operation) :
    performed perform start (order ++ [call]) =
      (perform (performed perform start order) call.2).2 := by
  simp [performed]

theorem Replied.append (replied : Replied perform start order caller operation reply)
    (more : List (Caller × Operation)) :
    Replied perform start (order ++ more) caller operation reply := by
  rcases replied with ⟨front, back, rfl, given⟩
  exact ⟨front, back ++ more, by simp, given⟩

theorem replied_last (given : (perform (performed perform start order) operation).1 = reply) :
    Replied perform start (order ++ [(caller, operation)]) caller operation reply :=
  ⟨order, [], rfl, given⟩

theorem Replied.mem (replied : Replied perform start order caller operation reply) :
    (caller, operation) ∈ order := by
  rcases replied with ⟨front, back, rfl, -⟩
  simp

end Sequential

end Pain.Lib
