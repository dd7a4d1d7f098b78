import Mathlib

/-!
# Stacks of scopes

A scope is opened by attaching a value and closed by detaching it, and the value
of the innermost open scope is the current one. Closing a scope that is not the
innermost one closes the scopes inside it as well; closing a value that no open
scope has changes nothing. A session is well nested if every scope it opens is
closed by it, innermost first.
-/

namespace Pain.Lib

universe u

variable {Value : Type u}

/-- What is asked of a stack of scopes. -/
inductive ScopeCall (Value : Type u) where
  | attach (value : Value)
  | detach (value : Value)
deriving DecidableEq, Repr

variable [DecidableEq Value]

/-- Close the innermost scope of the value with all scopes inside it, if there is one. -/
def closeScope (value : Value) (scopes : List Value) : List Value :=
  if value ∈ scopes then (scopes.dropWhile (fun scope => scope ≠ value)).tail else scopes

/-- The open scopes, innermost first, after a call. -/
def scopesAfter (scopes : List Value) : ScopeCall Value → List Value
  | .attach value => value :: scopes
  | .detach value => closeScope value scopes

@[simp]
theorem closeScope_head (value : Value) (scopes : List Value) :
    closeScope value (value :: scopes) = scopes := by
  simp [closeScope]

/-- A scope opened since does not matter, unless it has the value itself. -/
theorem closeScope_cons_of_ne {value inner : Value} {scopes : List Value}
    (different : inner ≠ value) (present : value ∈ scopes) :
    closeScope value (inner :: scopes) = closeScope value scopes := by
  simp [closeScope, present, different]

theorem closeScope_of_not_mem {value : Value} {scopes : List Value} (absent : value ∉ scopes) :
    closeScope value scopes = scopes := by
  simp [closeScope, absent]

/-- Every scope the session opens is closed by it, innermost first. -/
inductive WellNested : List (ScopeCall Value) → Prop where
  | nil : WellNested []
  | scope (value : Value) {inner rest : List (ScopeCall Value)} :
      WellNested inner → WellNested rest →
        WellNested (.attach value :: inner ++ .detach value :: rest)

/-- A well-nested session leaves the open scopes as it found them. -/
theorem WellNested.restores {calls : List (ScopeCall Value)} (nested : WellNested calls)
    (scopes : List Value) : calls.foldl scopesAfter scopes = scopes := by
  induction nested generalizing scopes with
  | nil => rfl
  | scope value _ _ innerRestores restRestores =>
      simp [scopesAfter, innerRestores, restRestores]

/-- In a well-nested session, each detached value belongs to the innermost open scope. -/
theorem WellNested.innermost {calls : List (ScopeCall Value)} (nested : WellNested calls)
    (scopes : List Value) {before after : List (ScopeCall Value)} {value : Value}
    (split : calls = before ++ .detach value :: after) :
    ∃ below, before.foldl scopesAfter scopes = value :: below := by
  induction nested generalizing scopes before after value with
  | nil => simp at split
  | @scope outer inner rest innerNested restNested innerInnermost restInnermost =>
      cases before with
      | nil => simp at split
      | cons call before =>
          simp only [List.cons_append, List.cons.injEq] at split
          rcases split with ⟨rfl, split⟩
          rcases List.append_eq_append_iff.mp split with
            ⟨middle, beforeEq, tailEq⟩ | ⟨middle, innerEq, tailEq⟩
          · cases middle with
            | nil =>
                simp only [List.nil_append, List.cons.injEq, ScopeCall.detach.injEq] at tailEq
                simp only [List.append_nil] at beforeEq
                refine ⟨scopes, ?_⟩
                simp [scopesAfter, beforeEq, innerNested.restores, tailEq.1]
            | cons closing middle =>
                simp only [List.cons_append, List.cons.injEq] at tailEq
                rcases tailEq with ⟨rfl, restEq⟩
                rcases restInnermost scopes restEq with ⟨below, reached⟩
                refine ⟨below, ?_⟩
                simp [scopesAfter, beforeEq, innerNested.restores, reached]
          · cases middle with
            | nil =>
                simp only [List.nil_append, List.cons.injEq, ScopeCall.detach.injEq] at tailEq
                simp only [List.append_nil] at innerEq
                refine ⟨scopes, ?_⟩
                simp [scopesAfter, ← innerEq, innerNested.restores, ← tailEq.1]
            | cons opening middle =>
                simp only [List.cons_append, List.cons.injEq] at tailEq
                rcases tailEq with ⟨rfl, -⟩
                rcases innerInnermost (outer :: scopes) innerEq with ⟨below, reached⟩
                exact ⟨below, by simpa [scopesAfter] using reached⟩

end Pain.Lib
