import Mathlib

/-!
# Counted references

An object that counts the pointers to it is deleted by the pointer that takes
the count to zero. This file keeps the pointers of a program beside the counts,
and gives what each operation does: while every pointer counts itself once, an
object is deleted exactly if it has had pointers and has none left, and no
operation through a pointer finds its object deleted.
-/

namespace Pain.Lib

universe u v

variable {Pointer : Type u} {Object : Type v}

/-- The pointers with the objects that they point to, the count of each object, and whether it has
been deleted. -/
structure Refs (Pointer : Type u) (Object : Type v) where
  pointers : List (Pointer × Object)
  useCount : Object → ℕ
  deleted : Object → Bool

namespace Refs

/-- There are no pointers yet. -/
def empty : Refs Pointer Object where
  pointers := []
  useCount := fun _ => 0
  deleted := fun _ => false

variable [DecidableEq Object]

/-- A pointer begins to point to the object; `none` if the object has been deleted. -/
def acquire (pointer : Pointer) (object : Object) (refs : Refs Pointer Object) :
    Option (Refs Pointer Object) :=
  if refs.deleted object then none
  else
    some { refs with
      pointers := (pointer, object) :: refs.pointers
      useCount := Function.update refs.useCount object (refs.useCount object + 1) }

/-- A pointer stops to point to the object, which is deleted if the count was one; `none` if it has
been deleted already. -/
def drop [DecidableEq Pointer] (pointer : Pointer) (object : Object)
    (refs : Refs Pointer Object) : Option (Refs Pointer Object) :=
  if refs.deleted object then none
  else
    some
      { pointers := refs.pointers.erase (pointer, object)
        useCount := Function.update refs.useCount object (refs.useCount object - 1)
        deleted :=
          if refs.useCount object = 1 then Function.update refs.deleted object true
          else refs.deleted }

/-- Nobody points to the object. -/
def Unreferenced (refs : Refs Pointer Object) (object : Object) : Prop :=
  ∀ pointer, (pointer, object) ∉ refs.pointers

/-- Every pointer is counted, and an object that exists is deleted if nobody points to it. -/
structure Counted (known : Object → Prop) (refs : Refs Pointer Object) : Prop where
  count : ∀ object, refs.useCount object = refs.pointers.countP (fun held => held.2 = object)
  freed : ∀ object, refs.deleted object = true ↔ known object ∧ refs.Unreferenced object
  known : ∀ pointer object, (pointer, object) ∈ refs.pointers → known object
  nodup : refs.pointers.Nodup

variable {known : Object → Prop} {refs : Refs Pointer Object} {pointer : Pointer} {object : Object}

theorem counted_empty (noneKnown : ∀ object, ¬known object) :
    (empty : Refs Pointer Object).Counted known := by
  constructor <;> simp [empty, noneKnown]

theorem Counted.mono {other : Object → Prop} (counted : refs.Counted known)
    (same : ∀ object, known object ↔ other object) : refs.Counted other where
  count := counted.count
  freed object := by rw [counted.freed, same]
  known pointer object held := (same object).mp (counted.known pointer object held)
  nodup := counted.nodup

/-- An object that is pointed to has not been deleted. -/
theorem Counted.alive (counted : refs.Counted known) (held : (pointer, object) ∈ refs.pointers) :
    refs.deleted object = false := by
  rw [Bool.eq_false_iff]
  intro isDeleted
  exact ((counted.freed object).mp isDeleted).2 pointer held

theorem acquire_eq (alive : refs.deleted object = false) :
    refs.acquire pointer object =
      some ⟨(pointer, object) :: refs.pointers,
        Function.update refs.useCount object (refs.useCount object + 1), refs.deleted⟩ := by
  simp [acquire, alive]

theorem drop_eq [DecidableEq Pointer] (alive : refs.deleted object = false) :
    refs.drop pointer object =
      some ⟨refs.pointers.erase (pointer, object),
        Function.update refs.useCount object (refs.useCount object - 1),
        if refs.useCount object = 1 then Function.update refs.deleted object true
        else refs.deleted⟩ := by
  simp [drop, alive]

/-- A new pointer to a live object is counted. -/
theorem acquire_counted (counted : refs.Counted known) (new : (pointer, object) ∉ refs.pointers)
    (alive : refs.deleted object = false) :
    ∃ next, refs.acquire pointer object = some next ∧
      next.Counted (fun other => known other ∨ other = object) ∧
      next.pointers = (pointer, object) :: refs.pointers := by
  refine ⟨_, acquire_eq alive, ?_, rfl⟩
  constructor
  · intro other
    by_cases same : object = other
    · subst same
      simp [counted.count]
    · simp [same, Ne.symm same, counted.count]
  · intro other
    by_cases same : other = object
    · subst same
      simp only [alive, Bool.false_eq_true, false_iff, not_and]
      exact fun _ none => none pointer List.mem_cons_self
    · simp [counted.freed, same, Unreferenced]
  · intro other target held
    simp only [List.mem_cons, Prod.mk.injEq] at held
    rcases held with ⟨-, rfl⟩ | old
    · exact .inr rfl
    · exact .inl (counted.known other target old)
  · exact List.nodup_cons.mpr ⟨new, counted.nodup⟩

theorem acquire_known (counted : refs.Counted known) (new : (pointer, object) ∉ refs.pointers)
    (isKnown : known object) (alive : refs.deleted object = false) :
    ∃ next, refs.acquire pointer object = some next ∧ next.Counted known ∧
      next.pointers = (pointer, object) :: refs.pointers := by
  rcases acquire_counted counted new alive with ⟨next, acquired, countedNext, pointers⟩
  refine ⟨next, acquired, countedNext.mono ?_, pointers⟩
  intro other
  constructor
  · rintro (old | rfl)
    · exact old
    · exact isKnown
  · exact Or.inl

/-- A pointer that goes is counted, and the last one deletes. -/
theorem drop_counted [DecidableEq Pointer] (counted : refs.Counted known)
    (held : (pointer, object) ∈ refs.pointers) :
    ∃ next, refs.drop pointer object = some next ∧ next.Counted known ∧
      next.pointers = refs.pointers.erase (pointer, object) := by
  have alive := counted.alive held
  have split := (List.perm_cons_erase held).countP_eq (fun held => held.2 = object)
  have left : refs.useCount object =
      (refs.pointers.erase (pointer, object)).countP (fun held => held.2 = object) + 1 := by
    rw [counted.count, split]
    simp
  have others : ∀ other, other ≠ object → ∀ holder,
      (holder, other) ∈ refs.pointers.erase (pointer, object) ↔
        (holder, other) ∈ refs.pointers := by
    intro other different holder
    rw [counted.nodup.mem_erase_iff]
    simp [different]
  refine ⟨_, drop_eq alive, ?_, rfl⟩
  constructor
  · intro other
    by_cases same : object = other
    · subst same
      simp [left]
    · have whole := (List.perm_cons_erase held).countP_eq (fun held => held.2 = other)
      simp only [List.countP_cons, same, decide_false, Bool.false_eq_true, if_false,
        add_zero] at whole
      simp [Ne.symm same, counted.count, whole]
  · intro other
    by_cases same : other = object
    · subst same
      have last : refs.useCount other = 1 ↔
          ∀ holder, (holder, other) ∉ refs.pointers.erase (pointer, other) := by
        rw [left, Nat.add_eq_right, List.countP_eq_zero]
        constructor
        · intro none holder member
          simpa using none _ member
        · rintro none ⟨holder, target⟩ member
          simp only [decide_eq_true_eq]
          rintro rfl
          exact none holder member
      simp only [Unreferenced, ← last, counted.known pointer other held, true_and]
      by_cases one : refs.useCount other = 1
      · simp [one]
      · simp [one, alive]
    · simp only [Unreferenced, others other same]
      rw [← Unreferenced, ← counted.freed]
      by_cases one : refs.useCount object = 1 <;> simp [one, same]
  · intro holder other member
    exact counted.known holder other (List.mem_of_mem_erase member)
  · exact counted.nodup.erase _

end Refs

end Pain.Lib
