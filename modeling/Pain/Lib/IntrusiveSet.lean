import Mathlib

/-!
# Ordered intrusive sets

A `boost::intrusive::set` links objects into a tree ordered by a key and never
holds two objects of equal key: inserting an object whose key is present leaves
the set as it was and does not link the object. Here such a set is the list of
its members in key order, and strict order is a field of the structure, so a
set with two members of one key cannot be built.
-/

namespace Pain.Lib

universe u

/-- The linked objects in increasing key order. -/
structure IntrusiveSet (α : Type u) (key : α → ℕ) where
  items : List α
  sorted : items.Pairwise (fun left right => key left < key right)

namespace IntrusiveSet

variable {α : Type u} {key : α → ℕ}

/-- Put a value in front of the first one with a larger key, unless its key is present. -/
def insertList (key : α → ℕ) (value : α) : List α → List α
  | [] => [value]
  | item :: items =>
      if key value < key item then value :: item :: items
      else if key value = key item then item :: items
      else item :: insertList key value items

theorem mem_insertList {value item : α} {items : List α}
    (member : item ∈ insertList key value items) : item = value ∨ item ∈ items := by
  induction items with
  | nil => simpa [insertList] using member
  | cons head tail ih =>
      simp only [insertList] at member
      split at member
      · simpa using member
      · split at member
        · exact Or.inr member
        · rcases List.mem_cons.mp member with same | later
          · exact Or.inr (by simp [same])
          · rcases ih later with same | present
            · exact Or.inl same
            · exact Or.inr (by simp [present])

theorem mem_insertList_of_mem (value : α) {item : α} {items : List α} (member : item ∈ items) :
    item ∈ insertList key value items := by
  induction items with
  | nil => simp at member
  | cons head tail ih =>
      simp only [insertList]
      split
      · exact List.mem_cons_of_mem _ member
      · split
        · exact member
        · rcases List.mem_cons.mp member with same | later
          · exact same ▸ List.mem_cons_self
          · exact List.mem_cons_of_mem _ (ih later)

theorem mem_insertList_self {value : α} {items : List α}
    (fresh : ∀ item ∈ items, key item ≠ key value) : value ∈ insertList key value items := by
  induction items with
  | nil => simp [insertList]
  | cons head tail ih =>
      simp only [insertList]
      split
      · exact List.mem_cons_self
      · simp only [if_neg (fresh head List.mem_cons_self).symm]
        apply List.mem_cons_of_mem
        exact ih (fun item later => fresh item (List.mem_cons_of_mem _ later))

theorem insertList_sorted (value : α) {items : List α}
    (sorted : items.Pairwise (fun left right => key left < key right)) :
    (insertList key value items).Pairwise (fun left right => key left < key right) := by
  induction items with
  | nil => simp [insertList]
  | cons head tail ih =>
      rcases List.pairwise_cons.mp sorted with ⟨headLt, tailSorted⟩
      simp only [insertList]
      split
      · rename_i before
        refine List.pairwise_cons.mpr ⟨?_, sorted⟩
        intro item itemMem
        rcases List.mem_cons.mp itemMem with rfl | later
        · exact before
        · exact before.trans (headLt item later)
      · split
        · exact sorted
        · rename_i notBefore notSame
          refine List.pairwise_cons.mpr ⟨?_, ih tailSorted⟩
          intro item itemMem
          rcases mem_insertList itemMem with rfl | later
          · omega
          · exact headLt item later

/-- `set::insert`. -/
def insert (set : IntrusiveSet α key) (value : α) : IntrusiveSet α key where
  items := insertList key value set.items
  sorted := insertList_sorted value set.sorted

/-- `set::begin`, when the set is not empty. -/
def begin? (set : IntrusiveSet α key) : Option α :=
  set.items.head?

/-- Unlink the members that satisfy a test. -/
def unlinkIf (set : IntrusiveSet α key) (test : α → Bool) : IntrusiveSet α key where
  items := set.items.filter (fun item => !test item)
  sorted := set.sorted.filter _

instance : EmptyCollection (IntrusiveSet α key) where
  emptyCollection := ⟨[], List.Pairwise.nil⟩

@[simp]
theorem items_empty : (∅ : IntrusiveSet α key).items = [] := rfl

@[ext]
theorem ext {left right : IntrusiveSet α key} (same : left.items = right.items) :
    left = right := by
  cases left
  cases right
  simpa using same

instance [DecidableEq α] : DecidableEq (IntrusiveSet α key) := fun left right =>
  decidable_of_iff (left.items = right.items) ⟨ext, fun same => same ▸ rfl⟩

end IntrusiveSet

end Pain.Lib
