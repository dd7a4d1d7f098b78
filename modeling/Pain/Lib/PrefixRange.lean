import Mathlib

/-!
# Prefix ranges of sorted lists

In the lexicographic order the lists that start with a given list stand side by
side, with the given list itself at their front. Hence reading a sorted table
from the first entry that is not below a key, for as long as the entries start
with that key, visits exactly the entries that start with it.
-/

namespace Pain.Lib

universe u v

section Lexicographic

variable {Item : Type u} [Ord Item] [Std.LawfulEqOrd Item]

theorem isLE_compare_of_isPrefix {short long : List Item} (starts : short <+: long) :
    (compare short long).isLE := by
  rcases starts with ⟨rest, rfl⟩
  induction short with
  | nil => exact List.isLE_compare_nil_left
  | cons item short ih =>
      simp only [List.cons_append, List.compare_cons_cons, Std.ReflOrd.compare_self]
      exact ih

theorem compare_append_left (front left right : List Item) :
    compare (front ++ left) (front ++ right) = compare left right := by
  induction front with
  | nil => rfl
  | cons item front ih => simp [ih]

theorem isPrefix_of_between [Std.TransOrd Item] {short middle long : List Item}
    (starts : short <+: long) (above : (compare short middle).isLE)
    (below : (compare middle long).isLE) :
    short <+: middle := by
  induction short generalizing middle long with
  | nil => exact List.nil_prefix
  | cons item short ih =>
      rcases starts with ⟨rest, rfl⟩
      cases middle with
      | nil => simp at above
      | cons other middle =>
          simp only [List.cons_append, List.compare_cons_cons, Ordering.isLE_then_iff_or]
            at above below
          rcases above with lower | ⟨same, above⟩
          · rcases below with upper | ⟨same, -⟩
            · have crossed := Std.TransCmp.lt_trans lower upper
              simp at crossed
            · have equal := Std.LawfulEqOrd.eq_of_compare same
              subst equal
              simp at lower
          · have equal := Std.LawfulEqOrd.eq_of_compare same
            subst equal
            simp only [Std.ReflOrd.compare_self, reduceCtorEq, true_and, false_or] at below
            apply List.cons_prefix_cons.mpr
            exact ⟨rfl, ih ⟨rest, rfl⟩ above below⟩

end Lexicographic

section Scan

variable {Entry : Type u} {below inside : Entry → Bool}

theorem takeWhile_eq_filter {entries : List Entry}
    (initial : entries.Pairwise fun first second => inside second → inside first) :
    entries.takeWhile inside = entries.filter inside := by
  induction entries with
  | nil => rfl
  | cons entry entries ih =>
      rcases List.pairwise_cons.mp initial with ⟨here, later⟩
      by_cases included : inside entry
      · simp [included, ih later]
      · have none : ∀ other ∈ entries, ¬inside other :=
          fun other otherMem found => included (here other otherMem found)
        simp [included, List.filter_eq_nil_iff.mpr none]

theorem dropWhile_eq_filter {entries : List Entry}
    (initial : entries.Pairwise fun first second => below second → below first) :
    entries.dropWhile below = entries.filter (fun entry => !below entry) := by
  induction entries with
  | nil => rfl
  | cons entry entries ih =>
      rcases List.pairwise_cons.mp initial with ⟨here, later⟩
      by_cases skipped : below entry
      · simp [skipped, ih later]
      · have kept : ∀ other ∈ entries, !below other := by
          intro other otherMem
          simpa using fun lower => skipped (here other otherMem lower)
        simp [skipped, List.filter_eq_self.mpr kept]

/-- A scan that skips the entries below a range and stops at the first entry outside it finds
exactly the entries of the range. -/
theorem takeWhile_dropWhile_eq_filter {entries : List Entry}
    (disjoint : ∀ entry, inside entry → ¬below entry)
    (contiguous : entries.Pairwise fun first second =>
      (below second → below first) ∧ (inside second → ¬below first → inside first)) :
    (entries.dropWhile below).takeWhile inside = entries.filter inside := by
  induction entries with
  | nil => rfl
  | cons entry entries ih =>
      rcases List.pairwise_cons.mp contiguous with ⟨here, later⟩
      by_cases skipped : below entry
      · have outside : ¬inside entry := fun included => disjoint entry included skipped
        simp [skipped, outside, ih later]
      · have initial : (entry :: entries).Pairwise fun first second =>
            inside second → inside first := by
          apply List.pairwise_cons.mpr
          refine ⟨fun other otherMem found => (here other otherMem).2 found skipped, ?_⟩
          apply List.Pairwise.imp_of_mem _ later
          intro first second firstMem _ related found
          exact related.2 found (fun lower => skipped ((here first firstMem).1 lower))
        simp only [List.dropWhile_cons, skipped, Bool.false_eq_true, if_false]
        exact takeWhile_eq_filter initial

end Scan

section Tables

variable {Item : Type u} [Ord Item] [Std.TransOrd Item] [Std.LawfulEqOrd Item]
  {Value : Type v}

/-- Reading a table sorted by its keys from `key` on, as long as the keys start with `key`. -/
theorem scan_eq_filter [BEq Item] [LawfulBEq Item] {entries : List (List Item × Value)}
    (key : List Item)
    (sorted : entries.Pairwise fun first second => compare first.1 second.1 = .lt) :
    (entries.dropWhile fun entry => (compare entry.1 key).isLT).takeWhile
        (fun entry => key.isPrefixOf entry.1) =
      entries.filter (fun entry => key.isPrefixOf entry.1) := by
  apply takeWhile_dropWhile_eq_filter
  · intro entry starts lower
    have least := isLE_compare_of_isPrefix (List.isPrefixOf_iff_prefix.mp starts)
    simp only [Ordering.isLT_iff_eq_lt] at lower
    simp [Std.OrientedCmp.gt_of_lt lower] at least
  · apply sorted.imp
    intro first second ordered
    constructor
    · intro lower
      simp only [Ordering.isLT_iff_eq_lt] at lower ⊢
      exact Std.TransCmp.lt_trans ordered lower
    · intro starts notLower
      simp only [List.isPrefixOf_iff_prefix] at starts ⊢
      apply isPrefix_of_between starts
      · apply Ordering.isLE_iff_ne_gt.mpr
        intro greater
        simp [Std.OrientedCmp.lt_of_gt greater] at notLower
      · simp [ordered]

/-- A table sorted by its keys is determined by its entries. -/
theorem eq_of_sorted_of_mem_iff {left right : List (List Item × Value)}
    (leftSorted : left.Pairwise fun first second => compare first.1 second.1 = .lt)
    (rightSorted : right.Pairwise fun first second => compare first.1 second.1 = .lt)
    (same : ∀ entry, entry ∈ left ↔ entry ∈ right) : left = right := by
  have distinct : ∀ {entries : List (List Item × Value)},
      entries.Pairwise (fun first second => compare first.1 second.1 = .lt) → entries.Nodup := by
    intro entries sorted
    apply sorted.imp
    rintro first second ordered rfl
    simp at ordered
  apply List.Perm.eq_of_pairwise _ leftSorted rightSorted
  · exact (List.perm_ext_iff_of_nodup (distinct leftSorted) (distinct rightSorted)).mpr same
  · intro first second _ _ ordered reversed
    simp [Std.OrientedCmp.gt_of_lt ordered] at reversed

end Tables

end Pain.Lib
