import Mathlib

/-!
# Segments of a list

The segments of a list are the maximal nonempty pieces without a separator, in
order. A separator in the middle cuts a list into two whose segments follow each
other, so separators at the ends, and several in a row, do not matter.
-/

namespace Pain.Lib

universe u

variable {α : Type u} [DecidableEq α] {separator : α}

/-- The maximal nonempty pieces of `items` without `separator`. -/
def segments (separator : α) (items : List α) : List (List α) :=
  (items.splitOn separator).filter (fun piece => !piece.isEmpty)

@[simp]
theorem segments_nil : segments separator [] = [] := by
  simp [segments]

@[simp]
theorem segments_append_cons (front back : List α) :
    segments separator (front ++ separator :: back) =
      segments separator front ++ segments separator back := by
  simp [segments, List.splitOn_append_cons_self]

@[simp]
theorem segments_cons_self (items : List α) :
    segments separator (separator :: items) = segments separator items := by
  simpa using segments_append_cons ([] : List α) items

theorem segments_of_not_mem {piece : List α} (notMem : separator ∉ piece)
    (nonempty : piece ≠ []) : segments separator piece = [piece] := by
  simp [segments, List.splitOn_eq_singleton notMem, nonempty]

theorem ne_nil_of_mem_segments {piece items : List α} (member : piece ∈ segments separator items) :
    piece ≠ [] := by
  simpa using (List.mem_filter.mp member).2

theorem segments_append_piece {piece rest : List α} (notMem : separator ∉ piece)
    (nonempty : piece ≠ []) (cut : ∀ head ∈ rest.head?, head = separator) :
    segments separator (piece ++ rest) = piece :: segments separator rest := by
  have pieceOnly := segments_of_not_mem notMem nonempty
  cases rest with
  | nil => simpa using pieceOnly
  | cons head tail =>
      have isSeparator := cut head rfl
      subst isSeparator
      rw [segments_append_cons, pieceOnly, segments_cons_self, List.singleton_append]

@[simp]
theorem segments_replicate_append (separator : α) (count : ℕ) (items : List α) :
    segments separator (List.replicate count separator ++ items) = segments separator items := by
  induction count with
  | zero => simp
  | succ count ih => simp [List.replicate_succ, ih]

theorem not_mem_takeWhile (separator : α) (items : List α) :
    separator ∉ items.takeWhile (fun item => item != separator) := by
  intro member
  simpa using List.mem_takeWhile_imp member

theorem eq_of_head?_dropWhile {items : List α} :
    ∀ head ∈ (items.dropWhile (fun item => item != separator)).head?, head = separator := by
  intro head isHead
  have stopped := List.head?_dropWhile_not (fun item => item != separator) items
  rw [Option.mem_def.mp isHead] at stopped
  simpa using stopped

theorem segments_eq_takeWhile_cons {item : α} {items : List α} (other : item ≠ separator) :
    segments separator (item :: items) =
      (item :: items).takeWhile (fun item => item != separator) ::
        segments separator ((item :: items).dropWhile (fun item => item != separator)) := by
  have whole : (item :: items).takeWhile (fun item => item != separator) ++
      (item :: items).dropWhile (fun item => item != separator) = item :: items :=
    List.takeWhile_append_dropWhile
  have nonempty : (item :: items).takeWhile (fun item => item != separator) ≠ [] := by
    simp [other]
  conv_lhs => rw [← whole]
  exact segments_append_piece (not_mem_takeWhile separator _) nonempty eq_of_head?_dropWhile

/-- Induction over a list along its separators and its pieces. -/
@[elab_as_elim]
theorem piecesInduction (separator : α) {motive : List α → Prop} (nil : motive [])
    (skip : ∀ items, motive items → motive (separator :: items))
    (piece : ∀ piece rest, separator ∉ piece → piece ≠ [] →
      (∀ head ∈ rest.head?, head = separator) → motive rest → motive (piece ++ rest))
    (items : List α) : motive items := by
  induction size : items.length using Nat.strong_induction_on generalizing items with
  | _ size ih =>
      subst size
      cases items with
      | nil => exact nil
      | cons item items =>
          by_cases isSeparator : item = separator
          · exact isSeparator ▸ skip items (ih items.length (by simp) items rfl)
          · have nonempty : (item :: items).takeWhile (fun item => item != separator) ≠ [] := by
              simp [isSeparator]
            have shorter : ((item :: items).dropWhile (fun item => item != separator)).length <
                (item :: items).length := by
              have bound : (items.dropWhile (fun item => item != separator)).length ≤ items.length :=
                (List.dropWhile_suffix _).length_le
              simp [isSeparator]
              omega
            rw [← List.takeWhile_append_dropWhile (p := fun item => item != separator)
              (l := item :: items)]
            exact piece _ _ (not_mem_takeWhile separator _) nonempty eq_of_head?_dropWhile
              (ih _ shorter _ rfl)

theorem subset_of_mem_segments {piece items : List α}
    (member : piece ∈ segments separator items) : piece ⊆ items := by
  induction items using piecesInduction separator with
  | nil => simp at member
  | skip items ih =>
      rw [segments_cons_self] at member
      exact List.subset_cons_of_subset separator (ih member)
  | piece first rest notMem nonempty cut ih =>
      rw [segments_append_piece notMem nonempty cut] at member
      rcases List.mem_cons.mp member with rfl | later
      · exact List.subset_append_left piece rest
      · exact List.subset_append_of_subset_right first (ih later)

theorem segments_rdropWhile (items : List α) :
    segments separator (items.rdropWhile (fun item => item == separator)) =
      segments separator items := by
  induction items using List.reverseRecOn with
  | nil => simp
  | append_singleton front last ih =>
      by_cases same : last = separator
      · subst same
        simp [List.rdropWhile_concat_pos, ih]
      · simp [List.rdropWhile_concat_neg, same]

end Pain.Lib
