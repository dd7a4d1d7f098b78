import Pain.Lib.Segments

/-!
# Positions of the segments of a list

A segment of a list is known by where it stands: from the start of the list or
behind a separator, up to the end of the list or to the next separator. The
segments that `segments` gives are the ones that stand somewhere, in the order of
their positions.
-/

namespace Pain.Lib

universe u

variable {α : Type u} {separator : α}

/-- A maximal nonempty piece without `separator` stands at the positions from `first` up to
`last`. -/
structure IsSegment (separator : α) (items : List α) (first last : ℕ) : Prop where
  nonempty : first < last
  bound : last ≤ items.length
  free : ∀ position, first ≤ position → position < last → items[position]? ≠ some separator
  starts : ∀ position, position + 1 = first → items[position]? = some separator
  ends : ∀ item, items[last]? = some item → item = separator

variable {rest : List α} {first last : ℕ}

theorem IsSegment.of_append (front : List α)
    (segment : IsSegment separator (front ++ rest) first last)
    (behind : front.length ≤ first) :
    IsSegment separator rest (first - front.length) (last - front.length) := by
  rcases segment with ⟨nonempty, bound, free, starts, ends⟩
  have shift : ∀ position, (front ++ rest)[position + front.length]? = rest[position]? := by
    intro position
    rw [List.getElem?_append_right (Nat.le_add_left ..), Nat.add_sub_cancel]
  rw [List.length_append] at bound
  refine ⟨by omega, by omega, ?_, ?_, ?_⟩
  · intro position after before
    rw [← shift]
    exact free _ (by omega) (by omega)
  · intro position next
    rw [← shift]
    exact starts _ (by omega)
  · intro item found
    rw [← shift, Nat.sub_add_cancel (by omega)] at found
    exact ends item found

theorem IsSegment.append (front : List α) (segment : IsSegment separator rest first last)
    (joins : first = 0 → ∀ item ∈ front.getLast?, item = separator) :
    IsSegment separator (front ++ rest) (first + front.length) (last + front.length) := by
  rcases segment with ⟨nonempty, bound, free, starts, ends⟩
  have shift : ∀ position, front.length ≤ position →
      (front ++ rest)[position]? = rest[position - front.length]? := by
    intro position behind
    rw [List.getElem?_append_right behind]
  refine ⟨by omega, by rw [List.length_append]; omega, ?_, ?_, ?_⟩
  · intro position after before
    rw [shift position (by omega)]
    exact free _ (by omega) (by omega)
  · intro position next
    by_cases inside : position < front.length
    · have atStart : first = 0 := by omega
      have isLast : front.getLast? = some front[position] := by
        rw [List.getLast?_eq_getElem?]
        have index : front.length - 1 = position := by omega
        rw [index, List.getElem?_eq_getElem]
      rw [List.getElem?_append_left inside, List.getElem?_eq_getElem inside,
        joins atStart _ isLast]
    · rw [shift position (by omega)]
      exact starts _ (by omega)
  · intro item found
    rw [shift _ (by omega), Nat.add_sub_cancel] at found
    exact ends item found

theorem IsSegment.start_pos (segment : IsSegment separator rest first last)
    (cut : ∀ item ∈ rest.head?, item = separator) : 0 < first := by
  apply Nat.pos_of_ne_zero
  rintro rfl
  have inside : 0 < rest.length := segment.nonempty.trans_le segment.bound
  have head := List.head?_eq_getElem? (l := rest) ▸ List.getElem?_eq_getElem inside
  have free := segment.free 0 le_rfl segment.nonempty
  rw [← List.head?_eq_getElem?, head, cut _ head] at free
  exact free rfl

theorem isSegment_cons_self {items : List α} :
    IsSegment separator (separator :: items) first last ↔
      ∃ start stop, first = start + 1 ∧ last = stop + 1 ∧ IsSegment separator items start stop := by
  constructor
  · intro segment
    have behind : 0 < first := segment.start_pos (by simp)
    have beforeLast := segment.nonempty
    have shifted : IsSegment separator items (first - 1) (last - 1) :=
      IsSegment.of_append [separator] segment behind
    exact ⟨first - 1, last - 1, by omega, by omega, shifted⟩
  · rintro ⟨start, stop, rfl, rfl, segment⟩
    exact segment.append [separator] (by simp)

theorem isSegment_append_piece {piece : List α} (notMem : separator ∉ piece) (nonempty : piece ≠ [])
    (cut : ∀ item ∈ rest.head?, item = separator) :
    IsSegment separator (piece ++ rest) first last ↔
      first = 0 ∧ last = piece.length ∨
        ∃ start stop, first = start + piece.length ∧ last = stop + piece.length ∧
          IsSegment separator rest start stop := by
  have headAt : (piece ++ rest)[piece.length]? = rest.head? := by
    rw [List.getElem?_append_right le_rfl, Nat.sub_self, List.head?_eq_getElem?]
  constructor
  · intro segment
    have total := segment.bound
    have beforeLast := segment.nonempty
    rw [List.length_append] at total
    by_cases inside : first < piece.length
    · left
      have stops : last ≤ piece.length := by
        by_contra further
        have inRest : 0 < rest.length := by omega
        have head := List.head?_eq_getElem? (l := rest) ▸ List.getElem?_eq_getElem inRest
        apply segment.free piece.length (by omega) (by omega)
        rw [headAt, head, cut _ head]
      have whole : ¬last < piece.length := by
        intro short
        have found : (piece ++ rest)[last]? = some piece[last] := by
          rw [List.getElem?_append_left short, List.getElem?_eq_getElem short]
        exact notMem (segment.ends _ found ▸ List.getElem_mem short)
      have atStart : first = 0 := by
        by_contra later
        have found := segment.starts (first - 1) (by omega)
        rw [List.getElem?_append_left (by omega)] at found
        exact notMem (List.mem_of_getElem? found)
      omega
    · right
      exact ⟨first - piece.length, last - piece.length, by omega, by omega,
        segment.of_append piece (by omega)⟩
  · rintro (⟨rfl, rfl⟩ | ⟨start, stop, rfl, rfl, segment⟩)
    · refine ⟨List.length_pos_iff.mpr nonempty, by simp, ?_, by simp, ?_⟩
      · intro position _ before found
        rw [List.getElem?_append_left before] at found
        exact notMem (List.mem_of_getElem? found)
      · intro item found
        rw [headAt] at found
        exact cut item found
    · apply segment.append piece
      intro atStart
      exact absurd atStart (segment.start_pos cut).ne'

/-- The positions of the segments of a list that follow `offset` other items. -/
def shiftRanges (offset : ℕ) (ranges : List (ℕ × ℕ)) : List (ℕ × ℕ) :=
  ranges.map fun range => (range.1 + offset, range.2 + offset)

theorem mem_shiftRanges {offset : ℕ} {ranges : List (ℕ × ℕ)} :
    (first, last) ∈ shiftRanges offset ranges ↔
      ∃ start stop, first = start + offset ∧ last = stop + offset ∧ (start, stop) ∈ ranges := by
  simp only [shiftRanges, List.mem_map, Prod.mk.injEq, Prod.exists]
  constructor
  · rintro ⟨start, stop, member, rfl, rfl⟩
    exact ⟨start, stop, rfl, rfl, member⟩
  · rintro ⟨start, stop, rfl, rfl, member⟩
    exact ⟨start, stop, member, rfl, rfl⟩

theorem shiftRanges_ordered {offset : ℕ} {ranges : List (ℕ × ℕ)}
    (ordered : ranges.Pairwise fun before after => before.2 < after.1) :
    (shiftRanges offset ranges).Pairwise fun before after => before.2 < after.1 := by
  apply List.pairwise_map.mpr
  apply ordered.imp
  intro before after less
  exact Nat.add_lt_add_right less offset

theorem map_extract_shiftRanges (front rest : List α) (ranges : List (ℕ × ℕ)) :
    (shiftRanges front.length ranges).map
        (fun range => (front ++ rest).extract range.1 range.2) =
      ranges.map (fun range => rest.extract range.1 range.2) := by
  rw [shiftRanges, List.map_map]
  apply List.map_congr_left
  intro range _
  simp only [Function.comp_apply, List.extract_eq_take_drop, Nat.add_sub_add_right]
  rw [Nat.add_comm, List.drop_length_add_append]

/-- The segments are the maximal nonempty pieces without the separator, in their order. -/
theorem exists_ranges_segments [DecidableEq α] (separator : α) (items : List α) :
    ∃ ranges : List (ℕ × ℕ), ranges.Pairwise (fun before after => before.2 < after.1) ∧
      (∀ first last, (first, last) ∈ ranges ↔ IsSegment separator items first last) ∧
      segments separator items =
        ranges.map (fun range => items.extract range.1 range.2) := by
  induction items using piecesInduction separator with
  | nil =>
      refine ⟨[], .nil, ?_, by simp⟩
      intro first last
      refine iff_of_false List.not_mem_nil ?_
      intro segment
      have beforeLast := segment.nonempty
      have bound := segment.bound
      rw [List.length_nil] at bound
      omega
  | skip items ih =>
      rcases ih with ⟨ranges, ordered, positions, same⟩
      refine ⟨shiftRanges 1 ranges, shiftRanges_ordered ordered, ?_, ?_⟩
      · intro first last
        rw [mem_shiftRanges, isSegment_cons_self]
        simp only [positions]
      · rw [segments_cons_self, same]
        exact (map_extract_shiftRanges [separator] items ranges).symm
  | piece piece rest notMem nonempty cut ih =>
      rcases ih with ⟨ranges, ordered, positions, same⟩
      refine ⟨(0, piece.length) :: shiftRanges piece.length ranges, ?_, ?_, ?_⟩
      · apply List.pairwise_cons.mpr
        refine ⟨?_, shiftRanges_ordered ordered⟩
        rintro ⟨first, last⟩ member
        rcases mem_shiftRanges.mp member with ⟨start, stop, rfl, rfl, memberRest⟩
        have startPos := ((positions start stop).mp memberRest).start_pos cut
        exact Nat.lt_add_of_pos_left startPos
      · intro first last
        rw [List.mem_cons, mem_shiftRanges, isSegment_append_piece notMem nonempty cut]
        simp only [Prod.mk.injEq, positions]
      · rw [segments_append_piece notMem nonempty cut, same, List.map_cons,
          map_extract_shiftRanges]
        simp

end Pain.Lib
