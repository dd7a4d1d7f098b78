import Mathlib

/-!
# Extents and tilings

An extent is a piece of data together with the offset at which it belongs. A
list of extents tiles `[start, stop)` when each piece begins where the one
before it ends. This file relates a tiling to the data it spells out: how long
the data is, where each piece lies in it, and that any arrangement of the same
pieces in offset order spells the same data.
-/

namespace Pain.Lib

universe u

variable {α : Type u}

/-- Data that belongs at an offset. -/
structure Extent (α : Type u) where
  offset : ℕ
  data : List α
deriving DecidableEq, Repr

namespace Extent

/-- The data of consecutive extents. -/
def payload (extents : List (Extent α)) : List α :=
  extents.flatMap Extent.data

@[simp]
theorem payload_nil : payload ([] : List (Extent α)) = [] := rfl

@[simp]
theorem payload_cons (extent : Extent α) (extents : List (Extent α)) :
    payload (extent :: extents) = extent.data ++ payload extents := rfl

@[simp]
theorem payload_append (first second : List (Extent α)) :
    payload (first ++ second) = payload first ++ payload second := by
  simp [payload]

/-- The extents cover `[start, stop)` in order, without a gap or an overlap. -/
def Tiles : ℕ → List (Extent α) → ℕ → Prop
  | start, [], stop => start = stop
  | start, extent :: extents, stop =>
      extent.offset = start ∧ Tiles (start + extent.data.length) extents stop

@[simp]
theorem tiles_nil {start stop : ℕ} : Tiles start ([] : List (Extent α)) stop ↔ start = stop :=
  Iff.rfl

@[simp]
theorem tiles_cons {start stop : ℕ} {extent : Extent α} {extents : List (Extent α)} :
    Tiles start (extent :: extents) stop ↔
      extent.offset = start ∧ Tiles (start + extent.data.length) extents stop :=
  Iff.rfl

/-- A tiling is as long as its payload. -/
theorem Tiles.stop_eq {start stop : ℕ} {extents : List (Extent α)}
    (tiles : Tiles start extents stop) : stop = start + (payload extents).length := by
  induction extents generalizing start with
  | nil => simpa using tiles.symm
  | cons extent extents ih =>
      have rest := ih tiles.2
      simp only [payload_cons, List.length_append]
      omega

/-- A tiling can be cut between two extents. -/
theorem tiles_append {start stop : ℕ} {first second : List (Extent α)} :
    Tiles start (first ++ second) stop ↔
      ∃ middle, Tiles start first middle ∧ Tiles middle second stop := by
  induction first generalizing start with
  | nil => simp
  | cons extent first ih =>
      simp only [List.cons_append, tiles_cons, ih]
      constructor
      · rintro ⟨here, middle, left, right⟩
        exact ⟨middle, ⟨here, left⟩, right⟩
      · rintro ⟨middle, ⟨here, left⟩, right⟩
        exact ⟨here, middle, left, right⟩

theorem Tiles.snoc {start stop : ℕ} {extents : List (Extent α)} {extent : Extent α}
    (tiles : Tiles start extents stop) (here : extent.offset = stop) :
    Tiles start (extents ++ [extent]) (stop + extent.data.length) :=
  tiles_append.mpr ⟨stop, tiles, here, rfl⟩

theorem Tiles.start_le_offset {start stop : ℕ} {extents : List (Extent α)}
    (tiles : Tiles start extents stop) {extent : Extent α} (member : extent ∈ extents) :
    start ≤ extent.offset := by
  induction extents generalizing start with
  | nil => simp at member
  | cons head tail ih =>
      rcases List.mem_cons.mp member with rfl | later
      · exact tiles.1.ge
      · have rest := ih tiles.2 later
        omega

/-- The payload of a tiling has each extent at its offset. -/
theorem Tiles.slice {start stop : ℕ} {extents : List (Extent α)}
    (tiles : Tiles start extents stop) {extent : Extent α} (member : extent ∈ extents) :
    extent.offset + extent.data.length ≤ stop ∧
      ((payload extents).drop (extent.offset - start)).take extent.data.length =
        extent.data := by
  induction extents generalizing start with
  | nil => simp at member
  | cons head tail ih =>
      rcases List.mem_cons.mp member with rfl | later
      · have reached := tiles.2.stop_eq
        rcases tiles with ⟨here, -⟩
        refine ⟨by omega, ?_⟩
        simp [here]
      · rcases ih tiles.2 later with ⟨bounded, same⟩
        refine ⟨bounded, ?_⟩
        have after := tiles.2.start_le_offset later
        have skip : extent.offset - start =
            head.data.length + (extent.offset - (start + head.data.length)) := by
          omega
        simp only [payload_cons, skip, ← List.drop_drop, List.drop_left]
        exact same

theorem payload_filter_nonempty (extents : List (Extent α)) :
    payload (extents.filter (fun extent => !extent.data.isEmpty)) = payload extents := by
  induction extents with
  | nil => rfl
  | cons extent extents ih =>
      rcases extent with ⟨offset, data⟩
      cases data with
      | nil => simpa [List.filter_cons] using ih
      | cons value data => simp [ih]

theorem Tiles.pairwise_nonempty {start stop : ℕ} {extents : List (Extent α)}
    (tiles : Tiles start extents stop) :
    (extents.filter (fun extent => !extent.data.isEmpty)).Pairwise
      (fun left right => left.offset < right.offset) := by
  induction extents generalizing start with
  | nil => simp
  | cons head tail ih =>
      simp only [List.filter_cons]
      split
      · rename_i nonempty
        refine List.pairwise_cons.mpr ⟨?_, ih tiles.2⟩
        intro extent member
        have after := tiles.2.start_le_offset (List.mem_of_mem_filter member)
        have positive : 0 < head.data.length := by
          simpa [List.length_pos_iff] using nonempty
        have here := tiles.1
        omega
      · exact ih tiles.2

/-- The extents of a tiling are in the order of their offsets. -/
theorem Tiles.pairwise_offset {start stop : ℕ} {extents : List (Extent α)}
    (tiles : Tiles start extents stop) (nonempty : ∀ extent ∈ extents, extent.data ≠ []) :
    extents.Pairwise (fun left right => left.offset < right.offset) := by
  have strict := tiles.pairwise_nonempty
  rwa [List.filter_eq_self.mpr (by simpa using nonempty)] at strict

theorem Tiles.eq_of_offset_eq {start stop : ℕ} {extents : List (Extent α)}
    (tiles : Tiles start extents stop) (nonempty : ∀ extent ∈ extents, extent.data ≠ [])
    {left right : Extent α} (leftMem : left ∈ extents) (rightMem : right ∈ extents)
    (same : left.offset = right.offset) : left = right := by
  have strict := tiles.pairwise_offset nonempty
  have distinct : (extents.map offset).Nodup :=
    List.pairwise_map.mpr (strict.imp (fun before => before.ne))
  exact List.inj_on_of_nodup_map distinct leftMem rightMem same

/-- The pieces of a tiling, in any order that sorts them by offset, spell the same data: pieces
that share an offset are empty but for one. -/
theorem Tiles.payload_eq_of_perm {start stop : ℕ} {extents arranged : List (Extent α)}
    (tiles : Tiles start extents stop) (perm : arranged.Perm extents)
    (ordered : arranged.Pairwise (fun left right => left.offset ≤ right.offset)) :
    payload arranged = payload extents := by
  simp only [← payload_filter_nonempty arranged, ← payload_filter_nonempty extents]
  congr 1
  have strict := tiles.pairwise_nonempty
  have distinct : ((extents.filter (fun extent => !extent.data.isEmpty)).map offset).Nodup :=
    List.pairwise_map.mpr (strict.imp (fun before => before.ne))
  have permNonempty := perm.filter (fun extent => !extent.data.isEmpty)
  refine List.Perm.eq_of_pairwise ?_ (ordered.filter _) (strict.imp (fun before => before.le))
    permNonempty
  intro left right leftMem rightMem leftLe rightLe
  exact List.inj_on_of_nodup_map distinct (permNonempty.mem_iff.mp leftMem) rightMem
    (Nat.le_antisymm leftLe rightLe)

/-- The extents sorted by offset. -/
def byOffset (extents : List (Extent α)) : List (Extent α) :=
  extents.mergeSort (fun left right => left.offset ≤ right.offset)

theorem byOffset_perm (extents : List (Extent α)) : (byOffset extents).Perm extents :=
  List.mergeSort_perm _ _

theorem byOffset_pairwise (extents : List (Extent α)) :
    (byOffset extents).Pairwise (fun left right => left.offset ≤ right.offset) := by
  have sorted : (byOffset extents).Pairwise
      (fun left right => decide (left.offset ≤ right.offset) = true) :=
    List.pairwise_mergeSort (by simp only [decide_eq_true_eq]; omega) (by simp; omega) extents
  simpa using sorted

end Extent

end Pain.Lib
