import Pain.Deva.Path
import Pain.Lib.SegmentRanges

/-!
# The loops of `parse_path`

`Namespace::parse_path` walks over a `const char*` with two pointers. Here the
memory is a list of bytes, a pointer is a position in it, and a read behind the
end of the memory and a loop that has had all its turns give `none`. For a
NUL-terminated string the loops stay inside the string and end, and what they
append to the components are the maximal nonempty pieces between the slashes.
-/

namespace Pain.Deva

open Lib (segments segments_nil segments_cons_self segments_append_piece segments_replicate_append
  piecesInduction)

/-- A NUL-terminated string, with what lies behind it in memory. -/
structure CString where
  text : Bytes
  beyond : Bytes
  zero_notMem : 0 ∉ text

namespace CString

/-- The memory from the first character of the string on. -/
def memory (string : CString) : Bytes :=
  string.text ++ 0 :: string.beyond

/-- `path.c_str()`: a string that holds a NUL is cut there. -/
def ofPath (path : Bytes) : CString where
  text := cStr path
  beyond := (path ++ [0]).drop ((cStr path).length + 1)
  zero_notMem := zero_not_mem_cStr path

/-- The loop that moves `q` to the end of a component. -/
def endLoop (memory : Bytes) : ℕ → ℕ → Option ℕ
  | 0, _ => none
  | turns + 1, q =>
      match memory[q]? with
      | none => none
      | some char =>
          if char ≠ 0 ∧ char ≠ slash then endLoop memory turns (q + 1) else some q

/-- The loop that moves `p` to the end of the string. -/
def componentLoop (memory : Bytes) : ℕ → ℕ → List Bytes → Option (List Bytes)
  | 0, _, _ => none
  | turns + 1, p, components =>
      match memory[p]? with
      | none => none
      | some char =>
          if char = 0 then some components
          else if char = slash then componentLoop memory turns (p + 1) components
          else
            match endLoop memory (turns + 1) p with
            | none => none
            | some q =>
                componentLoop memory turns q (components ++ [(memory.drop p).take (q - p)])

/-- `Namespace::parse_path`, with the list that `components` points to. -/
def parsePath (turns : ℕ) (path : CString) (components : List Bytes) :
    Option (Status × List Bytes) :=
  match path.memory[0]? with
  | none => none
  | some char =>
      if char ≠ slash then some (Status.fail .EINVAL "Invalid path", components)
      else
        (componentLoop path.memory turns 0 components).map
          (fun components => (Status.OK, components))

theorem exists_beyond (path : Bytes) : ∃ beyond, path ++ [0] = cStr path ++ 0 :: beyond := by
  have parts : cStr path ++ path.dropWhile (fun char => char != 0) = path :=
    List.takeWhile_append_dropWhile
  cases rest : path.dropWhile (fun char => char != 0) with
  | nil =>
      rw [rest, List.append_nil] at parts
      exact ⟨[], by rw [parts]⟩
  | cons head tail =>
      have isHead : head ∈ (path.dropWhile (fun char => char != 0)).head? := by
        rw [rest, List.head?_cons, Option.mem_some_iff]
      have isNul : head = 0 := Lib.eq_of_head?_dropWhile head isHead
      rw [rest, isNul] at parts
      refine ⟨tail ++ [0], ?_⟩
      conv_lhs => rw [← parts]
      simp

/-- The memory of a `std::string` is its characters and one NUL. -/
theorem ofPath_memory (path : Bytes) : (ofPath path).memory = path ++ [0] := by
  rcases exists_beyond path with ⟨beyond, split⟩
  simp [memory, ofPath, split]

theorem endLoop_eq {piece : Bytes} (noNul : 0 ∉ piece) (noSlash : slash ∉ piece)
    (front tail : Bytes) {stop : UInt8} (isStop : stop = 0 ∨ stop = slash) {turns : ℕ}
    (enough : piece.length < turns) :
    endLoop (front ++ (piece ++ stop :: tail)) turns front.length =
      some (front.length + piece.length) := by
  induction piece generalizing front turns with
  | nil =>
      cases turns with
      | zero => exact absurd enough (Nat.not_lt_zero _)
      | succ turns => rcases isStop with rfl | rfl <;> simp [endLoop]
  | cons char piece ih =>
      cases turns with
      | zero => exact absurd enough (Nat.not_lt_zero _)
      | succ turns =>
          rw [List.mem_cons, not_or] at noNul noSlash
          have further := ih noNul.2 noSlash.2 (front ++ [char]) (Nat.lt_of_succ_lt_succ enough)
          rw [List.append_assoc, List.length_append, List.length_singleton] at further
          have isFirst : (front ++ (char :: piece ++ stop :: tail))[front.length]? = some char := by
            simp
          simp only [endLoop, isFirst, ne_eq, Ne.symm noNul.1, Ne.symm noSlash.1,
            not_false_eq_true, and_self, if_true]
          rw [List.length_cons, Nat.add_comm piece.length, ← Nat.add_assoc]
          exact further

/-- Behind a component comes a slash or the terminator. -/
theorem exists_stop {rest : Bytes} (cut : ∀ head ∈ rest.head?, head = slash) (beyond : Bytes) :
    ∃ stop tail, (stop = 0 ∨ stop = slash) ∧ rest ++ 0 :: beyond = stop :: tail := by
  cases rest with
  | nil => exact ⟨0, beyond, .inl rfl, rfl⟩
  | cons head rest => exact ⟨head, rest ++ 0 :: beyond, .inr (cut head rfl), rfl⟩

/-- What the loop appends, from the position behind `front` on. -/
theorem componentLoop_eq {rest : Bytes} (noNul : 0 ∉ rest) (front beyond : Bytes) {turns : ℕ}
    (enough : rest.length < turns) (components : List Bytes) :
    componentLoop (front ++ (rest ++ 0 :: beyond)) turns front.length components =
      some (components ++ segments slash rest) := by
  induction rest using piecesInduction slash generalizing front turns components with
  | nil =>
      cases turns with
      | zero => exact absurd enough (Nat.not_lt_zero _)
      | succ turns => simp [componentLoop]
  | skip rest ih =>
      cases turns with
      | zero => exact absurd enough (Nat.not_lt_zero _)
      | succ turns =>
          rw [List.mem_cons, not_or] at noNul
          have further := ih noNul.2 (front ++ [slash]) (Nat.lt_of_succ_lt_succ enough) components
          rw [List.append_assoc, List.length_append, List.length_singleton] at further
          have isFirst : (front ++ (slash :: rest ++ 0 :: beyond))[front.length]? = some slash := by
            simp
          simp only [componentLoop, isFirst, Ne.symm noNul.1, if_false, if_true,
            segments_cons_self]
          exact further
  | piece piece rest noSlash nonempty cut ih =>
      cases turns with
      | zero => exact absurd enough (Nat.not_lt_zero _)
      | succ turns =>
          rw [List.mem_append, not_or] at noNul
          rcases exists_stop cut beyond with ⟨stop, tail, isStop, remaining⟩
          have pieceLength := List.length_pos_iff.mpr nonempty
          rw [List.length_append] at enough
          have pieceFits : piece.length < turns + 1 := by omega
          have restFits : rest.length < turns := by omega
          have moved := endLoop_eq noNul.1 noSlash front tail isStop pieceFits
          have further := ih noNul.2 (front ++ piece) restFits (components ++ [piece])
          rw [List.append_assoc, List.length_append] at further
          rcases List.exists_cons_of_ne_nil nonempty with ⟨char, others, isCons⟩
          have isFirst : (front ++ (piece ++ (rest ++ 0 :: beyond)))[front.length]? =
              some char := by
            simp [isCons]
          have component : ((front ++ (piece ++ (rest ++ 0 :: beyond))).drop front.length).take
              (front.length + piece.length - front.length) = piece := by
            rw [List.drop_left, Nat.add_sub_cancel_left, List.take_left]
          have notNul : char ≠ 0 := fun isNul => noNul.1 (by simp [isCons, isNul])
          have notSlash : char ≠ slash := fun isSlash => noSlash (by simp [isCons, isSlash])
          rw [← remaining] at moved
          rw [List.append_assoc, componentLoop, isFirst]
          simp only [notNul, notSlash, if_false, moved, component, further]
          rw [segments_append_piece noSlash nonempty cut, List.append_assoc, List.singleton_append]

/-- The components of a string that starts with a slash are its segments; on any other string the
list stays as it is. -/
theorem parsePath_eq {path : CString} {turns : ℕ} (enough : path.text.length < turns)
    (components : List Bytes) :
    parsePath turns path components =
      some (if path.text.head? = some slash then
          (Status.OK, components ++ segments slash path.text)
        else (Status.fail .EINVAL "Invalid path", components)) := by
  have looped := componentLoop_eq path.zero_notMem [] path.beyond enough components
  rw [List.nil_append, List.length_nil] at looped
  cases text : path.text with
  | nil => simp [parsePath, memory, text, slash]
  | cons char rest =>
      rw [text] at looped
      by_cases isSlash : char = slash
      · subst isSlash
        simpa [parsePath, memory, text] using looped
      · simp [parsePath, memory, text, isSlash]

/-- On the characters of a `std::string` the loops compute what `Deva.parsePath` says. -/
theorem parsePath_ofPath {path : Bytes} {turns : ℕ} (enough : (cStr path).length < turns)
    (components : List Bytes) :
    parsePath turns (ofPath path) components =
      some (match Deva.parsePath path components with
        | .ok found => (Status.OK, found)
        | .error failure => (.error failure, components)) := by
  rw [parsePath_eq enough, Deva.parsePath_eq, ofPath]
  split <;> rfl

end CString

/-- A name that a path can be made of. -/
structure PathName where
  bytes : Bytes
  nonempty : bytes ≠ []
  noSlash : slash ∉ bytes
  noNul : 0 ∉ bytes

namespace PathName

/-- The names with `gap + 1` slashes between a name and the next, and any number of slashes behind
the last name. -/
def join : List (PathName × ℕ) → Bytes
  | [] => []
  | [(name, trailing)] => name.bytes ++ List.replicate trailing slash
  | (name, gap) :: second :: names =>
      name.bytes ++ (List.replicate (gap + 1) slash ++ join (second :: names))

/-- A path of these names, which may start with more than one slash. -/
def toPath (leading : ℕ) (names : List (PathName × ℕ)) : Bytes :=
  slash :: (List.replicate leading slash ++ join names)

theorem segments_slashes (count : ℕ) : segments slash (List.replicate count slash) = [] := by
  have behind := segments_replicate_append slash count []
  rwa [List.append_nil, segments_nil] at behind

theorem segments_join (names : List (PathName × ℕ)) :
    segments slash (join names) = names.map (fun entry => entry.1.bytes) := by
  induction names using join.induct with
  | case1 => simp [join]
  | case2 name trailing =>
      have cut : ∀ head ∈ (List.replicate trailing slash).head?, head = slash := by
        intro head isHead
        exact List.eq_of_mem_replicate (List.mem_of_head? isHead)
      rw [join, segments_append_piece name.noSlash name.nonempty cut, segments_slashes]
      rfl
  | case3 name gap second names ih =>
      have cut : ∀ head ∈ (List.replicate (gap + 1) slash ++ join (second :: names)).head?,
          head = slash := by
        simp [List.replicate_succ, eq_comm]
      rw [join, segments_append_piece name.noSlash name.nonempty cut, segments_replicate_append, ih]
      rfl

theorem zero_notMem_slashes (count : ℕ) : 0 ∉ List.replicate count slash := by
  intro member
  exact absurd (List.eq_of_mem_replicate member) (by decide)

theorem zero_notMem_join (names : List (PathName × ℕ)) : 0 ∉ join names := by
  induction names using join.induct with
  | case1 => exact List.not_mem_nil
  | case2 name trailing =>
      rw [join, List.mem_append, not_or]
      exact ⟨name.noNul, zero_notMem_slashes trailing⟩
  | case3 name gap second names ih =>
      rw [join, List.mem_append, List.mem_append, not_or, not_or]
      exact ⟨name.noNul, zero_notMem_slashes (gap + 1), ih⟩

/-- The path as a NUL-terminated string. -/
def toCString (leading : ℕ) (names : List (PathName × ℕ)) (beyond : Bytes) : CString where
  text := toPath leading names
  beyond := beyond
  zero_notMem := by
    rw [toPath, List.mem_cons, List.mem_append, not_or, not_or]
    exact ⟨by decide, zero_notMem_slashes leading, zero_notMem_join names⟩

end PathName

namespace CString

/-- With more turns than the string has characters the loops end. A string that does not start
with a slash leaves the list alone; any other appends its maximal nonempty pieces without a
slash, in their order, and so the names that it was made of. -/
theorem parsePath_appends (path : CString) (components : List Bytes) {turns : ℕ}
    (enough : path.text.length < turns) :
    (path.text.head? ≠ some slash →
      parsePath turns path components =
        some (Status.fail .EINVAL "Invalid path", components)) ∧
    (path.text.head? = some slash →
      ∃ ranges : List (ℕ × ℕ), ranges.Pairwise (fun before after => before.2 < after.1) ∧
        (∀ first last, (first, last) ∈ ranges ↔ Lib.IsSegment slash path.text first last) ∧
        parsePath turns path components =
          some (Status.OK,
            components ++ ranges.map (fun range => path.text.extract range.1 range.2))) ∧
    ∀ (leading : ℕ) (names : List (PathName × ℕ)), path.text = PathName.toPath leading names →
      parsePath turns path components =
        some (Status.OK, components ++ names.map (fun entry => entry.1.bytes)) := by
  have parsed := parsePath_eq enough components
  refine ⟨?_, ?_, ?_⟩
  · intro other
    rw [parsed, if_neg other]
  · intro starts
    rcases Lib.exists_ranges_segments slash path.text with ⟨ranges, ordered, positions, same⟩
    refine ⟨ranges, ordered, positions, ?_⟩
    rw [parsed, if_pos starts, same]
  · intro leading names isPath
    rw [parsed, isPath, PathName.toPath, List.head?_cons, if_pos rfl, segments_cons_self,
      segments_replicate_append, PathName.segments_join]

/-- The names of `//a///b/`. -/
def twoNames : List (PathName × ℕ) :=
  [(⟨[97], by decide, by decide, by decide⟩, 2), (⟨[98], by decide, by decide, by decide⟩, 1)]

theorem parsePath_appends_twoNames :
    parsePath 9 (PathName.toCString 1 twoNames []) [] = some (Status.OK, [[97], [98]]) :=
  (parsePath_appends (PathName.toCString 1 twoNames []) [] (by decide)).2.2 1 twoNames rfl

end CString

end Pain.Deva
