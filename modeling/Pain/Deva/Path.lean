import Pain.Base.Types
import Pain.Lib.Segments

/-!
# Paths

A path reaches the metadata server as a `std::string`. `Deva::create` cuts it
with `std::filesystem::path`, which sees all its bytes, and `Namespace` parses
what `c_str` shows of it, which ends at the first NUL.

`parsePath` follows the two nested loops of `Namespace::parse_path`. Its
components are the segments between the slashes, and a path without NUL that
does not end in a slash has the components of its parent directory followed by
its file name.
-/

namespace Pain.Deva

open Lib (segments segments_nil segments_append_cons segments_cons_self segments_of_not_mem
  segments_eq_takeWhile_cons segments_rdropWhile)

/-- `'/'`. -/
def slash : UInt8 := 47

/-- The bytes that a `const char*` shows of a string. -/
def cStr (path : Bytes) : Bytes :=
  path.takeWhile (fun char => char != 0)

/-- `std::filesystem::path::filename`: what follows the last slash. -/
def filename (path : Bytes) : Bytes :=
  path.rtakeWhile (fun char => char != slash)

/-- `std::filesystem::path::parent_path`. A path without a relative part is its own parent;
elsewhere the file name goes and the slashes before it, unless these are the root directory. -/
def parentPath (path : Bytes) : Bytes :=
  if path.all (fun char => char == slash) then path
  else
    let directory := path.rdropWhile (fun char => char != slash)
    let stripped := directory.rdropWhile (fun char => char == slash)
    if stripped.isEmpty then directory else stripped

/-- The loop of `parse_path`. Every turn moves `p`, so as many turns as there are bytes are
enough. -/
def parseLoop : ℕ → Bytes → List Bytes → List Bytes
  | 0, _, components => components
  | _ + 1, [], components => components
  | turns + 1, char :: rest, components =>
      if char = slash then parseLoop turns rest components
      else
        let (component, q) := (char :: rest).span (fun char => char != slash)
        parseLoop turns q (components ++ [component])

/-- `Namespace::parse_path`. -/
def parsePath (path : Bytes) (components : List Bytes) : Except Failure (List Bytes) :=
  let p := cStr path
  if p.head? = some slash then .ok (parseLoop p.length p components)
  else .error ⟨.EINVAL, "Invalid path"⟩

theorem parseLoop_eq {turns : ℕ} {path : Bytes} (enough : path.length ≤ turns)
    (components : List Bytes) :
    parseLoop turns path components = components ++ segments slash path := by
  induction turns generalizing path components with
  | zero =>
      have empty := List.length_eq_zero_iff.mp (Nat.le_zero.mp enough)
      simp [parseLoop, empty]
  | succ turns ih =>
      cases path with
      | nil => simp [parseLoop]
      | cons char rest =>
          by_cases isSlash : char = slash
          · subst isSlash
            simp only [List.length_cons] at enough
            simp [parseLoop, ih (show rest.length ≤ turns by omega)]
          · have shorter : (rest.dropWhile (fun char => char != slash)).length ≤ turns := by
              have bound : (rest.dropWhile (fun char => char != slash)).length ≤ rest.length :=
                (List.dropWhile_suffix _).length_le
              simp only [List.length_cons] at enough
              omega
            simp [parseLoop, isSlash, List.span_eq_takeWhile_dropWhile, ih shorter,
              segments_eq_takeWhile_cons isSlash]

theorem parsePath_eq (path : Bytes) (components : List Bytes) :
    parsePath path components =
      if (cStr path).head? = some slash then .ok (components ++ segments slash (cStr path))
      else .error ⟨.EINVAL, "Invalid path"⟩ := by
  simp [parsePath, parseLoop_eq le_rfl]

theorem cStr_eq_self {path : Bytes} (noNul : 0 ∉ path) : cStr path = path := by
  apply List.takeWhile_eq_self_iff.mpr
  intro char member
  have nonzero : char ≠ 0 := fun isNul => noNul (isNul ▸ member)
  simpa using nonzero

theorem zero_not_mem_cStr (path : Bytes) : 0 ∉ cStr path :=
  Lib.not_mem_takeWhile 0 path

theorem cStr_eq_of_isPrefix {front path : Bytes} (isFront : front <+: path) (cut : 0 ∈ front) :
    cStr path = cStr front := by
  rcases isFront with ⟨rest, rfl⟩
  have shorter : (cStr front).length ≠ front.length := by
    intro full
    have whole : cStr front = front := (List.takeWhile_prefix _).eq_of_length full
    exact zero_not_mem_cStr front (whole.symm ▸ cut)
  exact List.takeWhile_append.trans (if_neg shorter)

theorem slash_not_mem_filename (path : Bytes) : slash ∉ filename path := by
  intro member
  simpa using List.mem_rtakeWhile_imp member

theorem filename_eq_nil_iff {path : Bytes} (nonempty : path ≠ []) :
    filename path = [] ↔ path.getLast? = some slash := by
  simp [filename, List.rtakeWhile_eq_nil_iff, nonempty, List.getLast?_eq_getLast_of_ne_nil nonempty]

theorem parentPath_isPrefix (path : Bytes) : parentPath path <+: path := by
  unfold parentPath
  split
  · exact List.prefix_refl path
  · have directory := List.rdropWhile_prefix (fun char => char != slash) path
    simp only
    split
    · exact directory
    · exact (List.rdropWhile_prefix _ _).trans directory

theorem mem_parentPath_or_filename {path : Bytes} {char : UInt8} (member : char ∈ path)
    (notSlash : char ≠ slash) : char ∈ parentPath path ∨ char ∈ filename path := by
  have whole : path.rdropWhile (fun char => char != slash) ++ filename path = path :=
    List.rdropWhile_append_rtakeWhile
  rw [← whole] at member
  rcases List.mem_append.mp member with inDirectory | inName
  · left
    unfold parentPath
    split
    · exact (List.rdropWhile_prefix _ _).subset inDirectory
    · simp only
      split
      · exact inDirectory
      · have parts : path.rdropWhile (fun char => char != slash) =
            (path.rdropWhile (fun char => char != slash)).rdropWhile (fun char => char == slash) ++
              (path.rdropWhile (fun char => char != slash)).rtakeWhile
                (fun char => char == slash) := List.rdropWhile_append_rtakeWhile.symm
        rcases List.mem_append.mp (parts ▸ inDirectory) with kept | dropped
        · exact kept
        · have isSlash := List.mem_rtakeWhile_imp dropped
          simp [notSlash] at isSlash
  · exact .inr inName

theorem segments_parentPath_eq {path : Bytes} (named : filename path ≠ []) :
    segments slash (parentPath path) =
      segments slash (path.rdropWhile (fun char => char != slash)) := by
  have notRoot : path.all (fun char => char == slash) = false := by
    rcases List.exists_mem_of_ne_nil _ named with ⟨char, member⟩
    apply List.all_eq_false.mpr
    refine ⟨char, (List.rtakeWhile_suffix (fun char => char != slash) path).subset member, ?_⟩
    simpa using List.mem_rtakeWhile_imp member
  simp only [parentPath, notRoot, Bool.false_eq_true, if_false]
  split
  · rfl
  · exact segments_rdropWhile _

theorem segments_eq_parentPath_append {path : Bytes} (named : filename path ≠ []) :
    segments slash path = segments slash (parentPath path) ++ [filename path] := by
  have whole : path.rdropWhile (fun char => char != slash) ++ filename path = path :=
    List.rdropWhile_append_rtakeWhile
  have nameOnly := segments_of_not_mem (slash_not_mem_filename path) named
  simp only [segments_parentPath_eq named]
  rcases List.eq_nil_or_concat (path.rdropWhile (fun char => char != slash)) with
    empty | ⟨front, last, split⟩
  · simp only [empty, List.nil_append] at whole
    rw [empty, segments_nil, List.nil_append, ← nameOnly, whole]
  · have isSlash : last = slash := by
      have stopped := List.rdropWhile_last_not (fun char => char != slash) path (by simp [split])
      simpa [split] using stopped
    subst isSlash
    calc segments slash path
        = segments slash (front ++ slash :: filename path) := by
          conv_lhs => rw [← whole, split]
          simp
      _ = segments slash front ++ [filename path] := by rw [segments_append_cons, nameOnly]
      _ = _ := by simp [split]

end Pain.Deva
