import Pain.Base.Types

/-!
# The canonical text of an identifier

The usual text of a `UUID` has its sixteen bytes as hexadecimal digits in groups
of eight, four, four, four and twelve. With the order by bytes it is the instance
of `UUID.Text` at which the development is evaluated.
-/

namespace Pain.UUID

/-- The hexadecimal digits of `value`, most significant first. -/
def nibbles : ℕ → ℕ → List ℕ
  | 0, _ => []
  | count + 1, value => nibbles count (value / 16) ++ [value % 16]

/-- The value of a list of hexadecimal digits, most significant first. -/
def fromNibbles (digits : List ℕ) : ℕ :=
  digits.foldl (fun value digit => value * 16 + digit) 0

theorem lt_of_mem_nibbles {count value digit : ℕ} (member : digit ∈ nibbles count value) :
    digit < 16 := by
  induction count generalizing value with
  | zero => simp [nibbles] at member
  | succ count ih =>
      simp only [nibbles, List.mem_append, List.mem_singleton] at member
      rcases member with higher | rfl
      · exact ih higher
      · exact Nat.mod_lt _ (by decide)

/-- A number that fits is read back from its digits. -/
theorem fromNibbles_nibbles {count value : ℕ} (small : value < 16 ^ count) :
    fromNibbles (nibbles count value) = value := by
  induction count generalizing value with
  | zero =>
      simp only [pow_zero, Nat.lt_one_iff] at small
      subst small
      rfl
  | succ count ih =>
      have higher : value / 16 < 16 ^ count := by
        simp only [pow_succ] at small
        exact Nat.div_lt_of_lt_mul (by omega)
      have rest := ih higher
      simp only [fromNibbles] at rest
      simp only [fromNibbles, nibbles, List.foldl_append, rest, List.foldl_cons, List.foldl_nil]
      omega

/-- The character of a digit. -/
def digitChar (digit : ℕ) : UInt8 :=
  UInt8.ofNat (if digit < 10 then 48 + digit else 87 + digit)

/-- The digit of a character. -/
def charDigit (char : UInt8) : ℕ :=
  if char.toNat < 58 then char.toNat - 48 else char.toNat - 87

theorem charDigit_digitChar {digit : ℕ} (small : digit < 16) :
    charDigit (digitChar digit) = digit ∧ digitChar digit ≠ 45 := by
  interval_cases digit <;> decide

/-- The text with its dashes. -/
def canonicalStr (uuid : UUID) : Bytes :=
  let digits := (nibbles 32 (uuid.high.toNat * 2 ^ 64 + uuid.low.toNat)).map digitChar
  digits.take 8 ++ 45 :: ((digits.drop 8).take 4 ++ 45 :: ((digits.drop 12).take 4 ++
    45 :: ((digits.drop 16).take 4 ++ 45 :: digits.drop 20)))

/-- Read the digits and skip the dashes. -/
def canonicalFromStr (text : Bytes) : UUID :=
  let value := fromNibbles ((text.filter (fun char => char != 45)).map charDigit)
  ⟨UInt64.ofNat (value / 2 ^ 64), UInt64.ofNat (value % 2 ^ 64)⟩

theorem canonicalStr_filter (uuid : UUID) :
    (canonicalStr uuid).filter (fun char => char != 45) =
      (nibbles 32 (uuid.high.toNat * 2 ^ 64 + uuid.low.toNat)).map digitChar := by
  simp only [canonicalStr]
  generalize digitsEq :
    (nibbles 32 (uuid.high.toNat * 2 ^ 64 + uuid.low.toNat)).map digitChar = digits
  have noDash : ∀ char ∈ digits, (char != 45) = true := by
    intro char member
    simp only [← digitsEq] at member
    rcases List.mem_map.mp member with ⟨digit, digitMem, rfl⟩
    simpa using (charDigit_digitChar (lt_of_mem_nibbles digitMem)).2
  have keep : ∀ piece : Bytes, piece ⊆ digits → piece.filter (fun char => char != 45) = piece :=
    fun piece inside => List.filter_eq_self.mpr (fun char member => noDash char (inside member))
  have pieces : digits.take 8 ++ ((digits.drop 8).take 4 ++ ((digits.drop 12).take 4 ++
      ((digits.drop 16).take 4 ++ digits.drop 20))) = digits := by
    have join : ∀ start count : ℕ,
        (digits.drop start).take count ++ digits.drop (start + count) = digits.drop start := by
      intro start count
      simp only [← List.drop_drop, List.take_append_drop]
    simp only [join 16 4, join 12 4, join 8 4, List.take_append_drop]
  simp only [List.filter_append, List.filter_cons]
  simp only [bne_self_eq_false, Bool.false_eq_true, if_false]
  have middle : ∀ start count : ℕ, (digits.drop start).take count ⊆ digits :=
    fun start count char member => List.mem_of_mem_drop (List.mem_of_mem_take member)
  rw [keep _ (List.take_subset _ _), keep _ (List.drop_subset _ _), keep _ (middle 8 4),
    keep _ (middle 12 4), keep _ (middle 16 4), pieces]

/-- An identifier is read back from its text. -/
theorem canonicalFromStr_canonicalStr (uuid : UUID) :
    canonicalFromStr (canonicalStr uuid) = uuid := by
  have high := uuid.high.toNat_lt
  have low := uuid.low.toNat_lt
  simp only [canonicalFromStr, canonicalStr_filter, List.map_map]
  have digits : (nibbles 32 (uuid.high.toNat * 2 ^ 64 + uuid.low.toNat)).map
      (charDigit ∘ digitChar) = nibbles 32 (uuid.high.toNat * 2 ^ 64 + uuid.low.toNat) := by
    conv_rhs => rw [← List.map_id (nibbles 32 _)]
    apply List.map_congr_left
    intro digit member
    exact (charDigit_digitChar (lt_of_mem_nibbles member)).1
  rw [digits, fromNibbles_nibbles (by norm_num; omega)]
  have upper : (uuid.high.toNat * 2 ^ 64 + uuid.low.toNat) / 2 ^ 64 = uuid.high.toNat := by omega
  have lower : (uuid.high.toNat * 2 ^ 64 + uuid.low.toNat) % 2 ^ 64 = uuid.low.toNat := by omega
  simp only [upper, lower]
  simp

/-- The canonical text as an instance of the interface. -/
def Text.canonical : Text where
  toOrder := .bytewise
  str := canonicalStr
  fromStrOrDie := canonicalFromStr
  fromStrOrDie_str := canonicalFromStr_canonicalStr

end Pain.UUID
