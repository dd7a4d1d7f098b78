import Mathlib

/-!
# Wire formats

Numbers of a fixed width in little-endian order, and messages in the format of
protocol buffers: a message is a sequence of fields, each with a number and with
a varint or a string of bytes as its value. The main results are the round
trips `ofLittleEndian_toLittleEndian` and `decodeFields_encodeFields`.
-/

namespace Pain.Lib.Wire

section LittleEndian

/-- The `width` low bytes of a number, the least significant first. -/
def toLittleEndian : ℕ → ℕ → List UInt8
  | 0, _ => []
  | width + 1, number => UInt8.ofNat number :: toLittleEndian width (number / 256)

/-- The number whose bytes, the least significant first, are given. -/
def ofLittleEndian : List UInt8 → ℕ
  | [] => 0
  | byte :: bytes => byte.toNat + 256 * ofLittleEndian bytes

@[simp]
theorem length_toLittleEndian (width number : ℕ) :
    (toLittleEndian width number).length = width := by
  induction width generalizing number with
  | zero => rfl
  | succ width ih => simp [toLittleEndian, ih]

theorem ofLittleEndian_toLittleEndian {width number : ℕ} (bound : number < 256 ^ width) :
    ofLittleEndian (toLittleEndian width number) = number := by
  induction width generalizing number with
  | zero =>
      simp only [pow_zero, Nat.lt_one_iff] at bound
      simp [toLittleEndian, ofLittleEndian, bound]
  | succ width ih =>
      have smaller : number / 256 < 256 ^ width := by
        apply Nat.div_lt_of_lt_mul
        simpa [pow_succ, mul_comm] using bound
      simp only [toLittleEndian, ofLittleEndian, ih smaller, UInt8.toNat_ofNat']
      omega

end LittleEndian

section Varint

/-- Seven bits to a byte, the least significant first; every byte but the last has its top bit
set. -/
def encodeVarint : ℕ → ℕ → List UInt8
  | 0, _ => []
  | width + 1, number =>
      if number < 128 then [UInt8.ofNat number]
      else UInt8.ofNat (number % 128 + 128) :: encodeVarint width (number / 128)

/-- The number at the front of the input, and the rest. -/
def decodeVarint : ℕ → List UInt8 → Option (ℕ × List UInt8)
  | 0, _ => none
  | _ + 1, [] => none
  | width + 1, byte :: rest =>
      if byte.toNat < 128 then some (byte.toNat, rest)
      else
        (decodeVarint width rest).map
          (fun (high, rest) => (byte.toNat % 128 + 128 * high, rest))

theorem decodeVarint_encodeVarint {width number : ℕ} (bound : number < 128 ^ width)
    (positive : 0 < width) (rest : List UInt8) :
    decodeVarint width (encodeVarint width number ++ rest) = some (number, rest) := by
  induction width generalizing number with
  | zero => simp at positive
  | succ width ih =>
      by_cases small : number < 128
      · have byte : (UInt8.ofNat number).toNat = number := by
          simp only [UInt8.toNat_ofNat']
          omega
        simp [encodeVarint, small, decodeVarint, byte]
      · have byte : (UInt8.ofNat (number % 128 + 128)).toNat = number % 128 + 128 := by
          simp only [UInt8.toNat_ofNat']
          omega
        have smaller : number / 128 < 128 ^ width := by
          apply Nat.div_lt_of_lt_mul
          simpa [pow_succ, mul_comm] using bound
        have stillPositive : 0 < width := by
          by_contra none
          simp only [Nat.pos_iff_ne_zero, ne_eq, not_not] at none
          simp only [none, pow_zero, Nat.lt_one_iff] at smaller
          omega
        simp only [encodeVarint, small, if_false, List.cons_append, decodeVarint, byte,
          ih smaller stillPositive]
        simp only [show ¬ number % 128 + 128 < 128 by omega, if_false, Option.map_some,
          Option.some.injEq, Prod.mk.injEq, and_true]
        omega

theorem length_encodeVarint_le (width number : ℕ) :
    (encodeVarint width number).length ≤ width := by
  induction width generalizing number with
  | zero => simp [encodeVarint]
  | succ width ih =>
      simp only [encodeVarint]
      split
      · simp
      · simpa using ih (number / 128)

theorem encodeVarint_ne_nil {width number : ℕ} (positive : 0 < width) :
    encodeVarint width number ≠ [] := by
  cases width with
  | zero => simp at positive
  | succ width =>
      simp only [encodeVarint]
      split <;> simp

end Varint

/-- A number of 64 bits takes at most ten bytes. -/
def varintWidth : ℕ := 10

theorem decodeVarint_encodeVarint_of_lt {number : ℕ} (bound : number < 2 ^ 64)
    (rest : List UInt8) :
    decodeVarint varintWidth (encodeVarint varintWidth number ++ rest) = some (number, rest) := by
  apply decodeVarint_encodeVarint
  · simp only [varintWidth]
    omega
  · decide

/-- What a field carries: a varint, or bytes with their length. -/
inductive Value where
  | varint (number : ℕ)
  | bytes (data : List UInt8)
deriving DecidableEq, Repr

/-- A field: its number and what it carries. -/
structure Field where
  number : ℕ
  value : Value
deriving DecidableEq, Repr

namespace Field

/-- The field number and the wire type of the value, in one varint, and the value. -/
def encode (field : Field) : List UInt8 :=
  match field.value with
  | .varint number =>
      encodeVarint varintWidth (field.number * 8) ++ encodeVarint varintWidth number
  | .bytes data =>
      encodeVarint varintWidth (field.number * 8 + 2) ++
        (encodeVarint varintWidth data.length ++ data)

/-- The field at the front of the input, and the rest. -/
def decode (input : List UInt8) : Option (Field × List UInt8) :=
  match decodeVarint varintWidth input with
  | none => none
  | some (tag, input) =>
      match decodeVarint varintWidth input with
      | none => none
      | some (number, input) =>
          if tag % 8 = 0 then some (⟨tag / 8, .varint number⟩, input)
          else if tag % 8 = 2 ∧ number ≤ input.length then
            some (⟨tag / 8, .bytes (input.take number)⟩, input.drop number)
          else none

/-- The numbers in the field fit their encodings. -/
def Fits (field : Field) : Prop :=
  field.number < 2 ^ 29 ∧
    match field.value with
    | .varint number => number < 2 ^ 64
    | .bytes data => data.length < 2 ^ 64

theorem decode_encode {field : Field} (fits : field.Fits) (rest : List UInt8) :
    decode (field.encode ++ rest) = some (field, rest) := by
  rcases field with ⟨number, value⟩
  rcases fits with ⟨numberFits, valueFits⟩
  simp only at numberFits valueFits
  cases value with
  | varint value =>
      have tag := decodeVarint_encodeVarint_of_lt (show number * 8 < 2 ^ 64 by omega)
      have payload := decodeVarint_encodeVarint_of_lt valueFits
      simp [encode, decode, List.append_assoc, tag, payload]
  | bytes data =>
      have tag := decodeVarint_encodeVarint_of_lt (show number * 8 + 2 < 2 ^ 64 by omega)
      have length := decodeVarint_encodeVarint_of_lt valueFits
      simp [encode, decode, List.append_assoc, tag, length]
      omega

theorem encode_ne_nil (field : Field) : field.encode ≠ [] := by
  have tag : ∀ number, encodeVarint varintWidth number ≠ [] :=
    fun number => encodeVarint_ne_nil (by decide)
  cases value : field.value <;> simp [encode, value, tag]

end Field

/-- Field after field. -/
def encodeFields (fields : List Field) : List UInt8 :=
  fields.flatMap Field.encode

theorem length_encode_le {field : Field} {fields : List Field} (member : field ∈ fields) :
    field.encode.length ≤ (encodeFields fields).length := by
  simp only [encodeFields, List.length_flatMap]
  exact List.le_sum_of_mem (List.mem_map.mpr ⟨field, member, rfl⟩)

/-- The fields of a message. Every field takes a byte at least, so as many turns as there are bytes
are enough. -/
def decodeLoop : ℕ → List UInt8 → Option (List Field)
  | _, [] => some []
  | 0, _ :: _ => none
  | turns + 1, input =>
      match Field.decode input with
      | none => none
      | some (field, rest) => (decodeLoop turns rest).map (fun fields => field :: fields)

/-- Read fields until the input is used up. -/
def decodeFields (input : List UInt8) : Option (List Field) :=
  decodeLoop input.length input

theorem decodeLoop_encodeFields {fields : List Field} (fits : ∀ field ∈ fields, field.Fits)
    {turns : ℕ} (enough : (encodeFields fields).length ≤ turns) :
    decodeLoop turns (encodeFields fields) = some fields := by
  induction fields generalizing turns with
  | nil => cases turns <;> rfl
  | cons field fields ih =>
      have split : encodeFields (field :: fields) = field.encode ++ encodeFields fields := rfl
      have positive : 0 < field.encode.length := List.length_pos_iff.mpr field.encode_ne_nil
      simp only [split, List.length_append] at enough
      cases turns with
      | zero => omega
      | succ turns =>
          have decoded := Field.decode_encode (fits field List.mem_cons_self) (encodeFields fields)
          have rest := ih (fun other later => fits other (List.mem_cons_of_mem _ later))
            (show (encodeFields fields).length ≤ turns by omega)
          cases whole : field.encode ++ encodeFields fields with
          | nil => simp [field.encode_ne_nil] at whole
          | cons byte bytes =>
              simp only [whole] at decoded
              simp [split, whole, decodeLoop, decoded, rest]

theorem decodeFields_encodeFields {fields : List Field} (fits : ∀ field ∈ fields, field.Fits) :
    decodeFields (encodeFields fields) = some fields :=
  decodeLoop_encodeFields fits le_rfl

end Pain.Lib.Wire
