import Pain.Base.Types
import Pain.Lib.Wire

/-!
# Log records

An operation goes into the replicated log as a header of 64 bytes, the struct
`OpMeta` as it lies in memory, followed by the serialized request. `decode` cuts
the two off the front of a buffer and hands the type and the payload to its
callback; it does not look at how many bytes it got.
-/

namespace Pain.Deva

open Lib.Wire (toLittleEndian ofLittleEndian ofLittleEndian_toLittleEndian length_toLittleEndian)

/-- `pain::deva::OpType`. -/
inductive OpType where
  | kInvalid
  | kCreateFile
  | kCreateDir
  | kRemoveFile
  | kSealFile
  | kCreateChunk
  | kCheckInChunk
  | kSealChunk
  | kSealAndNewChunk
deriving DecidableEq, Repr

/-- The value of an enumerator. -/
def OpType.code : OpType → UInt32
  | .kInvalid => 0
  | .kCreateFile => 1
  | .kCreateDir => 2
  | .kRemoveFile => 3
  | .kSealFile => 4
  | .kCreateChunk => 5
  | .kCheckInChunk => 6
  | .kSealChunk => 7
  | .kSealAndNewChunk => 8

/-- `OpMeta`, without the reserved bytes. The type is a number, as no value of it is checked before
the dispatch. -/
@[ext]
structure OpMeta where
  version : UInt32
  type : UInt32
  timestamp : UInt64
  size : UInt32
deriving DecidableEq, Repr

namespace OpMeta

/-- `sizeof(OpMeta)`. -/
def sizeOf : ℕ := 64

/-- The struct in memory: 40 reserved bytes and four bytes of padding follow the fields. -/
def bytes (opMeta : OpMeta) : Bytes :=
  toLittleEndian 4 opMeta.version.toNat ++ toLittleEndian 4 opMeta.type.toNat ++
    toLittleEndian 8 opMeta.timestamp.toNat ++ toLittleEndian 4 opMeta.size.toNat ++
    List.replicate 44 0

/-- A struct of zeros with `data` copied over its first bytes. -/
def ofBytes (data : Bytes) : OpMeta where
  version := .ofNat (ofLittleEndian (data.take 4))
  type := .ofNat (ofLittleEndian ((data.drop 4).take 4))
  timestamp := .ofNat (ofLittleEndian ((data.drop 8).take 8))
  size := .ofNat (ofLittleEndian ((data.drop 16).take 4))

@[simp]
theorem length_bytes (opMeta : OpMeta) : opMeta.bytes.length = sizeOf := by
  simp [bytes, sizeOf]

/-- The header of a record is read back from its bytes. -/
@[simp]
theorem ofBytes_bytes (opMeta : OpMeta) : ofBytes opMeta.bytes = opMeta := by
  have word : ∀ number : UInt32, ofLittleEndian (toLittleEndian 4 number.toNat) = number.toNat :=
    fun number => ofLittleEndian_toLittleEndian number.toNat_lt
  have double : ∀ number : UInt64, ofLittleEndian (toLittleEndian 8 number.toNat) = number.toNat :=
    fun number => ofLittleEndian_toLittleEndian number.toNat_lt
  ext <;> simp [ofBytes, bytes, List.drop_append, List.drop_eq_nil_of_le, word, double]

end OpMeta

/-- `IOBuf::cutn`: at most `count` bytes off the front, and what stays in the buffer. -/
def cutn (count : ℕ) (buf : Bytes) : Bytes × Bytes :=
  (buf.take count, buf.drop count)

/-- `encode` of an operation whose request serializes to `payload`. -/
def encode (timestamp : UInt64) (type : OpType) (payload : Bytes) : Bytes :=
  let opMeta : OpMeta :=
    { version := 1
      type := type.code
      timestamp := timestamp
      size := .ofNat payload.length }
  opMeta.bytes ++ payload

/-- `decode`: the arguments of the callback, and what stays in the buffer. -/
def decode (buf : Bytes) : (UInt32 × Bytes) × Bytes :=
  let (header, buf) := cutn OpMeta.sizeOf buf
  let opMeta := OpMeta.ofBytes header
  let (payload, buf) := cutn opMeta.size.toNat buf
  ((opMeta.type, payload), buf)

theorem cutn_bytes (opMeta : OpMeta) (rest : Bytes) :
    cutn OpMeta.sizeOf (opMeta.bytes ++ rest) = (opMeta.bytes, rest) := by
  simp only [cutn, ← opMeta.length_bytes, List.take_left, List.drop_left]

/-- The callback gets what was encoded, and what follows the record stays in the buffer. -/
theorem decode_encode (timestamp : UInt64) (type : OpType) {payload : Bytes}
    (short : payload.length < 2 ^ 32) (rest : Bytes) :
    decode (encode timestamp type payload ++ rest) = ((type.code, payload), rest) := by
  have size : (UInt32.ofNat payload.length).toNat = payload.length :=
    UInt32.toNat_ofNat_of_lt' short
  simp only [decode, encode, List.append_assoc, cutn_bytes, OpMeta.ofBytes_bytes, size]
  simp [cutn]

end Pain.Deva
