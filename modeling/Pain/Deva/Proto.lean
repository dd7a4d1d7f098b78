import Pain.Deva.Deva
import Pain.Deva.Op

/-!
# Requests as protocol buffers

The library that serializes and parses messages is not part of the repository.
The log relies on two facts about it: a message that serializes is shorter than
2 GiB, and parsing gives back what was serialized. `Protobuf` states them, and
`Protobuf.wire` is the format for the messages of `deva_store.proto`.
-/

set_option linter.dupNamespace false

namespace Pain.Deva

open Lib.Wire

/-- The type of the operation that carries the request. -/
def Request.opType : Request → OpType
  | .createFile _ => .kCreateFile
  | .createDir _ => .kCreateDir
  | .removeFile => .kRemoveFile
  | .sealFile => .kSealFile
  | .createChunk => .kCreateChunk
  | .checkInChunk => .kCheckInChunk
  | .sealChunk => .kSealChunk
  | .sealAndNewChunk => .kSealAndNewChunk

/-- `SerializeToZeroCopyStream`, and `ParseFromZeroCopyStream` for the request class of an operation
type. -/
structure Protobuf where
  serialize : Request → Option Bytes
  parse : OpType → Bytes → Option Request
  short : ∀ {request : Request} {data : Bytes}, serialize request = some data →
    data.length < 2 ^ 31
  parse_serialize : ∀ {request : Request} {data : Bytes}, serialize request = some data →
    parse request.opType data = some request

/-- A number in a message; zero is the default and is left out. -/
def numberField (number value : ℕ) : List Field :=
  if value = 0 then [] else [⟨number, .varint value⟩]

/-- The fields of the message `UUID`. -/
def uuidFields (id : UUID) : List Field :=
  numberField 1 id.low.toNat ++ numberField 2 id.high.toNat

/-- What a field does to a `UUID` that is being parsed. -/
def mergeUuidField (id : UUID) : Field → UUID
  | ⟨1, .varint value⟩ => { id with low := .ofNat value }
  | ⟨2, .varint value⟩ => { id with high := .ofNat value }
  | _ => id

namespace CreateRequest

/-- The fields in which a creation is encoded. -/
def fields (request : CreateRequest) : List Field :=
  (if request.path = [] then [] else [⟨1, .bytes request.path⟩]) ++
    [⟨2, .bytes (encodeFields (uuidFields request.id))⟩] ++
    numberField 3 request.atime.toNat ++ numberField 4 request.mtime.toNat ++
    numberField 5 request.ctime.toNat ++ numberField 6 request.mode.toNat ++
    numberField 7 request.uid.toNat ++ numberField 8 request.gid.toNat

/-- A creation with all fields at their defaults. -/
def empty : CreateRequest where
  path := []
  id := ⟨0, 0⟩
  atime := 0
  mtime := 0
  ctime := 0
  mode := 0
  uid := 0
  gid := 0

/-- What a field does to a request that is being parsed; an unknown field does nothing. -/
def mergeField (request : CreateRequest) : Field → Option CreateRequest
  | ⟨1, .bytes data⟩ => some { request with path := data }
  | ⟨2, .bytes data⟩ =>
      (decodeFields data).map
        (fun fields => { request with id := fields.foldl mergeUuidField request.id })
  | ⟨3, .varint value⟩ => some { request with atime := .ofNat value }
  | ⟨4, .varint value⟩ => some { request with mtime := .ofNat value }
  | ⟨5, .varint value⟩ => some { request with ctime := .ofNat value }
  | ⟨6, .varint value⟩ => some { request with mode := .ofNat value }
  | ⟨7, .varint value⟩ => some { request with uid := .ofNat value }
  | ⟨8, .varint value⟩ => some { request with gid := .ofNat value }
  | _ => some request

/-- `ParseFromString`. -/
def parse (data : Bytes) : Option CreateRequest :=
  (decodeFields data).bind (fun fields => fields.foldlM mergeField empty)

end CreateRequest

theorem numberField_fits {number value : ℕ} (numberFits : number < 2 ^ 29)
    (valueFits : value < 2 ^ 64) : ∀ field ∈ numberField number value, field.Fits := by
  intro field member
  simp only [numberField] at member
  split at member
  · simp at member
  · simp only [List.mem_singleton] at member
    exact member ▸ ⟨numberFits, valueFits⟩

/-- The message `UUID` is read back. -/
theorem decodeFields_uuidFields (id : UUID) :
    decodeFields (encodeFields (uuidFields id)) = some (uuidFields id) := by
  apply decodeFields_encodeFields
  intro field member
  rcases List.mem_append.mp member with low | high
  · exact numberField_fits (by decide) id.low.toNat_lt field low
  · exact numberField_fits (by decide) id.high.toNat_lt field high

theorem foldl_uuidFields (id : UUID) : (uuidFields id).foldl mergeUuidField ⟨0, 0⟩ = id := by
  have low : (numberField 1 id.low.toNat).foldl mergeUuidField ⟨0, 0⟩ = ⟨0, id.low⟩ := by
    by_cases unset : id.low.toNat = 0
    · simp [numberField, UInt64.toNat.inj (b := 0) unset]
    · simp [numberField, unset, mergeUuidField]
  have high : (numberField 2 id.high.toNat).foldl mergeUuidField ⟨0, id.low⟩ = id := by
    by_cases unset : id.high.toNat = 0
    · simp [numberField, unset, ← UInt64.toNat.inj (b := 0) unset]
    · simp [numberField, unset, mergeUuidField]
  simp [uuidFields, low, high]


namespace CreateRequest

theorem foldlM_numberField {number value : ℕ} {before after : CreateRequest}
    (merged : before.mergeField ⟨number, .varint value⟩ = some after)
    (unset : value = 0 → before = after) :
    (numberField number value).foldlM mergeField before = some after := by
  by_cases zero : value = 0
  · simp [numberField, zero, unset zero]
  · simp [numberField, zero, merged]

/-- Merging the fields of a creation gives it back. -/
theorem foldlM_fields (request : CreateRequest) :
    request.fields.foldlM mergeField empty = some request := by
  rcases request with ⟨path, id, atime, mtime, ctime, mode, uid, gid⟩
  have pathStep : (if path = [] then [] else [⟨1, .bytes path⟩] : List Field).foldlM
      mergeField empty = some ⟨path, ⟨0, 0⟩, 0, 0, 0, 0, 0, 0⟩ := by
    by_cases unset : path = []
    · simp [unset, empty]
    · simp [unset, empty, mergeField]
  have idStep : mergeField ⟨path, ⟨0, 0⟩, 0, 0, 0, 0, 0, 0⟩
      ⟨2, .bytes (encodeFields (uuidFields id))⟩ = some ⟨path, id, 0, 0, 0, 0, 0, 0⟩ := by
    simp [mergeField, decodeFields_uuidFields, foldl_uuidFields]
  have atimeStep : (numberField 3 atime.toNat).foldlM mergeField ⟨path, id, 0, 0, 0, 0, 0, 0⟩ =
      some ⟨path, id, atime, 0, 0, 0, 0, 0⟩ :=
    foldlM_numberField (by simp [mergeField])
      (fun zero => by simp [UInt64.toNat.inj (b := 0) zero])
  have mtimeStep : (numberField 4 mtime.toNat).foldlM mergeField
      ⟨path, id, atime, 0, 0, 0, 0, 0⟩ = some ⟨path, id, atime, mtime, 0, 0, 0, 0⟩ :=
    foldlM_numberField (by simp [mergeField])
      (fun zero => by simp [UInt64.toNat.inj (b := 0) zero])
  have ctimeStep : (numberField 5 ctime.toNat).foldlM mergeField
      ⟨path, id, atime, mtime, 0, 0, 0, 0⟩ = some ⟨path, id, atime, mtime, ctime, 0, 0, 0⟩ :=
    foldlM_numberField (by simp [mergeField])
      (fun zero => by simp [UInt64.toNat.inj (b := 0) zero])
  have modeStep : (numberField 6 mode.toNat).foldlM mergeField
      ⟨path, id, atime, mtime, ctime, 0, 0, 0⟩ =
        some ⟨path, id, atime, mtime, ctime, mode, 0, 0⟩ :=
    foldlM_numberField (by simp [mergeField])
      (fun zero => by simp [UInt32.toNat.inj (b := 0) zero])
  have uidStep : (numberField 7 uid.toNat).foldlM mergeField
      ⟨path, id, atime, mtime, ctime, mode, 0, 0⟩ =
        some ⟨path, id, atime, mtime, ctime, mode, uid, 0⟩ :=
    foldlM_numberField (by simp [mergeField])
      (fun zero => by simp [UInt32.toNat.inj (b := 0) zero])
  have gidStep : (numberField 8 gid.toNat).foldlM mergeField
      ⟨path, id, atime, mtime, ctime, mode, uid, 0⟩ =
        some ⟨path, id, atime, mtime, ctime, mode, uid, gid⟩ :=
    foldlM_numberField (by simp [mergeField])
      (fun zero => by simp [UInt32.toNat.inj (b := 0) zero])
  simp only [fields, List.foldlM_append, pathStep, Option.bind_eq_bind, Option.bind_some,
    List.foldlM_cons, List.foldlM_nil, idStep, Option.pure_def, atimeStep, mtimeStep, ctimeStep,
    modeStep, uidStep, gidStep]

/-- The fields of a message that is short enough fit into the wire format. -/
theorem fields_fit {request : CreateRequest}
    (short : (encodeFields request.fields).length < 2 ^ 31) :
    ∀ field ∈ request.fields, field.Fits := by
  have bytesFit : ∀ (number : ℕ) (data : Bytes), number < 2 ^ 29 →
      (⟨number, .bytes data⟩ : Field) ∈ request.fields →
        (⟨number, .bytes data⟩ : Field).Fits := by
    intro number data numberFits member
    have part := length_encode_le member
    simp only [Field.encode, List.length_append] at part
    exact ⟨numberFits, by simp only; omega⟩
  have wordFits : ∀ number : UInt32, number.toNat < 2 ^ 64 := by
    intro number
    have := number.toNat_lt
    omega
  intro field member
  have parts := member
  simp only [fields, List.mem_append] at parts
  rcases parts with ((((((path | id) | atime) | mtime) | ctime) | mode) | uid) | gid
  · split at path
    · simp at path
    · simp only [List.mem_singleton] at path
      subst path
      exact bytesFit 1 _ (by decide) member
  · simp only [List.mem_singleton] at id
    subst id
    exact bytesFit 2 _ (by decide) member
  · exact numberField_fits (by decide) request.atime.toNat_lt field atime
  · exact numberField_fits (by decide) request.mtime.toNat_lt field mtime
  · exact numberField_fits (by decide) request.ctime.toNat_lt field ctime
  · exact numberField_fits (by decide) (wordFits request.mode) field mode
  · exact numberField_fits (by decide) (wordFits request.uid) field uid
  · exact numberField_fits (by decide) (wordFits request.gid) field gid

/-- A creation is read back from its message. -/
theorem parse_encodeFields {request : CreateRequest}
    (short : (encodeFields request.fields).length < 2 ^ 31) :
    parse (encodeFields request.fields) = some request := by
  simp [parse, decodeFields_encodeFields (fields_fit short), foldlM_fields]

end CreateRequest

/-- The message of a request; most request classes have no fields. -/
def Request.message : Request → Bytes
  | .createFile request => encodeFields request.fields
  | .createDir request => encodeFields request.fields
  | _ => []

/-- A request without fields accepts every message that has the form of one. -/
def parseEmpty (request : Request) (data : Bytes) : Option Request :=
  (decodeFields data).map (fun _ => request)

/-- The wire format. Paths are not checked to be UTF-8 here: the service has them from a message
that was. -/
def Protobuf.wire : Protobuf where
  serialize request :=
    if request.message.length < 2 ^ 31 then some request.message else none
  parse
    | .kInvalid, _ => none
    | .kCreateFile, data => (CreateRequest.parse data).map Request.createFile
    | .kCreateDir, data => (CreateRequest.parse data).map Request.createDir
    | .kRemoveFile, data => parseEmpty .removeFile data
    | .kSealFile, data => parseEmpty .sealFile data
    | .kCreateChunk, data => parseEmpty .createChunk data
    | .kCheckInChunk, data => parseEmpty .checkInChunk data
    | .kSealChunk, data => parseEmpty .sealChunk data
    | .kSealAndNewChunk, data => parseEmpty .sealAndNewChunk data
  short := by
    intro request data serialized
    split at serialized
    · simp only [Option.some.injEq] at serialized
      simpa [← serialized]
    · simp at serialized
  parse_serialize := by
    intro request data serialized
    split at serialized
    · rename_i short
      simp only [Option.some.injEq] at serialized
      subst serialized
      cases request with
      | createFile request =>
          simp [Request.opType, Request.message, CreateRequest.parse_encodeFields short]
      | createDir request =>
          simp [Request.opType, Request.message, CreateRequest.parse_encodeFields short]
      | _ => rfl
    · simp at serialized

end Pain.Deva
