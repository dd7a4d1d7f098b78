import Pain.Deva.Proto

/-!
# The messages of the topology service

`asura.proto` describes a server by its identifier, its address and, for a
chunk server, its pool. The library that serializes these messages is not part
of the repository, and the service relies on it only to parse what it has
serialized. `Codec` states that, and `DevaServer.wire` and `ManusyaServer.wire`
are the format for the two messages.
-/

namespace Pain.Asura

open Lib.Wire
open Deva (numberField numberField_fits uuidFields mergeUuidField decodeFields_uuidFields
  foldl_uuidFields)

/-- `SerializeAsString`, and `ParseFromArray` into a new message. -/
structure Codec (Message : Type) where
  serialize : Message → Bytes
  parse : Bytes → Message
  parse_serialize : ∀ message, parse (serialize message) = message

theorem Codec.serialize_injective {Message : Type} (codec : Codec Message) :
    Function.Injective codec.serialize :=
  Function.LeftInverse.injective codec.parse_serialize

/-- A `string` of a message, which is shorter than 2 GiB. -/
abbrev ProtoString := { bytes : Bytes // bytes.length < 2 ^ 31 }

namespace ProtoString

/-- The default value of a string. -/
def empty : ProtoString := ⟨[], by decide⟩

/-- A string that is being parsed; the library rejects what is too long. -/
def ofBytes (bytes : Bytes) : ProtoString :=
  if short : bytes.length < 2 ^ 31 then ⟨bytes, short⟩ else empty

/-- A string that is parsed again is the same string. -/
@[simp]
theorem ofBytes_val (text : ProtoString) : ofBytes text.val = text := by
  simp only [ofBytes, dif_pos text.property]

end ProtoString

/-- `pain::proto::asura::DevaServer`. -/
structure DevaServer where
  id : Option UUID
  ip : ProtoString
  port : UInt32
deriving DecidableEq

/-- `pain::proto::asura::ManusyaServer`. -/
structure ManusyaServer where
  id : Option UUID
  ip : ProtoString
  port : UInt32
  poolId : Option UUID
deriving DecidableEq

/-- A submessage of type `UUID`, which may be missing. -/
def idField (number : ℕ) (id : Option UUID) : List Field :=
  id.toList.map fun id => ⟨number, .bytes (encodeFields (uuidFields id))⟩

/-- A string; the empty string is the default and is left out. -/
def stringField (number : ℕ) (text : ProtoString) : List Field :=
  if text.val = [] then [] else [⟨number, .bytes text.val⟩]

/-- The message `UUID` in a field, merged into the one that has been read. -/
def mergeId (id : Option UUID) (data : Bytes) : Option UUID :=
  some (((decodeFields data).getD []).foldl mergeUuidField (id.getD ⟨0, 0⟩))

/-- An identifier that is encoded is read back. -/
theorem mergeId_uuidFields (id : UUID) :
    mergeId none (encodeFields (uuidFields id)) = some id := by
  simp [mergeId, decodeFields_uuidFields, foldl_uuidFields]

theorem length_encodeFields_numberField_le (number value : ℕ) :
    (encodeFields (numberField number value)).length ≤ 20 := by
  have tag := length_encodeVarint_le varintWidth (number * 8)
  have content := length_encodeVarint_le varintWidth value
  simp only [varintWidth] at tag content
  by_cases unset : value = 0
  · simp [numberField, unset, encodeFields]
  · simp only [numberField, unset, if_false, encodeFields, List.flatMap_singleton, Field.encode,
      List.length_append, varintWidth]
    omega

theorem idField_fits {number : ℕ} (numberFits : number < 2 ^ 29) (id : Option UUID) :
    ∀ field ∈ idField number id, field.Fits := by
  intro field member
  simp only [idField, List.mem_map] at member
  rcases member with ⟨uuid, -, rfl⟩
  have low := length_encodeFields_numberField_le 1 uuid.low.toNat
  have high := length_encodeFields_numberField_le 2 uuid.high.toNat
  refine ⟨numberFits, ?_⟩
  simp only [encodeFields, uuidFields, List.flatMap_append, List.length_append] at low high ⊢
  omega

theorem stringField_fits {number : ℕ} (numberFits : number < 2 ^ 29) (text : ProtoString) :
    ∀ field ∈ stringField number text, field.Fits := by
  intro field member
  simp only [stringField] at member
  split at member
  · simp at member
  · simp only [List.mem_singleton] at member
    have short := text.property
    exact member ▸ ⟨numberFits, by simp only; omega⟩

namespace DevaServer

/-- The fields in which a deva server is encoded. -/
def fields (server : DevaServer) : List Field :=
  idField 1 server.id ++ stringField 2 server.ip ++ numberField 3 server.port.toNat

/-- A deva server with all fields at their defaults. -/
def empty : DevaServer := ⟨none, ProtoString.empty, 0⟩

/-- What a field does to a message that is being parsed; an unknown field does nothing. -/
def mergeField (server : DevaServer) : Field → DevaServer
  | ⟨1, .bytes data⟩ => { server with id := mergeId server.id data }
  | ⟨2, .bytes data⟩ => { server with ip := .ofBytes data }
  | ⟨3, .varint value⟩ => { server with port := .ofNat value }
  | _ => server

/-- Merging the fields of a deva server gives it back. -/
theorem foldl_fields (server : DevaServer) : server.fields.foldl mergeField empty = server := by
  rcases server with ⟨id, ip, port⟩
  have idStep : (idField 1 id).foldl mergeField empty = ⟨id, .empty, 0⟩ := by
    cases id with
    | none => rfl
    | some id => simp [idField, mergeField, empty, mergeId_uuidFields]
  have ipStep : (stringField 2 ip).foldl mergeField ⟨id, .empty, 0⟩ = ⟨id, ip, 0⟩ := by
    by_cases unset : ip.val = []
    · have default : ip = .empty := Subtype.ext unset
      simp [stringField, default, ProtoString.empty]
    · simp [stringField, unset, mergeField]
  have portStep : (numberField 3 port.toNat).foldl mergeField ⟨id, ip, 0⟩ = ⟨id, ip, port⟩ := by
    by_cases unset : port.toNat = 0
    · simp [numberField, UInt32.toNat.inj (b := 0) unset]
    · simp [numberField, unset, mergeField]
  simp only [fields, List.foldl_append, idStep, ipStep, portStep]

theorem fields_fit (server : DevaServer) : ∀ field ∈ server.fields, field.Fits := by
  intro field member
  have wordFits := server.port.toNat_lt
  simp only [fields, List.mem_append] at member
  rcases member with (id | ip) | port
  · exact idField_fits (by decide) server.id field id
  · exact stringField_fits (by decide) server.ip field ip
  · exact numberField_fits (by decide) (by omega) field port

/-- The format of the message. -/
def wire : Codec DevaServer where
  serialize server := encodeFields server.fields
  parse data := ((decodeFields data).getD []).foldl mergeField empty
  parse_serialize server := by
    simp [decodeFields_encodeFields server.fields_fit, foldl_fields]

end DevaServer

namespace ManusyaServer

/-- The fields in which a chunk server is encoded. -/
def fields (server : ManusyaServer) : List Field :=
  idField 1 server.id ++ stringField 2 server.ip ++ numberField 3 server.port.toNat ++
    idField 4 server.poolId

/-- A chunk server with all fields at their defaults. -/
def empty : ManusyaServer := ⟨none, ProtoString.empty, 0, none⟩

/-- What a field does to a message that is being parsed; an unknown field does nothing. -/
def mergeField (server : ManusyaServer) : Field → ManusyaServer
  | ⟨1, .bytes data⟩ => { server with id := mergeId server.id data }
  | ⟨2, .bytes data⟩ => { server with ip := .ofBytes data }
  | ⟨3, .varint value⟩ => { server with port := .ofNat value }
  | ⟨4, .bytes data⟩ => { server with poolId := mergeId server.poolId data }
  | _ => server

/-- Merging the fields of a chunk server gives it back. -/
theorem foldl_fields (server : ManusyaServer) : server.fields.foldl mergeField empty = server := by
  rcases server with ⟨id, ip, port, poolId⟩
  have idStep : (idField 1 id).foldl mergeField empty = ⟨id, .empty, 0, none⟩ := by
    cases id with
    | none => rfl
    | some id => simp [idField, mergeField, empty, mergeId_uuidFields]
  have ipStep : (stringField 2 ip).foldl mergeField ⟨id, .empty, 0, none⟩ =
      ⟨id, ip, 0, none⟩ := by
    by_cases unset : ip.val = []
    · have default : ip = .empty := Subtype.ext unset
      simp [stringField, default, ProtoString.empty]
    · simp [stringField, unset, mergeField]
  have portStep : (numberField 3 port.toNat).foldl mergeField ⟨id, ip, 0, none⟩ =
      ⟨id, ip, port, none⟩ := by
    by_cases unset : port.toNat = 0
    · simp [numberField, UInt32.toNat.inj (b := 0) unset]
    · simp [numberField, unset, mergeField]
  have poolStep : (idField 4 poolId).foldl mergeField ⟨id, ip, port, none⟩ =
      ⟨id, ip, port, poolId⟩ := by
    cases poolId with
    | none => rfl
    | some poolId => simp [idField, mergeField, mergeId_uuidFields]
  simp only [fields, List.foldl_append, idStep, ipStep, portStep, poolStep]

theorem fields_fit (server : ManusyaServer) : ∀ field ∈ server.fields, field.Fits := by
  intro field member
  have wordFits := server.port.toNat_lt
  simp only [fields, List.mem_append] at member
  rcases member with ((id | ip) | port) | pool
  · exact idField_fits (by decide) server.id field id
  · exact stringField_fits (by decide) server.ip field ip
  · exact numberField_fits (by decide) (by omega) field port
  · exact idField_fits (by decide) server.poolId field pool

/-- The format of the message. -/
def wire : Codec ManusyaServer where
  serialize server := encodeFields server.fields
  parse data := ((decodeFields data).getD []).foldl mergeField empty
  parse_serialize server := by
    simp [decodeFields_encodeFields server.fields_fit, foldl_fields]

end ManusyaServer

end Pain.Asura
