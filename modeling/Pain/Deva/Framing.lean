import Pain.Deva.Rsm

/-!
# Framing of log records

`decode` cuts one record off the front of a buffer and calls back with the type
and the payload. The callback is a function with effects: it is a computation
in an arbitrary monad here, so that a statement about `decode` says how often
and with which arguments it is called.

Whole records come back one by one, whatever follows them. A record that has
lost its end is handed on like any other, since nothing compares the number of
bytes that `cutn` moved with the number that was asked for.
-/

set_option linter.dupNamespace false

namespace Pain.Deva

open Lib.Wire (toLittleEndian ofLittleEndian)

section Callbacks

variable {m : Type → Type} [Monad m] {Op : Type}

/-- `decode` with its callback: the operation, and what stays in the buffer. -/
def decodeWith (callback : UInt32 → Bytes → m Op) (buf : Bytes) : m (Op × Bytes) := do
  let ((type, payload), rest) := decode buf
  let op ← callback type payload
  return (op, rest)

/-- So many calls of `decode`, one after another on one buffer. -/
def decodeMany (callback : UInt32 → Bytes → m Op) : ℕ → Bytes → m (List Op × Bytes)
  | 0, buf => return ([], buf)
  | count + 1, buf => do
      let (op, rest) ← decodeWith callback buf
      let (ops, rest) ← decodeMany callback count rest
      return (op :: ops, rest)

end Callbacks

/-- What `encode` is given: the time, the type of the operation and its serialized request. -/
structure LogOp where
  timestamp : UInt64
  type : OpType
  payload : Bytes
deriving DecidableEq, Repr

namespace LogOp

/-- The record of an operation. -/
def encode (op : LogOp) : Bytes :=
  Deva.encode op.timestamp op.type op.payload

/-- The payload fits into the size field. -/
def Short (op : LogOp) : Prop :=
  op.payload.length < 2 ^ 32

instance (op : LogOp) : Decidable op.Short :=
  inferInstanceAs (Decidable (_ < _))

end LogOp

theorem OpType.code_injective : Function.Injective OpType.code := by
  intro left right same
  cases left <;> cases right <;> first | rfl | cases same

section RoundTrip

variable {m : Type → Type} [Monad m] [LawfulMonad m] {Op : Type}

/-- A record is read back, and what follows it is left in the buffer. -/
theorem decodeWith_encode (callback : UInt32 → Bytes → m Op) {op : LogOp} (short : op.Short)
    (rest : Bytes) :
    decodeWith callback (op.encode ++ rest) =
      (fun result => (result, rest)) <$> callback op.type.code op.payload := by
  simp only [decodeWith, LogOp.encode, decode_encode op.timestamp op.type short rest]
  rw [map_eq_pure_bind]

/-- Records that follow one another are read back one after another. -/
theorem decodeMany_encode (callback : UInt32 → Bytes → m Op) {ops : List LogOp}
    (short : ∀ op ∈ ops, op.Short) (rest : Bytes) :
    decodeMany callback ops.length (ops.flatMap LogOp.encode ++ rest) =
      (fun results => (results, rest)) <$>
        ops.mapM (fun op => callback op.type.code op.payload) := by
  induction ops with
  | nil => simp [decodeMany]
  | cons op ops ih =>
      have later := ih (fun other member => short other (List.mem_cons_of_mem _ member))
      rw [List.flatMap_cons, List.append_assoc, List.length_cons, decodeMany,
        decodeWith_encode callback (short op List.mem_cons_self)]
      simp [later]

/-- Records come back as they were written. For every callback, with effects of any kind, decoding
the record of an operation with anything behind it calls back once, with the type and the payload
that were encoded, and leaves what is behind the record; so a concatenation of records calls back
for each of them in order. No two types have the same number. -/
theorem framing_round_trip (callback : UInt32 → Bytes → m Op) (ops : List LogOp)
    (short : ∀ op ∈ ops, op.Short) (rest : Bytes) :
    (∀ op : LogOp, op.Short → decodeWith callback (op.encode ++ rest) =
      (fun result => (result, rest)) <$> callback op.type.code op.payload) ∧
    decodeMany callback ops.length (ops.flatMap LogOp.encode ++ rest) =
      (fun results => (results, rest)) <$>
        ops.mapM (fun op => callback op.type.code op.payload) ∧
    Function.Injective OpType.code :=
  ⟨fun _ fits => decodeWith_encode callback fits rest, decodeMany_encode callback short rest,
    OpType.code_injective⟩

end RoundTrip

/-- Two records and a byte behind them, with a callback that returns what it is given. -/
theorem framing_two_records :
    decodeMany (m := Id) (fun type payload => pure (type, payload)) 2
        (LogOp.encode ⟨7, .kCreateFile, [1, 2, 3]⟩ ++ LogOp.encode ⟨8, .kSealFile, []⟩ ++ [9]) =
      ([(1, [1, 2, 3]), (4, [])], [9]) :=
  (framing_round_trip (m := Id) (fun type payload => pure (type, payload))
    [⟨7, .kCreateFile, [1, 2, 3]⟩, ⟨8, .kSealFile, []⟩] (by decide) [9]).2.1

section Truncated

/-- The arguments of the calls that `decode` makes of its callback, in order. -/
def decodeCalls (buf : Bytes) : List (UInt32 × Bytes) :=
  ((decodeWith (m := StateM (List (UInt32 × Bytes)))
    (fun type payload => modify (fun calls => calls ++ [(type, payload)])) buf).run []).2

/-- `decode` hands nothing to its callback, and the dispatch produces no operation. -/
def Rejects (protobuf : Protobuf) (buf : Bytes) : Prop :=
  decodeCalls buf = [] ∧ decodeWith (m := Option) (decodeOp protobuf) buf = none

theorem decodeCalls_eq (buf : Bytes) : decodeCalls buf = [(decode buf).1] := rfl

/-- A type lies in the first of its four bytes. -/
theorem ofLittleEndian_take_code (type : OpType) (count : ℕ) :
    ofLittleEndian ((toLittleEndian 4 type.code.toNat).take count) =
      if count = 0 then 0 else type.code.toNat := by
  match count with
  | 0 => rfl
  | 1 => cases type <;> rfl
  | 2 => cases type <;> rfl
  | 3 => cases type <;> rfl
  | more + 4 =>
      have whole : (toLittleEndian 4 type.code.toNat).take (more + 4) =
          toLittleEndian 4 type.code.toNat := List.take_of_length_le (by simp)
      rw [whole, if_neg (Nat.succ_ne_zero _)]
      cases type <;> rfl

/-- What the header says of the type when it has lost its end. -/
theorem type_ofBytes_take (opMeta : OpMeta) (type : OpType) (isType : opMeta.type = type.code)
    (cut : ℕ) :
    (OpMeta.ofBytes (opMeta.bytes.take cut)).type = if cut ≤ 4 then 0 else type.code := by
  have field : ((opMeta.bytes.take cut).drop 4).take 4 =
      (toLittleEndian 4 type.code.toNat).take (cut - 4) := by
    rw [List.drop_take, List.take_take, min_comm, ← List.take_take]
    congr 1
    simp [OpMeta.bytes, isType]
  simp only [OpMeta.ofBytes, field, ofLittleEndian_take_code]
  by_cases early : cut ≤ 4
  · simp [early]
  · have late : cut - 4 ≠ 0 := by omega
    simp [early, late]

/-- What `decode` makes of a record that is cut off. -/
theorem decode_take_encode {op : LogOp} (short : op.Short) (cut : ℕ) :
    decode (op.encode.take cut) =
      ((if cut ≤ 4 then 0 else op.type.code, op.payload.take (cut - OpMeta.sizeOf)), []) := by
  obtain ⟨header, isType, isSize, encoded⟩ : ∃ header : OpMeta, header.type = op.type.code ∧
      header.size.toNat = op.payload.length ∧ op.encode = header.bytes ++ op.payload :=
    ⟨⟨1, op.type.code, op.timestamp, .ofNat op.payload.length⟩, rfl,
      UInt32.toNat_ofNat_of_lt' short, rfl⟩
  rw [encoded, List.take_append, OpMeta.length_bytes]
  by_cases inHeader : cut ≤ OpMeta.sizeOf
  · have nothing : cut - OpMeta.sizeOf = 0 := by omega
    have lost : (header.bytes.take cut).length ≤ OpMeta.sizeOf :=
      (List.length_take_le _ _).trans inHeader
    simp only [nothing, List.take_zero, List.append_nil, decode, cutn,
      List.take_of_length_le lost, List.drop_of_length_le lost, List.take_nil, List.drop_nil,
      type_ofBytes_take header op.type isType]
  · have whole : header.bytes.take cut = header.bytes := by
      apply List.take_of_length_le
      rw [OpMeta.length_bytes]
      omega
    have kept : (op.payload.take (cut - OpMeta.sizeOf)).length ≤ op.payload.length :=
      List.length_take_le' _ _
    have notEarly : ¬ cut ≤ 4 := by
      simp only [OpMeta.sizeOf] at inHeader
      omega
    simp only [whole, decode, cutn_bytes, OpMeta.ofBytes_bytes, isSize, isType, if_neg notEarly]
    simp only [cutn, List.take_of_length_le kept, List.drop_of_length_le kept]

/-- Truncated records are never rejected. For every operation and every initial part of its record,
cut inside the header or inside the payload, the callback gets what is left of the payload, under
the type of the operation unless the type is lost as well, and under type 0 then. -/
theorem truncated_never_rejected (protobuf : Protobuf) (op : LogOp) (short : op.Short) (cut : ℕ) :
    decodeCalls (op.encode.take cut) =
        [(if cut ≤ 4 then 0 else op.type.code, op.payload.take (cut - OpMeta.sizeOf))] ∧
      ¬ Rejects protobuf (op.encode.take cut) := by
  have calls : decodeCalls (op.encode.take cut) =
      [(if cut ≤ 4 then 0 else op.type.code, op.payload.take (cut - OpMeta.sizeOf))] := by
    rw [decodeCalls_eq, decode_take_encode short cut]
  refine ⟨calls, ?_⟩
  rintro ⟨none, -⟩
  rw [calls] at none
  cases none

/-- The record of a `SealFile` without its last header byte. -/
theorem truncated_seal :
    decodeCalls ((LogOp.encode ⟨7, .kSealFile, []⟩).take 63) = [(4, [])] :=
  (truncated_never_rejected .wire ⟨7, .kSealFile, []⟩ (by decide) 63).1

/-- The file `/a` with identifier `⟨4, 1⟩`, cut behind the path: the replica gets a request for the
file `/a` with the identifier of the root. -/
theorem truncated_create_applies :
    ∃ record, ContainerOp.encode .wire 7 (.createFile ⟨[47, 97], ⟨4, 1⟩, 5, 5, 5, 438, 0, 0⟩) =
        some record ∧
      68 < record.length ∧
      decodeCalls (record.take 68) = [(1, [10, 2, 47, 97])] ∧
      decodeWith (m := Option) (decodeOp .wire) (record.take 68) =
        some (.createFile ⟨[47, 97], ⟨0, 0⟩, 0, 0, 0, 0, 0, 0⟩, []) ∧
      ¬ Rejects .wire (record.take 68) := by
  refine ⟨_, rfl, by decide, by decide, by decide, ?_⟩
  rintro ⟨none, -⟩
  revert none
  decide

end Truncated

end Pain.Deva
