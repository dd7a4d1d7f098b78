import Pain.Deva.Rsm

/-!
# Replaying the log

A replica that did not submit an operation reads it back from the log. The
dispatch of `decode` has a branch for every operation except `CreateDir`, so
replaying a log without one reaches the state that the original requests reach,
and replaying a log with one fails an assertion there.
-/

set_option linter.dupNamespace false

namespace Pain.Deva

/-- The entries of the log, as a replica sees them that has no closures for them. -/
def replicated (records : List Bytes) : List Entry :=
  records.map (fun data => ⟨data, none⟩)

/-- The records of operations that are submitted one after another, at the given times. -/
def encodeAll (protobuf : Protobuf) (ops : List (UInt64 × Request)) : Option (List Bytes) :=
  ops.mapM (fun op => ContainerOp.encode protobuf op.1 op.2)

theorem encodeAll_cons_eq_some {protobuf : Protobuf} {op : UInt64 × Request}
    {ops : List (UInt64 × Request)} {records : List Bytes} :
    encodeAll protobuf (op :: ops) = some records ↔
      ∃ record rest, ContainerOp.encode protobuf op.1 op.2 = some record ∧
        encodeAll protobuf ops = some rest ∧ records = record :: rest := by
  simp only [encodeAll, List.mapM_cons, Option.bind_eq_bind, Option.bind_eq_some_iff,
    Option.pure_def, Option.some.injEq]
  constructor
  · rintro ⟨record, encoded, rest, encodedRest, rfl⟩
    exact ⟨record, rest, encoded, encodedRest, rfl⟩
  · rintro ⟨record, rest, encoded, encodedRest, rfl⟩
    exact ⟨record, encoded, rest, encodedRest, rfl⟩

/-- What is left of the log encodes what is left of the requests. -/
theorem encodeAll_drop {protobuf : Protobuf} {ops : List (UInt64 × Request)}
    {records : List Bytes} (encoded : encodeAll protobuf ops = some records) (count : ℕ) :
    encodeAll protobuf (ops.drop count) = some (records.drop count) := by
  induction count generalizing ops records with
  | zero => simpa using encoded
  | succ count ih =>
      cases ops with
      | nil =>
          simp only [encodeAll, List.mapM_nil, Option.pure_def, Option.some.injEq] at encoded
          simp [← encoded, encodeAll]
      | cons op ops =>
          rcases encodeAll_cons_eq_some.mp encoded with ⟨record, rest, -, encodedRest, rfl⟩
          exact ih encodedRest

/-- The dispatch finds the branch of every type but one. -/
theorem find?_branches (request : Request) :
    branches.find? (fun branch => branch.code = request.opType.code) =
      if request.opType = .kCreateDir then none else some request.opType := by
  cases request <;> rfl

/-- What a replica makes of one entry of its log. -/
theorem applyEntry_encode {protobuf : Protobuf} {timestamp : UInt64} {request : Request}
    {record : Bytes} (encoded : ContainerOp.encode protobuf timestamp request = some record)
    (rsm : Rsm) :
    rsm.applyEntry protobuf ⟨record, none⟩ =
      if request.opType = .kCreateDir then none
      else some { rsm with container := (rsm.container.process request).2 } := by
  simp only [ContainerOp.encode, Option.map_eq_some_iff] at encoded
  rcases encoded with ⟨payload, serialized, rfl⟩
  have short : payload.length < 2 ^ 32 := (protobuf.short serialized).trans (by decide)
  have framed := decode_encode timestamp request.opType short []
  simp only [List.append_nil] at framed
  simp only [Rsm.applyEntry, framed, decodeOp, find?_branches]
  by_cases isCreateDir : request.opType = .kCreateDir
  · simp [isCreateDir]
  · simp [isCreateDir, protobuf.parse_serialize serialized]

/-- What a replica makes of its log. -/
theorem onApply_replicated {protobuf : Protobuf} {ops : List (UInt64 × Request)}
    {records : List Bytes} (encoded : encodeAll protobuf ops = some records) (rsm : Rsm) :
    rsm.onApply protobuf (replicated records) =
      if ∃ op ∈ ops, op.2.opType = .kCreateDir then none
      else some { rsm with container := rsm.container.processAll (ops.map Prod.snd) } := by
  induction ops generalizing records rsm with
  | nil =>
      simp only [encodeAll, List.mapM_nil, Option.pure_def, Option.some.injEq] at encoded
      subst encoded
      simp [replicated]
  | cons op ops ih =>
      rcases encodeAll_cons_eq_some.mp encoded with ⟨record, rest, encodedOp, encodedRest, rfl⟩
      have later := fun rsm => ih encodedRest rsm
      simp only [Rsm.onApply, replicated] at later
      simp only [replicated, List.map_cons, Lib.exec_cons, applyEntry_encode encodedOp,
        List.mem_cons, exists_eq_or_imp]
      by_cases isCreateDir : op.2.opType = .kCreateDir
      · simp [isCreateDir]
      · simp only [isCreateDir, if_false, Option.bind_some, later, false_or,
          Deva.processAll_cons]

/-- Replaying a log agrees with processing the requests exactly if none of them creates a
directory. -/
theorem replay_eq_process_iff (protobuf : Protobuf) {ops : List (UInt64 × Request)}
    {records : List Bytes} (encoded : encodeAll protobuf ops = some records) (rsm : Rsm) :
    rsm.onApply protobuf (replicated records) =
        some { rsm with container := rsm.container.processAll (ops.map Prod.snd) } ↔
      ∀ op ∈ ops, op.2.opType ≠ .kCreateDir := by
  simp only [onApply_replicated encoded]
  by_cases some : ∃ op ∈ ops, op.2.opType = .kCreateDir
  · simp only [some, if_true, reduceCtorEq, false_iff]
    simpa using some
  · simp only [some, if_false, true_iff]
    simpa using some

/-- Two files, one in the root and one in a directory that is not there. -/
theorem replay_two_files :
    ∃ records,
      encodeAll .wire [(7, .createFile ⟨[47, 97], ⟨4, 1⟩, 5, 5, 5, 438, 0, 0⟩),
        (8, .createFile ⟨[47, 98, 47, 99], ⟨4, 2⟩, 6, 6, 6, 438, 0, 0⟩)] = some records ∧
      Rsm.initial.onApply .wire (replicated records) =
        some ⟨Deva.fresh.processAll [.createFile ⟨[47, 97], ⟨4, 1⟩, 5, 5, 5, 438, 0, 0⟩,
          .createFile ⟨[47, 98, 47, 99], ⟨4, 2⟩, 6, 6, 6, 438, 0, 0⟩], []⟩ := by
  have encoded : ∃ records,
      encodeAll .wire [(7, .createFile ⟨[47, 97], ⟨4, 1⟩, 5, 5, 5, 438, 0, 0⟩),
        (8, .createFile ⟨[47, 98, 47, 99], ⟨4, 2⟩, 6, 6, 6, 438, 0, 0⟩)] = some records :=
    Option.isSome_iff_exists.mp (by decide)
  rcases encoded with ⟨records, encoded⟩
  exact ⟨records, encoded, (replay_eq_process_iff .wire encoded .initial).mpr (by decide)⟩

/-- The directory `/a` cannot be replayed. -/
theorem not_replay_mkdir :
    ∃ records,
      encodeAll .wire [(7, .createDir ⟨[47, 97], ⟨4, 1⟩, 5, 5, 5, 511, 0, 0⟩)] = some records ∧
      Rsm.initial.onApply .wire (replicated records) ≠
        some ⟨Deva.fresh.processAll [.createDir ⟨[47, 97], ⟨4, 1⟩, 5, 5, 5, 511, 0, 0⟩], []⟩ := by
  have encoded : ∃ records,
      encodeAll .wire [(7, .createDir ⟨[47, 97], ⟨4, 1⟩, 5, 5, 5, 511, 0, 0⟩)] = some records :=
    Option.isSome_iff_exists.mp (by decide)
  rcases encoded with ⟨records, encoded⟩
  refine ⟨records, encoded, ?_⟩
  simp only [onApply_replicated encoded]
  simp [Request.opType]

end Pain.Deva
