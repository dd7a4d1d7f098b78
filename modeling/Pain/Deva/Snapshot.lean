import Pain.Deva.LogReplay
import Pain.Deva.WellFormed

/-!
# Restarting from a snapshot

`Rsm::on_snapshot_save` reports success and writes nothing, and
`Rsm::on_snapshot_load` reads nothing, so a node that restarts after the log was
truncated starts from an empty container. That goes unnoticed exactly if the
discarded entries had left the container empty.

What they leave there shows in the root directory: a creation directly in the
root always succeeds, nothing else can succeed before one has, and the entries
of the root are never removed. The number of entries of the root therefore tells
the two nodes apart whatever follows the snapshot.
-/

set_option linter.dupNamespace false

namespace Pain.Deva

open Lib (segments)

/-- The request creates something whose parent path has no components. -/
def Request.createsInRoot (request : Request) : Bool :=
  match request.creates with
  | none => false
  | some (_, creation) => parsePath (parentPath creation.path) [] = .ok []

/-- A node that restarts with a new container, loads a snapshot and applies the entries that follow
it. -/
def Rsm.restart (protobuf : Protobuf) (snapshot : Snapshot) (entries : List Entry) : Option Rsm :=
  (Rsm.initial.onSnapshotLoad false snapshot).bind (fun rsm => rsm.onApply protobuf entries)

namespace Deva

/-- No entry leads back to the root. -/
def RootUnlinked (deva : Deva) : Prop :=
  ∀ (directory : UUID) (listed : List DirEntry) (entry : DirEntry),
    deva.names.entries[directory]? = some listed → entry ∈ listed → entry.inode ≠ Namespace.root

/-- The number of entries of the root. -/
def rootCount (deva : Deva) : ℕ :=
  (deva.names.entries[Namespace.root]?.getD []).length

theorem fresh_rootUnlinked : fresh.RootUnlinked := by
  intro directory listed entry present member
  simp [fresh_listed_eq_nil present] at member

/-- No path leads back to the root. -/
theorem RootUnlinked.walk_ne {deva : Deva} (unlinked : deva.RootUnlinked) {component : Bytes}
    {rest : List Bytes} {start found : UUID} {startType type : FileType}
    (walked : deva.names.walk (component :: rest) start startType = .ok (found, type)) :
    found ≠ Namespace.root := by
  induction rest generalizing component start startType with
  | nil =>
      rcases Namespace.walk_cons_eq_ok.mp walked with ⟨listed, entry, present, isFirst, -, ended⟩
      simp only [Namespace.walk, Except.ok.injEq, Prod.mk.injEq] at ended
      exact ended.1 ▸ unlinked start listed entry present (List.mem_of_find?_eq_some isFirst)
  | cons next rest ih =>
      rcases Namespace.walk_cons_eq_ok.mp walked with ⟨listed, entry, -, -, -, walkedRest⟩
      exact ih walkedRest

/-- The parent of a path is the root exactly if its parent path has no components. -/
theorem resolveParent_root_iff {deva : Deva} (unlinked : deva.RootUnlinked) {path : Bytes} :
    deva.resolveParent path = .ok Namespace.root ↔ parsePath (parentPath path) [] = .ok [] := by
  simp only [resolveParent_eq_ok, Namespace.lookup]
  cases parsed : parsePath (parentPath path) [] with
  | error failure => simp
  | ok components =>
      cases components with
      | nil => simp [Namespace.walk]
      | cons component rest =>
          simp only [Except.ok.injEq, reduceCtorEq, iff_false]
          intro walked
          exact unlinked.walk_ne walked rfl

/-- A request adds an entry to the root exactly if it creates something there. -/
theorem process_rootCount {deva : Deva} (wellFormed : deva.WellFormed)
    (unlinked : deva.RootUnlinked) {request : Request}
    (notRoot : request.id? ≠ some Namespace.root) :
    (deva.process request).2.RootUnlinked ∧
      (deva.process request).2.rootCount =
        deva.rootCount + if request.createsInRoot then 1 else 0 := by
  cases creates : request.creates with
  | none =>
      simp only [process_of_creates_none creates, Request.createsInRoot, creates]
      exact ⟨unlinked, rfl⟩
  | some creation =>
      rcases creation with ⟨type, creation⟩
      simp only [Request.id?, creates, Option.map_some, ne_eq, Option.some.injEq] at notRoot
      simp only [process_of_creates creates, Request.createsInRoot, creates, decide_eq_true_eq,
        ← resolveParent_root_iff unlinked]
      cases resolved : deva.resolveParent creation.path with
      | error failure =>
          simp only [createEntry_of_error resolved, reduceCtorEq, if_false]
          exact ⟨unlinked, rfl⟩
      | ok parent =>
          rcases wellFormed.resolves resolved with ⟨listed, present⟩
          simp only [createEntry_of_ok resolved present, Except.ok.injEq]
          constructor
          · intro directory found entry foundAt member
            rcases Namespace.mem_of_create present foundAt member with
              ⟨-, rfl⟩ | ⟨old, oldAt, oldMem⟩
            · exact notRoot
            · exact unlinked directory old entry oldAt oldMem
          · simp only [rootCount, notRoot, and_false, if_false,
              (Namespace.create_eq_ok (filename creation.path) type creation.id present).2]
            by_cases inRoot : parent = Namespace.root
            · subst inRoot
              simp [present]
            · simp [inRoot]

theorem processAll_rootCount {deva : Deva} (wellFormed : deva.WellFormed)
    (unlinked : deva.RootUnlinked) {requests : List Request}
    (notRoot : Namespace.root ∉ requests.filterMap Request.id?) :
    (deva.processAll requests).rootCount =
      deva.rootCount + requests.countP Request.createsInRoot := by
  induction requests generalizing deva with
  | nil => simp
  | cons request requests ih =>
      simp only [List.mem_filterMap, List.mem_cons, not_exists, not_and] at notRoot
      rcases process_rootCount wellFormed unlinked (notRoot request (Or.inl rfl)) with
        ⟨unlinkedNext, counted⟩
      have later : Namespace.root ∉ requests.filterMap Request.id? := by
        simp only [List.mem_filterMap, not_exists, not_and]
        exact fun other otherMem => notRoot other (Or.inr otherMem)
      simp only [processAll_cons, ih (process_wellFormed wellFormed request) unlinkedNext later,
        counted, List.countP_cons]
      omega

/-- Nothing succeeds in an empty container but a creation in the root. -/
theorem fresh_process {request : Request} (notInRoot : request.createsInRoot = false) :
    (fresh.process request).2 = fresh := by
  cases creates : request.creates with
  | none => simp only [process_of_creates_none creates]
  | some creation =>
      rcases creation with ⟨type, creation⟩
      simp only [Request.createsInRoot, creates, decide_eq_false_iff_not,
        ← resolveParent_root_iff fresh_rootUnlinked] at notInRoot
      simp only [process_of_creates creates]
      cases resolved : fresh.resolveParent creation.path with
      | error failure => simp only [createEntry_of_error resolved]
      | ok parent =>
          rcases Namespace.lookup_eq_ok.mp (resolveParent_eq_ok.mp resolved) with ⟨-, walked⟩
          cases components : segments slash (cStr (parentPath creation.path)) with
          | nil =>
              simp only [components, Namespace.walk, Except.ok.injEq, Prod.mk.injEq] at walked
              simp [resolved, walked.1] at notInRoot
          | cons component rest =>
              simp only [components] at walked
              rcases Namespace.walk_cons_eq_ok.mp walked with ⟨listed, entry, present, isFirst, -⟩
              simp [fresh_listed_eq_nil present] at isFirst

/-- On a fresh container, requests that create nothing in the root fail and change nothing. -/
theorem fresh_processAll {requests : List Request}
    (notInRoot : ∀ request ∈ requests, request.createsInRoot = false) :
    fresh.processAll requests = fresh := by
  induction requests with
  | nil => rfl
  | cons request requests ih =>
      simp only [List.mem_cons, forall_eq_or_imp] at notInRoot
      simp only [processAll_cons, fresh_process notInRoot.1, ih notInRoot.2]

/-- Leaving out the first requests goes unnoticed exactly if none of them creates something in the
root. -/
theorem processAll_drop_iff {requests : List Request} (count : ℕ)
    (notRoot : Namespace.root ∉ requests.filterMap Request.id?) :
    fresh.processAll (requests.drop count) = fresh.processAll requests ↔
      ∀ request ∈ requests.take count, request.createsInRoot = false := by
  constructor
  · intro same
    have laterNotRoot : Namespace.root ∉ (requests.drop count).filterMap Request.id? :=
      fun member => notRoot (((List.drop_sublist count requests).filterMap _).subset member)
    have whole := processAll_rootCount fresh_wellFormed fresh_rootUnlinked notRoot
    have later := processAll_rootCount fresh_wellFormed fresh_rootUnlinked laterNotRoot
    have split : requests.countP Request.createsInRoot =
        (requests.take count).countP Request.createsInRoot +
          (requests.drop count).countP Request.createsInRoot := by
      simp only [← List.countP_append, List.take_append_drop]
    simp only [same, whole] at later
    have none : (requests.take count).countP Request.createsInRoot = 0 := by omega
    simpa using List.countP_eq_zero.mp none
  · intro notInRoot
    conv_rhs => rw [← List.take_append_drop count requests]
    simp only [processAll_append, fresh_processAll notInRoot]

end Deva

/-- A node that restarts from a snapshot after `count` entries reaches the state of the whole log
exactly if none of these entries creates something in the root and no later one a directory. -/
theorem restart_from_snapshot_iff (protobuf : Protobuf) {ops : List (UInt64 × Request)}
    {records : List Bytes} (encoded : encodeAll protobuf ops = some records)
    (notRoot : Namespace.root ∉ (ops.map Prod.snd).filterMap Request.id?) (count : ℕ) :
    Rsm.restart protobuf
        (Rsm.onSnapshotSave ⟨Deva.fresh.processAll ((ops.map Prod.snd).take count), []⟩ []).2
        (replicated (records.drop count)) =
          some ⟨Deva.fresh.processAll (ops.map Prod.snd), []⟩ ↔
      (∀ op ∈ ops.take count, op.2.createsInRoot = false) ∧
        ∀ op ∈ ops.drop count, op.2.opType ≠ .kCreateDir := by
  have dropped := Deva.processAll_drop_iff count notRoot
  simp only [← List.map_take, ← List.map_drop, List.forall_mem_map] at dropped
  simp only [Rsm.restart, Rsm.onSnapshotLoad, Bool.false_eq_true, if_false, Option.bind_some,
    onApply_replicated (encodeAll_drop encoded count), ← dropped]
  by_cases stuck : ∃ op ∈ ops.drop count, op.2.opType = .kCreateDir
  · have notAll : ¬ ∀ op ∈ ops.drop count, op.2.opType ≠ .kCreateDir := by
      intro all
      rcases stuck with ⟨op, member, isCreateDir⟩
      exact all op member isCreateDir
    simp only [stuck, if_true, reduceCtorEq, notAll, and_false]
  · have all : ∀ op ∈ ops.drop count, op.2.opType ≠ .kCreateDir :=
      fun op member isCreateDir => stuck ⟨op, member, isCreateDir⟩
    simp only [stuck, if_false, Rsm.initial, Option.some.injEq, Rsm.mk.injEq, and_true]
    exact (and_iff_left all).symm

/-- A snapshot after a creation that failed. -/
theorem restart_from_snapshot_failed_create :
    ∃ records,
      encodeAll .wire [(7, .createFile ⟨[47, 98, 47, 99], ⟨4, 2⟩, 6, 6, 6, 438, 0, 0⟩),
        (8, .createFile ⟨[47, 97], ⟨4, 1⟩, 5, 5, 5, 438, 0, 0⟩)] = some records ∧
      Rsm.restart .wire [] (replicated (records.drop 1)) =
        some ⟨Deva.fresh.processAll [.createFile ⟨[47, 98, 47, 99], ⟨4, 2⟩, 6, 6, 6, 438, 0, 0⟩,
          .createFile ⟨[47, 97], ⟨4, 1⟩, 5, 5, 5, 438, 0, 0⟩], []⟩ := by
  have encoded : ∃ records,
      encodeAll .wire [(7, .createFile ⟨[47, 98, 47, 99], ⟨4, 2⟩, 6, 6, 6, 438, 0, 0⟩),
        (8, .createFile ⟨[47, 97], ⟨4, 1⟩, 5, 5, 5, 438, 0, 0⟩)] = some records :=
    Option.isSome_iff_exists.mp (by decide)
  rcases encoded with ⟨records, encoded⟩
  refine ⟨records, encoded, ?_⟩
  exact (restart_from_snapshot_iff .wire encoded (by decide) 1).mpr ⟨by decide, by decide⟩

/-- A snapshot after the file `/a` loses it. -/
theorem not_restart_from_snapshot_file :
    ∃ records,
      encodeAll .wire [(7, .createFile ⟨[47, 97], ⟨4, 1⟩, 5, 5, 5, 438, 0, 0⟩)] = some records ∧
      Rsm.restart .wire
          (Rsm.onSnapshotSave ⟨Deva.fresh.processAll
            [.createFile ⟨[47, 97], ⟨4, 1⟩, 5, 5, 5, 438, 0, 0⟩], []⟩ []).2
          (replicated (records.drop 1)) ≠
        some ⟨Deva.fresh.processAll [.createFile ⟨[47, 97], ⟨4, 1⟩, 5, 5, 5, 438, 0, 0⟩], []⟩ := by
  have encoded : ∃ records,
      encodeAll .wire [(7, .createFile ⟨[47, 97], ⟨4, 1⟩, 5, 5, 5, 438, 0, 0⟩)] = some records :=
    Option.isSome_iff_exists.mp (by decide)
  rcases encoded with ⟨records, encoded⟩
  refine ⟨records, encoded, ?_⟩
  have suffix := onApply_replicated (encodeAll_drop encoded 1) .initial
  simp only [Rsm.restart, Rsm.onSnapshotLoad, Bool.false_eq_true, if_false, Option.bind_some,
    suffix]
  intro same
  simp only [List.drop_succ_cons, List.drop_nil, List.not_mem_nil, false_and, exists_false,
    if_false, Option.some.injEq, Rsm.mk.injEq, List.map_nil, Deva.processAll_nil] at same
  exact absurd same (by decide)

end Pain.Deva
