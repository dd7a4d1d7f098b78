import Pain.Common.RocksdbStore

/-!
# Recovery of a store from a checkpoint

`RocksdbStore::recover` closes the database, moves its directory to a `.bak`
beside it, and copies a checkpoint to where it was. Two scope guards undo what
has been done when a call fails: the later one, which is run first, moves the
`.bak` back, and the earlier one opens the database again.

A directory is known by its path and holds the contents of a database. The
history of a machine is the sequence of disks that the file-system calls leave
behind, so that a crash leaves one of them. A call that returns `false` or an
error status has no effect; `none` is a failed assertion.
-/

namespace Pain.Common

/-- The database directories of the file system, by path. -/
abbrev Disk := Map Bytes DB

/-- A path as a message shows it. -/
def pathText (path : Bytes) : String :=
  String.ofList (path.map (fun byte => Char.ofNat byte.toNat))

/-- The `_data_path` of a store and the checkpoint `from` that it recovers from. The directory
beside the data path that `recover` clears away does not hold the checkpoint. -/
structure Site where
  dataPath : Bytes
  source : Bytes
  apart : source ≠ dataPath ++ [46, 98, 97, 107]

namespace Site

/-- `_data_path + ".bak"`. -/
def bakPath (site : Site) : Bytes :=
  site.dataPath ++ [46, 98, 97, 107]

theorem bakPath_ne_dataPath (site : Site) : site.bakPath ≠ site.dataPath := by
  simp [bakPath]

theorem source_ne_bakPath (site : Site) : site.source ≠ site.bakPath :=
  site.apart

end Site

/-- The disk, the contents of the database behind `_db` unless that is null, and the disks that
the calls so far have left. -/
structure Machine where
  disk : Disk
  db : Option DB
  history : List Disk

namespace Machine

/-- A machine on which the database at the data path is open. -/
def running (disk : Disk) (content : DB) : Machine where
  disk := disk
  db := some content
  history := []

/-- A file-system call leaves a new disk. -/
def leave (disk : Disk) (machine : Machine) : Machine :=
  { machine with disk := disk, history := machine.history ++ [disk] }

/-- `delete_file(path, true)`. -/
def deleteFile (fails : Bool) (path : Bytes) (machine : Machine) : Option Machine :=
  if fails then none else some (machine.leave (machine.disk.erase path))

/-- `rename`, which does not replace a database directory by another. -/
def rename (fails : Bool) (src dest : Bytes) (machine : Machine) : Option Machine :=
  match fails, machine.disk[src]?, machine.disk[dest]? with
  | false, some content, none =>
      some (machine.leave ((machine.disk.erase src).insert dest content))
  | _, _, _ => none

end Machine

namespace DB

/-- `rocksdb::DB::OpenForReadOnly`. -/
def openForReadOnly (fault : Option String) (path : Bytes) (disk : Disk) : Except String DB :=
  match fault, disk[path]? with
  | some text, _ => .error text
  | none, none => .error "does not exist"
  | none, some content => .ok content

/-- `rocksdb::Checkpoint::CreateCheckpoint`, which leaves nothing behind when it fails. -/
def createCheckpoint (fault : Option String) (content : DB) (path : Bytes) (machine : Machine) :
    Except String Machine :=
  match fault, machine.disk[path]? with
  | some text, _ => .error text
  | none, some _ => .error "Invalid argument: Directory exists"
  | none, none => .ok (machine.leave (machine.disk.insert path content))

end DB

namespace RocksdbStore

/-- `RocksdbStore::open`: the contents of the store that it gives. -/
def openStore (createFails : Bool) (fault : Option String) (dataPath : Bytes) (disk : Disk) :
    Except Failure DB × Disk :=
  match disk[dataPath]?, createFails, fault with
  | none, true, _ => (.error ⟨ EIO, "create dir " ++ pathText dataPath ++ " failed"⟩, disk)
  | none, false, some text => (.error ⟨ EIO, text⟩, disk)
  | none, false, none => (.ok ∅, disk.insert dataPath ∅)
  | some _, _, some text => (.error ⟨ EIO, text⟩, disk)
  | some content, _, none => (.ok content, disk)

/-- `RocksdbStore::open_or_die`, which does not create a database. -/
def openOrDie (site : Site) (machine : Machine) : Option Machine :=
  (machine.disk[site.dataPath]?).map (fun content => { machine with db := some content })

/-- `RocksdbStore::close`. -/
def close (fault : Option String) (machine : Machine) : Status × Machine :=
  match machine.db, fault with
  | none, _ => (Status.OK, machine)
  | some _, some text => (Status.fail EIO text, machine)
  | some _, none => (Status.OK, { machine with db := none })

/-- The scope guards of `recover`. -/
inductive Rollback where
  | rollbackOpen
  | rollbackDir
deriving DecidableEq, Repr

/-- The function of a scope guard. -/
def Rollback.run (site : Site) (machine : Machine) : Rollback → Option Machine
  | .rollbackOpen => openOrDie site machine
  | .rollbackDir => machine.rename false site.bakPath site.dataPath

/-- Leave the scope of the guards that have not been released, the latest of which is the first
of the list. -/
def unwind (site : Site) (guards : List Rollback) (machine : Machine) : Option Machine :=
  guards.foldlM (Rollback.run site) machine

/-- Which of the calls that `recover` makes fail, and with which texts. -/
structure Faults where
  close : Option String
  deleteBak : Bool
  rename : Bool
  openForReadOnly : Option String
  checkpoint : Option String
  createCheckpoint : Option String
  deleteOld : Bool

/-- The part of `RocksdbStore::recover` behind the rename: the status, the guards that are left
to run, and the machine. -/
def install (site : Site) (faults : Faults) (guards : List Rollback) (machine : Machine) :
    Option (Status × List Rollback × Machine) :=
  match DB.openForReadOnly faults.openForReadOnly site.source machine.disk with
  | .error text => some (Status.fail EIO text, guards, machine)
  | .ok content =>
      match faults.checkpoint with
      | some text => some (Status.fail EIO text, guards, machine)
      | none =>
          match DB.createCheckpoint faults.createCheckpoint content site.dataPath machine with
          | .error text => some (Status.fail EIO text, guards, machine)
          | .ok machine =>
              let machine := (machine.deleteFile faults.deleteOld site.bakPath).getD machine
              (openOrDie site machine).map (fun machine => (Status.OK, [], machine))

/-- The part of `RocksdbStore::recover` behind the removal of an old `.bak`. -/
def moveAway (site : Site) (faults : Faults) (guards : List Rollback) (machine : Machine) :
    Option (Status × List Rollback × Machine) :=
  match machine.rename faults.rename site.dataPath site.bakPath with
  | none => some (Status.fail EIO "rename failed", guards, machine)
  | some machine => install site faults (.rollbackDir :: guards) machine

/-- The part of `RocksdbStore::recover` behind the close. -/
def clearBak (site : Site) (faults : Faults) (guards : List Rollback) (machine : Machine) :
    Option (Status × List Rollback × Machine) :=
  if site.bakPath ∈ machine.disk then
    match machine.deleteFile faults.deleteBak site.bakPath with
    | none => some (Status.fail EIO "remove bak dir failed", guards, machine)
    | some machine => moveAway site faults guards machine
  else moveAway site faults guards machine

/-- `RocksdbStore::recover` up to the end of its scope. -/
def recoverBody (site : Site) (faults : Faults) (machine : Machine) :
    Option (Status × List Rollback × Machine) :=
  match close faults.close machine with
  | (.error failure, machine) => some (.error failure, [], machine)
  | (.ok _, machine) => clearBak site faults [.rollbackOpen] machine

/-- Run the guards that are left at the end of the scope. -/
def leaveScope (site : Site) : Status × List Rollback × Machine → Option (Status × Machine)
  | (status, guards, machine) => (unwind site guards machine).map (fun machine => (status, machine))

/-- `RocksdbStore::recover`. -/
def recover (site : Site) (faults : Faults) (machine : Machine) : Option (Status × Machine) :=
  (recoverBody site faults machine).bind (leaveScope site)

section Specification

variable {site : Site} {faults : Faults} {store checkpoint : DB} {machine : Machine}

/-- The two guards, in the order in which they are run, undo the rename and open the store. -/
theorem leaveScope_both (status : Status) (gone : machine.disk[site.dataPath]? = none)
    (held : machine.disk[site.bakPath]? = some store) :
    ∃ back : Disk, back[site.dataPath]? = some store ∧
      leaveScope site (status, [.rollbackDir, .rollbackOpen], machine) =
        some (status, ⟨back, some store, machine.history ++ [back]⟩) := by
  refine ⟨(machine.disk.erase site.bakPath).insert site.dataPath store, by simp, ?_⟩
  simp [leaveScope, unwind, Rollback.run, Machine.rename, gone, held, openOrDie, Machine.leave]

theorem leaveScope_open (status : Status) (held : machine.disk[site.dataPath]? = some store) :
    leaveScope site (status, [.rollbackOpen], machine) =
      some (status, { machine with db := some store }) := by
  simp [leaveScope, unwind, Rollback.run, openOrDie, held]

/-- The scope is left with the checkpoint in place or with the store put back, as the status says,
and no disk after those of `machine` has anything else at the data path. -/
def Settled (site : Site) (store checkpoint : DB) (machine : Machine)
    (result : Option (Status × Machine)) : Prop :=
  ∃ (status : Status) (content : DB) (last : Disk) (after : List Disk),
    result = some (status, ⟨last, some content, machine.history ++ after⟩) ∧
    last[site.dataPath]? = some content ∧
    (∀ left ∈ after, left[site.dataPath]? = some content) ∧
    (status = Status.OK ∧ content = checkpoint ∨ status ≠ Status.OK ∧ content = store)

theorem settled_of_fail {body : Option (Status × List Rollback × Machine)} (text : String)
    (gone : machine.disk[site.dataPath]? = none)
    (held : machine.disk[site.bakPath]? = some store)
    (failed : body =
      some (Status.fail EIO text, [.rollbackDir, .rollbackOpen], machine)) :
    Settled site store checkpoint machine (body.bind (leaveScope site)) := by
  rcases leaveScope_both (Status.fail EIO text) gone held with ⟨back, holds, undoes⟩
  refine ⟨_, store, back, [back], by rw [failed]; exact undoes, holds, ?_, Or.inr ⟨?_, rfl⟩⟩
  · simp [holds]
  · simp

theorem openForReadOnly_ok {fault : Option String} {content : DB}
    (found : machine.disk[site.source]? = some checkpoint ∨ machine.disk[site.source]? = none)
    (opened : DB.openForReadOnly fault site.source machine.disk = .ok content) :
    content = checkpoint := by
  rcases found with found | missing
  · simp only [DB.openForReadOnly, found] at opened
    split at opened <;> simp_all
  · simp only [DB.openForReadOnly, missing] at opened
    split at opened <;> simp_all

theorem install_settled (machine : Machine) (faults : Faults)
    (gone : machine.disk[site.dataPath]? = none)
    (held : machine.disk[site.bakPath]? = some store)
    (found : machine.disk[site.source]? = some checkpoint ∨
      machine.disk[site.source]? = none) :
    Settled site store checkpoint machine
      ((install site faults [.rollbackDir, .rollbackOpen] machine).bind (leaveScope site)) := by
  cases opened : DB.openForReadOnly faults.openForReadOnly site.source machine.disk with
  | error text => exact settled_of_fail text gone held (by simp only [install, opened])
  | ok content =>
      have content_eq : content = checkpoint := openForReadOnly_ok found opened
      subst content_eq
      cases created : faults.checkpoint with
      | some text => exact settled_of_fail text gone held (by simp only [install, opened, created])
      | none =>
          cases copied : faults.createCheckpoint with
          | some text =>
              apply settled_of_fail text gone held
              simp only [install, opened, created, copied, DB.createCheckpoint]
          | none =>
              have kept : ((machine.disk.insert site.dataPath content).erase
                  site.bakPath)[site.dataPath]? = some content := by
                simp [site.bakPath_ne_dataPath]
              cases deleted : faults.deleteOld with
              | true =>
                  refine ⟨Status.OK, content, machine.disk.insert site.dataPath content,
                    [machine.disk.insert site.dataPath content], ?_, by simp, by simp,
                    Or.inl ⟨rfl, rfl⟩⟩
                  simp [install, opened, created, copied, deleted, DB.createCheckpoint, gone,
                    Machine.deleteFile, Machine.leave, openOrDie, leaveScope, unwind]
              | false =>
                  refine ⟨Status.OK, content,
                    (machine.disk.insert site.dataPath content).erase site.bakPath,
                    [machine.disk.insert site.dataPath content,
                      (machine.disk.insert site.dataPath content).erase site.bakPath], ?_, kept,
                    ?_, Or.inl ⟨rfl, rfl⟩⟩
                  · simp [install, opened, created, copied, deleted, DB.createCheckpoint, gone,
                      Machine.deleteFile, Machine.leave, openOrDie, leaveScope, unwind, kept]
                  · simp [kept]

/-- How many calls of `recover` change the disk before the data directory is moved. -/
def clears (site : Site) (disk : Disk) : ℕ :=
  if site.bakPath ∈ disk then 1 else 0

/-- What a call of `recover` on an open store can do. -/
inductive Recovered (site : Site) (store checkpoint : DB) (disk : Disk) :
    Status → Machine → Prop where
  | unmoved {status : Status} {last : Disk} {history : List Disk} (notOk : status ≠ Status.OK)
      (short : history.length ≤ clears site disk)
      (kept : ∀ left ∈ history, left[site.dataPath]? = some store)
      (held : last[site.dataPath]? = some store) :
      Recovered site store checkpoint disk status ⟨last, some store, history⟩
  | moved {status : Status} {content : DB} {away last : Disk} {before after : List Disk}
      (length : before.length = clears site disk)
      (kept : ∀ left ∈ before, left[site.dataPath]? = some store)
      (gone : away[site.dataPath]? = none)
      (settled : ∀ left ∈ after, left[site.dataPath]? = some content)
      (held : last[site.dataPath]? = some content)
      (outcome : status = Status.OK ∧ content = checkpoint ∨
        status ≠ Status.OK ∧ content = store) :
      Recovered site store checkpoint disk status ⟨last, some content, before ++ away :: after⟩

theorem moveAway_recovered (faults : Faults) {disk : Disk}
    (length : machine.history.length = clears site disk)
    (kept : ∀ left ∈ machine.history, left[site.dataPath]? = some store)
    (held : machine.disk[site.dataPath]? = some store)
    (cleared : machine.disk[site.bakPath]? = none)
    (found : machine.disk[site.source]? = some checkpoint) :
    ∃ status final,
      (moveAway site faults [.rollbackOpen] machine).bind (leaveScope site) =
        some (status, final) ∧
      Recovered site store checkpoint disk status final := by
  cases renamed : faults.rename with
  | true =>
      refine ⟨Status.fail EIO "rename failed", { machine with db := some store }, ?_,
        .unmoved ?_ length.le kept held⟩
      · simp only [moveAway, Machine.rename, renamed]
        exact leaveScope_open _ held
      · simp
  | false =>
      let away : Disk := (machine.disk.erase site.dataPath).insert site.bakPath store
      have gone : away[site.dataPath]? = none := by
        simp [away, site.bakPath_ne_dataPath]
      have moved : away[site.bakPath]? = some store := by simp [away]
      have source : away[site.source]? = some checkpoint ∨ away[site.source]? = none := by
        simp only [away, Std.ExtTreeMap.getElem?_insert, Std.LawfulEqCmp.compare_eq_iff_eq,
          site.source_ne_bakPath.symm, if_false, Std.ExtTreeMap.getElem?_erase, found]
        split
        · exact Or.inr rfl
        · exact Or.inl rfl
      rcases install_settled (machine.leave away) faults gone moved source with
        ⟨status, content, last, after, ends, holds, settled, outcome⟩
      refine ⟨status, _, ?_, .moved length kept gone settled holds outcome⟩
      simp only [moveAway, Machine.rename, renamed, held, cleared]
      simpa [Machine.leave] using ends

/-- `recover` on an open store does not abort, whichever of its calls fail. -/
theorem recover_spec {disk : Disk} (closes : faults.close = none)
    (held : disk[site.dataPath]? = some store) (found : disk[site.source]? = some checkpoint) :
    ∃ status final, recover site faults (.running disk store) = some (status, final) ∧
      Recovered site store checkpoint disk status final := by
  have starts : recover site faults (.running disk store) =
      (clearBak site faults [.rollbackOpen] ⟨disk, none, []⟩).bind (leaveScope site) := by
    simp only [recover, recoverBody, close, Machine.running, closes]
  simp only [starts, clearBak]
  by_cases leftOver : site.bakPath ∈ disk
  · have one : clears site disk = 1 := by simp [clears, leftOver]
    simp only [if_pos leftOver]
    cases deleted : faults.deleteBak with
    | true =>
        refine ⟨Status.fail EIO "remove bak dir failed", ⟨disk, some store, []⟩, ?_,
          .unmoved ?_ (Nat.zero_le _) (by simp) held⟩
        · simp only [Machine.deleteFile, if_true]
          exact leaveScope_open _ held
        · simp
    | false =>
        have heldCleared : (disk.erase site.bakPath)[site.dataPath]? = some store := by
          simp [Std.ExtTreeMap.getElem?_erase, site.bakPath_ne_dataPath, held]
        have foundCleared : (disk.erase site.bakPath)[site.source]? = some checkpoint := by
          simp [Std.ExtTreeMap.getElem?_erase, site.source_ne_bakPath.symm, found]
        simp only [Machine.deleteFile, Bool.false_eq_true, if_false]
        apply moveAway_recovered faults
        · simp [Machine.leave, one]
        · simpa [Machine.leave] using heldCleared
        · exact heldCleared
        · simp [Machine.leave]
        · exact foundCleared
  · have zero : clears site disk = 0 := by simp [clears, leftOver]
    simp only [if_neg leftOver]
    apply moveAway_recovered faults
    · simp [zero]
    · simp
    · exact held
    · exact Std.ExtTreeMap.getElem?_eq_none leftOver
    · exact found

/-- What a crash after so many effects leaves at the data path. -/
theorem Recovered.crashed {status : Status} {disk left : Disk} {effects : ℕ}
    (recovered : Recovered site store checkpoint disk status machine)
    (held : disk[site.dataPath]? = some store)
    (crashed : (disk :: machine.history)[effects]? = some left) :
    if effects = clears site disk + 1 then left[site.dataPath]? = none
    else left[site.dataPath]? = some store ∨ left[site.dataPath]? = some checkpoint := by
  cases recovered with
  | unmoved notOk short kept holds =>
      have inside := (List.getElem?_eq_some_iff.mp crashed).1
      simp only [List.length_cons] at inside
      rw [if_neg (by omega)]
      left
      rcases List.mem_cons.mp (List.mem_of_getElem? crashed) with rfl | member
      · exact held
      · exact kept _ member
  | moved length kept gone settled holds outcome =>
      rename_i content away last before after
      have parts : (disk :: before ++ away :: after)[effects]? = some left := crashed
      have front : (disk :: before).length = clears site disk + 1 := by simp [length]
      rcases lt_trichotomy effects (disk :: before).length with early | same | late
      · rw [if_neg (by omega)]
        rw [List.getElem?_append_left early] at parts
        left
        rcases List.mem_cons.mp (List.mem_of_getElem? parts) with rfl | member
        · exact held
        · exact kept _ member
      · rw [if_pos (by omega)]
        rw [same, List.getElem?_append_right le_rfl] at parts
        simp only [Nat.sub_self, List.getElem?_cons_zero, Option.some.injEq] at parts
        exact parts ▸ gone
      · rw [if_neg (by omega)]
        rw [List.getElem?_append_right late.le] at parts
        have later : left ∈ after := by
          rcases Nat.exists_eq_add_of_lt late with ⟨more, rfl⟩
          rw [show (disk :: before).length + more + 1 - (disk :: before).length = more + 1 by omega,
            List.getElem?_cons_succ] at parts
          exact List.mem_of_getElem? parts
        have settledLeft := settled left later
        rcases outcome with ⟨-, rfl⟩ | ⟨-, rfl⟩
        · exact Or.inr settledLeft
        · exact Or.inl settledLeft

end Specification

/-- Recovery is atomic. For every content of the store and of the checkpoint, with or without a
directory left at `.bak`, and whichever calls fail after the store is closed, `recover` does not
abort and leaves the store open on what its data path holds: the checkpoint if the status is `OK`,
and the old content if it is not. -/
theorem recover_atomic (site : Site) (faults : Faults) (store checkpoint : DB) (disk : Disk)
    (closes : faults.close = none) (held : disk[site.dataPath]? = some store)
    (found : disk[site.source]? = some checkpoint) :
    ∃ status machine, recover site faults (.running disk store) = some (status, machine) ∧
      machine.db = machine.disk[site.dataPath]? ∧
      (status = Status.OK → machine.db = some checkpoint) ∧
      (status ≠ Status.OK → machine.db = some store) := by
  rcases recover_spec closes held found with ⟨status, machine, ran, recovered⟩
  refine ⟨status, machine, ran, ?_⟩
  cases recovered with
  | unmoved notOk short kept holds => exact ⟨holds.symm, fun ok => absurd ok notOk, fun _ => rfl⟩
  | moved length kept gone settled holds outcome =>
      refine ⟨holds.symm, ?_, ?_⟩
      · rcases outcome with ⟨-, rfl⟩ | ⟨notOk, -⟩
        · exact fun _ => rfl
        · exact fun ok => absurd ok notOk
      · rcases outcome with ⟨ok, -⟩ | ⟨-, rfl⟩
        · exact fun notOk => absurd ok notOk
        · exact fun _ => rfl

/-- A left-over `.bak`, and a checkpoint that cannot be copied: both guards run. -/
theorem recover_atomic_rollback :
    ∃ status machine, recover ⟨[100], [99], by decide⟩
        ⟨none, false, false, none, none, some "IO error: No space left on device", false⟩
        (.running ((((∅ : Disk).insert [100] ((∅ : DB).insert [1] [2])).insert [99] ∅).insert
          [100, 46, 98, 97, 107] ∅) ((∅ : DB).insert [1] [2])) = some (status, machine) ∧
      (status ≠ Status.OK → machine.db = some ((∅ : DB).insert [1] [2])) := by
  rcases recover_atomic ⟨[100], [99], by decide⟩
    ⟨none, false, false, none, none, some "IO error: No space left on device", false⟩
    ((∅ : DB).insert [1] [2]) ∅
    ((((∅ : Disk).insert [100] ((∅ : DB).insert [1] [2])).insert [99] ∅).insert
      [100, 46, 98, 97, 107] ∅) rfl rfl rfl with
    ⟨status, machine, ran, -, -, failed⟩
  exact ⟨status, machine, ran, failed⟩

/-- Recovery and crashes. A crash between two effects of `recover` leaves the disk from before the
call or one of those in the history. A later `open` finds the old content or the checkpoint there,
in every call and after every number of effects, if and only if the last effect was not the move
of the data directory to `.bak`, or one of the two contents is empty. After the move there is no
directory at the data path, and `open` makes an empty store. -/
theorem recover_crashSafe_iff (site : Site) (faults : Faults) (store checkpoint : DB) (disk : Disk)
    (closes : faults.close = none) (held : disk[site.dataPath]? = some store)
    (found : disk[site.source]? = some checkpoint) (status : Status) (machine : Machine)
    (ran : recover site faults (.running disk store) = some (status, machine)) (effects : ℕ)
    (left : Disk) (crashed : (disk :: machine.history)[effects]? = some left) :
    ((openStore false none site.dataPath left).1 = .ok store ∨
        (openStore false none site.dataPath left).1 = .ok checkpoint) ↔
      (effects ≠ clears site disk + 1 ∨ store = ∅ ∨ checkpoint = ∅) := by
  rcases recover_spec closes held found with ⟨status', machine', ran', recovered⟩
  simp only [ran, Option.some.injEq, Prod.mk.injEq] at ran'
  rcases ran' with ⟨rfl, rfl⟩
  have leaves := recovered.crashed held crashed
  by_cases atMove : effects = clears site disk + 1
  · rw [if_pos atMove] at leaves
    have opened : (openStore false none site.dataPath left).1 = .ok ∅ := by
      simp only [openStore, leaves]
    simp [opened, atMove, eq_comm]
  · rw [if_neg atMove] at leaves
    refine ⟨fun _ => Or.inl atMove, fun _ => ?_⟩
    rcases leaves with holds | holds
    · left
      simp only [openStore, holds]
    · right
      simp only [openStore, holds]

/-- A crash after the checkpoint is in place, which is the second effect where there is no
`.bak`. -/
theorem recover_crashSafe_installed :
    ∃ status machine left, recover ⟨[100], [99], by decide⟩
        ⟨none, false, false, none, none, none, false⟩
        (.running (((∅ : Disk).insert [100] ((∅ : DB).insert [1] [2])).insert [99]
          ((∅ : DB).insert [1] [3])) ((∅ : DB).insert [1] [2])) = some (status, machine) ∧
      machine.history[1]? = some left ∧
      ((openStore false none [100] left).1 = .ok ((∅ : DB).insert [1] [2]) ∨
        (openStore false none [100] left).1 = .ok ((∅ : DB).insert [1] [3])) := by
  refine ⟨_, _, _, rfl, rfl, ?_⟩
  apply (recover_crashSafe_iff ⟨[100], [99], by decide⟩
    ⟨none, false, false, none, none, none, false⟩ ((∅ : DB).insert [1] [2])
    ((∅ : DB).insert [1] [3])
    (((∅ : Disk).insert [100] ((∅ : DB).insert [1] [2])).insert [99] ((∅ : DB).insert [1] [3]))
    rfl rfl rfl _ _ rfl 2 _ rfl).mpr
  exact Or.inl (by decide)

/-- A crash right after the data directory is moved to `.bak`: the store opens empty. -/
theorem recover_loses_store :
    ∃ status machine left, recover ⟨[100], [99], by decide⟩
        ⟨none, false, false, none, none, none, false⟩
        (.running (((∅ : Disk).insert [100] ((∅ : DB).insert [1] [2])).insert [99]
          ((∅ : DB).insert [1] [3])) ((∅ : DB).insert [1] [2])) = some (status, machine) ∧
      machine.history[0]? = some left ∧ (openStore false none [100] left).1 = .ok ∅ ∧
      (openStore false none [100] left).1 ≠ .ok ((∅ : DB).insert [1] [2]) ∧
      (openStore false none [100] left).1 ≠ .ok ((∅ : DB).insert [1] [3]) := by
  have differs : ∀ value : Bytes,
      (.ok ∅ : Except Failure DB) ≠ .ok ((∅ : DB).insert [1] value) := by
    intro value same
    have looked := congrArg (fun content : DB => content[([1] : Bytes)]?) (Except.ok.inj same)
    simp at looked
  exact ⟨_, _, _, rfl, rfl, rfl, differs [2], differs [3]⟩

end RocksdbStore

end Pain.Common
