import Pain.Common.Recover
import Pain.Lib.Run

/-!
# Checkpoints over the life of a store

`RocksdbStore::check_point` flushes the database and copies it to a directory
that `recover` can read later. `hset` and `hdel` write with `disableWAL`, so
that what they have written is in memory until a flush and is lost by a crash.

This file follows one store on one data path over any sequence of calls, with
failures of the calls that RocksDB and the file system make, with flushes
whenever RocksDB chooses, and with crashes, also in the middle of a call.
-/

namespace Pain.Common

open Pain.Lib

namespace RocksdbStore

/-- `DB::Flush`, and the flush that RocksDB makes by itself: what is in memory is on the disk. -/
def flush (dataPath : Bytes) (content : DB) (machine : Machine) : Machine :=
  machine.leave (machine.disk.insert dataPath content)

/-- Which of the calls that `check_point` makes fail, and with which texts. -/
structure CheckPointFaults where
  flush : Option String
  checkpoint : Option String
  createCheckpoint : Option String
  directoryReader : Bool

section Calls

variable (listing : DB → List String)

/-- `RocksdbStore::check_point` of a store with the given content. `listing` gives the names of the
files of a database directory, and `files` is what the output vector holds. -/
def checkPoint (faults : CheckPointFaults) (dataPath target : Bytes)
    (content : DB) (files : List String) (machine : Machine) :
    Option (Status × List String × Machine) :=
  match faults.flush with
  | some text => some (Status.fail EIO text, files, machine)
  | none =>
      let machine := flush dataPath content machine
      match faults.checkpoint with
      | some text => some (Status.fail EIO text, files, machine)
      | none =>
          match DB.createCheckpoint faults.createCheckpoint content target machine with
          | .error text => some (Status.fail EIO text, files, machine)
          | .ok machine =>
              if faults.directoryReader then none
              else some (Status.OK, (listing content).map (fun name => "cpt/" ++ name), machine)

/-- The calls on the store, and the flushes of RocksDB. The directory that `recover` reads is not
the one it clears away. -/
inductive Call (dataPath : Bytes) where
  | hset (fault : Option String) (key field value : Bytes)
  | hdel (fault : Option String) (key field : Bytes)
  | flush
  | checkPoint (faults : CheckPointFaults) (target : Bytes)
  | recover (faults : Faults) (source : Bytes) (apart : source ≠ dataPath ++ [46, 98, 97, 107])

/-- The machine as the call leaves it, with the disks that the call has left on the way. A clean
close flushes. -/
def perform {dataPath : Bytes} (machine : Machine) (call : Call dataPath) : Option Machine :=
  machine.db.bind (fun content =>
    let machine := { machine with history := [] }
    match call with
    | .hset fault key field value =>
        some { machine with db := some (hset fault key field value content).2 }
    | .hdel fault key field => some { machine with db := some (hdel fault key field content).2 }
    | .flush => some (RocksdbStore.flush dataPath content machine)
    | .checkPoint faults target =>
        (RocksdbStore.checkPoint listing faults dataPath target content [] machine).map
          (fun result => result.2.2)
    | .recover faults source apart =>
        let machine :=
          if faults.close = none then RocksdbStore.flush dataPath content machine else machine
        (RocksdbStore.recover ⟨dataPath, source, apart⟩ faults machine).map Prod.snd)

/-- `RocksdbStore::open` by the next process, on the disk that a crash leaves. -/
def reopen (dataPath : Bytes) (disk : Disk) : Option Machine :=
  match openStore false none dataPath disk with
  | (.ok content, disk) => some (.running disk content)
  | (.error _, _) => none

/-- A call that returns, or one in which the process crashes after so many effects on the disk. -/
inductive Event (dataPath : Bytes) where
  | call (call : Call dataPath)
  | crash (call : Call dataPath) (effects : ℕ)

/-- One event: a call, a crash inside a call, or a crash between two calls. -/
def step {dataPath : Bytes} (machine : Machine) : Event dataPath → Option Machine
  | .call call => perform listing machine call
  | .crash call effects =>
      (perform listing machine call).bind (fun left =>
        (machine.disk :: left.history)[effects]?.bind (reopen dataPath))

end Calls

section Kept

variable {path : Bytes} {content : Option DB} {machine : Machine} {site : Site}

/-- The directory at the path is the same on all disks of the machine. -/
def Keeps (path : Bytes) (content : Option DB) (machine : Machine) : Prop :=
  machine.disk[path]? = content ∧ ∀ left ∈ machine.history, left[path]? = content

theorem Keeps.leave (keeps : Keeps path content machine) {disk : Disk}
    (same : disk[path]? = content) : Keeps path content (machine.leave disk) := by
  refine ⟨same, ?_⟩
  intro left leftMem
  rcases List.mem_append.mp leftMem with earlier | new
  · exact keeps.2 left earlier
  · rw [List.mem_singleton.mp new]
    exact same

theorem getElem?_insert_ne (disk : Disk) {other : Bytes} (value : DB) (different : path ≠ other) :
    (disk.insert other value)[path]? = disk[path]? := by
  simp [Std.ExtTreeMap.getElem?_insert, different.symm]

theorem getElem?_erase_ne (disk : Disk) {other : Bytes} (different : path ≠ other) :
    (disk.erase other)[path]? = disk[path]? := by
  simp [Std.ExtTreeMap.getElem?_erase, different.symm]

section Recover

variable {next : Machine} {faults : Faults} {guards : List Rollback}

theorem Keeps.deleteFile (keeps : Keeps path content machine) {fails : Bool} {other : Bytes}
    (different : path ≠ other) (deleted : machine.deleteFile fails other = some next) :
    Keeps path content next := by
  simp only [Machine.deleteFile] at deleted
  split at deleted
  · simp at deleted
  · simp only [Option.some.injEq] at deleted
    subst deleted
    exact keeps.leave ((getElem?_erase_ne machine.disk different).trans keeps.1)

theorem Keeps.rename (keeps : Keeps path content machine) {fails : Bool} {src dest : Bytes}
    (notSrc : path ≠ src) (notDest : path ≠ dest)
    (renamed : machine.rename fails src dest = some next) : Keeps path content next := by
  simp only [Machine.rename] at renamed
  split at renamed
  · simp only [Option.some.injEq] at renamed
    subst renamed
    apply keeps.leave
    rw [getElem?_insert_ne _ _ notDest, getElem?_erase_ne _ notSrc, keeps.1]
  · simp at renamed

theorem Keeps.createCheckpoint (keeps : Keeps path content machine) {fault : Option String}
    {copied : DB} {target : Bytes} (different : path ≠ target)
    (created : DB.createCheckpoint fault copied target machine = .ok next) :
    Keeps path content next := by
  simp only [DB.createCheckpoint] at created
  split at created
  · simp at created
  · simp at created
  · simp only [Except.ok.injEq] at created
    subst created
    exact keeps.leave ((getElem?_insert_ne _ _ different).trans keeps.1)

theorem Keeps.openOrDie (keeps : Keeps path content machine)
    (opened : openOrDie site machine = some next) : Keeps path content next := by
  simp only [RocksdbStore.openOrDie, Option.map_eq_some_iff] at opened
  rcases opened with ⟨found, -, rfl⟩
  exact keeps

theorem Keeps.unwind (keeps : Keeps path content machine) (notData : path ≠ site.dataPath)
    (notBak : path ≠ site.bakPath) (ran : unwind site guards machine = some next) :
    Keeps path content next := by
  induction guards generalizing machine with
  | nil =>
      simp only [RocksdbStore.unwind, List.foldlM_nil, Option.pure_def, Option.some.injEq] at ran
      exact ran ▸ keeps
  | cons guard guards ih =>
      simp only [RocksdbStore.unwind, List.foldlM_cons, Option.bind_eq_bind,
        Option.bind_eq_some_iff] at ran
      rcases ran with ⟨middle, undone, rest⟩
      refine ih ?_ rest
      cases guard with
      | rollbackOpen => exact keeps.openOrDie undone
      | rollbackDir => exact keeps.rename notBak notData undone

theorem Keeps.install (keeps : Keeps path content machine) (notData : path ≠ site.dataPath)
    (notBak : path ≠ site.bakPath) {status : Status} {left : List Rollback}
    (ran : install site faults guards machine = some (status, left, next)) :
    Keeps path content next := by
  simp only [RocksdbStore.install] at ran
  split at ran
  · simp only [Option.some.injEq, Prod.mk.injEq] at ran
    exact ran.2.2 ▸ keeps
  · split at ran
    · simp only [Option.some.injEq, Prod.mk.injEq] at ran
      exact ran.2.2 ▸ keeps
    · split at ran
      · simp only [Option.some.injEq, Prod.mk.injEq] at ran
        exact ran.2.2 ▸ keeps
      · next copied created =>
          simp only [Option.map_eq_some_iff, Prod.mk.injEq] at ran
          rcases ran with ⟨opened, openedEq, -, -, rfl⟩
          have keepsCopied := keeps.createCheckpoint notData created
          refine Keeps.openOrDie ?_ openedEq
          cases deleted : copied.deleteFile faults.deleteOld site.bakPath with
          | none => exact keepsCopied
          | some cleared => exact keepsCopied.deleteFile notBak deleted

theorem Keeps.moveAway (keeps : Keeps path content machine) (notData : path ≠ site.dataPath)
    (notBak : path ≠ site.bakPath) {status : Status} {left : List Rollback}
    (ran : moveAway site faults guards machine = some (status, left, next)) :
    Keeps path content next := by
  simp only [RocksdbStore.moveAway] at ran
  split at ran
  · simp only [Option.some.injEq, Prod.mk.injEq] at ran
    exact ran.2.2 ▸ keeps
  · next renamed => exact (keeps.rename notData notBak renamed).install notData notBak ran

theorem Keeps.clearBak (keeps : Keeps path content machine) (notData : path ≠ site.dataPath)
    (notBak : path ≠ site.bakPath) {status : Status} {left : List Rollback}
    (ran : clearBak site faults guards machine = some (status, left, next)) :
    Keeps path content next := by
  simp only [RocksdbStore.clearBak] at ran
  split at ran
  · split at ran
    · simp only [Option.some.injEq, Prod.mk.injEq] at ran
      exact ran.2.2 ▸ keeps
    · next deleted => exact (keeps.deleteFile notBak deleted).moveAway notData notBak ran
  · exact keeps.moveAway notData notBak ran

/-- `recover` touches the data path and the `.bak` beside it, and nothing else. -/
theorem Keeps.recover (keeps : Keeps path content machine) (notData : path ≠ site.dataPath)
    (notBak : path ≠ site.bakPath) {status : Status}
    (ran : recover site faults machine = some (status, next)) : Keeps path content next := by
  simp only [RocksdbStore.recover, Option.bind_eq_some_iff] at ran
  rcases ran with ⟨⟨bodyStatus, left, middle⟩, body, leaves⟩
  simp only [leaveScope, Option.map_eq_some_iff, Prod.mk.injEq] at leaves
  rcases leaves with ⟨unwound, undone, -, rfl⟩
  refine Keeps.unwind ?_ notData notBak undone
  simp only [recoverBody, close] at body
  cases opened : machine.db with
  | none =>
      simp only [opened] at body
      exact keeps.clearBak notData notBak body
  | some store =>
      cases closes : faults.close with
      | none =>
          simp only [opened, closes] at body
          have closed : Keeps path content { machine with db := none } := keeps
          exact closed.clearBak notData notBak body
      | some text =>
          simp only [opened, closes, Option.some.injEq, Prod.mk.injEq] at body
          exact body.2.2 ▸ keeps

end Recover

end Kept

section Runs

variable {listing : DB → List String} {dataPath target : Bytes} {content : DB}
  {machine next saved later : Machine}

/-- What a call of `check_point` does: it fails before the flush, or after it, or it succeeds. -/
inductive CheckPointed (listing : DB → List String) (dataPath target : Bytes) (content : DB)
    (files : List String) (machine : Machine) : Status → List String → Machine → Prop where
  | unflushed (text : String) :
      CheckPointed listing dataPath target content files machine (Status.fail EIO text) files
        machine
  | flushed (text : String) :
      CheckPointed listing dataPath target content files machine (Status.fail EIO text) files
        (flush dataPath content machine)
  | copied (notData : target ≠ dataPath) (absent : machine.disk[target]? = none) :
      CheckPointed listing dataPath target content files machine Status.OK
        ((listing content).map (fun name => "cpt/" ++ name))
        ((flush dataPath content machine).leave
          ((machine.disk.insert dataPath content).insert target content))

theorem checkPointed_of_eq {faults : CheckPointFaults} {files written : List String}
    {status : Status}
    (ran : checkPoint listing faults dataPath target content files machine =
      some (status, written, next)) :
    CheckPointed listing dataPath target content files machine status written next := by
  simp only [checkPoint] at ran
  split at ran
  · simp only [Option.some.injEq, Prod.mk.injEq] at ran
    rcases ran with ⟨rfl, rfl, rfl⟩
    exact .unflushed _
  · split at ran
    · simp only [Option.some.injEq, Prod.mk.injEq] at ran
      rcases ran with ⟨rfl, rfl, rfl⟩
      exact .flushed _
    · split at ran
      · simp only [Option.some.injEq, Prod.mk.injEq] at ran
        rcases ran with ⟨rfl, rfl, rfl⟩
        exact .flushed _
      · next copied created =>
          simp only [Option.ite_none_left_eq_some, Option.some.injEq, Prod.mk.injEq] at ran
          rcases ran with ⟨-, rfl, rfl, rfl⟩
          simp only [DB.createCheckpoint] at created
          split at created
          · simp at created
          · simp at created
          · next absent =>
              simp only [Except.ok.injEq] at created
              subst created
              have notData : target ≠ dataPath := by
                rintro rfl
                simp [flush, Machine.leave] at absent
              rw [flush, Machine.leave, getElem?_insert_ne _ _ notData] at absent
              exact .copied notData absent

/-- A call other than `recover` leaves disks that hold the old content at the data path, or what is
in memory. -/
theorem perform_left {call : Call dataPath} {durable : DB} (opened : machine.db = some content)
    (held : machine.disk[dataPath]? = some durable)
    (notRecover : ∀ faults source apart, call ≠ .recover faults source apart)
    (ran : perform listing machine call = some next) :
    (∃ changed, next.db = some changed) ∧
      ∀ left ∈ machine.disk :: next.disk :: next.history,
        left[dataPath]? = some durable ∨ left[dataPath]? = some content := by
  cases call with
  | hset fault key field value =>
      simp only [perform, opened, Option.bind_some, Option.some.injEq] at ran
      subst ran
      exact ⟨⟨_, rfl⟩, by simp [held]⟩
  | hdel fault key field =>
      simp only [perform, opened, Option.bind_some, Option.some.injEq] at ran
      subst ran
      exact ⟨⟨_, rfl⟩, by simp [held]⟩
  | flush =>
      simp only [perform, opened, Option.bind_some, Option.some.injEq] at ran
      subst ran
      exact ⟨⟨content, rfl⟩, by simp [flush, Machine.leave, held]⟩
  | checkPoint faults target =>
      simp only [perform, opened, Option.bind_some, Option.map_eq_some_iff] at ran
      rcases ran with ⟨⟨status, written, left⟩, checked, rfl⟩
      cases checkPointed_of_eq checked with
      | unflushed text => exact ⟨⟨content, rfl⟩, by simp [held]⟩
      | flushed text => exact ⟨⟨content, rfl⟩, by simp [flush, Machine.leave, held]⟩
      | copied notData absent =>
          have kept : ((machine.disk.insert dataPath content).insert target content)[dataPath]? =
              some content := by
            rw [getElem?_insert_ne _ _ notData.symm, Std.ExtTreeMap.getElem?_insert_self]
          refine ⟨⟨content, rfl⟩, ?_⟩
          simp only [flush, Machine.leave, List.nil_append, List.singleton_append, List.mem_cons,
            List.not_mem_nil, or_false]
          rintro left (rfl | rfl | rfl | rfl)
          · exact .inl held
          · exact .inr kept
          · exact .inr Std.ExtTreeMap.getElem?_insert_self
          · exact .inr kept
  | recover faults source apart => exact absurd rfl (notRecover faults source apart)

/-- The store is open on what its data path holds. -/
def IsOpenOn (dataPath : Bytes) (machine : Machine) : Prop :=
  ∃ content, machine.db = some content ∧ machine.disk[dataPath]? = some content

/-- The store is open on what its data path holds, or the guard that opens it is left to run. -/
def Reopens (site : Site) (guards : List Rollback) (machine : Machine) : Prop :=
  (∃ front, guards = front ++ [.rollbackOpen]) ∨ guards = [] ∧ IsOpenOn site.dataPath machine

section Reopening

variable {site : Site} {faults : Faults} {guards left : List Rollback} {status : Status}

theorem isOpenOn_of_openOrDie (opened : openOrDie site machine = some next) :
    IsOpenOn site.dataPath next := by
  simp only [openOrDie, Option.map_eq_some_iff] at opened
  rcases opened with ⟨found, foundEq, rfl⟩
  exact ⟨found, rfl, foundEq⟩

theorem isOpenOn_of_unwind (reopens : Reopens site guards machine)
    (ran : unwind site guards machine = some next) : IsOpenOn site.dataPath next := by
  rcases reopens with ⟨front, rfl⟩ | ⟨rfl, same⟩
  · simp only [unwind, List.foldlM_append, List.foldlM_cons, List.foldlM_nil, bind_pure,
      Option.bind_eq_bind, Option.bind_eq_some_iff] at ran
    rcases ran with ⟨middle, -, opened⟩
    exact isOpenOn_of_openOrDie opened
  · simp only [unwind, List.foldlM_nil, Option.pure_def, Option.some.injEq] at ran
    exact ran ▸ same

theorem reopens_of_install (ends : ∃ front, guards = front ++ [.rollbackOpen])
    (ran : install site faults guards machine = some (status, left, next)) :
    Reopens site left next := by
  simp only [install] at ran
  split at ran
  · simp only [Option.some.injEq, Prod.mk.injEq] at ran
    exact .inl (ran.2.1 ▸ ends)
  · split at ran
    · simp only [Option.some.injEq, Prod.mk.injEq] at ran
      exact .inl (ran.2.1 ▸ ends)
    · split at ran
      · simp only [Option.some.injEq, Prod.mk.injEq] at ran
        exact .inl (ran.2.1 ▸ ends)
      · simp only [Option.map_eq_some_iff, Prod.mk.injEq] at ran
        rcases ran with ⟨opened, openedEq, -, rfl, rfl⟩
        exact .inr ⟨rfl, isOpenOn_of_openOrDie openedEq⟩

theorem reopens_of_moveAway (ends : ∃ front, guards = front ++ [.rollbackOpen])
    (ran : moveAway site faults guards machine = some (status, left, next)) :
    Reopens site left next := by
  simp only [moveAway] at ran
  split at ran
  · simp only [Option.some.injEq, Prod.mk.injEq] at ran
    exact .inl (ran.2.1 ▸ ends)
  · rcases ends with ⟨front, rfl⟩
    exact reopens_of_install ⟨.rollbackDir :: front, rfl⟩ ran

theorem reopens_of_clearBak (ends : ∃ front, guards = front ++ [.rollbackOpen])
    (ran : clearBak site faults guards machine = some (status, left, next)) :
    Reopens site left next := by
  simp only [clearBak] at ran
  split at ran
  · split at ran
    · simp only [Option.some.injEq, Prod.mk.injEq] at ran
      exact .inl (ran.2.1 ▸ ends)
    · exact reopens_of_moveAway ends ran
  · exact reopens_of_moveAway ends ran

/-- After `recover`, whether it succeeds or not, the store is open on what its data path holds,
unless its close failed. -/
theorem isOpenOn_of_recover (closes : faults.close = none)
    (ran : recover site faults machine = some (status, next)) : IsOpenOn site.dataPath next := by
  simp only [recover, Option.bind_eq_some_iff] at ran
  rcases ran with ⟨⟨bodyStatus, left, middle⟩, body, leaves⟩
  simp only [leaveScope, Option.map_eq_some_iff, Prod.mk.injEq] at leaves
  rcases leaves with ⟨unwound, undone, -, rfl⟩
  refine isOpenOn_of_unwind ?_ undone
  simp only [recoverBody, close, closes] at body
  cases opened : machine.db with
  | none =>
      simp only [opened] at body
      exact reopens_of_clearBak ⟨[], rfl⟩ body
  | some store =>
      simp only [opened] at body
      exact reopens_of_clearBak ⟨[], rfl⟩ body

theorem recover_of_close_fails {text : String} (opened : machine.db = some content)
    (fails : faults.close = some text) :
    recover site faults machine = some (Status.fail EIO text, machine) := by
  simp [recover, recoverBody, close, opened, fails, leaveScope, unwind]

end Reopening

theorem isOpenOn_of_reopen {disk : Disk} {content : DB} (held : disk[dataPath]? = some content)
    (reopened : reopen dataPath disk = some next) :
    next.db = some content ∧ next.disk[dataPath]? = some content := by
  simp only [reopen, openStore, held, Option.some.injEq] at reopened
  subst reopened
  exact ⟨rfl, held⟩

/-- The event is not a crash in the middle of `recover`. -/
def Event.IsCalm : Event dataPath → Prop
  | .call _ => True
  | .crash interrupted _ => ∀ faults source apart, interrupted ≠ .recover faults source apart

/-- What a step leaves at the data path was there before, or was or is in memory. -/
theorem step_held {event : Event dataPath} {durable : DB} (opened : machine.db = some content)
    (held : machine.disk[dataPath]? = some durable) (calm : event.IsCalm)
    (stepped : step listing machine event = some next) :
    ∃ changed kept, next.db = some changed ∧ next.disk[dataPath]? = some kept ∧
      (kept = durable ∨ kept = content ∨ kept = changed) := by
  cases event with
  | call call =>
      by_cases isRecover : ∃ faults source apart, call = .recover faults source apart
      · rcases isRecover with ⟨faults, source, apart, rfl⟩
        simp only [step, perform, opened, Option.bind_some, Option.map_eq_some_iff] at stepped
        rcases stepped with ⟨⟨status, final⟩, recovered, rfl⟩
        cases closes : faults.close with
        | none =>
            rcases isOpenOn_of_recover closes recovered with ⟨found, db, disk⟩
            exact ⟨found, found, db, disk, .inr (.inr rfl)⟩
        | some text =>
            have failed :
                recover ⟨dataPath, source, apart⟩ faults ⟨machine.disk, some content, []⟩ =
                  some (Status.fail EIO text, ⟨machine.disk, some content, []⟩) :=
              recover_of_close_fails rfl closes
            simp only [closes, reduceCtorEq, if_false, failed, Option.some.injEq,
              Prod.mk.injEq] at recovered
            rcases recovered with ⟨-, rfl⟩
            exact ⟨content, durable, rfl, held, .inl rfl⟩
      · simp only [not_exists] at isRecover
        rcases perform_left opened held isRecover stepped with ⟨⟨changed, db⟩, left⟩
        rcases left next.disk (by simp) with same | same
        · exact ⟨changed, durable, db, same, .inl rfl⟩
        · exact ⟨changed, content, db, same, .inr (.inl rfl)⟩
  | crash call effects =>
      simp only [step, Option.bind_eq_some_iff] at stepped
      rcases stepped with ⟨performed, ran, disk, crashed, reopened⟩
      have among : disk ∈ machine.disk :: performed.disk :: performed.history := by
        have member := List.mem_of_getElem? crashed
        simp only [List.mem_cons] at member ⊢
        tauto
      rcases (perform_left opened held calm ran).2 disk among with same | same
      · rcases isOpenOn_of_reopen same reopened with ⟨db, disk⟩
        exact ⟨durable, durable, db, disk, .inl rfl⟩
      · rcases isOpenOn_of_reopen same reopened with ⟨db, disk⟩
        exact ⟨content, content, db, disk, .inr (.inl rfl)⟩

/-- Where memory and disk agree at the start, the disk always holds what has been in memory at some
point since. -/
theorem held_of_exec {events : List (Event dataPath)} (synced : IsOpenOn dataPath saved)
    (calm : ∀ event ∈ events, event.IsCalm)
    (ran : exec (step listing) saved events = some later) :
    ∃ content durable, later.db = some content ∧ later.disk[dataPath]? = some durable ∧
      ∃ before middle, before <+: events ∧ exec (step listing) saved before = some middle ∧
        middle.db = some durable := by
  induction events using List.reverseRecOn generalizing later with
  | nil =>
      simp only [exec_nil, Option.some.injEq] at ran
      subst ran
      rcases synced with ⟨content, opened, held⟩
      exact ⟨content, content, opened, held, [], saved, List.prefix_rfl, rfl, opened⟩
  | append_singleton events event ih =>
      rw [exec_append, Option.bind_eq_some_iff] at ran
      rcases ran with ⟨middle, ranBefore, stepped⟩
      simp only [exec_cons, exec_nil, Option.bind_fun_some] at stepped
      rcases ih (fun earlier earlierMem => calm earlier (by simp [earlierMem])) ranBefore with
        ⟨content, durable, opened, held, before, visited, isPrefix, ranVisited, was⟩
      have shorter : events <+: events ++ [event] := List.prefix_append _ _
      rcases step_held opened held (calm event (by simp)) stepped with
        ⟨changed, kept, openedNext, heldNext, same | same | same⟩
      · exact ⟨changed, kept, openedNext, heldNext, before, visited, isPrefix.trans shorter,
          ranVisited, same ▸ was⟩
      · exact ⟨changed, kept, openedNext, heldNext, events, middle, shorter, ranBefore,
          same ▸ opened⟩
      · refine ⟨changed, kept, openedNext, heldNext, events ++ [event], later, List.prefix_rfl, ?_,
          same ▸ openedNext⟩
        simp [exec_append, ranBefore, stepped]

/-- A checkpoint makes durable what was written before it. Whatever happens after a successful
`check_point`, with further crashes between and inside the calls, a crash takes the store back to a
content that it has had since then, the one of the checkpoint at the earliest. -/
theorem crash_keeps_checkPoint {faults : CheckPointFaults} {files written : List String}
    (opened : machine.db = some content)
    (checked : checkPoint listing faults dataPath target content files machine =
      some (Status.OK, written, saved))
    {events : List (Event dataPath)} (calm : ∀ event ∈ events, event.IsCalm)
    (ran : exec (step listing) saved events = some later)
    (reopened : reopen dataPath later.disk = some next) :
    saved.db = some content ∧
      ∃ before middle, before <+: events ∧ exec (step listing) saved before = some middle ∧
        next.db = middle.db := by
  have synced : IsOpenOn dataPath saved ∧ saved.db = some content := by
    cases checkPointed_of_eq checked with
    | copied notData absent =>
        refine ⟨⟨content, opened, ?_⟩, opened⟩
        simp only [Machine.leave]
        rw [getElem?_insert_ne _ _ notData.symm, Std.ExtTreeMap.getElem?_insert_self]
  rcases held_of_exec synced.1 calm ran with
    ⟨-, durable, -, held, before, middle, isPrefix, ranBefore, was⟩
  refine ⟨synced.2, before, middle, isPrefix, ranBefore, ?_⟩
  rw [(isOpenOn_of_reopen held reopened).1, was]

/-- A write after the checkpoint is lost by a crash, what was written before is not. -/
theorem crash_keeps_checkPoint_lost_write :
    ∃ saved, checkPoint (fun _ => ["CURRENT"]) ⟨none, none, none, false⟩ [100] [99]
        ((∅ : DB).insert [1] [2]) [] (.running ((∅ : Disk).insert [100] ∅)
          ((∅ : DB).insert [1] [2])) = some (Status.OK, ["cpt/CURRENT"], saved) ∧
      ∃ later, exec (step (fun _ => ["CURRENT"])) saved
        ([.call (.hset none [7] [8] [9])] : List (Event [100])) = some later ∧
      ∃ next, reopen [100] later.disk = some next ∧ saved.db = some ((∅ : DB).insert [1] [2]) ∧
      ∃ before middle, before <+: ([.call (.hset none [7] [8] [9])] : List (Event [100])) ∧
        exec (step (fun _ => ["CURRENT"])) saved before = some middle ∧ next.db = middle.db := by
  refine ⟨_, rfl, ?_⟩
  refine ⟨_, rfl, ?_⟩
  refine ⟨_, rfl, @crash_keeps_checkPoint _ _ [99] _ (.running ((∅ : Disk).insert [100] ∅)
    ((∅ : DB).insert [1] [2])) _ _ _ ⟨none, none, none, false⟩ [] _ rfl rfl _ ?_ rfl rfl⟩
  simp [Event.IsCalm]

section Snapshots

variable {path : Bytes} {snapshot : DB}

/-- No call changes a directory other than that of the store and the one that `recover` clears. -/
theorem keeps_of_perform {call : Call dataPath} (held : machine.disk[path]? = some snapshot)
    (notData : path ≠ dataPath) (notBak : path ≠ dataPath ++ [46, 98, 97, 107])
    (ran : perform listing machine call = some next) : Keeps path (some snapshot) next := by
  cases opened : machine.db with
  | none => simp [perform, opened] at ran
  | some content =>
      have start : Keeps path (some snapshot) ⟨machine.disk, some content, []⟩ :=
        ⟨held, by simp⟩
      have flushed : Keeps path (some snapshot)
          (flush dataPath content ⟨machine.disk, some content, []⟩) :=
        start.leave ((getElem?_insert_ne _ _ notData).trans held)
      cases call with
      | hset fault key field value =>
          simp only [perform, opened, Option.bind_some, Option.some.injEq] at ran
          exact ran ▸ start
      | hdel fault key field =>
          simp only [perform, opened, Option.bind_some, Option.some.injEq] at ran
          exact ran ▸ start
      | flush =>
          simp only [perform, opened, Option.bind_some, Option.some.injEq] at ran
          exact ran ▸ flushed
      | checkPoint faults target =>
          simp only [perform, opened, Option.bind_some, Option.map_eq_some_iff] at ran
          rcases ran with ⟨⟨status, written, left⟩, checked, rfl⟩
          cases checkPointed_of_eq checked with
          | unflushed text => exact start
          | flushed text => exact flushed
          | copied notDataTarget absent =>
              have different : path ≠ target := by
                rintro rfl
                simp [held] at absent
              exact flushed.leave ((getElem?_insert_ne _ _ different).trans flushed.1)
      | recover faults source apart =>
          simp only [perform, opened, Option.bind_some, Option.map_eq_some_iff] at ran
          rcases ran with ⟨⟨status, final⟩, recovered, rfl⟩
          have notSiteBak : path ≠ (⟨dataPath, source, apart⟩ : Site).bakPath := notBak
          split at recovered
          · exact Keeps.recover flushed notData notSiteBak recovered
          · exact Keeps.recover start notData notSiteBak recovered

theorem step_keeps {event : Event dataPath} (held : machine.disk[path]? = some snapshot)
    (notData : path ≠ dataPath) (notBak : path ≠ dataPath ++ [46, 98, 97, 107])
    (stepped : step listing machine event = some next) : next.disk[path]? = some snapshot := by
  cases event with
  | call call => exact (keeps_of_perform held notData notBak stepped).1
  | crash call effects =>
      simp only [step, Option.bind_eq_some_iff] at stepped
      rcases stepped with ⟨performed, ran, disk, crashed, reopened⟩
      have kept : disk[path]? = some snapshot := by
        rcases List.mem_cons.mp (List.mem_of_getElem? crashed) with rfl | later
        · exact held
        · exact (keeps_of_perform held notData notBak ran).2 disk later
      simp only [reopen, openStore] at reopened
      split at reopened
      · next content opened same =>
          simp only [Option.some.injEq] at reopened
          subst reopened
          split at same <;> simp only [Prod.mk.injEq, Except.ok.injEq, reduceCtorEq,
            false_and] at same <;> rcases same with ⟨-, rfl⟩
          · exact (getElem?_insert_ne _ _ notData).trans kept
          · exact kept
      · simp at reopened

/-- A checkpoint can be recovered for good. Whatever happens after a successful `check_point`,
with writes, failing calls, further checkpoints, recoveries and crashes at any point, a successful
`recover` from its directory gives back exactly the content of the store at the time of the
`check_point`. -/
theorem recover_of_checkPoint {faults : CheckPointFaults} {files written : List String}
    {content current : DB} (notBak : target ≠ dataPath ++ [46, 98, 97, 107])
    (checked : checkPoint listing faults dataPath target content files machine =
      some (Status.OK, written, saved))
    {events : List (Event dataPath)} (ran : exec (step listing) saved events = some later)
    {recoverFaults : Faults}
    (recovered : recover ⟨dataPath, target, notBak⟩ recoverFaults
      (.running (later.disk.insert dataPath current) current) = some (Status.OK, next)) :
    next.db = some content ∧ next.disk[dataPath]? = some content := by
  have start : target ≠ dataPath ∧ saved.disk[target]? = some content := by
    cases checkPointed_of_eq checked with
    | copied notData absent => exact ⟨notData, Std.ExtTreeMap.getElem?_insert_self⟩
  have kept : later.disk[target]? = some content :=
    exec_invariant (fun state => state.disk[target]? = some content)
      (fun held stepped => step_keeps held start.1 notBak stepped) start.2 ran
  let site : Site := ⟨dataPath, target, notBak⟩
  have found : (later.disk.insert dataPath current)[site.source]? = some content :=
    (getElem?_insert_ne _ _ start.1).trans kept
  have held : (later.disk.insert dataPath current)[site.dataPath]? = some current :=
    Std.ExtTreeMap.getElem?_insert_self
  cases closes : recoverFaults.close with
  | some text =>
      rw [recover_of_close_fails rfl closes] at recovered
      simp at recovered
  | none =>
      rcases recover_spec closes held found with
        ⟨status, final, ranRecover, outcome⟩
      rw [recovered, Option.some.injEq, Prod.mk.injEq] at ranRecover
      rcases ranRecover with ⟨rfl, rfl⟩
      cases outcome with
      | unmoved notOk short kept held => exact absurd rfl notOk
      | moved length kept gone settled held outcome =>
          rcases outcome with ⟨-, rfl⟩ | ⟨notOk, -⟩
          · exact ⟨rfl, held⟩
          · exact absurd rfl notOk

/-- A checkpoint of one pair, a later write that a crash loses, and the recovery. -/
theorem recover_of_checkPoint_crashed :
    ∃ saved, checkPoint (fun _ => ["CURRENT"]) ⟨none, none, none, false⟩ [100] [99]
        ((∅ : DB).insert [1] [2]) [] (.running ((∅ : Disk).insert [100] ∅)
          ((∅ : DB).insert [1] [2])) = some (Status.OK, ["cpt/CURRENT"], saved) ∧
      ∃ later, exec (step (fun _ => ["CURRENT"])) saved
        ([.call (.hset none [7] [8] [9]), .crash (.hset none [7] [8] [6]) 0] :
          List (Event [100])) = some later ∧
      ∃ next, recover ⟨[100], [99], by decide⟩ ⟨none, false, false, none, none, none, false⟩
        (.running (later.disk.insert [100] ∅) ∅) = some (Status.OK, next) ∧
      next.db = some ((∅ : DB).insert [1] [2]) := by
  refine ⟨_, rfl, ?_⟩
  refine ⟨_, rfl, ?_⟩
  refine ⟨_, rfl, (@recover_of_checkPoint (fun _ => ["CURRENT"]) [100] [99]
    (.running ((∅ : Disk).insert [100] ∅) ((∅ : DB).insert [1] [2])) _ _ _
    ⟨none, none, none, false⟩ [] _ _ ∅ (by decide) rfl
    [.call (.hset none [7] [8] [9]), .crash (.hset none [7] [8] [6]) 0] rfl
    ⟨none, false, false, none, none, none, false⟩ rfl).1⟩

end Snapshots

end Runs

end RocksdbStore

end Pain.Common
