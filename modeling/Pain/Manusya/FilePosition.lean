import Pain.Lib.Run
import Pain.Manusya.LocalStore

/-!
# Reads and writes at the position of a descriptor

`LocalStore::append` ignores its offset and writes at the position of the open
file description, and files are opened without `O_APPEND`. The position is at
the end of the file as long as one descriptor does all the writing and is not
read through; a read moves it, and a write through another descriptor leaves it
behind. The in-memory store appends wherever the handle comes from.

Both transfers are one system call, which may move fewer bytes than it was
asked to. A short write fails an assertion, and a short read is an error.
-/

namespace Pain.Manusya

namespace Posix

/-- The bytes of the file behind a descriptor. -/
def contents (fd : ℕ) (posix : Posix) : Option Bytes :=
  (posix.lookup fd).map (fun (_, inode) => inode.data)

/-- The next write through the descriptor goes to the end of its file. -/
def AtEnd (fd : ℕ) (posix : Posix) : Prop :=
  ∀ description inode, posix.lookup fd = some (description, inode) → description.writable = true →
    description.position = inode.data.length

theorem length_writeAt (data : Bytes) (position : ℕ) {buf : Bytes} (nonempty : buf ≠ []) :
    (writeAt data position buf).length = max data.length (position + buf.length) := by
  simp only [writeAt, nonempty, if_false, List.length_append, List.length_take,
    List.length_replicate, List.length_drop]
  omega

/-- A write extends the data exactly if it is made at the end, or is of no bytes. -/
theorem writeAt_eq_append_iff (data : Bytes) (position : ℕ) (buf : Bytes) :
    writeAt data position buf = data ++ buf ↔ buf = [] ∨ position = data.length := by
  by_cases empty : buf = []
  · simp [writeAt, empty]
  constructor
  · intro extended
    right
    have length := congrArg List.length extended
    have bytes := List.length_pos_iff.mpr empty
    simp only [length_writeAt data position empty, List.length_append] at length
    omega
  · rintro (absurdly | rfl)
    · exact absurd absurdly empty
    · simp [writeAt, empty]

theorem contents_write {fd : ℕ} {buf : Bytes} {posix after : Posix}
    (wrote : posix.write fd buf = .ok after) :
    ∃ description inode, posix.lookup fd = some (description, inode) ∧
      description.writable = true ∧
      after.contents fd = some (writeAt inode.data description.position buf) := by
  unfold write at wrote
  cases found : posix.lookup fd with
  | none => simp [found] at wrote
  | some entry =>
      rcases entry with ⟨description, inode⟩
      simp only [found] at wrote
      split at wrote
      · rename_i writable
        simp only [Except.ok.injEq] at wrote
        subst wrote
        refine ⟨description, inode, rfl, writable, ?_⟩
        unfold lookup at found
        split at found
        · rename_i entryDescription described
          have insideDescriptions := (List.getElem?_eq_some_iff.mp described).1
          cases held : posix.inodes[entryDescription.inode]? with
          | none => simp [held] at found
          | some heldInode =>
              simp only [held, Option.map_some, Option.some.injEq, Prod.mk.injEq] at found
              rcases found with ⟨rfl, rfl⟩
              have insideInodes := (List.getElem?_eq_some_iff.mp held).1
              simp [contents, lookup, insideDescriptions, insideInodes]
        · cases found
      · cases wrote

/-- A write extends the file exactly if it is empty or the descriptor stands at the end. -/
theorem contents_write_iff {fd : ℕ} {buf : Bytes} {posix after : Posix}
    (wrote : posix.write fd buf = .ok after) :
    after.contents fd = (posix.contents fd).map (fun data => data ++ buf) ↔
      buf = [] ∨ posix.AtEnd fd := by
  rcases contents_write wrote with ⟨description, inode, found, writable, written⟩
  have before : posix.contents fd = some inode.data := by simp [contents, found]
  simp only [written, before, Option.map_some, Option.some.injEq, writeAt_eq_append_iff]
  refine or_congr_right ⟨?_, ?_⟩
  · rintro here other otherInode otherFound -
    simp only [found, Option.some.injEq, Prod.mk.injEq] at otherFound
    rcases otherFound with ⟨rfl, rfl⟩
    exact here
  · exact fun atEnd => atEnd description inode found writable

end Posix

namespace LocalStore

/-- The calls that open files and move their bytes. -/
inductive Call where
  | openFile (path : Bytes) (flags : OpenFlags)
  | append (fd offset : ℕ) (buf : Bytes)
  | read (fd offset size : ℕ) (buf : Bytes)
  | size (fd : ℕ)
deriving DecidableEq

/-- A call of the store. -/
def call (posix : Posix) : Call → Option Posix
  | .openFile path flags => some (store.openFile path flags posix).2
  | .append fd offset buf => some (store.append fd offset buf posix).2
  | .read fd offset size buf => some (store.read fd offset size buf posix).2
  | .size fd => some (store.size fd posix).2

/-- An append that succeeds leaves the bytes of the file and puts its buffer behind them. -/
def Extends (posix : Posix) : Call → Prop
  | .append fd offset buf =>
      (store.append fd offset buf posix).1 = Status.OK →
        (store.append fd offset buf posix).2.contents fd =
          (posix.contents fd).map (fun data => data ++ buf)
  | _ => True

/-- An append is of no bytes, or its descriptor is at the end of the file. -/
def WritesAtEnd (posix : Posix) : Call → Prop
  | .append fd _ buf => buf = [] ∨ posix.AtEnd fd
  | _ => True

theorem atEnd_of_write_error {fd : ℕ} {buf : Bytes} {posix : Posix} {errno : Errno}
    (failed : posix.write fd buf = .error errno) : posix.AtEnd fd := by
  intro description inode found writable
  simp [Posix.write, found, writable] at failed

/-- A call extends the files exactly if it writes at the end. -/
theorem extends_iff (posix : Posix) (made : Call) :
    Extends posix made ↔ WritesAtEnd posix made := by
  cases made with
  | append fd offset buf =>
      simp only [Extends, WritesAtEnd, store, append]
      cases wrote : posix.write fd buf with
      | error errno => simp [Status.fail, atEnd_of_write_error wrote]
      | ok after =>
          simp only [forall_const]
          exact Posix.contents_write_iff wrote
  | openFile path flags => exact Iff.rfl
  | read fd offset size buf => exact Iff.rfl
  | size fd => exact Iff.rfl

/-- Appends and positions. For every sequence of opens, appends, reads and sizes, through any
number of descriptors of any files, every append that succeeds extends its file, if and only if
every append with bytes to write finds its descriptor at the end of the file. -/
theorem append_extends_iff (posix : Posix) (calls : List Call) :
    Lib.Guarded call Extends posix calls ↔ Lib.Guarded call WritesAtEnd posix calls :=
  Lib.guarded_congr extends_iff posix calls

/-- Two descriptors of one file: the second append overwrites the first. -/
theorem append_overwrites :
    ¬ Lib.Guarded call Extends Posix.empty
        [.openFile [97] .createExclusive, .openFile [97] ⟨false, false, false, true⟩,
          .append 0 0 [1, 2], .append 1 2 [3]] ∧
      ∃ posix, Lib.exec call Posix.empty
        [.openFile [97] .createExclusive, .openFile [97] ⟨false, false, false, true⟩,
          .append 0 0 [1, 2], .append 1 2 [3]] = some posix ∧
        posix.contents 1 = some [3, 2] := by
  refine ⟨?_, _, rfl, by decide⟩
  rintro ⟨-, first⟩
  rcases first _ rfl with ⟨-, second⟩
  rcases second _ rfl with ⟨-, third⟩
  rcases third _ rfl with ⟨overwrites, -⟩
  exact absurd (overwrites (by decide)) (by decide)

/-- The outcome of the one `writev` that `cut_into_file_descriptor` makes for a buffer: an error,
or how many of its bytes were written. -/
abbrev WriteOutcome (buf : Bytes) := Except Errno (Fin (buf.length + 1))

/-- `writev(2)` with an outcome that the kernel chose. -/
def writeSome (fd : ℕ) (buf : Bytes) (outcome : WriteOutcome buf) (posix : Posix) :
    Except Errno (ℕ × Posix) :=
  match outcome with
  | .error errno => .error errno
  | .ok count => (posix.write fd (buf.take count)).map (fun posix => (count.val, posix))

/-- `LocalStore::append`; `none` is the assertion that all bytes were written. -/
def appendSome (fd _offset : ℕ) (buf : Bytes) (outcome : WriteOutcome buf) (posix : Posix) :
    Option (Status × Posix) :=
  match writeSome fd buf outcome posix with
  | .error errno => some (Status.fail errno "failed to write to file", posix)
  | .ok (nw, posix) => if nw = buf.length then some (Status.OK, posix) else none

/-- With a complete transfer this is the `append` of the store. -/
theorem appendSome_last (fd offset : ℕ) (buf : Bytes) (posix : Posix) :
    appendSome fd offset buf (.ok (Fin.last _)) posix =
      some (store.append fd offset buf posix) := by
  simp only [appendSome, writeSome, store, append, Fin.val_last, List.take_length]
  cases posix.write fd buf <;> simp [Except.map]

/-- The append does not fail an assertion; if it succeeds the whole buffer is behind what the file
held, and if it does not nothing has changed. -/
def WholeOrNothing (fd : ℕ) (buf : Bytes) (posix : Posix) (result : Option (Status × Posix)) :
    Prop :=
  ∃ status after, result = some (status, after) ∧
    (status = Status.OK →
      after.contents fd = (posix.contents fd).map (fun data => data ++ buf)) ∧
    (status ≠ Status.OK → after = posix)

/-- The descriptor is open for writing. -/
def Writable (fd : ℕ) (posix : Posix) : Prop :=
  ∃ description inode, posix.lookup fd = some (description, inode) ∧ description.writable = true

theorem write_of_not_writable {fd : ℕ} {posix : Posix} (closed : ¬ Writable fd posix)
    (buf : Bytes) : posix.write fd buf = .error Posix.EBADF := by
  unfold Posix.write
  cases found : posix.lookup fd with
  | none => rfl
  | some entry =>
      rcases entry with ⟨description, inode⟩
      have readOnly : description.writable = false := by
        by_contra writable
        exact closed ⟨description, inode, found, by simpa using writable⟩
      simp [readOnly]

theorem write_of_writable {fd : ℕ} {posix : Posix} (writable : Writable fd posix) (buf : Bytes) :
    ∃ after, posix.write fd buf = .ok after := by
  rcases writable with ⟨description, inode, found, isWritable⟩
  simp only [Posix.write, found, isWritable, if_true]
  exact ⟨_, rfl⟩

/-- Appends and short writes. For every descriptor, buffer and outcome of the write, the append
takes the whole buffer at the end of the file or fails without effect, and fails no assertion, if
and only if the write fails, or it moves all bytes with the descriptor at the end of the file. -/
theorem append_whole_iff (fd offset : ℕ) (buf : Bytes) (outcome : WriteOutcome buf)
    (posix : Posix) :
    WholeOrNothing fd buf posix (appendSome fd offset buf outcome posix) ↔
      ∀ count, outcome = .ok count → Writable fd posix →
        count.val = buf.length ∧ (buf = [] ∨ posix.AtEnd fd) := by
  cases outcome with
  | error errno =>
      simp only [reduceCtorEq, false_implies, implies_true, iff_true]
      exact ⟨_, _, rfl, by simp [Status.fail], fun _ => rfl⟩
  | ok count =>
      by_cases writable : Writable fd posix
      · rcases write_of_writable writable (buf.take count) with ⟨after, wrote⟩
        have ends : appendSome fd offset buf (.ok count) posix =
            if count.val = buf.length then some (Status.OK, after) else none := by
          simp [appendSome, writeSome, wrote, Except.map]
        by_cases whole : count.val = buf.length
        · rw [whole, List.take_length] at wrote
          simp [WholeOrNothing, ends, whole, writable, Posix.contents_write_iff wrote]
        · simp [WholeOrNothing, ends, whole, writable]
      · have failed := write_of_not_writable writable (buf.take count)
        simp only [writable, false_implies, implies_true, iff_true]
        refine ⟨Status.fail Posix.EBADF "failed to write to file", posix, ?_, ?_, fun _ => rfl⟩
        · simp [appendSome, writeSome, failed, Except.map]
        · simp [Status.fail]

/-- Two of three bytes are written: the assertion fails. -/
theorem append_short_write :
    ∃ posix, Lib.exec call Posix.empty [.openFile [97] .createExclusive] = some posix ∧
      appendSome 0 0 [1, 2, 3] (.ok 2) posix = none ∧
      ¬ WholeOrNothing 0 [1, 2, 3] posix (appendSome 0 0 [1, 2, 3] (.ok 2) posix) := by
  refine ⟨_, rfl, rfl, ?_⟩
  rintro ⟨status, after, ends, -⟩
  cases ends

/-- How many bytes the one `readv` of `append_from_file_descriptor` moves of a range that the
file has: at least one where there is one to move. -/
structure ReadOutcome (size : ℕ) where
  count : ℕ
  count_le : count ≤ size
  count_pos : 0 < size → 0 < count

/-- `LocalStore::read`, with the number of bytes that the kernel moves. -/
def readSome (fd offset size : ℕ) (outcome : ReadOutcome size) (_buf : Bytes) (posix : Posix) :
    Except Failure Bytes × Posix :=
  match posix.seekAndRead fd offset outcome.count with
  | .error errno => (.error ⟨errno, "failed to lseek"⟩, posix)
  | .ok (bytes, posix) =>
      if bytes.length ≠ size then (.error ⟨.EINVAL, "invalid size"⟩, posix)
      else (.ok bytes, posix)

/-- With a complete transfer this is the `read` of the store. -/
theorem readSome_whole (fd offset size : ℕ) {outcome : ReadOutcome size}
    (whole : outcome.count = size) (buf : Bytes) (posix : Posix) :
    readSome fd offset size outcome buf posix = store.read fd offset size buf posix := by
  simp only [readSome, whole, store]
  rfl

/-- Reads and short transfers. For every file, every range that it has and every number of bytes
that the kernel moves, the read succeeds with exactly the bytes of the range, if and only if the
kernel moves all of them. -/
theorem read_range_iff (posix : Posix) (fd : ℕ) (data : Bytes)
    (held : posix.contents fd = some data) (offset size : ℕ)
    (inRange : offset + size ≤ data.length) (outcome : ReadOutcome size) (buf : Bytes) :
    (readSome fd offset size outcome buf posix).1 = .ok ((data.drop offset).take size) ↔
      outcome.count = size := by
  have remains := outcome.count_le
  simp only [Posix.contents, Option.map_eq_some_iff] at held
  rcases held with ⟨⟨description, inode⟩, found, rfl⟩
  simp only at inRange
  have length : ((inode.data.drop offset).take outcome.count).length = outcome.count := by
    simp only [List.length_take, List.length_drop]
    omega
  simp only [readSome, Posix.seekAndRead, found, length]
  by_cases whole : outcome.count = size
  · simp [whole]
  · simp [whole]

/-- Two bytes in the middle of a file of four. -/
theorem read_range_middle :
    ∃ posix, Lib.exec call Posix.empty
        [.openFile [97] .createExclusive, .append 0 0 [1, 2, 3, 4]] = some posix ∧
      (readSome 0 1 2 ⟨2, le_rfl, fun _ => by decide⟩ [] posix).1 = .ok [2, 3] :=
  ⟨_, rfl, (read_range_iff _ 0 [1, 2, 3, 4] rfl 1 2 (by decide) ⟨2, le_rfl, fun _ => by decide⟩
    []).mpr rfl⟩

/-- One of two bytes is moved: the read of a range inside the file fails. -/
theorem read_short_transfer :
    ∃ posix, Lib.exec call Posix.empty
        [.openFile [97] .createExclusive, .append 0 0 [1, 2, 3, 4]] = some posix ∧
      posix.contents 0 = some [1, 2, 3, 4] ∧
      (readSome 0 1 2 ⟨1, by decide, fun _ => by decide⟩ [] posix).1 =
        .error ⟨.EINVAL, "invalid size"⟩ :=
  ⟨_, rfl, by decide, by decide⟩

end LocalStore

end Pain.Manusya
