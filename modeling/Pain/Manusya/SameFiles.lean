import Pain.Manusya.LocalStore
import Pain.Manusya.MemStore

/-!
# The same files in memory and in a directory

A `MemStore` and a `LocalStore` hold the same files if there is a ledger that
says, path by path, which bytes both hold. The ledger also names the descriptor
that the chunk of the path writes through; the description behind it stands at
the end of the file, since only the appends of the chunk move it, and a reader
opens a description of its own.

Each call that the chunk server makes of its store is answered alike by two
stores with the same files, and leaves them with the same files.
-/

namespace Pain.Manusya

/-- The file of a chunk: its bytes, and the descriptor that the chunk writes it through. -/
structure FileRecord where
  data : Bytes
  fd : ℕ
deriving DecidableEq

/-- The files that there are. -/
abbrev Ledger := Bytes → Option FileRecord

/-- The name refers to an inode with the bytes of the record, and its descriptor is open for
writing at their end. -/
structure Posix.Holds (posix : Posix) (path : Bytes) (record : FileRecord) (number : ℕ) :
    Prop where
  name : posix.names[path]? = some number
  inode : ∃ readOnly, posix.inodes[number]? = some ⟨record.data, readOnly⟩
  description : posix.descriptions[record.fd]? = some (some ⟨number, record.data.length, true⟩)

/-- The map and the directory hold the files of the ledger. -/
structure SameFiles (ledger : Ledger) (files : MemStore) (posix : Posix) : Prop where
  contents : ∀ path, files[path]? = (ledger path).map FileRecord.data
  absent : ∀ {path : Bytes}, ledger path = none → posix.names[path]? = none
  held : ∀ {path record}, ledger path = some record → ∃ number, posix.Holds path record number
  apart : ∀ {path other : Bytes} {number : ℕ}, posix.names[path]? = some number →
    posix.names[other]? = some number → path = other

theorem Posix.Holds.lookup {posix : Posix} {path : Bytes} {record : FileRecord} {number : ℕ}
    (holds : posix.Holds path record number) :
    ∃ readOnly, posix.lookup record.fd =
      some (⟨number, record.data.length, true⟩, ⟨record.data, readOnly⟩) := by
  rcases holds.inode with ⟨readOnly, inode⟩
  exact ⟨readOnly, by simp [Posix.lookup, holds.description, inode]⟩

theorem Posix.writeAt_length (data buf : Bytes) :
    Posix.writeAt data data.length buf = data ++ buf := by
  by_cases empty : buf = [] <;> simp [Posix.writeAt, empty]

theorem update_of_entry {ledger : Ledger} {path : Bytes} {record : FileRecord}
    (entry : ledger path = some record) :
    Function.update ledger path (some ⟨record.data, record.fd⟩) = ledger := by
  simp [← entry]

namespace SameFiles

variable {ledger : Ledger} {files : MemStore} {posix : Posix} {path : Bytes} {record : FileRecord}

/-- Two empty stores have the same files. -/
theorem empty : SameFiles (fun _ => none) ∅ Posix.empty where
  contents := by
    intro path
    simp
  absent := by
    intro path _
    simp [Posix.empty]
  held := by
    intro path record impossible
    simp at impossible
  apart := by
    intro path other number named
    simp [Posix.empty] at named

theorem file (same : SameFiles ledger files posix) (entry : ledger path = some record) :
    files[path]? = some record.data := by
  simp [same.contents, entry]

/-- Two files share neither their inode nor their descriptor. -/
theorem distinct (same : SameFiles ledger files posix) {other : Bytes} {otherRecord : FileRecord}
    {number otherNumber : ℕ} (holds : posix.Holds path record number)
    (otherHolds : posix.Holds other otherRecord otherNumber) (different : other ≠ path) :
    number ≠ otherNumber ∧ record.fd ≠ otherRecord.fd := by
  have inodes : number ≠ otherNumber := by
    rintro rfl
    exact different (same.apart otherHolds.name holds.name)
  refine ⟨inodes, ?_⟩
  intro sameDescriptor
  have description := holds.description
  simp only [sameDescriptor, otherHolds.description, Option.some.injEq,
    Description.mk.injEq] at description
  exact inodes description.1.symm

/-- A new descriptor that no chunk writes through changes nothing. -/
theorem addDescription (same : SameFiles ledger files posix) (entry : Option Description) :
    SameFiles ledger files
      { posix with descriptions := posix.descriptions ++ [entry] } where
  contents := same.contents
  absent := same.absent
  held := by
    intro path record found
    rcases same.held found with ⟨number, holds⟩
    refine ⟨number, holds.name, holds.inode, ?_⟩
    have inside := (List.getElem?_eq_some_iff.mp holds.description).1
    simp [List.getElem?_append_left inside, holds.description]
  apart := same.apart

/-- A change of one file that leaves the others alone. -/
theorem change (same : SameFiles ledger files posix) {entry : Option FileRecord}
    {files' : MemStore} {posix' : Posix} (file : files'[path]? = entry.map FileRecord.data)
    (otherFiles : ∀ other, other ≠ path → files'[other]? = files[other]?)
    (gone : entry = none → posix'.names[path]? = none)
    (held : ∀ record, entry = some record → ∃ number, posix'.Holds path record number)
    (otherNames : ∀ other, other ≠ path → posix'.names[other]? = posix.names[other]?)
    (otherHeld : ∀ other record number, other ≠ path → posix.Holds other record number →
      posix'.Holds other record number)
    (apart : ∀ (other : Bytes) (number : ℕ), posix'.names[path]? = some number →
      posix'.names[other]? = some number → other = path) :
    SameFiles (Function.update ledger path entry) files' posix' where
  contents := by
    intro other
    by_cases isPath : other = path
    · subst isPath
      simp [file]
    · simp [Function.update_of_ne isPath, otherFiles other isPath, same.contents]
  absent := by
    intro other missing
    by_cases isPath : other = path
    · subst isPath
      exact gone (by simpa using missing)
    · simp only [Function.update_of_ne isPath] at missing
      simp [otherNames other isPath, same.absent missing]
  held := by
    intro other record found
    by_cases isPath : other = path
    · subst isPath
      exact held record (by simpa using found)
    · simp only [Function.update_of_ne isPath] at found
      rcases same.held found with ⟨number, holds⟩
      exact ⟨number, otherHeld other record number isPath holds⟩
  apart := by
    intro first second number firstNamed secondNamed
    by_cases isFirst : first = path
    · subst isFirst
      exact (apart second number firstNamed secondNamed).symm
    · by_cases isSecond : second = path
      · subst isSecond
        exact apart first number secondNamed firstNamed
      · simp only [otherNames _ isFirst, otherNames _ isSecond] at firstNamed secondNamed
        exact same.apart firstNamed secondNamed

theorem rewrite (same : SameFiles ledger files posix) {number : ℕ}
    (holds : posix.Holds path record number) (data : Bytes) (readOnly : Bool) :
    SameFiles (Function.update ledger path (some ⟨data, record.fd⟩)) (files.insert path data)
      { posix with
        inodes := posix.inodes.set number ⟨data, readOnly⟩
        descriptions := posix.descriptions.set record.fd
          (some ⟨number, data.length, true⟩) } := by
  apply same.change
  · simp
  · intro other isOther
    simp [Std.ExtTreeMap.getElem?_insert, Ne.symm isOther]
  · simp
  · rintro found ⟨⟩
    rcases holds.inode with ⟨before, inode⟩
    have inodeInside := (List.getElem?_eq_some_iff.mp inode).1
    have descriptionInside := (List.getElem?_eq_some_iff.mp holds.description).1
    refine ⟨number, holds.name, ⟨readOnly, ?_⟩, ?_⟩
    · simp [inodeInside]
    · simp [descriptionInside]
  · simp
  · intro other otherRecord otherNumber isOther otherHolds
    rcases same.distinct holds otherHolds isOther with ⟨inodes, descriptors⟩
    refine ⟨otherHolds.name, ?_, ?_⟩
    · simpa [List.getElem?_set_ne inodes] using otherHolds.inode
    · simpa [List.getElem?_set_ne descriptors] using otherHolds.description
  · intro other found named otherNamed
    exact same.apart otherNamed named

/-- An append through the handles of a file. -/
theorem append (same : SameFiles ledger files posix) (entry : ledger path = some record)
    (offset : ℕ) (buf : Bytes) :
    ∃ files' posix', MemStore.store.append path offset buf files = (Status.OK, files') ∧
      LocalStore.store.append record.fd offset buf posix = (Status.OK, posix') ∧
        SameFiles (Function.update ledger path (some ⟨record.data ++ buf, record.fd⟩))
          files' posix' := by
  rcases same.held entry with ⟨number, holds⟩
  rcases holds.lookup with ⟨readOnly, found⟩
  refine ⟨_, _, ?_, ?_, same.rewrite holds (record.data ++ buf) readOnly⟩
  · simp [MemStore.store, MemStore.append, MemStore.subscript_of_mem (same.file entry)]
  · simp [LocalStore.store, LocalStore.append, Posix.write, found, Posix.writeAt_length]

/-- The `seal` of a file, and its `size` behind it. -/
theorem sealFile (same : SameFiles ledger files posix) (entry : ledger path = some record) :
    ∃ posix', MemStore.store.sealFile path files = (Status.OK, files) ∧
      MemStore.store.size path files = (.ok record.data.length, files) ∧
      LocalStore.store.sealFile record.fd posix = (Status.OK, posix') ∧
      LocalStore.store.size record.fd posix' = (.ok record.data.length, posix') ∧
      SameFiles ledger files posix' := by
  rcases same.held entry with ⟨number, holds⟩
  rcases holds.lookup with ⟨readOnly, found⟩
  rcases holds.inode with ⟨before, inode⟩
  have inside := (List.getElem?_eq_some_iff.mp inode).1
  refine ⟨{ posix with inodes := posix.inodes.set number ⟨record.data, true⟩ }, rfl, ?_, ?_, ?_, ?_⟩
  · simp [MemStore.store, MemStore.size, MemStore.subscript_of_mem (same.file entry)]
  · simp [LocalStore.store, LocalStore.sealFile, Posix.chmodReadOnly, found]
  · simp [LocalStore.store, LocalStore.size, Posix.lookup, holds.description, inside]
  · have unchanged := same.rewrite holds record.data true
    have sameFiles : files.insert path record.data = files := by
      apply Std.ExtTreeMap.ext_getElem?
      intro other
      by_cases isPath : path = other
      · subst isPath
        simp [same.file entry]
      · simp [Std.ExtTreeMap.getElem?_insert, isPath]
    have sameDescriptions : posix.descriptions.set record.fd
        (some ⟨number, record.data.length, true⟩) = posix.descriptions := by
      rcases List.getElem?_eq_some_iff.mp holds.description with ⟨descriptionInside, found⟩
      simp [← found]
    simpa only [update_of_entry entry, sameFiles, sameDescriptions] using unchanged

theorem create_exists (same : SameFiles ledger files posix) (entry : ledger path = some record) :
    MemStore.store.openFile path .createExclusive files =
        (.error ⟨.EEXIST, "file already exists"⟩, files) ∧
      LocalStore.store.openFile path .createExclusive posix =
        (.error ⟨.EEXIST, "failed to open file"⟩, posix) := by
  rcases same.held entry with ⟨number, holds⟩
  constructor
  · simp [MemStore.store, MemStore.openFile, OpenFlags.createExclusive, same.file entry]
  · simp [LocalStore.store, LocalStore.openFile, Posix.openAt, OpenFlags.createExclusive,
      holds.name]

theorem number_lt (same : SameFiles ledger files posix) {number : ℕ}
    (named : posix.names[path]? = some number) : number < posix.inodes.length := by
  cases entry : ledger path with
  | none => simp [same.absent entry] at named
  | some record =>
      rcases same.held entry with ⟨found, holds⟩
      rcases holds.inode with ⟨readOnly, inode⟩
      have isFound : found = number := by simpa [holds.name] using named
      exact isFound ▸ (List.getElem?_eq_some_iff.mp inode).1

/-- A new file is created on both stores. -/
theorem create (same : SameFiles ledger files posix) (missing : ledger path = none) :
    ∃ fd files' posix', MemStore.store.openFile path .createExclusive files = (.ok path, files') ∧
      LocalStore.store.openFile path .createExclusive posix = (.ok fd, posix') ∧
        SameFiles (Function.update ledger path (some ⟨[], fd⟩)) files' posix' := by
  have noFile : files[path]? = none := by simp [same.contents, missing]
  refine ⟨posix.descriptions.length, files.insert path [],
    { names := posix.names.insert path posix.inodes.length
      inodes := posix.inodes ++ [⟨[], false⟩]
      descriptions := posix.descriptions ++ [some ⟨posix.inodes.length, 0, true⟩] }, ?_, ?_, ?_⟩
  · simp [MemStore.store, MemStore.openFile, OpenFlags.createExclusive, noFile]
  · simp [LocalStore.store, LocalStore.openFile, Posix.openAt, Posix.newDescriptor,
      OpenFlags.createExclusive, same.absent missing]
  · apply same.change
    · simp
    · intro other isOther
      simp [Std.ExtTreeMap.getElem?_insert, Ne.symm isOther]
    · simp
    · rintro found ⟨⟩
      exact ⟨posix.inodes.length, by simp, ⟨false, by simp⟩, by simp⟩
    · intro other isOther
      simp [Std.ExtTreeMap.getElem?_insert, Ne.symm isOther]
    · intro other record number isOther holds
      rcases holds.inode with ⟨readOnly, inode⟩
      have inodeInside := (List.getElem?_eq_some_iff.mp inode).1
      have descriptionInside := (List.getElem?_eq_some_iff.mp holds.description).1
      refine ⟨?_, ⟨readOnly, ?_⟩, ?_⟩
      · simp [Std.ExtTreeMap.getElem?_insert, Ne.symm isOther, holds.name]
      · simp [List.getElem?_append_left inodeInside, inode]
      · simp [List.getElem?_append_left descriptionInside, holds.description]
    · intro other number named otherNamed
      by_contra isOther
      simp only [Std.ExtTreeMap.getElem?_insert_self, Option.some.injEq] at named
      simp only [Std.ExtTreeMap.getElem?_insert, Std.compare_eq_iff_eq, Ne.symm isOther,
        if_false] at otherNamed
      have old := same.number_lt otherNamed
      omega

/-- A file is removed from both stores. -/
theorem remove (same : SameFiles ledger files posix) (entry : ledger path = some record) :
    SameFiles (Function.update ledger path none) (MemStore.store.remove path files).2
      (LocalStore.store.remove path posix).2 := by
  rcases same.held entry with ⟨number, holds⟩
  have named : path ∈ posix.names := by
    simp [← Std.ExtTreeMap.isSome_getElem?_iff_mem, holds.name]
  simp only [MemStore.store, MemStore.remove, LocalStore.store, LocalStore.remove, Posix.unlink,
    named, if_true]
  apply same.change
  · simp
  · intro other isOther
    simp [Std.ExtTreeMap.getElem?_erase, Ne.symm isOther]
  · simp
  · simp
  · intro other isOther
    simp [Std.ExtTreeMap.getElem?_erase, Ne.symm isOther]
  · intro other otherRecord otherNumber isOther otherHolds
    refine ⟨?_, otherHolds.inode, otherHolds.description⟩
    simp [Std.ExtTreeMap.getElem?_erase, Ne.symm isOther, otherHolds.name]
  · intro other found erased
    simp at erased

/-- A read of bytes that the file has, into an empty buffer. -/
theorem openAndRead (same : SameFiles ledger files posix) (entry : ledger path = some record)
    {offset size : ℕ} (inside : offset + size ≤ record.data.length) :
    ∃ bytes posix', MemStore.store.openAndRead path offset size [] files = (.ok bytes, files) ∧
      LocalStore.store.openAndRead path offset size [] posix = (.ok bytes, posix') ∧
        SameFiles ledger files posix' := by
  rcases same.held entry with ⟨number, holds⟩
  rcases holds.inode with ⟨readOnly, inode⟩
  have unwritten : posix.inodes.set number ⟨record.data, readOnly⟩ = posix.inodes := by
    simp [← (List.getElem?_eq_some_iff.mp inode).2]
  refine ⟨(record.data.drop offset).take size, _, ?_, ?_, same.addDescription none⟩
  · simp [Store.openAndRead, MemStore.store, MemStore.openFile, MemStore.read, OpenFlags.rdonly,
      same.file entry, MemStore.subscript_of_mem (same.file entry)]
  · have available : ¬ record.data.length - offset < size := by omega
    simp [Store.openAndRead, LocalStore.store, LocalStore.openFile, LocalStore.read, Posix.openAt,
      Posix.newDescriptor, Posix.seekAndRead, Posix.lookup, Posix.close, OpenFlags.rdonly,
      holds.name, inode, available, unwritten]

end SameFiles

end Pain.Manusya
