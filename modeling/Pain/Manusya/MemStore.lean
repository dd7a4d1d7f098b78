import Pain.Manusya.Store

/-!
# The in-memory store

`MemStore` keeps its files in a map from path to contents. A handle is the path
it was opened with, and `append`, `read` and `size` look the path up with
`operator[]`, which puts an empty file where there is none. `seal` does nothing.
-/

namespace Pain.Manusya

/-- The `_files` of a `MemStore`. -/
abbrev MemStore := Map Bytes Bytes

namespace MemStore

/-- `_files[path]`: the file, which is created empty if it is missing. -/
def subscript (files : MemStore) (path : Bytes) : Bytes × MemStore :=
  match files[path]? with
  | some data => (data, files)
  | none => ([], files.insert path [])

/-- `MemStore::open`. -/
def openFile (path : Bytes) (flags : OpenFlags) (files : MemStore) :
    Except Failure Bytes × MemStore :=
  match files[path]? with
  | some _ =>
      if flags.excl then (.error ⟨.EEXIST, "file already exists"⟩, files)
      else if flags.trunc then (.ok path, files.insert path [])
      else (.ok path, files)
  | none =>
      if flags.creat then (.ok path, files.insert path [])
      else (.error ⟨.ENOENT, "file not found"⟩, files)

/-- `MemStore::append`. The offset is not used. -/
def append (path : Bytes) (_offset : ℕ) (buf : Bytes) (files : MemStore) : Status × MemStore :=
  let (data, files) := subscript files path
  (Status.OK, files.insert path (data ++ buf))

/-- `MemStore::read`: `append_to` copies what there is of the requested range behind what the
buffer already holds. -/
def read (path : Bytes) (offset size : ℕ) (buf : Bytes) (files : MemStore) :
    Except Failure Bytes × MemStore :=
  let (data, files) := subscript files path
  (.ok (buf ++ (data.drop offset).take size), files)

/-- `MemStore::seal`. -/
def sealFile (_path : Bytes) (files : MemStore) : Status × MemStore :=
  (Status.OK, files)

/-- `MemStore::size`. -/
def size (path : Bytes) (files : MemStore) : Except Failure ℕ × MemStore :=
  let (data, files) := subscript files path
  (.ok data.length, files)

/-- `MemStore::remove`. -/
def remove (path : Bytes) (files : MemStore) : Status × MemStore :=
  (Status.OK, files.erase path)

/-- `MemStore::for_each`. -/
def forEach (files : MemStore) : List Bytes :=
  files.keys

/-- The virtual methods of `MemStore`. -/
def store : Store MemStore Bytes where
  openFile := openFile
  append := append
  read := read
  sealFile := sealFile
  size := size
  remove := remove
  close := fun _ files => files
  forEach := forEach

theorem subscript_of_mem {files : MemStore} {path data : Bytes} (found : files[path]? = some data) :
    subscript files path = (data, files) := by
  simp [subscript, found]

theorem subscript_preserves {files : MemStore} (path : Bytes) {other data : Bytes}
    (found : files[other]? = some data) : (subscript files path).2[other]? = some data := by
  unfold subscript
  split
  · exact found
  · rename_i missing
    have different : path ≠ other := by
      rintro rfl
      simp [missing] at found
    simp [Std.ExtTreeMap.getElem?_insert, different, found]

theorem openFile_createExclusive_files (path : Bytes) (files : MemStore) :
    (store.openFile path .createExclusive files).2 = (subscript files path).2 := by
  cases found : files[path]? <;>
    simp [store, openFile, subscript, OpenFlags.createExclusive, found]

theorem openFile_handle {path fh : Bytes} {flags : OpenFlags} {files next : MemStore}
    (opened : store.openFile path flags files = (.ok fh, next)) : fh = path := by
  simp only [store, openFile] at opened
  split at opened
  · split at opened
    · simp at opened
    · split at opened <;> simp_all
  · split at opened <;> simp_all

/-- A read in one section with its open finds the file there. -/
theorem openAndRead_files (path : Bytes) (offset size : ℕ) (buf : Bytes) (files : MemStore) :
    (store.openAndRead path offset size buf files).2 = files := by
  cases found : files[path]? with
  | none => simp [Store.openAndRead, store, openFile, OpenFlags.rdonly, found]
  | some data =>
      simp [Store.openAndRead, store, openFile, read, OpenFlags.rdonly, found,
        subscript_of_mem found]

/-- The in-memory store appends whole buffers and its calls do not disturb other files. -/
def spec : Store.Spec store where
  contents := fun files path => files[path]?
  append_ok := by
    intro files path data _ buf found _
    simp [store, append, subscript_of_mem found]
  append_error := by
    intro files path data _ buf _ failed
    exact absurd rfl failed
  append_other := by
    intro files path other data _ buf different found
    have kept := subscript_preserves path found
    simp [store, append, Std.ExtTreeMap.getElem?_insert, different.symm, kept]
  create_ok := by
    intro path files fh next opened
    simp only [store, openFile, OpenFlags.createExclusive] at opened
    split at opened
    · simp at opened
    · rename_i missing
      simp only [if_true, Prod.mk.injEq, Except.ok.injEq] at opened
      rcases opened with ⟨rfl, rfl⟩
      exact ⟨missing, by simp⟩
  create_other := by
    intro path files other data found
    rw [openFile_createExclusive_files]
    exact subscript_preserves path found
  read_other := by
    intro files other data path offset size buf found
    rw [openAndRead_files]
    exact found
  sealFile_other := by
    intro files other data path found
    exact found
  size_ok := by
    intro files path data length found sized
    simp only [store, size, subscript_of_mem found, Except.ok.injEq] at sized
    exact sized.symm
  size_other := by
    intro files path data other value found otherFound
    exact subscript_preserves _ otherFound

theorem spec_sealSucceeds : spec.SealSucceeds := by
  intro files path data _
  exact ⟨rfl, _, rfl⟩

theorem spec_appendSucceeds : spec.AppendSucceeds := by
  intro files path data _ _ _
  rfl

theorem mem_subscript_iff (files : MemStore) (path other : Bytes) :
    other ∈ (subscript files path).2 ↔ other = path ∨ other ∈ files := by
  unfold subscript
  split
  · rename_i found
    constructor
    · exact Or.inr
    · rintro (rfl | present)
      · exact Map.mem_of_getElem? found
      · exact present
  · rw [Map.mem_insert_iff, or_comm]

theorem mem_append_iff (path : Bytes) (offset : ℕ) (buf : Bytes) (files : MemStore)
    (other : Bytes) :
    other ∈ (store.append path offset buf files).2 ↔ other = path ∨ other ∈ files := by
  simp only [store, append, Map.mem_insert_iff, mem_subscript_iff]
  constructor
  · rintro (rest | same)
    · exact rest
    · exact Or.inl same
  · exact Or.inl

end MemStore

end Pain.Manusya
