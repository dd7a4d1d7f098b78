import Pain.Manusya.Store

/-!
# The store on a local directory

`LocalStore` keeps every chunk in a file of one directory. This file gives the
part of POSIX that it uses and the store on top of it.

A name of the directory refers to an inode, an open file description refers to
an inode and has a position of its own, and a file descriptor is the position of
its description. Removing a name leaves the inode to the descriptors that are
open on it. The directory is the data path, so a path is the name behind it; no
other file is in the directory, and the process owns the files and is not the
superuser. System calls on valid arguments succeed and transfer all bytes.
-/

namespace Pain.Manusya

/-- A file: its bytes, and whether its mode is `0444`. -/
structure Inode where
  data : Bytes
  readOnly : Bool
deriving DecidableEq, Repr

/-- An open file description. -/
structure Description where
  inode : ℕ
  position : ℕ
  writable : Bool
deriving DecidableEq, Repr

/-- The directory, the inodes, and the open descriptions; a closed descriptor has none. -/
structure Posix where
  names : Map Bytes ℕ
  inodes : List Inode
  descriptions : List (Option Description)

namespace Posix

/-- `EACCES`. -/
def EACCES : Errno := .other 13

/-- `EBADF`. -/
def EBADF : Errno := .other 9

/-- An empty directory. -/
def empty : Posix where
  names := ∅
  inodes := []
  descriptions := []

/-- The description behind a descriptor, and its inode. -/
def lookup (fd : ℕ) (posix : Posix) : Option (Description × Inode) :=
  match posix.descriptions[fd]? with
  | some (some description) =>
      (posix.inodes[description.inode]?).map (fun inode => (description, inode))
  | _ => none

/-- A new descriptor for an inode. -/
def newDescriptor (inode : ℕ) (writable : Bool) (posix : Posix) : ℕ × Posix :=
  (posix.descriptions.length,
    { posix with descriptions := posix.descriptions ++ [some ⟨inode, 0, writable⟩] })

/-- `open(2)`, which creates files with mode `0666`. -/
def openAt (path : Bytes) (flags : OpenFlags) (posix : Posix) : Except Errno ℕ × Posix :=
  match posix.names[path]? with
  | some number =>
      if flags.creat && flags.excl then (.error .EEXIST, posix)
      else
        match posix.inodes[number]? with
        | none => (.error .ENOENT, posix)
        | some inode =>
            if flags.rdwr && inode.readOnly then (.error EACCES, posix)
            else
              let data := if flags.trunc && flags.rdwr then [] else inode.data
              let (fd, posix) := newDescriptor number flags.rdwr
                { posix with inodes := posix.inodes.set number { inode with data := data } }
              (.ok fd, posix)
  | none =>
      if flags.creat then
        let (fd, posix) := newDescriptor posix.inodes.length flags.rdwr
          { posix with
            names := posix.names.insert path posix.inodes.length
            inodes := posix.inodes ++ [⟨[], false⟩] }
        (.ok fd, posix)
      else (.error .ENOENT, posix)

/-- The data after `buf` has been written at a position; a gap before it reads as zeros, and a
write of no bytes leaves the data alone. -/
def writeAt (data : Bytes) (position : ℕ) (buf : Bytes) : Bytes :=
  if buf = [] then data
  else
    data.take position ++ List.replicate (position - data.length) 0 ++ buf ++
      data.drop (position + buf.length)

/-- `writev(2)`: the buffer goes to the position of the description, which moves behind it. -/
def write (fd : ℕ) (buf : Bytes) (posix : Posix) : Except Errno Posix :=
  match posix.lookup fd with
  | none => .error EBADF
  | some (description, inode) =>
      if description.writable then
        .ok { posix with
          inodes := posix.inodes.set description.inode
            { inode with data := writeAt inode.data description.position buf }
          descriptions := posix.descriptions.set fd
            (some { description with position := description.position + buf.length }) }
      else .error EBADF

/-- `lseek(2)` with `SEEK_SET`, and `readv(2)` behind it. -/
def seekAndRead (fd offset size : ℕ) (posix : Posix) : Except Errno (Bytes × Posix) :=
  match posix.lookup fd with
  | none => .error EBADF
  | some (description, inode) =>
      let bytes := (inode.data.drop offset).take size
      .ok (bytes, { posix with
        descriptions := posix.descriptions.set fd
          (some { description with position := offset + bytes.length }) })

/-- `fchmod(2)` with mode `0444`. -/
def chmodReadOnly (fd : ℕ) (posix : Posix) : Except Errno Posix :=
  match posix.lookup fd with
  | none => .error EBADF
  | some (description, inode) =>
      .ok { posix with
        inodes := posix.inodes.set description.inode { inode with readOnly := true } }

/-- `unlink(2)`. -/
def unlink (path : Bytes) (posix : Posix) : Except Errno Posix :=
  if path ∈ posix.names then .ok { posix with names := posix.names.erase path }
  else .error .ENOENT

/-- `close(2)`. -/
def close (fd : ℕ) (posix : Posix) : Posix :=
  { posix with descriptions := posix.descriptions.set fd none }

end Posix

namespace LocalStore

/-- `LocalStore::open`. -/
def openFile (path : Bytes) (flags : OpenFlags) (posix : Posix) : Except Failure ℕ × Posix :=
  match posix.openAt path flags with
  | (.error errno, posix) => (.error ⟨errno, "failed to open file"⟩, posix)
  | (.ok fd, posix) => (.ok fd, posix)

/-- `LocalStore::append`. The offset is not used; the whole buffer is written, so the assertion
behind the write holds. -/
def append (fd : ℕ) (_offset : ℕ) (buf : Bytes) (posix : Posix) : Status × Posix :=
  match posix.write fd buf with
  | .error errno => (Status.fail errno "failed to write to file", posix)
  | .ok posix => (Status.OK, posix)

/-- `LocalStore::read`: the bytes replace what the buffer holds. -/
def read (fd offset size : ℕ) (_buf : Bytes) (posix : Posix) : Except Failure Bytes × Posix :=
  match posix.seekAndRead fd offset size with
  | .error errno => (.error ⟨errno, "failed to lseek"⟩, posix)
  | .ok (bytes, posix) =>
      if bytes.length ≠ size then (.error ⟨.EINVAL, "invalid size"⟩, posix)
      else (.ok bytes, posix)

/-- `LocalStore::seal`. -/
def sealFile (fd : ℕ) (posix : Posix) : Status × Posix :=
  match posix.chmodReadOnly fd with
  | .error errno => (Status.fail errno "failed to fchmod", posix)
  | .ok posix => (Status.OK, posix)

/-- `LocalStore::size`. -/
def size (fd : ℕ) (posix : Posix) : Except Failure ℕ × Posix :=
  match posix.lookup fd with
  | none => (.error ⟨Posix.EBADF, "failed to fstat"⟩, posix)
  | some (_, inode) => (.ok inode.data.length, posix)

/-- `LocalStore::remove`. -/
def remove (path : Bytes) (posix : Posix) : Status × Posix :=
  match posix.unlink path with
  | .error errno => (Status.fail errno "failed to unlink", posix)
  | .ok posix => (Status.OK, posix)

/-- `LocalStore::for_each`. Every file of the directory is a regular file. -/
def forEach (posix : Posix) : List Bytes :=
  posix.names.keys

/-- The virtual methods of `LocalStore`. -/
def store : Store Posix ℕ where
  openFile := openFile
  append := append
  read := read
  sealFile := sealFile
  size := size
  remove := remove
  close := Posix.close
  forEach := forEach

end LocalStore

end Pain.Manusya
