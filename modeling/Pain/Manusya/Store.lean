import Pain.Base.Types

/-!
# The store interface of the chunk server

`pain::manusya::Store` is an abstract class. `Store σ H` is its table of
virtual methods over a store state `σ` and file handles `H`; the methods of
`FileHandle` forward to it. Every method of the class returns a future that is
ready when it returns, so a method is a function from the state to its status
and the next state. Pointers that every caller sets are passed by value, so the
null checks of the two implementations have no counterpart.

`Store.Spec` says what the chunk server relies on: an append through a handle
adds the whole buffer at the end of the file or fails without effect, and no
call disturbs a file that it is not about. A store whose appends fail at times
meets it as well as one whose appends never fail.
-/

namespace Pain.Manusya

/-- The `open` flags that the chunk server uses. -/
structure OpenFlags where
  creat : Bool
  excl : Bool
  trunc : Bool
  rdwr : Bool
deriving DecidableEq, Repr

namespace OpenFlags

/-- `O_RDONLY`. -/
def rdonly : OpenFlags where
  creat := false
  excl := false
  trunc := false
  rdwr := false

/-- `O_CREAT | O_RDWR | O_EXCL`. -/
def createExclusive : OpenFlags where
  creat := true
  excl := true
  trunc := false
  rdwr := true

end OpenFlags

/-- The virtual methods of `Store`. `close` is the destructor of the file handle. -/
structure Store (σ H : Type) where
  openFile : Bytes → OpenFlags → σ → Except Failure H × σ
  append : H → ℕ → Bytes → σ → Status × σ
  read : H → ℕ → ℕ → Bytes → σ → Except Failure Bytes × σ
  sealFile : H → σ → Status × σ
  size : H → σ → Except Failure ℕ × σ
  remove : Bytes → σ → Status × σ
  close : H → σ → σ
  forEach : σ → List Bytes

namespace Store

variable {σ H : Type}

/-- Open a file for reading, read from it, and drop the handle. -/
def openAndRead (store : Store σ H) (path : Bytes) (offset size : ℕ) (buf : Bytes) (state : σ) :
    Except Failure Bytes × σ :=
  match store.openFile path .rdonly state with
  | (.error failure, state) => (.error failure, state)
  | (.ok fh, state) =>
      let (status, state) := store.read fh offset size buf state
      (status, store.close fh state)

/-- What a store promises about the handles through which files are appended to.
`contents state fh` is what the file behind `fh` holds, for a handle through which an append
extends the file; the promises say nothing about any other handle. -/
structure Spec (store : Store σ H) where
  contents : σ → H → Option Bytes
  append_ok : ∀ {state fh data} (offset : ℕ) (buf : Bytes), contents state fh = some data →
    (store.append fh offset buf state).1 = Status.OK →
      contents (store.append fh offset buf state).2 fh = some (data ++ buf)
  append_error : ∀ {state fh data} (offset : ℕ) (buf : Bytes), contents state fh = some data →
    (store.append fh offset buf state).1 ≠ Status.OK →
      contents (store.append fh offset buf state).2 fh = some data
  append_other : ∀ {state fh other data} (offset : ℕ) (buf : Bytes), other ≠ fh →
    contents state other = some data →
      contents (store.append fh offset buf state).2 other = some data
  create_ok : ∀ {path state fh next},
    store.openFile path .createExclusive state = (.ok fh, next) →
      contents state fh = none ∧ contents next fh = some []
  create_other : ∀ {path state other data}, contents state other = some data →
    contents (store.openFile path .createExclusive state).2 other = some data
  read_other : ∀ {state other data} (path : Bytes) (offset size : ℕ) (buf : Bytes),
    contents state other = some data →
      contents (store.openAndRead path offset size buf state).2 other = some data
  sealFile_other : ∀ {state other data} (fh : H), contents state other = some data →
    contents (store.sealFile fh state).2 other = some data
  size_ok : ∀ {state fh data length}, contents state fh = some data →
    (store.size fh state).1 = .ok length → length = data.length
  size_other : ∀ {state fh data other value}, contents state fh = some data →
    contents state other = some value →
      contents (store.size fh state).2 other = some value

/-- No call of `seal` or `size` on a file that is there fails. -/
def Spec.SealSucceeds {store : Store σ H} (spec : Spec store) : Prop :=
  ∀ {state fh data}, spec.contents state fh = some data →
    (store.sealFile fh state).1 = Status.OK ∧ ∃ length, (store.size fh state).1 = .ok length

/-- No call of `append` on a file that is there fails. -/
def Spec.AppendSucceeds {store : Store σ H} (spec : Spec store) : Prop :=
  ∀ {state fh data} (offset : ℕ) (buf : Bytes), spec.contents state fh = some data →
    (store.append fh offset buf state).1 = Status.OK

end Store

end Pain.Manusya
