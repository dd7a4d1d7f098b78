import Pain.Base.Types

/-!
# The store over RocksDB

`RocksdbStore` keeps hashes in the redis sense, each a map from field to value
under a key, in one RocksDB table. A pair of a key and a field becomes the one
string `key_field`, and `hgetall` is an iterator that seeks the key and goes on
for as long as the stored strings start with it.

A call into RocksDB either fails, with the text of its status, or acts on the
table as on a map ordered by the bytes of its keys. The `fault` of an operation
is the text of the failure, if there is one.
-/

namespace Pain.Common

/-- The code of an input/output error. -/
abbrev EIO : Errno := .other 5

/-- The contents of a `rocksdb::DB`. -/
abbrev DB := Map Bytes Bytes

namespace DB

/-- What `ToString` gives for the status of a `Get` that finds nothing. -/
def notFound : String := "NotFound: "

/-- `rocksdb::DB::Put`. -/
def put (fault : Option String) (key value : Bytes) (db : DB) : Except String DB :=
  match fault with
  | some text => .error text
  | none => .ok (db.insert key value)

/-- `rocksdb::DB::Get`. -/
def get (fault : Option String) (key : Bytes) (db : DB) : Except String Bytes :=
  match fault, db[key]? with
  | some text, _ => .error text
  | none, some value => .ok value
  | none, none => .error notFound

/-- `rocksdb::DB::Delete`, which does not mind a missing key. -/
def delete (fault : Option String) (key : Bytes) (db : DB) : Except String DB :=
  match fault with
  | some text => .error text
  | none => .ok (db.erase key)

end DB

namespace RocksdbStore

/-- The `_` of the format `"{}_{}"`. -/
def separator : UInt8 := 95

/-- `RocksdbStore::make_key`. -/
def makeKey (key field : Bytes) : Bytes :=
  key ++ separator :: field

/-- `RocksdbStore::hset`. -/
def hset (fault : Option String) (key field value : Bytes) (db : DB) : Status × DB :=
  match db.put fault (makeKey key field) value with
  | .error text => (Status.fail EIO text, db)
  | .ok db => (Status.OK, db)

/-- `RocksdbStore::hget`; the value is read only where the status is `OK`. -/
def hget (fault : Option String) (key field : Bytes) (db : DB) : Except Failure Bytes :=
  match db.get fault (makeKey key field) with
  | .error text => .error ⟨ EIO, text⟩
  | .ok value => .ok value

/-- `RocksdbStore::hdel`. -/
def hdel (fault : Option String) (key field : Bytes) (db : DB) : Status × DB :=
  match db.delete fault (makeKey key field) with
  | .error text => (Status.fail EIO text, db)
  | .ok db => (Status.OK, db)

/-- `RocksdbStore::hexists`. -/
def hexists (fault : Option String) (key field : Bytes) (db : DB) : Bool :=
  match hget fault key field db with
  | .ok _ => true
  | .error _ => false

/-- A `RocksdbStoreIterator`: what is left of the table from the position of `_iter` on, and
`_prefix`. -/
structure Iterator where
  iter : List (Bytes × Bytes)
  pfx : Bytes

namespace Iterator

/-- `RocksdbStoreIterator::valid`. -/
def valid (it : Iterator) : Bool :=
  match it.iter with
  | [] => false
  | (key, _) :: _ => it.pfx.isPrefixOf key

/-- `RocksdbStoreIterator::key`, where the iterator stands on an entry. -/
def key (it : Iterator) : Option Bytes :=
  it.iter.head?.map Prod.fst

/-- `RocksdbStoreIterator::value`, where the iterator stands on an entry. -/
def value (it : Iterator) : Option Bytes :=
  it.iter.head?.map Prod.snd

/-- `RocksdbStoreIterator::next`. -/
def next (it : Iterator) : Iterator :=
  { it with iter := it.iter.tail }

/-- The loop `while (it->valid()) { body; it->next(); }` over the entries that are left. -/
def loop {Result : Type} (pfx : Bytes) (body : Result → Bytes → Bytes → Result) :
    List (Bytes × Bytes) → Result → Result
  | [], result => result
  | (key, value) :: rest, result =>
      if pfx.isPrefixOf key then loop pfx body rest (body result key value) else result

/-- The loop from the position of an iterator on. -/
def whileValid {Result : Type} (body : Result → Bytes → Bytes → Result) (result : Result)
    (it : Iterator) : Result :=
  loop it.pfx body it.iter result

/-- What the iterator yields before it becomes invalid. -/
def elements (it : Iterator) : List (Bytes × Bytes) :=
  it.whileValid (fun found key value => found ++ [(key, value)]) []

theorem whileValid_of_not_valid {Result : Type} (body : Result → Bytes → Bytes → Result)
    (result : Result) {it : Iterator} (invalid : it.valid = false) :
    it.whileValid body result = result := by
  rcases it with ⟨_ | ⟨⟨key, value⟩, rest⟩, pfx⟩
  · rfl
  · simp only [valid] at invalid
    simp [whileValid, loop, invalid]

theorem whileValid_of_valid {Result : Type} (body : Result → Bytes → Bytes → Result)
    (result : Result) {it : Iterator} (isValid : it.valid) :
    ∃ key value, it.key = some key ∧ it.value = some value ∧
      it.whileValid body result = it.next.whileValid body (body result key value) := by
  rcases it with ⟨_ | ⟨⟨key, value⟩, rest⟩, pfx⟩
  · cases isValid
  · simp only [valid] at isValid
    exact ⟨key, value, rfl, rfl, by simp [whileValid, loop, isValid, next]⟩

theorem loop_eq_foldl {Result : Type} (pfx : Bytes) (body : Result → Bytes → Bytes → Result)
    (entries : List (Bytes × Bytes)) (result : Result) :
    loop pfx body entries result =
      (entries.takeWhile fun entry => pfx.isPrefixOf entry.1).foldl
        (fun result entry => body result entry.1 entry.2) result := by
  induction entries generalizing result with
  | nil => rfl
  | cons entry entries ih =>
      rcases entry with ⟨key, value⟩
      by_cases starts : pfx.isPrefixOf key
      · simp [loop, starts, ih]
      · simp [loop, starts]

theorem elements_eq_takeWhile (it : Iterator) :
    it.elements = it.iter.takeWhile fun entry => it.pfx.isPrefixOf entry.1 := by
  simp only [elements, whileValid, loop_eq_foldl]
  have appended : ∀ entries found : List (Bytes × Bytes),
      entries.foldl (fun found entry => found ++ [(entry.1, entry.2)]) found =
        found ++ entries := by
    intro entries found
    induction entries generalizing found with
    | nil => simp
    | cons entry entries ih => simp [ih]
  exact appended _ []

theorem whileValid_eq_foldl {Result : Type} (body : Result → Bytes → Bytes → Result)
    (result : Result) (it : Iterator) :
    it.whileValid body result =
      it.elements.foldl (fun result entry => body result entry.1 entry.2) result := by
  simp only [elements_eq_takeWhile, whileValid, loop_eq_foldl]

end Iterator

/-- `RocksdbStore::hgetall`: `Seek` goes to the first entry that is not below the key. -/
def hgetall (key : Bytes) (db : DB) : Iterator where
  iter := db.toList.dropWhile fun entry => (compare entry.1 key).isLT
  pfx := key

/-- `RocksdbStore::hlen`; its status is always `OK`. -/
def hlen (key : Bytes) (db : DB) : ℕ :=
  (hgetall key db).whileValid (fun size _ _ => size + 1) 0

end RocksdbStore

end Pain.Common
