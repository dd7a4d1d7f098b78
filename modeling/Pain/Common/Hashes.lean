import Pain.Common.RocksdbStore
import Pain.Lib.PrefixRange

/-!
# What the store is for

A key-value store like redis is a map of maps: each key has a hash of its own.
This file says when the flat table of `RocksdbStore` represents one hash, and
that the operations on that hash keep it so, as do those on a hash none of
whose flattened keys starts with the key.

The flattening itself does not separate the hashes. The last two sections give
the exact conditions under which pairs of a key and a field do not clash, and
under which an iterator over a hash sees nothing else.
-/

namespace Pain.Common

/-- The hashes of a store, as a client of it sees them. -/
abbrev Hashes := Bytes → Map Bytes Bytes

/-- A call that changes a store. -/
inductive Call where
  | hset (key field value : Bytes)
  | hdel (key field : Bytes)

namespace Call

/-- The key and the field that a call is about. -/
def pair : Call → Bytes × Bytes
  | .hset key field _ => (key, field)
  | .hdel key field => (key, field)

/-- What a call leaves under its pair. -/
def written : Call → Option Bytes
  | .hset _ _ value => some value
  | .hdel _ _ => none

/-- What a call does to the hashes. -/
def apply (hashes : Hashes) : Call → Hashes
  | .hset key field value => Function.update hashes key ((hashes key).insert field value)
  | .hdel key field => Function.update hashes key ((hashes key).erase field)

/-- What a call that does not fail does to the table. -/
def perform (db : DB) : Call → DB
  | .hset key field value => (RocksdbStore.hset none key field value db).2
  | .hdel key field => (RocksdbStore.hdel none key field db).2

end Call

/-- The hashes that a sequence of calls leaves. -/
def hashes (calls : List Call) : Hashes :=
  calls.foldl Call.apply (fun _ => ∅)

/-- The table that a sequence of calls leaves. -/
def table (calls : List Call) : DB :=
  calls.foldl Call.perform ∅

/-- The pair was last set to `value`, and not deleted since. -/
def LastSet (calls : List Call) (key field value : Bytes) : Prop :=
  ∃ before after, calls = before ++ .hset key field value :: after ∧
    ∀ call ∈ after, call.pair ≠ (key, field)

theorem hashes_append_singleton (calls : List Call) (call : Call) :
    hashes (calls ++ [call]) = call.apply (hashes calls) := by
  simp [hashes]

theorem table_append_singleton (calls : List Call) (call : Call) :
    table (calls ++ [call]) = call.perform (table calls) := by
  simp [table]

theorem Call.getElem?_apply (call : Call) (before : Hashes) (key field : Bytes) :
    (call.apply before key)[field]? =
      if call.pair = (key, field) then call.written else (before key)[field]? := by
  cases call with
  | hset otherKey otherField value =>
      by_cases sameKey : key = otherKey
      · subst sameKey
        simp [Call.apply, Call.pair, Call.written, Std.ExtTreeMap.getElem?_insert]
      · simp [Call.apply, Call.pair, Function.update_of_ne sameKey, Ne.symm sameKey]
  | hdel otherKey otherField =>
      by_cases sameKey : key = otherKey
      · subst sameKey
        simp [Call.apply, Call.pair, Call.written, Std.ExtTreeMap.getElem?_erase]
      · simp [Call.apply, Call.pair, Function.update_of_ne sameKey, Ne.symm sameKey]

theorem Call.getElem?_perform (call : Call) (db : DB) (flat : Bytes) :
    (call.perform db)[flat]? =
      if RocksdbStore.makeKey call.pair.1 call.pair.2 = flat then call.written else db[flat]? := by
  by_cases same : RocksdbStore.makeKey call.pair.1 call.pair.2 = flat
  · subst same
    cases call with
    | hset key field value =>
        simp [Call.perform, Call.pair, Call.written, RocksdbStore.hset, DB.put]
    | hdel key field => simp [Call.perform, Call.pair, Call.written, RocksdbStore.hdel, DB.delete]
  · simp only [same, if_false]
    cases call with
    | hset key field value =>
        simp only [Call.pair] at same
        simp [Call.perform, RocksdbStore.hset, DB.put, Std.ExtTreeMap.getElem?_insert, same]
    | hdel key field =>
        simp only [Call.pair] at same
        simp [Call.perform, RocksdbStore.hdel, DB.delete, Std.ExtTreeMap.getElem?_erase, same]

theorem lastSet_append_singleton (calls : List Call) (call : Call) (key field value : Bytes) :
    LastSet (calls ++ [call]) key field value ↔
      call = .hset key field value ∨ call.pair ≠ (key, field) ∧ LastSet calls key field value := by
  constructor
  · rintro ⟨before, after, split, later⟩
    rcases List.eq_nil_or_concat after with rfl | ⟨front, last, rfl⟩
    · have same := (List.append_inj' split rfl).2
      exact .inl (List.singleton_inj.mp same)
    · have moved : calls ++ [call] = (before ++ .hset key field value :: front) ++ [last] := by
        simpa using split
      rcases List.append_inj' moved rfl with ⟨sameCalls, sameLast⟩
      have same := List.singleton_inj.mp sameLast
      refine .inr ⟨?_, before, front, sameCalls, ?_⟩
      · exact same ▸ later last (by simp)
      · exact fun earlier earlierMem => later earlier (by simp [earlierMem])
  · rintro (rfl | ⟨other, before, after, rfl, later⟩)
    · exact ⟨calls, [], rfl, by simp⟩
    · refine ⟨before, after ++ [call], by simp, ?_⟩
      intro next nextMem
      rcases List.mem_append.mp nextMem with earlier | last
      · exact later next earlier
      · simp only [List.mem_singleton] at last
        exact last ▸ other

/-- The hashes of a client hold, for each pair, what was last set and not deleted since. -/
theorem hashes_eq_some_iff (calls : List Call) (key field value : Bytes) :
    (hashes calls key)[field]? = some value ↔ LastSet calls key field value := by
  induction calls using List.reverseRecOn with
  | nil => simp [hashes, LastSet]
  | append_singleton calls call ih =>
      simp only [hashes_append_singleton, lastSet_append_singleton]
      simp only [Call.getElem?_apply, ← ih]
      by_cases same : call.pair = (key, field)
      · cases call with
        | hset otherKey otherField set =>
            cases same
            simp [Call.pair, Call.written]
        | hdel otherKey otherField =>
            cases same
            simp [Call.pair, Call.written]
      · have different : call ≠ .hset key field value := by
          rintro rfl
          exact same rfl
        simp [same, different]

open RocksdbStore

theorem isPrefix_makeKey (key field : Bytes) : key <+: makeKey key field :=
  ⟨separator :: field, rfl⟩

theorem makeKey_injective (key : Bytes) : Function.Injective (makeKey key) := by
  intro first second same
  simpa [makeKey] using same

theorem hget_hset (key field other value : Bytes) (db : DB) :
    hget none key field (hset none key other value db).2 =
      if other = field then .ok value else hget none key field db := by
  have performed := Call.getElem?_perform (.hset key other value) db (makeKey key field)
  simp only [Call.perform, Call.pair, Call.written, (makeKey_injective key).eq_iff] at performed
  by_cases same : other = field
  · simp only [same, if_true] at performed ⊢
    simp only [hget, DB.get, performed]
  · simp only [same, if_false] at performed ⊢
    simp only [hget, DB.get, performed]

/-- An iterator over `key` yields the part of the table whose keys start with `key`. -/
theorem elements_hgetall_eq_filter (key : Bytes) (db : DB) :
    (hgetall key db).elements = db.toList.filter fun entry => key.isPrefixOf entry.1 := by
  simp only [Iterator.elements_eq_takeWhile, hgetall]
  exact Lib.scan_eq_filter key Std.ExtTreeMap.ordered_keys_toList

theorem mem_elements_hgetall (key : Bytes) (db : DB) (flat value : Bytes) :
    (flat, value) ∈ (hgetall key db).elements ↔ db[flat]? = some value ∧ key <+: flat := by
  simp [elements_hgetall_eq_filter, Std.ExtTreeMap.mem_toList_iff_getElem?_eq_some]

/-- The part of the table that an iterator over `key` reads holds the hash and nothing else. -/
structure Represents (db : DB) (key : Bytes) (hash : Map Bytes Bytes) : Prop where
  stored : ∀ field, db[makeKey key field]? = hash[field]?
  exclusive : ∀ flat ∈ db, key <+: flat → ∃ field, flat = makeKey key field

namespace Represents

variable {db : DB} {key : Bytes} {hash : Map Bytes Bytes}

theorem empty (key : Bytes) : Represents ∅ key ∅ where
  stored field := by simp
  exclusive flat flatMem := by simp at flatMem

/-- A call on the hash itself, or on a pair whose flattened key does not start with `key`, does to
the table what it does to the hash. -/
theorem perform {before : Hashes} (represents : Represents db key (before key)) {call : Call}
    (own : key <+: makeKey call.pair.1 call.pair.2 → call.pair.1 = key) :
    Represents (call.perform db) key (call.apply before key) where
  stored field := by
    have samePair : makeKey call.pair.1 call.pair.2 = makeKey key field ↔
        call.pair = (key, field) := by
      constructor
      · intro same
        have sameKey := own (same ▸ isPrefix_makeKey key field)
        simp only [sameKey, (makeKey_injective key).eq_iff] at same
        exact Prod.ext sameKey same
      · intro same
        simp [same]
    simp only [Call.getElem?_perform, Call.getElem?_apply, samePair, represents.stored]
  exclusive flat flatMem starts := by
    by_cases written : makeKey call.pair.1 call.pair.2 = flat
    · subst written
      exact ⟨call.pair.2, by simp only [own starts]⟩
    · apply represents.exclusive flat _ starts
      simp only [Std.ExtTreeMap.mem_iff_isSome_getElem?, Call.getElem?_perform, written,
        if_false] at flatMem ⊢
      exact flatMem

theorem hset (represents : Represents db key hash) (field value : Bytes) :
    Represents (RocksdbStore.hset none key field value db).2 key (hash.insert field value) := by
  have stored := @Represents.perform db key (fun _ => hash) represents
    (.hset key field value) (fun _ => rfl)
  simpa [Call.perform, Call.apply] using stored

theorem hset_apart (represents : Represents db key hash) {otherKey otherField : Bytes}
    (apart : ¬key <+: makeKey otherKey otherField) (value : Bytes) :
    Represents (RocksdbStore.hset none otherKey otherField value db).2 key hash := by
  have different : key ≠ otherKey := by
    rintro rfl
    exact apart (isPrefix_makeKey key otherField)
  have stored := @Represents.perform db key (fun _ => hash) represents
    (.hset otherKey otherField value) (fun starts => absurd starts apart)
  simpa [Call.perform, Call.apply, Function.update_of_ne different] using stored

theorem hexists_eq (represents : Represents db key hash) (field : Bytes) :
    RocksdbStore.hexists none key field db = hash[field]?.isSome := by
  simp only [RocksdbStore.hexists, RocksdbStore.hget, DB.get, represents.stored]
  cases hash[field]? with
  | none => rfl
  | some value => rfl

/-- The iterator over the hash yields its entries in the order of their fields, each under its
flattened key. -/
theorem elements_hgetall (represents : Represents db key hash) :
    (RocksdbStore.hgetall key db).elements =
      hash.toList.map fun entry => (makeKey key entry.1, entry.2) := by
  apply Lib.eq_of_sorted_of_mem_iff
  · simp only [elements_hgetall_eq_filter]
    exact Std.ExtTreeMap.ordered_keys_toList.filter _
  · apply List.pairwise_map.mpr
    apply Std.ExtTreeMap.ordered_keys_toList.imp
    intro first second ordered
    simpa [makeKey, Lib.compare_append_left] using ordered
  · rintro ⟨flat, value⟩
    simp only [mem_elements_hgetall, List.mem_map, Prod.mk.injEq, Prod.exists,
      Std.ExtTreeMap.mem_toList_iff_getElem?_eq_some]
    constructor
    · rintro ⟨found, starts⟩
      have flatMem : flat ∈ db := Map.mem_of_getElem? found
      rcases represents.exclusive flat flatMem starts with ⟨field, rfl⟩
      exact ⟨field, value, represents.stored field ▸ found, rfl, rfl⟩
    · rintro ⟨field, found, present, rfl, rfl⟩
      exact ⟨represents.stored field ▸ present, isPrefix_makeKey key field⟩

theorem hlen_eq (represents : Represents db key hash) : RocksdbStore.hlen key db = hash.size := by
  have counted : ∀ (entries : List (Bytes × Bytes)) (size : ℕ),
      entries.foldl (fun size _ => size + 1) size = size + entries.length := by
    intro entries size
    induction entries generalizing size with
    | nil => rfl
    | cons entry entries ih => simp [ih, Nat.add_assoc, Nat.add_comm 1]
  simp only [hlen, Iterator.whileValid_eq_foldl, represents.elements_hgetall, counted,
    List.length_map, Std.ExtTreeMap.length_toList, Nat.zero_add]

end Represents

section Fields

/-- Two different pairs have the same flattened key exactly if one splits it at an earlier
separator than the other. -/
theorem makeKey_eq_iff (key field otherKey otherField : Bytes) :
    makeKey key field = makeKey otherKey otherField ↔
      (key, field) = (otherKey, otherField) ∨
        (∃ middle, otherKey = makeKey key middle ∧ field = makeKey middle otherField) ∨
        ∃ middle, key = makeKey otherKey middle ∧ otherField = makeKey middle field := by
  constructor
  · intro same
    rcases List.append_eq_append_iff.mp same with ⟨middle, longer, rest⟩ | ⟨middle, longer, rest⟩
    · rcases List.cons_eq_append_iff.mp rest with ⟨rfl, equal⟩ | ⟨tail, rfl, equal⟩
      · simp only [List.cons.injEq, true_and] at equal
        exact .inl (by simp [longer, equal])
      · exact .inr (.inl ⟨tail, longer, equal⟩)
    · rcases List.cons_eq_append_iff.mp rest with ⟨rfl, equal⟩ | ⟨tail, rfl, equal⟩
      · simp only [List.cons.injEq, true_and] at equal
        exact .inl (by simp [longer, equal])
      · exact .inr (.inr ⟨tail, longer, equal⟩)
  · rintro (same | ⟨middle, rfl, rfl⟩ | ⟨middle, rfl, rfl⟩)
    · cases same
      rfl
    · simp [makeKey]
    · simp [makeKey]

/-- Two of the pairs split one flattened key at different separators. -/
def Clash (used : Set (Bytes × Bytes)) : Prop :=
  ∃ key middle field, (makeKey key middle, field) ∈ used ∧ (key, makeKey middle field) ∈ used

theorem injOn_of_not_clash {used : Set (Bytes × Bytes)} (apart : ¬Clash used) :
    Set.InjOn (fun pair => makeKey pair.1 pair.2) used := by
  rintro ⟨key, field⟩ usedPair ⟨otherKey, otherField⟩ usedOther same
  rcases (makeKey_eq_iff key field otherKey otherField).mp same with
    equal | ⟨middle, rfl, rfl⟩ | ⟨middle, rfl, rfl⟩
  · exact equal
  · exact absurd ⟨key, middle, otherField, usedOther, usedPair⟩ apart
  · exact absurd ⟨otherKey, middle, field, usedPair, usedOther⟩ apart

theorem getElem?_table {used : Set (Bytes × Bytes)}
    (injective : Set.InjOn (fun pair => makeKey pair.1 pair.2) used) {calls : List Call}
    (all : ∀ call ∈ calls, call.pair ∈ used) {key field : Bytes} (usedPair : (key, field) ∈ used) :
    (table calls)[makeKey key field]? = (hashes calls key)[field]? := by
  induction calls using List.reverseRecOn with
  | nil => simp [table, hashes]
  | append_singleton calls call ih =>
      have samePair : makeKey call.pair.1 call.pair.2 = makeKey key field ↔
          call.pair = (key, field) := injective.eq_iff (all call (by simp)) usedPair
      have earlier := ih (fun other otherMem => all other (by simp [otherMem]))
      simp only [table_append_singleton, hashes_append_singleton, Call.getElem?_perform,
        Call.getElem?_apply, samePair, earlier]

/-- What is read under a pair is what was last set under that very pair, and calls on the other
pairs in use do not change it. -/
structure Isolated (used : Set (Bytes × Bytes)) (calls : List Call) (key field : Bytes) : Prop where
  read : ∀ value, hget none key field (table calls) = .ok value ↔ LastSet calls key field value
  absent : (∀ value, ¬LastSet calls key field value) →
    hget none key field (table calls) = .error ⟨ EIO, DB.notFound⟩
  present : hexists none key field (table calls) ↔ ∃ value, LastSet calls key field value
  kept : ∀ call : Call, call.pair ∈ used → call.pair ≠ (key, field) →
    hget none key field (call.perform (table calls)) = hget none key field (table calls)

theorem isolated_of_not_clash {used : Set (Bytes × Bytes)} (apart : ¬Clash used)
    {calls : List Call} (all : ∀ call ∈ calls, call.pair ∈ used) {key field : Bytes}
    (usedPair : (key, field) ∈ used) : Isolated used calls key field := by
  have injective := injOn_of_not_clash apart
  have stored := getElem?_table injective all usedPair
  refine ⟨?_, ?_, ?_, ?_⟩
  · intro value
    simp only [← hashes_eq_some_iff, hget, DB.get, stored]
    cases (hashes calls key)[field]? with
    | none => simp
    | some current => simp
  · intro never
    have missing : (hashes calls key)[field]? = none := by
      apply Option.eq_none_iff_forall_ne_some.mpr
      intro value found
      exact never value ((hashes_eq_some_iff calls key field value).mp found)
    simp only [hget, DB.get, stored, missing]
  · simp only [← hashes_eq_some_iff, hexists, hget, DB.get, stored]
    cases (hashes calls key)[field]? with
    | none => simp
    | some current => simp
  · intro call usedCall other
    have different : makeKey call.pair.1 call.pair.2 ≠ makeKey key field := by
      intro same
      exact other (injective usedCall usedPair same)
    simp only [hget, DB.get, Call.getElem?_perform, different, if_false]

/-- For a set of pairs in use, the fields never interfere exactly if no two of the pairs split one
flattened key at different separators. -/
theorem isolated_iff_not_clash (used : Set (Bytes × Bytes)) :
    (∀ calls : List Call, (∀ call ∈ calls, call.pair ∈ used) →
      ∀ key field, (key, field) ∈ used → Isolated used calls key field) ↔ ¬Clash used := by
  constructor
  · rintro isolated ⟨key, middle, field, usedFirst, usedSecond⟩
    have read := (isolated [.hset (makeKey key middle) field []] (by simpa [Call.pair])
      key (makeKey middle field) usedSecond).read []
    have found : hget none key (makeKey middle field)
        (table [.hset (makeKey key middle) field []]) = .ok [] := by
      have same : makeKey (makeKey key middle) field = makeKey key (makeKey middle field) := by
        simp [makeKey]
      simp [hget, DB.get, table, Call.perform, hset, DB.put, same]
    rcases read.mp found with ⟨before, after, split, -⟩
    have setPair : Call.hset key (makeKey middle field) [] ∈
        [Call.hset (makeKey key middle) field []] := by
      simp [split]
    simp [makeKey] at setPair
  · intro apart calls all key field usedPair
    exact isolated_of_not_clash apart all usedPair

/-- The keys `a_b` and `a`: what is set as field `c` of the one is read as field `b_c` of the
other. -/
theorem not_isolated_underscore :
    ¬∀ (calls : List Call) (key field : Bytes), Isolated Set.univ calls key field := by
  intro isolated
  have read := (isolated [.hset [97, 95, 98] [99] [1]] [97] [98, 95, 99]).read [1]
  have found : hget none [97] [98, 95, 99] (table [.hset [97, 95, 98] [99] [1]]) = .ok [1] := by
    decide
  rcases read.mp found with ⟨before, after, split, -⟩
  have setPair : Call.hset [97] [98, 95, 99] [1] ∈ [Call.hset [97, 95, 98] [99] [1]] := by
    simp [split]
  simp at setPair

end Fields

section Iteration

/-- The iterator over `key` yields one element per field of its hash, with the value of that field,
and nothing else; `hlen` counts the fields. -/
structure SeesHash (calls : List Call) (key : Bytes) : Prop where
  elements : (hgetall key (table calls)).elements =
    (hashes calls key).toList.map fun entry => (makeKey key entry.1, entry.2)
  hlen : RocksdbStore.hlen key (table calls) = (hashes calls key).size

theorem represents_table {key : Bytes} {calls : List Call}
    (own : ∀ call ∈ calls, key <+: makeKey call.pair.1 call.pair.2 → call.pair.1 = key) :
    Represents (table calls) key (hashes calls key) := by
  induction calls using List.reverseRecOn with
  | nil => exact Represents.empty key
  | append_singleton calls call ih =>
      have earlier := ih (fun other otherMem => own other (by simp [otherMem]))
      simp only [table_append_singleton, hashes_append_singleton]
      exact earlier.perform (own call (by simp))

/-- For a set of pairs in use, an iterator over `key` always sees exactly the hash of `key` if and
only if no pair of another hash has a flattened key that starts with `key`. -/
theorem seesHash_iff (used : Set (Bytes × Bytes)) (key : Bytes) :
    (∀ calls : List Call, (∀ call ∈ calls, call.pair ∈ used) → SeesHash calls key) ↔
      ∀ pair ∈ used, key <+: makeKey pair.1 pair.2 → pair.1 = key := by
  constructor
  · rintro sees ⟨otherKey, field⟩ usedPair starts
    by_contra different
    have yielded : (makeKey otherKey field, []) ∈
        (hgetall key (table [.hset otherKey field []])).elements := by
      simp only [mem_elements_hgetall]
      exact ⟨by simp [table, Call.perform, hset, DB.put], starts⟩
    have empty : hashes [.hset otherKey field []] key = ∅ := by
      simp [hashes, Call.apply, Function.update_of_ne (Ne.symm different)]
    simp [(sees [.hset otherKey field []] (by simpa [Call.pair])).elements, empty] at yielded
  · intro own calls all
    have represents := represents_table (fun call callMem => own call.pair (all call callMem))
    exact ⟨represents.elements_hgetall, represents.hlen_eq⟩

/-- The keys `a` and `ab`: the field of `ab` is counted as one of `a`. -/
theorem not_seesHash_longer_key :
    ¬∀ (calls : List Call) (key : Bytes), SeesHash calls key := by
  intro sees
  have counted := (sees [.hset [97, 98] [99] [1]] [97]).hlen
  have one : RocksdbStore.hlen [97] (table [.hset [97, 98] [99] [1]]) = 1 := by decide
  have empty : hashes [.hset [97, 98] [99] [1]] [97] = ∅ := by
    simp [hashes, Call.apply, Function.update_of_ne]
  simp [one, empty] at counted

end Iteration

end Pain.Common
