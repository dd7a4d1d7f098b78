import Pain.Base.Types

/-!
# Extended attributes of a local file

`LocalStore` keeps the attributes of a file in its extended attributes. Keys and
values come in as C strings, so that an attribute ends at the first zero byte.
This file gives the three system calls and the three methods on the attributes
of one file.

`list_attrs` walks over the names that `flistxattr` returns. For each of them it
reads the value of the attribute into an array named `key`, which is then used
as the name of an attribute and as the key of the result: what the map gets are
the attributes whose names are values of attributes. The array is not
initialised and `fgetxattr` does not end what it writes with a zero byte, so the
name goes on with the memory behind the value up to the next zero byte; the
memory that the calls find there is a parameter.

`set_attr` passes on a value of any length, and `get_attr` reads into a buffer
of 1024 bytes.
-/

namespace Pain.Manusya

/-- The extended attributes of a file, by name. -/
abbrev Attributes := Map Bytes Bytes

/-- The C string at the start of a piece of memory. -/
def cString (memory : Bytes) : Bytes :=
  memory.takeWhile (· ≠ 0)

namespace Posix

/-- The attribute does not fit. -/
def ERANGE : Errno := .other 34

/-- There is no such attribute. -/
def ENODATA : Errno := .other 61

/-- `fsetxattr(2)`, which the file system may refuse. -/
def fsetxattr (refusal : Option Errno) (name value : Bytes) (attributes : Attributes) :
    Except Errno Attributes :=
  match refusal with
  | some errno => .error errno
  | none => .ok (attributes.insert name value)

/-- `fgetxattr(2)` with a buffer of so many bytes. -/
def fgetxattr (name : Bytes) (size : ℕ) (attributes : Attributes) : Except Errno Bytes :=
  match attributes[name]? with
  | none => .error ENODATA
  | some value => if size < value.length then .error ERANGE else .ok value

/-- The names, each with a zero byte behind it. -/
def nameList (names : List Bytes) : Bytes :=
  names.flatMap (fun name => name ++ [0])

/-- `flistxattr(2)` with a buffer of so many bytes, on a file system that lists the names in the
given order. -/
def flistxattr (names : List Bytes) (size : ℕ) : Except Errno Bytes :=
  if size < (nameList names).length then .error ERANGE else .ok (nameList names)

end Posix

namespace LocalStore

/-- `LocalStore::set_attr`. -/
def setAttr (refusal : Option Errno) (key value : Bytes) (attributes : Attributes) :
    Status × Attributes :=
  match Posix.fsetxattr refusal (cString key) (cString value) attributes with
  | .error errno => (Status.fail errno "failed to fsetxattr", attributes)
  | .ok attributes => (Status.OK, attributes)

/-- `LocalStore::get_attr`. -/
def getAttr (key : Bytes) (attributes : Attributes) : Except Failure Bytes :=
  match Posix.fgetxattr (cString key) 1024 attributes with
  | .error errno => .error ⟨errno, "failed to fgetxattr"⟩
  | .ok value => .ok value

/-- The loop of `LocalStore::list_attrs`. `list` is what `buf` holds from position `i` on, and
`memory turn` are the bytes that follow the value in memory in that turn. Every turn passes at
least one byte. -/
def listLoop (memory : ℕ → Bytes) (attributes : Attributes) :
    ℕ → ℕ → Bytes → Map Bytes Bytes → Status × Map Bytes Bytes
  | 0, _, _, attrs => (Status.OK, attrs)
  | turns + 1, turn, list, attrs =>
      if list = [] then (Status.OK, attrs)
      else
        match Posix.fgetxattr (cString list) 1024 attributes with
        | .error errno => (Status.fail errno "failed to fgetxattr", attrs)
        | .ok written =>
            let key := cString (written ++ memory turn)
            match getAttr key attributes with
            | .error failure => (.error failure, attrs)
            | .ok value =>
                listLoop memory attributes turns (turn + 1) (list.drop ((cString list).length + 1))
                  (attrs.insert key value)

/-- `LocalStore::list_attrs`: the status, and the map that the caller passed. -/
def listAttrs (memory : ℕ → Bytes) (names : List Bytes) (attributes : Attributes)
    (attrs : Map Bytes Bytes) : Status × Map Bytes Bytes :=
  match Posix.flistxattr names 1024 with
  | .error errno => (Status.fail errno "failed to flistxattr", attrs)
  | .ok list => listLoop memory attributes list.length 0 list attrs

/-- The attributes after calls of `set_attr` on a file without attributes. -/
def setAttrs (calls : List (Option Errno × Bytes × Bytes)) : Attributes :=
  calls.foldl (fun attributes (refusal, key, value) => (setAttr refusal key value attributes).2) ∅

theorem zero_notMem_cString (memory : Bytes) : 0 ∉ cString memory := by
  intro member
  simpa using List.mem_takeWhile_imp member

/-- A name is read up to the zero byte behind it. -/
theorem cString_of_zero_notMem {name : Bytes} (clean : 0 ∉ name) (rest : Bytes) :
    cString (name ++ 0 :: rest) = name := by
  have all : ∀ byte ∈ name, decide (byte ≠ 0) = true := by
    intro byte member
    have nonzero : byte ≠ 0 := fun zero => clean (zero ▸ member)
    simpa using nonzero
  unfold cString
  rw [List.takeWhile_append_of_pos all]
  simp

theorem cString_cString (memory : Bytes) : cString (cString memory) = cString memory := by
  simp [cString, List.takeWhile_takeWhile]

/-- The names that come out of calls of `set_attr` are C strings. -/
theorem zero_notMem_of_mem_setAttrs (calls : List (Option Errno × Bytes × Bytes)) {name : Bytes}
    (member : name ∈ setAttrs calls) : 0 ∉ name := by
  induction calls using List.reverseRecOn with
  | nil => simp [setAttrs] at member
  | append_singleton calls call ih =>
      rcases call with ⟨refusal, key, value⟩
      simp only [setAttrs, List.foldl_append, List.foldl_cons, List.foldl_nil] at member
      cases refusal with
      | some errno => exact ih member
      | none =>
          simp only [setAttr, Posix.fsetxattr, Std.ExtTreeMap.mem_insert,
            Std.LawfulEqCmp.compare_eq_iff_eq] at member
          rcases member with rfl | old
          · exact zero_notMem_cString key
          · exact ih old

/-- The strings that the turns of the loop use as names: the value of each listed attribute, with
the memory behind it up to the next zero byte. -/
def readKeys (memory : ℕ → Bytes) (attributes : Attributes) : ℕ → List Bytes → List Bytes
  | _, [] => []
  | turn, name :: names =>
      cString ((attributes[name]?).getD [] ++ memory turn) ::
        readKeys memory attributes (turn + 1) names

/-- Every value fits into the buffer of `get_attr`. -/
def SmallValues (attributes : Attributes) : Prop :=
  ∀ name value : Bytes, attributes[name]? = some value → value.length ≤ 1024

section Loop

variable {memory : ℕ → Bytes} {attributes : Attributes}

theorem fgetxattr_of_small {name value : Bytes} {size : ℕ} (found : attributes[name]? = some value)
    (small : value.length ≤ size) : Posix.fgetxattr name size attributes = .ok value := by
  simp [Posix.fgetxattr, found, Nat.not_lt.mpr small]

/-- A turn of the loop reads the value behind a name and uses it as the next name. -/
theorem listLoop_cons {turns turn : ℕ} {name : Bytes} {names : List Bytes} {value : Bytes}
    {attrs : Map Bytes Bytes} (clean : 0 ∉ name) (found : attributes[name]? = some value)
    (small : SmallValues attributes) :
    listLoop memory attributes (turns + 1) turn (Posix.nameList (name :: names)) attrs =
      match attributes[cString (value ++ memory turn)]? with
      | none => (Status.fail Posix.ENODATA "failed to fgetxattr", attrs)
      | some held =>
          listLoop memory attributes turns (turn + 1) (Posix.nameList names)
            (attrs.insert (cString (value ++ memory turn)) held) := by
  have list : Posix.nameList (name :: names) = name ++ 0 :: Posix.nameList names := by
    simp [Posix.nameList]
  have nonempty : name ++ 0 :: Posix.nameList names ≠ [] := by simp
  have rest : (name ++ 0 :: Posix.nameList names).drop (name.length + 1) =
      Posix.nameList names := by
    simp [List.drop_append, List.drop_eq_nil_of_le]
  simp only [listLoop, list, nonempty, if_false, cString_of_zero_notMem clean,
    fgetxattr_of_small found (small name value found), rest, getAttr, cString_cString]
  cases held : attributes[cString (value ++ memory turn)]? with
  | none => simp only [Posix.fgetxattr, held]
  | some other => simp only [fgetxattr_of_small held (small _ other held)]

/-- The listed names are C strings and names of attributes. -/
def Listed (attributes : Attributes) (names : List Bytes) : Prop :=
  ∀ name ∈ names, 0 ∉ name ∧ name ∈ attributes

theorem Listed.head {name : Bytes} {names : List Bytes}
    (listed : Listed attributes (name :: names)) :
    0 ∉ name ∧ ∃ value, attributes[name]? = some value := by
  rcases listed name List.mem_cons_self with ⟨clean, member⟩
  exact ⟨clean, Map.mem_iff_exists.mp member⟩

theorem Listed.tail {name : Bytes} {names : List Bytes}
    (listed : Listed attributes (name :: names)) :
    Listed attributes names :=
  fun other member => listed other (List.mem_cons_of_mem _ member)

theorem exists_turns {name : Bytes} {names : List Bytes} {turns : ℕ}
    (enough : (Posix.nameList (name :: names)).length ≤ turns) :
    ∃ later, turns = later + 1 ∧ (Posix.nameList names).length ≤ later := by
  simp only [Posix.nameList, List.flatMap_cons, List.length_append, List.length_singleton] at enough
  exact ⟨turns - 1, by omega, by simp only [Posix.nameList]; omega⟩

/-- Behind the last name the loop ends. -/
theorem listLoop_nil (turns turn : ℕ) (attrs : Map Bytes Bytes) :
    listLoop memory attributes turns turn (Posix.nameList []) attrs = (Status.OK, attrs) := by
  cases turns <;> simp [listLoop, Posix.nameList]

/-- If every string that the loop uses as a name is one, the map gets these attributes. -/
theorem listLoop_of_forall_mem {names : List Bytes} (listed : Listed attributes names)
    (small : SmallValues attributes) {turns turn : ℕ}
    (enough : (Posix.nameList names).length ≤ turns) (attrs : Map Bytes Bytes)
    (all : ∀ key ∈ readKeys memory attributes turn names, key ∈ attributes) :
    listLoop memory attributes turns turn (Posix.nameList names) attrs =
      (Status.OK, (readKeys memory attributes turn names).foldl
        (fun attrs key => attrs.insert key ((attributes[key]?).getD [])) attrs) := by
  induction names generalizing turns turn attrs with
  | nil => simp [listLoop_nil, readKeys]
  | cons name names ih =>
      rcases exists_turns enough with ⟨later, rfl, enoughLater⟩
      rcases listed.head with ⟨clean, value, found⟩
      simp only [readKeys, found, Option.getD_some, List.forall_mem_cons] at all ⊢
      rcases Map.mem_iff_exists.mp all.1 with ⟨held, heldAt⟩
      simp only [listLoop_cons clean found small, heldAt, List.foldl_cons, Option.getD_some]
      exact ih listed.tail enoughLater _ all.2

/-- If one of them is not, the loop fails. -/
theorem listLoop_of_notMem {names : List Bytes} (listed : Listed attributes names)
    (small : SmallValues attributes) {turns turn : ℕ}
    (enough : (Posix.nameList names).length ≤ turns) (attrs : Map Bytes Bytes) {key : Bytes}
    (read : key ∈ readKeys memory attributes turn names) (missing : key ∉ attributes) :
    (listLoop memory attributes turns turn (Posix.nameList names) attrs).1 ≠ Status.OK := by
  induction names generalizing turns turn attrs with
  | nil => simp [readKeys] at read
  | cons name names ih =>
      rcases exists_turns enough with ⟨later, rfl, enoughLater⟩
      rcases listed.head with ⟨clean, value, found⟩
      simp only [readKeys, found, Option.getD_some, List.mem_cons] at read
      rw [listLoop_cons clean found small]
      cases held : attributes[cString (value ++ memory turn)]? with
      | none => simp [Status.fail]
      | some other =>
          rcases read with rfl | later
          · rw [Std.ExtTreeMap.getElem?_eq_none missing] at held
            cases held
          · exact ih listed.tail enoughLater _ later

end Loop

theorem getElem?_foldl_insert (contents : Bytes → Bytes) (keys : List Bytes)
    (attrs : Map Bytes Bytes) (name : Bytes) :
    (keys.foldl (fun attrs key => attrs.insert key (contents key)) attrs)[name]? =
      if name ∈ keys then some (contents name) else attrs[name]? := by
  induction keys generalizing attrs with
  | nil => simp
  | cons key keys ih =>
      simp only [List.foldl_cons, ih, Std.ExtTreeMap.getElem?_insert,
        Std.LawfulEqCmp.compare_eq_iff_eq, List.mem_cons]
      by_cases later : name ∈ keys
      · simp [later]
      · by_cases same : key = name
        · simp [later, same]
        · simp [later, same, Ne.symm same]

/-- Listing attributes. For every sequence of calls of `set_attr` on a file, in whichever order
the file system lists the names, and whatever memory lies behind the values, as long as the names
fit into the list buffer and the values into theirs, `list_attrs` on an empty map returns `OK` and
exactly the attributes, if and only if the strings that start at the values of the attributes are
the names of the attributes. -/
theorem listAttrs_exact_iff (calls : List (Option Errno × Bytes × Bytes)) (memory : ℕ → Bytes)
    (names : List Bytes) (listed : names.Perm (setAttrs calls).keys)
    (fits : (Posix.nameList names).length ≤ 1024) (small : SmallValues (setAttrs calls)) :
    listAttrs memory names (setAttrs calls) ∅ = (Status.OK, setAttrs calls) ↔
      ∀ name, name ∈ setAttrs calls ↔ name ∈ readKeys memory (setAttrs calls) 0 names := by
  have isListed : Listed (setAttrs calls) names := by
    intro name member
    have present := Std.ExtTreeMap.mem_keys.mp (listed.mem_iff.mp member)
    exact ⟨zero_notMem_of_mem_setAttrs calls present, present⟩
  have loops : listAttrs memory names (setAttrs calls) ∅ =
      listLoop memory (setAttrs calls) (Posix.nameList names).length 0
        (Posix.nameList names) ∅ := by
    simp only [listAttrs, Posix.flistxattr, if_neg (Nat.not_lt.mpr fits)]
  rw [loops]
  by_cases all : ∀ key ∈ readKeys memory (setAttrs calls) 0 names, key ∈ setAttrs calls
  · have ends := listLoop_of_forall_mem isListed small le_rfl ∅ all
    rw [ends, Prod.mk.injEq, and_iff_right rfl]
    constructor
    · intro same name
      refine ⟨fun member => ?_, all name⟩
      by_contra unread
      have looked := getElem?_foldl_insert (fun key => ((setAttrs calls)[key]?).getD [])
        (readKeys memory (setAttrs calls) 0 names) ∅ name
      rw [same, if_neg unread, Std.ExtTreeMap.getElem?_empty] at looked
      exact Map.notMem_of_getElem? looked member
    · intro covers
      apply Std.ExtTreeMap.ext_getElem?
      intro name
      rw [getElem?_foldl_insert]
      by_cases member : name ∈ setAttrs calls
      · rcases Map.mem_iff_exists.mp member with ⟨value, found⟩
        rw [if_pos ((covers name).mp member), found, Option.getD_some]
      · rw [if_neg (fun read => member ((covers name).mpr read)),
          Std.ExtTreeMap.getElem?_eq_none member, Std.ExtTreeMap.getElem?_empty]
  · simp only [not_forall] at all
    rcases all with ⟨key, read, missing⟩
    constructor
    · intro ends
      have failed := listLoop_of_notMem isListed small le_rfl ∅ read missing
      rw [ends] at failed
      exact absurd rfl failed
    · exact fun covers => absurd ((covers key).mpr read) missing

/-- The text `user.a`. -/
def userA : Bytes := [117, 115, 101, 114, 46, 97]

/-- The text `user.b`. -/
def userB : Bytes := [117, 115, 101, 114, 46, 98]

/-- The text `user.x`. -/
def userX : Bytes := [117, 115, 101, 114, 46, 120]

/-- Two attributes, each with the name of the other for its value, and zeros behind them. -/
theorem listAttrs_exact_swapped :
    listAttrs (fun _ => [0]) [userA, userB]
        (setAttrs [(none, userA, userB), (none, userB, userA)]) ∅ =
      (Status.OK, setAttrs [(none, userA, userB), (none, userB, userA)]) := by
  have keys : (setAttrs [(none, userA, userB), (none, userB, userA)]).keys = [userA, userB] := by
    decide
  apply (listAttrs_exact_iff [(none, userA, userB), (none, userB, userA)] (fun _ => [0])
    [userA, userB] (by rw [keys]) (by decide) ?_).mpr
  · intro name
    rw [← Std.ExtTreeMap.mem_keys, keys]
    have read : readKeys (fun _ => [0]) (setAttrs [(none, userA, userB), (none, userB, userA)]) 0
        [userA, userB] = [userB, userA] := by decide
    rw [read]
    simp [or_comm]
  · intro name value found
    have short : value.length ≤ 6 := by
      simp only [setAttrs, setAttr, Posix.fsetxattr, List.foldl_cons, List.foldl_nil,
        Std.ExtTreeMap.getElem?_insert] at found
      split at found
      · simp only [Option.some.injEq] at found
        subst found
        decide
      · split at found
        · simp only [Option.some.injEq] at found
          subst found
          decide
        · simp at found
    omega

/-- One attribute, whose value is not the name of an attribute: the listing fails. -/
theorem listAttrs_fails :
    (setAttr none userA userX ∅).1 = Status.OK ∧
      (listAttrs (fun _ => [0]) [userA] (setAttrs [(none, userA, userX)]) ∅).1 =
        Status.fail Posix.ENODATA "failed to fgetxattr" ∧
      listAttrs (fun _ => [0]) [userA] (setAttrs [(none, userA, userX)]) ∅ ≠
        (Status.OK, setAttrs [(none, userA, userX)]) := by
  have failed : (listAttrs (fun _ => [0]) [userA] (setAttrs [(none, userA, userX)]) ∅).1 =
      Status.fail Posix.ENODATA "failed to fgetxattr" := by decide
  refine ⟨rfl, failed, ?_⟩
  intro succeeds
  rw [succeeds] at failed
  cases failed

section RoundTrip

theorem setAttrs_append_singleton (calls : List (Option Errno × Bytes × Bytes))
    (call : Option Errno × Bytes × Bytes) :
    setAttrs (calls ++ [call]) = (setAttr call.1 call.2.1 call.2.2 (setAttrs calls)).2 := by
  simp [setAttrs]

/-- What a call does to each attribute. -/
theorem getElem?_setAttr (refusal : Option Errno) (key value name : Bytes)
    (attributes : Attributes) :
    (setAttr refusal key value attributes).2[name]? =
      if refusal = none ∧ cString key = name then some (cString value)
      else attributes[name]? := by
  cases refusal with
  | none => simp [setAttr, Posix.fsetxattr, Std.ExtTreeMap.getElem?_insert]
  | some errno => simp [setAttr, Posix.fsetxattr]

/-- A call that succeeds and is the last one for its key decides what the attribute holds. -/
theorem getElem?_setAttrs_of_last {before after : List (Option Errno × Bytes × Bytes)}
    {refusal : Option Errno} {key value : Bytes}
    (accepted : (setAttr refusal key value (setAttrs before)).1 = Status.OK)
    (last : ∀ call ∈ after, cString call.2.1 ≠ cString key) :
    (setAttrs (before ++ (refusal, key, value) :: after))[cString key]? =
      some (cString value) := by
  induction after using List.reverseRecOn with
  | nil =>
      have stored : refusal = none := by
        cases refusal with
        | none => rfl
        | some errno => simp [setAttr, Posix.fsetxattr, Status.fail] at accepted
      simp [setAttrs_append_singleton, getElem?_setAttr, stored]
  | append_singleton after call ih =>
      have different : cString call.2.1 ≠ cString key := last call (by simp)
      have earlier := ih (fun other member => last other (by simp [member]))
      rw [← List.cons_append, ← List.append_assoc, setAttrs_append_singleton, getElem?_setAttr,
        if_neg (fun both => different both.2)]
      exact earlier

/-- What is read behind the last call for a key. -/
theorem getAttr_setAttrs {before after : List (Option Errno × Bytes × Bytes)}
    {refusal : Option Errno} {key value : Bytes}
    (accepted : (setAttr refusal key value (setAttrs before)).1 = Status.OK)
    (last : ∀ call ∈ after, cString call.2.1 ≠ cString key) :
    getAttr key (setAttrs (before ++ (refusal, key, value) :: after)) =
      if 1024 < (cString value).length then .error ⟨Posix.ERANGE, "failed to fgetxattr"⟩
      else .ok (cString value) := by
  unfold getAttr Posix.fgetxattr
  simp only [getElem?_setAttrs_of_last accepted last]
  by_cases large : 1024 < (cString value).length
  · simp only [if_pos large]
  · simp only [if_neg large]

/-- Setting and getting an attribute. For every sequence of calls of `set_attr` on a file, whatever
the file system refuses, if the last call for a key returned `OK`, then `get_attr` returns `OK` and
the value of that call, if and only if the value is at most as long as the buffer of `get_attr`. -/
theorem getAttr_setAttr_iff (before after : List (Option Errno × Bytes × Bytes))
    (refusal : Option Errno) (key value : Bytes)
    (accepted : (setAttr refusal key value (setAttrs before)).1 = Status.OK)
    (last : ∀ call ∈ after, cString call.2.1 ≠ cString key) :
    getAttr key (setAttrs (before ++ (refusal, key, value) :: after)) = .ok (cString value) ↔
      (cString value).length ≤ 1024 := by
  rw [getAttr_setAttrs accepted last]
  by_cases large : 1024 < (cString value).length
  · simp [large]
  · simp [large, Nat.le_of_not_lt large]

/-- An attribute that is set, set again after a refused call, and followed by one of another key. -/
theorem getAttr_setAttr_again :
    getAttr userA (setAttrs [(none, userA, userX), (some .EPERM, userA, [122]),
      (none, userA, [121, 121]), (none, userB, userX)]) = .ok [121, 121] :=
  (getAttr_setAttr_iff [(none, userA, userX), (some .EPERM, userA, [122])] [(none, userB, userX)]
    none userA [121, 121] rfl (by decide)).mpr (by decide)

/-- A value of 1025 bytes is accepted, and cannot be read back. -/
theorem getAttr_long_value :
    (setAttr none userA (List.replicate 1025 120) (setAttrs [])).1 = Status.OK ∧
      getAttr userA (setAttrs [(none, userA, List.replicate 1025 120)]) =
        .error ⟨Posix.ERANGE, "failed to fgetxattr"⟩ ∧
      getAttr userA (setAttrs [(none, userA, List.replicate 1025 120)]) ≠
        .ok (cString (List.replicate 1025 120)) := by
  have whole : cString (List.replicate 1025 (120 : UInt8)) = List.replicate 1025 120 := by
    apply List.takeWhile_eq_self_iff.mpr
    intro byte member
    simp [List.eq_of_mem_replicate member]
  have failed : getAttr userA (setAttrs [(none, userA, List.replicate 1025 120)]) =
      .error ⟨Posix.ERANGE, "failed to fgetxattr"⟩ := by
    have accepted : (setAttr none userA (List.replicate 1025 120) (setAttrs [])).1 = Status.OK :=
      rfl
    have read := getAttr_setAttrs accepted (List.forall_mem_nil _)
    rw [whole, List.length_replicate, if_pos (by decide)] at read
    exact read
  refine ⟨rfl, failed, ?_⟩
  rw [failed]
  intro same
  cases same

end RoundTrip

end LocalStore

end Pain.Manusya
