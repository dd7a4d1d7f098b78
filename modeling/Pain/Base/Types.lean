import Mathlib

/-!
# Values shared by the servers

This file gives the small value types that every server of the repository
passes around: byte buffers, universally unique identifiers and statuses.

A `butil::IOBuf` and a C++ string are both read as the list of their bytes. A
`butil::Status` is either `OK` or an error code with its text, so a status is
an `Except` whose error side carries both.
-/

namespace Pain

/-- The bytes of a `butil::IOBuf`, of a `std::string` or of a C string. -/
abbrev Bytes := List UInt8

/-- A `pain::UUID`, read through its accessors `high` and `low`. -/
structure UUID where
  high : UInt64
  low : UInt64
deriving DecidableEq, Repr

namespace UUID

/-- An order for the maps of the model, which are looked up in and never walked in this order. The
order in which the code lists identifiers is that of a `UUID.Order`. -/
instance : Ord UUID where
  compare left right := compareLex (compareOn UUID.low) (compareOn UUID.high) left right

instance : Std.TransOrd UUID :=
  inferInstanceAs (Std.TransCmp (compareLex (compareOn UUID.low) (compareOn UUID.high)))

instance : Std.LawfulEqOrd UUID where
  eq_of_compare {left right} same := by
    have both : compareLex (compareOn UUID.low) (compareOn UUID.high) left right = .eq := same
    simp only [compareLex_eq_eq] at both
    rcases both with ⟨sameLow, sameHigh⟩
    cases left
    cases right
    simp only [compareOn, Std.LawfulEqCmp.compare_eq_iff_eq] at sameLow sameHigh
    simp [sameLow, sameHigh]

/-- The order of the library's `operator<`, which may be any strict total order: the library is not
part of the repository. -/
structure Order where
  compare : UUID → UUID → Ordering
  transCmp : Std.TransCmp compare
  lawfulEqCmp : Std.LawfulEqCmp compare

attribute [instance] Order.transCmp Order.lawfulEqCmp

/-- The order by the first eight bytes in memory, then the last eight. -/
def Order.bytewise : Order where
  compare := Ord.compare
  transCmp := inferInstance
  lawfulEqCmp := inferInstance

/-- The identifiers in their order, as a `std::map` holds its keys. -/
def Order.sort (order : Order) (uuids : List UUID) : List UUID :=
  uuids.insertionSort fun left right => (order.compare left right).isLE

theorem Order.mem_sort (order : Order) {uuid : UUID} {uuids : List UUID} :
    uuid ∈ order.sort uuids ↔ uuid ∈ uuids :=
  List.mem_insertionSort _

/-- Different identifiers are sorted strictly. -/
theorem Order.sort_pairwise (order : Order) {uuids : List UUID} (nodup : uuids.Nodup) :
    (order.sort uuids).Pairwise fun first second => order.compare first second = .lt := by
  have total : Std.Total fun left right : UUID => (order.compare left right).isLE = true := by
    constructor
    intro left right
    by_cases below : (order.compare left right).isLE = true
    · exact .inl below
    · rw [Bool.not_eq_true, Ordering.isLE_eq_false] at below
      exact .inr (by simp [Std.OrientedCmp.lt_of_gt below])
  have transitive : IsTrans UUID fun left right => (order.compare left right).isLE = true :=
    ⟨fun _ _ _ => Std.TransCmp.isLE_trans⟩
  have distinct : (order.sort uuids).Nodup := (List.perm_insertionSort _ uuids).nodup_iff.mpr nodup
  apply ((List.pairwise_insertionSort _ uuids).and distinct).imp
  rintro first second ⟨below, different⟩
  rw [Ordering.isLE_iff_eq_lt_or_eq_eq] at below
  exact below.resolve_right (mt Std.LawfulEqCmp.compare_eq_iff_eq.mp different)

/-- What the library of identifiers does with them: `operator<`, and the textual form of `str` and
`from_str_or_die`. It is used only through the laws of the order and through the round trip. -/
structure Text extends Order where
  str : UUID → Bytes
  fromStrOrDie : Bytes → UUID
  fromStrOrDie_str : ∀ uuid, fromStrOrDie (str uuid) = uuid

theorem Text.str_injective (text : Text) : Function.Injective text.str :=
  Function.LeftInverse.injective text.fromStrOrDie_str

@[simp]
theorem Text.str_inj (text : Text) {left right : UUID} :
    text.str left = text.str right ↔ left = right :=
  text.str_injective.eq_iff

end UUID

/-- The `errno` values that the modelled code names. -/
inductive Errno where
  | EPERM
  | ENOENT
  | EEXIST
  | EINVAL
  | other (code : ℕ)
deriving DecidableEq, Repr

/-- The number behind the name, as a message carries it. -/
def Errno.number : Errno → ℕ
  | .EPERM => 1
  | .ENOENT => 2
  | .EEXIST => 17
  | .EINVAL => 22
  | .other code => code

/-- A status that is not `OK`: its `error_code` and its `error_str`. -/
structure Failure where
  code : Errno
  message : String
deriving DecidableEq, Repr

/-- A `butil::Status`. -/
abbrev Status := Except Failure Unit

namespace Status

/-- `Status::OK()`. -/
abbrev OK : Status := .ok ()

/-- The constructor `Status(code, message)` of an error. -/
abbrev fail (code : Errno) (message : String) : Status := .error ⟨code, message⟩

end Status

/-- `pain::proto::Header`. -/
structure Header where
  status : UInt32
  message : String
deriving DecidableEq, Repr

/-- A `std::map`, ordered by the comparison of its keys. -/
abbrev Map (Key Value : Type) [Ord Key] := Std.ExtTreeMap Key Value

namespace Map

variable {Key Value : Type} [Ord Key] [Std.TransOrd Key] {map : Map Key Value} {key other : Key}
  {value : Value}

theorem mem_iff_exists : key ∈ map ↔ ∃ value, map[key]? = some value := by
  rw [Std.ExtTreeMap.mem_iff_isSome_getElem?, Option.isSome_iff_exists]

theorem mem_of_getElem? (found : map[key]? = some value) : key ∈ map :=
  mem_iff_exists.mpr ⟨value, found⟩

theorem notMem_of_getElem? (missing : map[key]? = none) : key ∉ map := by
  rw [Std.ExtTreeMap.mem_iff_isSome_getElem?, missing]
  exact Bool.false_ne_true

variable [Std.LawfulEqOrd Key]

theorem mem_insert_iff : other ∈ map.insert key value ↔ other ∈ map ∨ other = key := by
  rw [Std.ExtTreeMap.mem_insert, Std.LawfulEqCmp.compare_eq_iff_eq, or_comm, eq_comm]

theorem mem_erase_iff : other ∈ map.erase key ↔ other ∈ map ∧ other ≠ key := by
  rw [Std.ExtTreeMap.mem_erase, ne_eq, Std.LawfulEqCmp.compare_eq_iff_eq, and_comm, ne_comm]

end Map

end Pain
