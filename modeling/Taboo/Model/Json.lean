import Mathlib.Data.Rat.Defs
import Mathlib.Algebra.Order.Ring.Rat
import Mathlib.Data.List.TakeWhile

/-! # JSON documents as the parser delivers them

Strings are byte strings with their length, so they may contain zero bytes; an object keeps its
members in document order and may repeat a name. Integers that fit 64 bits stay integers, every
other number is a finite double. The parser itself is a parameter of the functions that call it.
-/

namespace Taboo

/-- `std::string` -/
abbrev Bytes := List UInt8

/-- The bytes of a literal. -/
def ascii (literal : String) : Bytes := literal.toUTF8.data.toList

/-- What `c_str()` and `GetString()` let a reader of C strings see. -/
def cStr (text : Bytes) : Bytes := text.takeWhile (· ≠ 0)

theorem cStr_length_le (text : Bytes) : (cStr text).length ≤ text.length :=
  (List.takeWhile_prefix _).length_le

theorem cStr_eq_self_iff (text : Bytes) : cStr text = text ↔ 0 ∉ text := by
  rw [cStr, List.takeWhile_eq_self_iff]
  constructor
  · intro all member
    simpa using all 0 member
  · intro absent byte member
    exact decide_eq_true fun zero => absent (zero ▸ member)

/-- A finite IEEE double, by its value. -/
structure Double where
  value : ℚ
  representable : ∃ mantissa exponent : ℤ, |mantissa| < 2 ^ 53 ∧ -1074 ≤ exponent ∧ exponent ≤ 971 ∧
    value = mantissa * (2 : ℚ) ^ exponent

inductive Number
  | integer (value : ℤ) (range : -2 ^ 63 ≤ value ∧ value < 2 ^ 64)
  | double (value : Double)

inductive Value
  | null
  | bool (value : Bool)
  | number (value : Number)
  | string (value : Bytes)
  | array (elements : List Value)
  | object (members : List (Bytes × Value))

abbrev Members := List (Bytes × Value)

/-- `rapidjson::Document::Parse`; `none` is a parse error. -/
abbrev Parser := Bytes → Option Value

/-- Nearest double of an integer below `2 ^ 64` in magnitude, ties to even. -/
def roundToDouble (n : ℕ) : ℕ :=
  if n < 2 ^ 53 then n
  else
    let shift := n.log2 - 52
    let quotient := n >>> shift
    let rest := n % 2 ^ shift
    let half := 2 ^ (shift - 1)
    (if rest < half ∨ (rest = half ∧ quotient % 2 = 0) then quotient else quotient + 1) <<< shift

/-- `GetDouble`, by value. -/
def Number.toDouble : Number → ℚ
  | .integer value _ => value.sign * (roundToDouble value.natAbs : ℤ)
  | .double value => value.value

/-- Two integers compare as integers; as soon as one side is a double, both do. -/
def Number.equal : Number → Number → Bool
  | .integer left _, .integer right _ => left == right
  | left, right => left.toDouble == right.toDouble

namespace Value

/-- `Value(unsigned)` -/
def ofUint (value : UInt32) : Value :=
  number (.integer value.toNat ⟨by omega, by have := value.toNat_lt; omega⟩)

def isNull : Value → Bool
  | null => true
  | _ => false

def isString : Value → Bool
  | string _ => true
  | _ => false

def isArray : Value → Bool
  | array _ => true
  | _ => false

def isObject : Value → Bool
  | object _ => true
  | _ => false

/-- The value `GetUint` returns, where `IsUint` holds. -/
def uint? : Value → Option UInt32
  | number (.integer value _) => if 0 ≤ value ∧ value < 2 ^ 32 then some (.ofNat value.toNat) else none
  | _ => none

@[simp] theorem uint?_ofUint (id : UInt32) : (ofUint id).uint? = some id := by
  have bound : (id.toNat : ℤ) < 2 ^ 32 := by
    have := id.toNat_lt
    omega
  simpa [uint?, ofUint] using bound

theorem uint?_eq_some_iff {value : Value} {id : UInt32} : value.uint? = some id ↔ value = .ofUint id := by
  constructor
  · intro read
    unfold uint? at read
    split at read
    · next integer range =>
      split_ifs at read with bounds
      obtain ⟨natural, rfl⟩ := Int.eq_ofNat_of_zero_le bounds.1
      have same : (id.toNat : ℤ) = natural := by
        rw [← Option.some.inj read]
        simp only [Int.toNat_natCast, UInt32.toNat_ofNat']
        omega
      unfold ofUint
      simp only [same]
    · cases read
  · rintro rfl
    exact uint?_ofUint id

def isUint (value : Value) : Bool := value.uint?.isSome

/-- The value `GetInt64` returns, where `IsInt` holds. -/
def int? : Value → Option ℤ
  | number (.integer value _) => if -2 ^ 31 ≤ value ∧ value < 2 ^ 31 then some value else none
  | _ => none

end Value

/-- `FindMember`: the first member of that name. -/
def findMember (members : Members) (name : Bytes) : Option Value :=
  (members.find? fun entry => entry.1 == name).map Prod.snd

mutual

/-- `operator==` of two values: objects by name, whatever the order of their members. -/
def Value.equal : Value → Value → Bool
  | .null, .null => true
  | .bool left, .bool right => left == right
  | .number left, .number right => left.equal right
  | .string left, .string right => left == right
  | .array left, .array right => equalElements left right
  | .object left, .object right => left.length == right.length && equalMembers left right
  | _, _ => false

def equalElements : List Value → List Value → Bool
  | [], [] => true
  | left :: lefts, right :: rights => left.equal right && equalElements lefts rights
  | _, _ => false

def equalMembers : Members → Members → Bool
  | [], _ => true
  | (name, left) :: lefts, rights =>
      (match findMember rights name with
        | some right => left.equal right
        | none => false) && equalMembers lefts rights

end

/-- The ways in which a request ends the process instead of being answered, and the one in which it leaves
the model. -/
inductive Fault
  /-- an accessor applied to a value of another type -/
  | badAccess
  /-- an iterator moved past the end of its container -/
  | pastEnd
  /-- cedar's `_err`, which exits -/
  | badKey
  /-- a key with a zero byte, which the trie cannot follow: in cedar's arrays it leads through the cell of a
  value -/
  | zeroByte
  /-- `boost::bad_lexical_cast`, which nothing catches -/
  | badCast
deriving DecidableEq, Repr

theorem error_of_map {α β : Type} {f : α → β} {result : Except Fault α} {fault : Fault}
    (failed : result.map f = .error fault) : result = .error fault := by
  cases result with
  | error other => exact congrArg Except.error (Except.error.inj failed)
  | ok value => cases failed

theorem ok_of_map {α β : Type} {f : α → β} {result : Except Fault α} {outcome : β}
    (done : result.map f = .ok outcome) : ∃ value, result = .ok value ∧ f value = outcome := by
  cases result with
  | error fault => cases done
  | ok value => exact ⟨value, rfl, Except.ok.inj done⟩

/-- An iteration order of an unordered container, unspecified but for its elements. -/
structure HashOrder (α : Type) where
  order : List α → List α
  perm : ∀ elements, (order elements).Perm elements

/-- The order of insertion. -/
def HashOrder.insertion (α : Type) : HashOrder α := ⟨id, fun _ => .refl _⟩

theorem HashOrder.mem_iff {α : Type} (hash : HashOrder α) {elements : List α} {element : α} :
    element ∈ hash.order elements ↔ element ∈ elements :=
  (hash.perm elements).mem_iff

/-- A set that is cleared and filled again. Its order depends on the buckets it has, which grow with what
is inserted and stay when it is cleared. A new one has none. -/
structure HashBuckets (α : Type) where
  order : ℕ → HashOrder α
  grow : ℕ → List α → ℕ

def HashBuckets.insertion (α : Type) : HashBuckets α := ⟨fun _ => .insertion α, fun buckets _ => buckets⟩

end Taboo
