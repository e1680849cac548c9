import Taboo.Model.TokenHandler

/-! # Size options

Numbers of bytes, connections and items are given with a unit, as in `4K`. `toInteger` reads them for the
two unsigned types that such options have.
-/

namespace Taboo

/-- The instances of `toInteger`: `uint32_t` and `std::size_t`. -/
inductive IntType
  | uint32
  | size
deriving DecidableEq, Repr

def IntType.width : IntType → ℕ
  | uint32 => 32
  | size => 64

/-- What `toInteger` ends with instead of a number. -/
inductive SizeError
  /-- `ErrorBadValue`, with its text -/
  | badValue (what : Bytes)
  /-- `boost::bad_lexical_cast` -/
  | badCast
  /-- the literal `1`, an `int`, shifted by its width or more; nothing is thrown -/
  | badShift
deriving DecidableEq, Repr

namespace SizeOption

/-- The text of `ErrorBadValue`, before the name of the option is filled in. -/
def errorBadValue (optionValue reason : Bytes) : SizeError :=
  .badValue (ascii "invalid config value " ++
    (if optionValue = [] then [] else ascii "'" ++ optionValue ++ ascii "' ") ++ ascii "for option '%option%'" ++
    (if reason = [] then reason else ascii ": " ++ reason))

/-- `std::isalpha` of the classic locale. -/
def isAlpha (byte : UInt8) : Bool := (65 ≤ byte && byte ≤ 90) || (97 ≤ byte && byte ≤ 122)

/-- `std::tolower` -/
def toLower (byte : UInt8) : UInt8 := if 65 ≤ byte && byte ≤ 90 then byte + 32 else byte

/-- The bits of `k`, `m`, `g` and `t`. -/
def unitBits (unit : UInt8) : Option ℕ :=
  match toLower unit with
  | 107 => some 10
  | 109 => some 20
  | 103 => some 30
  | 116 => some 40
  | _ => none

/-- `boost::lexical_cast` to an unsigned type: a minus wraps. -/
def lexicalCast (type : IntType) (text : Bytes) : Option ℕ :=
  match TokenHandler.digits (TokenHandler.splitSign text).2 with
  | some value =>
      if value < 2 ^ type.width then
        some (if (TokenHandler.splitSign text).1 then (2 ^ type.width - value) % 2 ^ type.width else value)
      else none
  | none => none

/-- The end of `toInteger`, for a unit of some bits. -/
def shiftUnit (type : IntType) (value : Bytes) (unit : UInt8) (bits num : ℕ) : Except SizeError ℕ :=
  if type.width < bits then
    .error (errorBadValue value (ascii "unit '" ++ [unit] ++ ascii "' out of bound"))
  else if 32 ≤ type.width - bits then .error .badShift
  else if num < 2 ^ (type.width - bits) then .ok ((num <<< bits) % 2 ^ type.width)
  else .error (errorBadValue value (ascii "out of bound"))

/-- Both types are unsigned, so a minus at the front is turned away. -/
def toInteger (type : IntType) (value : Bytes) : Except SizeError ℕ :=
  match value.getLast? with
  | none => .error (errorBadValue [] (ascii "must not be empty"))
  | some unit =>
      if value.head? = some 45 then .error (errorBadValue value (ascii "must be positive integer"))
      else if isAlpha unit then
        match lexicalCast type value.dropLast with
        | none => .error (errorBadValue value (ascii "quantity part must be integer"))
        | some num =>
            match unitBits unit with
            | none => .error (errorBadValue value (ascii "bad unit '" ++ [unit] ++ ascii "'"))
            | some bits => shiftUnit type value unit bits num
      else
        match lexicalCast type value with
        | none => .error .badCast
        | some num => .ok num

end SizeOption

end Taboo
