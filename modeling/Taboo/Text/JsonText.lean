import Mathlib.Data.List.TakeWhile
import Mathlib.Tactic.Common

/-! # Reading JSON texts

A reader of the JSON grammar over bytes. Every step of it consumes a byte, so the length of a text is
fuel enough for reading it. Bytes from 128 on are taken as they stand: that a text is UTF-8 is a
property of its own.
-/

namespace JsonText

abbrev Text := List UInt8

/-- A number is `mantissa * 10 ^ exponent`; the members of an object keep their order. -/
inductive Json
  | null
  | bool (value : Bool)
  | number (mantissa exponent : ℤ)
  | string (text : Text)
  | array (elements : List Json)
  | object (members : List (Text × Json))

/-- A reader returns what it has read and the text behind that. -/
abbrev Reader (α : Type) := Text → Option (α × Text)

/-- A value that a reader makes of what another one reads. -/
theorem map_eq_some_iff {α β : Type} {read : Option (α × Text)} {make : α → β} {result : β} {rest : Text} :
    read.map (Prod.map make id) = some (result, rest) ↔
      ∃ first, read = some (first, rest) ∧ make first = result := by
  rw [Option.map_eq_some_iff]
  constructor
  · rintro ⟨⟨first, behind⟩, same, pair⟩
    obtain ⟨made, rfl⟩ := Prod.mk.inj pair
    exact ⟨first, same, made⟩
  · rintro ⟨first, same, rfl⟩
    exact ⟨(first, rest), same, rfl⟩

/-! ## UTF-8 -/

def IsUtf8 (text : Text) : Prop := ∃ chars : List Char, text = chars.flatMap String.utf8EncodeChar

theorem IsUtf8.append {text other : Text} : IsUtf8 text → IsUtf8 other → IsUtf8 (text ++ other) := by
  rintro ⟨chars, rfl⟩ ⟨others, rfl⟩
  exact ⟨chars ++ others, List.flatMap_append.symm⟩

/-- A byte below 128 is a character of its own. -/
theorem eq_singleton_of_mem_utf8EncodeChar {char : Char} {byte : UInt8} (small : byte < 128)
    (member : byte ∈ String.utf8EncodeChar char) : String.utf8EncodeChar char = [byte] := by
  have small : byte.toNat < 128 := UInt8.lt_iff_toNat_lt.mp small
  unfold String.utf8EncodeChar at member ⊢
  dsimp only at member ⊢
  split_ifs at member ⊢
  · rw [List.mem_singleton.mp member]
  all_goals
    simp only [List.mem_cons, List.not_mem_nil, or_false] at member
    rcases member with rfl | rfl | rfl | rfl <;> simp only [UInt8.toNat_ofNat'] at small <;> omega

theorem isUtf8_singleton {byte : UInt8} (small : byte < 128) : IsUtf8 [byte] := by
  have small : byte.toNat < 128 := UInt8.lt_iff_toNat_lt.mp small
  have valid : byte.toNat.isValidChar := .inl (by omega)
  have same : (Char.ofNat byte.toNat).val.toNat = byte.toNat := by
    rw [Char.ofNat, dif_pos valid]
    rfl
  refine ⟨[Char.ofNat byte.toNat], ?_⟩
  rw [List.flatMap_singleton, String.utf8EncodeChar, same]
  simp [Nat.le_of_lt_succ small]

theorem IsUtf8.cons {byte : UInt8} {text : Text} (small : byte < 128) (utf8 : IsUtf8 text) :
    IsUtf8 (byte :: text) :=
  (isUtf8_singleton small).append utf8

theorem isUtf8_nil : IsUtf8 [] := ⟨[], rfl⟩

theorem isUtf8_of_ascii {text : Text} (small : text.all (· < 128)) : IsUtf8 text := by
  induction text with
  | nil => exact isUtf8_nil
  | cons byte text ih =>
    simp only [List.all_cons, Bool.and_eq_true, decide_eq_true_eq] at small
    exact (ih small.2).cons small.1

/-! ## Characters of a string -/

def hexValue (byte : UInt8) : Option ℕ :=
  if 48 ≤ byte ∧ byte ≤ 57 then some (byte.toNat - 48)
  else if 65 ≤ byte ∧ byte ≤ 70 then some (byte.toNat - 55)
  else if 97 ≤ byte ∧ byte ≤ 102 then some (byte.toNat - 87)
  else none

/-- The next digits of a code unit, of which `value` has been read. -/
def hexDigits : ℕ → ℕ → Reader ℕ
  | 0, value, text => some (value, text)
  | count + 1, value, text => do
      let byte ← text.head?
      let digit ← hexValue byte
      hexDigits count (value * 16 + digit) text.tail

def utf8 (codePoint : ℕ) : Text := String.utf8EncodeChar (Char.ofNat codePoint)

/-- What follows `\u`. Surrogates stand in pairs only. -/
def codeUnits : Reader Text := fun text => do
  let (first, text) ← hexDigits 4 0 text
  if first < 0xD800 ∨ 0xE000 ≤ first then some (utf8 first, text)
  else if first < 0xDC00 ∧ text.take 2 = [92, 117] then
    let (second, text) ← hexDigits 4 0 (text.drop 2)
    if 0xDC00 ≤ second ∧ second < 0xE000 then
      some (utf8 (0x10000 + (first - 0xD800) * 0x400 + (second - 0xDC00)), text)
    else none
  else none

/-- `\"`, `\\`, `\/`, `\b`, `\f`, `\n`, `\r` and `\t`. -/
def shortEscapes : List (UInt8 × UInt8) :=
  [(34, 34), (92, 92), (47, 47), (98, 8), (102, 12), (110, 10), (114, 13), (116, 9)]

/-- What follows a backslash. -/
def escape : Reader Text := fun text => do
  let byte ← text.head?
  if byte = 117 then codeUnits text.tail
  else (shortEscapes.lookup byte).map fun decoded => ([decoded], text.tail)

/-- A string up to its closing quotation mark. Control characters must be escaped. -/
def chars : ℕ → Reader Text
  | fuel + 1, byte :: text =>
      if byte = 34 then some ([], text)
      else if byte = 92 then do
        let (decoded, text) ← escape text
        (chars fuel text).map (Prod.map (decoded ++ ·) id)
      else if byte < 32 then none
      else (chars fuel text).map (Prod.map (byte :: ·) id)
  | _, _ => none

section Chars

variable {fuel : ℕ} {text : Text}

@[simp] theorem chars_nil : chars fuel [] = none := by cases fuel <;> rfl

@[simp] theorem chars_close : chars (fuel + 1) (34 :: text) = some ([], text) := rfl

theorem chars_escape {decoded rest : Text} (read : escape text = some (decoded, rest)) :
    chars (fuel + 1) (92 :: text) = (chars fuel rest).map (Prod.map (decoded ++ ·) id) := by
  simp [chars, read]

theorem chars_badEscape (bad : escape text = none) : chars (fuel + 1) (92 :: text) = none := by
  simp [chars, bad]

theorem chars_control {byte : UInt8} (control : byte < 32) : chars (fuel + 1) (byte :: text) = none := by
  have notClose : byte ≠ 34 := by rintro rfl; exact absurd control (by decide)
  have notBackslash : byte ≠ 92 := by rintro rfl; exact absurd control (by decide)
  simp [chars, notClose, notBackslash, control]

theorem chars_cons {byte : UInt8} (printed : 32 ≤ byte) (notClose : byte ≠ 34) (notBackslash : byte ≠ 92) :
    chars (fuel + 1) (byte :: text) = (chars fuel text).map (Prod.map (byte :: ·) id) := by
  simp [chars, notClose, notBackslash, UInt8.not_lt.mpr printed]

theorem chars_quotation :
    chars (fuel + 1) (92 :: 34 :: text) = (chars fuel text).map (Prod.map (34 :: ·) id) :=
  chars_escape (show escape (34 :: text) = some ([34], text) from rfl)

/-- Bytes that need no escaping stand for themselves. -/
theorem chars_verbatim {plain : Text} (verbatim : ∀ byte ∈ plain, 32 ≤ byte ∧ byte ≠ 34 ∧ byte ≠ 92)
    (enough : plain.length < fuel) : chars fuel (plain ++ 34 :: text) = some (plain, text) := by
  induction plain generalizing fuel with
  | nil =>
    obtain ⟨fuel, rfl⟩ := Nat.exists_eq_add_of_lt enough
    exact chars_close
  | cons byte plain ih =>
    obtain ⟨fuel, rfl⟩ : ∃ less, fuel = less + 1 := ⟨fuel - 1, by omega⟩
    obtain ⟨⟨printed, notClose, notBackslash⟩, others⟩ := List.forall_mem_cons.mp verbatim
    rw [List.cons_append, chars_cons printed notClose notBackslash,
      ih others (by simpa using enough)]
    rfl

end Chars

theorem length_utf8_le (codePoint : ℕ) : (utf8 codePoint).length ≤ 4 := by
  rw [utf8, String.length_utf8EncodeChar]
  exact Char.utf8Size_le_four _

/-- A string, behind its opening quotation mark. -/
def string : Reader Text := fun text => chars text.length text

/-- The string whose escaped form is the text, if it is one. -/
def unescape (text : Text) : Option Text :=
  match string (text ++ [34]) with
  | some (decoded, []) => some decoded
  | _ => none

/-! ## Numbers -/

def isDigit (byte : UInt8) : Bool := 48 ≤ byte && byte ≤ 57

def digitsValue (digits : Text) : ℕ := digits.foldl (fun value digit => 10 * value + (digit.toNat - 48)) 0

def digits : Reader Text := fun text =>
  if text.takeWhile isDigit = [] then none
  else some (text.takeWhile isDigit, text.dropWhile isDigit)

def minus (text : Text) : Bool × Text :=
  if text.head? = some 45 then (true, text.tail) else (false, text)

/-- The run of digits in front of a text that does not go on with one. -/
theorem digits_append {run rest : Text} (nonempty : run ≠ []) (all : ∀ byte ∈ run, isDigit byte)
    (stops : ∀ byte ∈ rest.head?, isDigit byte = false) : digits (run ++ rest) = some (run, rest) := by
  have none : rest.takeWhile isDigit = [] ∧ rest.dropWhile isDigit = rest := by
    cases rest with
    | nil => exact ⟨rfl, rfl⟩
    | cons byte rest => simp [stops byte rfl]
  have run' : (run ++ rest).takeWhile isDigit = run := by
    rw [List.takeWhile_append_of_pos all, none.1, List.append_nil]
  have rest' : (run ++ rest).dropWhile isDigit = rest := by
    rw [List.dropWhile_append_of_pos all, none.2]
  simp only [digits, run', rest', if_neg nonempty]

def fraction : Reader Text := fun text =>
  if text.head? = some 46 then digits text.tail else some ([], text)

def exponent : Reader ℤ := fun text =>
  if text.head? = some 69 ∨ text.head? = some 101 then do
    let (negative, power) :=
      if text.tail.head? = some 43 then (false, text.tail.tail) else minus text.tail
    let (power, text) ← digits power
    some (if negative then -digitsValue power else digitsValue power, text)
  else some (0, text)

/-- Only zero itself begins with a zero. -/
def number : Reader Json := fun text => do
  let (negative, text) := minus text
  let (whole, text) ← digits text
  if whole.head? = some 48 ∧ 1 < whole.length then none
  else
    let (part, text) ← fraction text
    let (power, text) ← exponent text
    let mantissa : ℤ := digitsValue (whole ++ part)
    some (.number (if negative then -mantissa else mantissa) (power - part.length), text)

/-- What a number may go on with is not there. -/
def Ended (text : Text) : Prop :=
  ∀ byte ∈ text.head?, isDigit byte = false ∧ byte ≠ 46 ∧ byte ≠ 69 ∧ byte ≠ 101

theorem number_digits {run rest : Text} (nonempty : run ≠ []) (all : ∀ byte ∈ run, isDigit byte)
    (leading : run.head? = some 48 → run.length ≤ 1) (ended : Ended rest) (negative : Bool) :
    number ((if negative then [45] else []) ++ (run ++ rest)) =
      some (.number (if negative then -digitsValue run else digitsValue run) 0, rest) := by
  have signed : minus ((if negative then [45] else []) ++ (run ++ rest)) = (negative, run ++ rest) := by
    obtain ⟨digit, run, rfl⟩ := List.exists_cons_of_ne_nil nonempty
    have notMinus : digit ≠ 45 := by
      rintro rfl
      exact absurd (all 45 List.mem_cons_self) (by decide)
    cases negative <;> simp [minus, notMinus]
  have whole : digits (run ++ rest) = some (run, rest) :=
    digits_append nonempty all fun byte first => (ended byte first).1
  have noFraction : fraction rest = some ([], rest) := if_neg fun first => (ended 46 first).2.1 rfl
  have noExponent : exponent rest = some (0, rest) := by
    refine if_neg ?_
    rintro (first | first)
    · exact (ended 69 first).2.2.1 rfl
    · exact (ended 101 first).2.2.2 rfl
  have allowed : ¬ (run.head? = some 48 ∧ 1 < run.length) := by
    rintro ⟨zero, longer⟩
    exact absurd (leading zero) (by omega)
  simp [number, signed, whole, noFraction, noExponent, allowed]

/-! ### Decimal notation -/

/-- A natural number as it is written. -/
def decimalDigits (n : ℕ) : Text := (Nat.toDigits 10 n).map Char.toUInt8

def digitByte (digit : ℕ) : UInt8 := UInt8.ofNat (48 + digit)

theorem toUInt8_digitChar {digit : ℕ} (small : digit < 10) : digit.digitChar.toUInt8 = digitByte digit := by
  decide +revert

theorem toNat_digitByte {digit : ℕ} (small : digit < 10) : (digitByte digit).toNat = 48 + digit :=
  UInt8.toNat_ofNat_of_lt' (by simp only [UInt8.size]; omega)

theorem decimalDigits_small {n : ℕ} (small : n < 10) : decimalDigits n = [digitByte n] := by
  rw [decimalDigits, Nat.toDigits_of_lt_base small, List.map_singleton, toUInt8_digitChar small]

theorem decimalDigits_step {n : ℕ} (more : 10 ≤ n) :
    decimalDigits n = decimalDigits (n / 10) ++ [digitByte (n % 10)] := by
  have last : n % 10 < 10 := Nat.mod_lt n (by decide)
  rw [decimalDigits, Nat.toDigits_of_base_le (by decide) more, List.map_append, List.map_singleton,
    toUInt8_digitChar last]
  rfl

/-- Along the digits of a number, the last one first. -/
theorem decimal_induction {motive : ℕ → Prop} (small : ∀ n < 10, motive n)
    (step : ∀ n, 10 ≤ n → motive (n / 10) → motive n) (n : ℕ) : motive n := by
  induction n using Nat.strong_induction_on with
  | _ n ih =>
    rcases Nat.lt_or_ge n 10 with digit | more
    · exact small n digit
    · exact step n more (ih (n / 10) (Nat.div_lt_self (by omega) (by decide)))

theorem decimalDigits_ne_nil (n : ℕ) : decimalDigits n ≠ [] := by
  simp [decimalDigits]

theorem isDigit_digitByte {digit : ℕ} (small : digit < 10) : isDigit (digitByte digit) := by
  have read := toNat_digitByte small
  simp only [isDigit, Bool.and_eq_true, decide_eq_true_eq, UInt8.le_iff_toNat_le, read]
  exact ⟨by simp, by simp; omega⟩

theorem isDigit_of_mem_decimalDigits {n : ℕ} {byte : UInt8} (member : byte ∈ decimalDigits n) :
    isDigit byte := by
  induction n using decimal_induction with
  | small n digit =>
    rw [decimalDigits_small digit] at member
    rw [List.mem_singleton.mp member]
    exact isDigit_digitByte digit
  | step n more ih =>
    rw [decimalDigits_step more] at member
    rcases List.mem_append.mp member with before | last
    · exact ih before
    · rw [List.mem_singleton.mp last]
      exact isDigit_digitByte (Nat.mod_lt n (by decide))

theorem digitsValue_decimalDigits (n : ℕ) : digitsValue (decimalDigits n) = n := by
  induction n using decimal_induction with
  | small n digit => simp [decimalDigits_small digit, digitsValue, toNat_digitByte digit]
  | step n more ih =>
    have last : (digitByte (n % 10)).toNat = 48 + n % 10 := toNat_digitByte (Nat.mod_lt n (by decide))
    rw [decimalDigits_step more, digitsValue, List.foldl_append, ← digitsValue, ih]
    simp only [List.foldl_cons, List.foldl_nil, last]
    omega

/-- Only zero is written with a zero in front. -/
theorem head_decimalDigits {n : ℕ} (positive : 0 < n) : (decimalDigits n).head? ≠ some 48 := by
  induction n using decimal_induction with
  | small n digit =>
    intro zero
    rw [decimalDigits_small digit] at zero
    have read := toNat_digitByte digit
    rw [Option.some.inj zero] at read
    simp at read
    omega
  | step n more ih =>
    rw [decimalDigits_step more, List.head?_append, Option.or_of_isSome (by simp [decimalDigits])]
    exact ih (by omega)

/-- An integer in decimal notation is read back. -/
theorem number_decimalDigits {rest : Text} (ended : Ended rest) (n : ℤ) :
    number ((if n < 0 then [45] else []) ++ (decimalDigits n.natAbs ++ rest)) = some (.number n 0, rest) := by
  have leading : (decimalDigits n.natAbs).head? = some 48 → (decimalDigits n.natAbs).length ≤ 1 := by
    intro zero
    obtain none | positive := Nat.eq_zero_or_pos n.natAbs
    · simp [none, decimalDigits]
    · exact absurd zero (head_decimalDigits positive)
  have read := number_digits (decimalDigits_ne_nil _) (fun _ => isDigit_of_mem_decimalDigits) leading ended (n < 0)
  simp only [decide_eq_true_eq, digitsValue_decimalDigits] at read
  rw [read]
  congr
  split_ifs <;> omega

/-! ## Values -/

def isBlank (byte : UInt8) : Bool := byte == 32 || byte == 9 || byte == 10 || byte == 13

def skip (text : Text) : Text := text.dropWhile isBlank

/-- A punctuation mark, blanks before it skipped. -/
def expect (mark : UInt8) (text : Text) : Option Text :=
  if (skip text).head? = some mark then some (skip text).tail else none

theorem skip_cons {byte : UInt8} (notBlank : isBlank byte = false) (text : Text) :
    skip (byte :: text) = byte :: text := by
  simp [skip, notBlank]

theorem expect_cons {byte : UInt8} (notBlank : isBlank byte = false) (mark : UInt8) (text : Text) :
    expect mark (byte :: text) = if byte = mark then some text else none := by
  simp [expect, skip_cons notBlank]

def literal (word : String) (json : Json) : Reader Json := fun text =>
  let bytes := word.toList.map Char.toUInt8
  if bytes.isPrefixOf text then some (json, text.drop bytes.length) else none

section Lists

variable {α : Type} (item : Reader α) (close : UInt8)

/-- One item or more with commas between them, up to the closing bracket. -/
def separated : ℕ → Reader (List α)
  | 0, _ => none
  | fuel + 1, text => do
      let (first, text) ← item text
      match expect close text with
      | some text => some ([first], text)
      | none =>
          let text ← expect 44 text
          (separated fuel text).map (Prod.map (first :: ·) id)

/-- What follows an opening bracket. -/
def bracketed (fuel : ℕ) : Reader (List α) := fun text =>
  match expect close text with
  | some text => some ([], text)
  | none => separated item close fuel text

variable {item : Reader α} {close byte : UInt8} {fuel : ℕ} {text rest : Text} {first : α}

theorem bracketed_cons (notBlank : isBlank byte = false) (more : byte ≠ close) :
    bracketed item close fuel (byte :: text) = separated item close fuel (byte :: text) := by
  simp [bracketed, expect_cons notBlank, more]

theorem separated_of_item (read : item text = some (first, byte :: rest)) (notBlank : isBlank byte = false) :
    separated item close (fuel + 1) text =
      if byte = close then some ([first], rest)
      else if byte = 44 then (separated item close fuel rest).map (Prod.map (first :: ·) id)
      else none := by
  simp only [separated, read, Option.bind_eq_bind, Option.bind_some, expect_cons notBlank]
  by_cases last : byte = close
  · simp only [if_pos last]
  · by_cases comma : byte = 44
    · simp only [if_neg last, if_pos comma, Option.bind_some]
    · simp only [if_neg last, if_neg comma, Option.bind_none]

/-- A list that is read begins with the item that is read first. -/
theorem item_of_separated {items : List α} (read : separated item close fuel text = some (items, rest)) :
    ∃ first others behind, item text = some (first, behind) ∧ items = first :: others := by
  cases fuel with
  | zero => exact absurd read (by simp [separated])
  | succ fuel =>
    rw [separated] at read
    obtain ⟨⟨first, behind⟩, firstRead, read⟩ := Option.bind_eq_some_iff.mp read
    refine ⟨first, ?_⟩
    dsimp only at read
    split at read
    · simp only [Option.some.injEq, Prod.mk.injEq] at read
      exact ⟨[], behind, firstRead, read.1.symm⟩
    · obtain ⟨behindComma, -, read⟩ := Option.bind_eq_some_iff.mp read
      obtain ⟨others, -, same⟩ := map_eq_some_iff.mp read
      exact ⟨others, behind, firstRead, same.symm⟩

end Lists

def member (value : Reader Json) : Reader (Text × Json) := fun text => do
  let text ← expect 34 text
  let (name, text) ← string text
  let text ← expect 58 text
  (value text).map (Prod.map (name, ·) id)

/-- The fuel bounds the depth of the value and the length of its lists. -/
def value : ℕ → Reader Json
  | 0, _ => none
  | fuel + 1, text =>
      match skip text with
      | [] => none
      | byte :: text =>
          if byte = 123 then (bracketed (member (value fuel)) 125 fuel text).map (Prod.map .object id)
          else if byte = 91 then (bracketed (value fuel) 93 fuel text).map (Prod.map .array id)
          else if byte = 34 then (string text).map (Prod.map .string id)
          else if byte = 110 then literal "null" .null (byte :: text)
          else if byte = 116 then literal "true" (.bool true) (byte :: text)
          else if byte = 102 then literal "false" (.bool false) (byte :: text)
          else number (byte :: text)

section Values

variable {fuel : ℕ} {text rest : Text}

theorem string_verbatim {plain : Text} (verbatim : ∀ byte ∈ plain, 32 ≤ byte ∧ byte ≠ 34 ∧ byte ≠ 92) :
    string (plain ++ 34 :: text) = some (plain, text) :=
  chars_verbatim verbatim (by simp)

theorem member_verbatim {name : Text} (verbatim : ∀ byte ∈ name, 32 ≤ byte ∧ byte ≠ 34 ∧ byte ≠ 92)
    (value : Reader Json) :
    member value (34 :: (name ++ 34 :: 58 :: text)) = (value text).map (Prod.map (name, ·) id) := by
  simp [member, expect_cons (show isBlank 34 = false from rfl), string_verbatim verbatim,
    expect_cons (show isBlank 58 = false from rfl)]

theorem value_object : value (fuel + 1) (123 :: text) =
    (bracketed (member (value fuel)) 125 fuel text).map (Prod.map .object id) := rfl

theorem value_string : value (fuel + 1) (34 :: text) = (string text).map (Prod.map .string id) := rfl

theorem value_number {byte : UInt8} (begins : byte = 45 ∨ isDigit byte) :
    value (fuel + 1) (byte :: text) = number (byte :: text) := by
  have notBlank : isBlank byte = false := by
    rcases begins with rfl | digit
    · rfl
    · simp only [isDigit, Bool.and_eq_true, decide_eq_true_eq] at digit
      simp only [isBlank, Bool.or_eq_false_iff, beq_eq_false_iff_ne]
      grind
  have away : ∀ other, other ≠ 45 → isDigit other = false → byte ≠ other := by
    rintro _ notMinus notDigit rfl
    rcases begins with minus | digit
    · exact notMinus minus
    · exact absurd digit (by simp [notDigit])
  simp only [value, skip_cons notBlank, if_neg (away 123 (by decide) rfl), if_neg (away 91 (by decide) rfl),
    if_neg (away 34 (by decide) rfl), if_neg (away 110 (by decide) rfl), if_neg (away 116 (by decide) rfl),
    if_neg (away 102 (by decide) rfl)]

theorem value_decimalDigits (ended : Ended rest) (n : ℤ) :
    value (fuel + 1) ((if n < 0 then [45] else []) ++ (decimalDigits n.natAbs ++ rest)) =
      some (.number n 0, rest) := by
  rw [← number_decimalDigits ended n]
  split_ifs
  · exact value_number (.inl rfl)
  · obtain ⟨digit, digits, shape⟩ := List.exists_cons_of_ne_nil (decimalDigits_ne_nil n.natAbs)
    have begins : isDigit digit :=
      isDigit_of_mem_decimalDigits (shape ▸ List.mem_cons_self : digit ∈ decimalDigits n.natAbs)
    simp only [shape, List.nil_append, List.cons_append, value_number (.inr begins)]

end Values

/-- The value of a text that holds nothing else. -/
def parse (text : Text) : Option Json :=
  match value (text.length + 1) text with
  | some (json, rest) => if skip rest = [] then some json else none
  | none => none

theorem parse_eq_some_iff {text : Text} {json : Json} :
    parse text = some json ↔ ∃ rest, value (text.length + 1) text = some (json, rest) ∧ skip rest = [] := by
  rw [parse]
  cases value (text.length + 1) text with
  | none => simp
  | some read => simp; grind

end JsonText
