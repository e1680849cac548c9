import Taboo.Model.Router
import Taboo.Text.JsonText

/-! # Error replies as JSON texts

`quote` escapes quotation marks and nothing else. A description that needs no other escape is what a
reader of the reply gets; any other is lost, since a backslash of it is taken for an escape and a
control character may not stand in a string.
-/

namespace Taboo

open JsonText

/-! ## Quoting -/

section Quote

variable {text tail : Bytes} {byte : UInt8}

/-- `quote` without its two positions: what has been consumed stays in front. -/
theorem quoteLoop_eq (segment text : Bytes) : quoteLoop segment text = segment ++ quote text := by
  induction text generalizing segment with
  | nil => simp [quote, quoteLoop]
  | cons byte text ih =>
    rw [quote, quoteLoop, quoteLoop]
    split_ifs
    · simp
    · rw [ih, ih ([] ++ [byte])]
      simp

@[simp] theorem quote_nil : quote [] = [] := rfl

@[simp] theorem quote_quotation : quote (34 :: text) = 92 :: 34 :: quote text := rfl

theorem quote_cons (notQuotation : byte ≠ 34) : quote (byte :: text) = byte :: quote text := by
  rw [quote, quoteLoop, if_neg (show ¬byte = quotation from notQuotation), quoteLoop_eq]
  rfl

theorem quote_append {front : Bytes} (none : 34 ∉ front) : quote (front ++ text) = front ++ quote text := by
  induction front with
  | nil => rfl
  | cons byte front ih =>
    obtain ⟨first, others⟩ := not_or.mp (List.mem_cons.not.mp none)
    rw [List.cons_append, quote_cons (Ne.symm first), ih others, List.cons_append]

/-- So it makes no difference that `genReply` quotes only where it has to. -/
theorem quote_eq_self (none : 34 ∉ text) : quote text = text := by
  simpa using @quote_append [] text none

theorem isUtf8_quote (utf8 : IsUtf8 text) : IsUtf8 (quote text) := by
  obtain ⟨chars, rfl⟩ := utf8
  induction chars with
  | nil => exact isUtf8_nil
  | cons char chars ih =>
    rw [List.flatMap_cons]
    by_cases escaped : 34 ∈ String.utf8EncodeChar char
    · rw [eq_singleton_of_mem_utf8EncodeChar (by decide) escaped]
      exact (ih.cons (by decide)).cons (by decide)
    · rw [quote_append escaped]
      exact IsUtf8.append ⟨[char], by simp⟩ ih

/-- The three ways in which a text begins, and what `quote` makes of them. -/
theorem quote_cases (text : Bytes) : text = [] ∨ (∃ others, text = 34 :: others) ∨
    ∃ byte others, byte ≠ 34 ∧ text = byte :: others ∧ quote text = byte :: quote others := by
  cases text with
  | nil => exact .inl rfl
  | cons byte others =>
    by_cases quotation : byte = 34
    · exact .inr (.inl ⟨others, by rw [quotation]⟩)
    · exact .inr (.inr ⟨byte, others, quotation, rfl, quote_cons quotation⟩)

end Quote

/-! ## Reading a quoted text -/

/-- Nothing in the text needs an escape but quotation marks. -/
def Plain (text : Bytes) : Prop := ∀ byte ∈ text, 32 ≤ byte ∧ byte ≠ 92

instance (text : Bytes) : Decidable (Plain text) := List.decidableBAll _ text

theorem plain_cons {byte : UInt8} {text : Bytes} : Plain (byte :: text) ↔ (32 ≤ byte ∧ byte ≠ 92) ∧ Plain text :=
  List.forall_mem_cons

section Reading

variable {fuel : ℕ} {text tail rest decoded : Bytes}

theorem chars_quote (plain : Plain text) (enough : (quote text).length < fuel) :
    chars fuel (quote text ++ 34 :: tail) = some (text, tail) := by
  induction text generalizing fuel with
  | nil =>
    obtain ⟨fuel, rfl⟩ := Nat.exists_eq_add_of_lt enough
    exact chars_close
  | cons byte text ih =>
    obtain ⟨fuel, rfl⟩ : ∃ less, fuel = less + 1 := ⟨fuel - 1, by omega⟩
    obtain ⟨⟨printed, notBackslash⟩, others⟩ := plain_cons.mp plain
    by_cases quotation : byte = 34
    · subst quotation
      simp only [quote_quotation, List.length_cons] at enough
      rw [quote_quotation, List.cons_append, List.cons_append, chars_quotation, ih others (by omega)]
      rfl
    · simp only [quote_cons quotation, List.length_cons] at enough
      rw [quote_cons quotation, List.cons_append, chars_cons printed quotation notBackslash,
        ih others (by omega)]
      rfl

/-- Hexadecimal digits are read off the text itself: what `quote` inserts is none. -/
theorem hexDigits_quote {count value result : ℕ}
    (read : hexDigits count value (quote text ++ 34 :: tail) = some (result, rest)) :
    ∃ others, rest = quote others ++ 34 :: tail ∧ text.length = others.length + count := by
  induction count generalizing value text with
  | zero =>
    simp only [hexDigits, Option.some.injEq, Prod.mk.injEq] at read
    exact ⟨text, read.2.symm, rfl⟩
  | succ count ih =>
    rw [hexDigits] at read
    obtain rfl | ⟨others, rfl⟩ | ⟨byte, others, -, rfl, shape⟩ := quote_cases text
    · cases read
    · cases read
    · rw [shape] at read
      obtain ⟨digit, -, read⟩ : ∃ digit, hexValue byte = some digit ∧
          hexDigits count (value * 16 + digit) (quote others ++ 34 :: tail) = some (result, rest) :=
        Option.bind_eq_some_iff.mp read
      obtain ⟨behind, same, length⟩ := ih read
      exact ⟨behind, same, by rw [List.length_cons, length]; omega⟩

/-- A second code unit, too, begins in the text itself. -/
theorem lowUnit_quote (begins : (quote text ++ 34 :: tail).take 2 = [92, 117]) :
    ∃ others, (quote text ++ 34 :: tail).drop 2 = quote others ++ 34 :: tail ∧
      text.length = others.length + 2 := by
  obtain rfl | ⟨others, rfl⟩ | ⟨byte, others, -, rfl, shape⟩ := quote_cases text
  · cases begins
  · cases begins
  · rw [shape] at begins ⊢
    obtain rfl | ⟨behind, rfl⟩ | ⟨next, behind, -, rfl, shape'⟩ := quote_cases others
    · cases begins
    · cases begins
    · exact ⟨behind, by rw [shape']; rfl, rfl⟩

theorem codeUnits_quote (read : codeUnits (quote text ++ 34 :: tail) = some (decoded, rest)) :
    ∃ others, rest = quote others ++ 34 :: tail ∧ decoded.length + others.length ≤ text.length := by
  rw [codeUnits] at read
  obtain ⟨⟨first, behind⟩, firstRead, read⟩ := Option.bind_eq_some_iff.mp read
  obtain ⟨others, rfl, length⟩ := hexDigits_quote firstRead
  dsimp only at read
  split_ifs at read with alone pair
  · obtain ⟨rfl, rfl⟩ := Prod.mk.inj (Option.some.inj read)
    have bound := length_utf8_le first
    exact ⟨others, rfl, by omega⟩
  · obtain ⟨⟨second, behind⟩, secondRead, read⟩ := Option.bind_eq_some_iff.mp read
    obtain ⟨low, same, lowLength⟩ := lowUnit_quote pair.2
    rw [same] at secondRead
    obtain ⟨last, rfl, lastLength⟩ := hexDigits_quote secondRead
    dsimp only at read
    split_ifs at read
    obtain ⟨rfl, rfl⟩ := Prod.mk.inj (Option.some.inj read)
    have bound := length_utf8_le (0x10000 + (first - 0xD800) * 0x400 + (second - 0xDC00))
    exact ⟨last, rfl, by omega⟩

/-- What follows a backslash of the text, unless `quote` has put a backslash or the closing mark there. -/
theorem escape_quote {byte : UInt8} (notQuotation : byte ≠ 34)
    (read : escape (quote (byte :: text) ++ 34 :: tail) = some (decoded, rest)) :
    ∃ others, rest = quote others ++ 34 :: tail ∧ decoded.length + others.length ≤ text.length + 1 := by
  rw [quote_cons notQuotation, escape] at read
  dsimp only [List.cons_append, List.head?_cons, List.tail_cons, Option.bind_eq_bind, Option.bind_some] at read
  split_ifs at read
  · obtain ⟨others, same, length⟩ := codeUnits_quote read
    exact ⟨others, same, by omega⟩
  · obtain ⟨short, -, read⟩ := Option.map_eq_some_iff.mp read
    obtain ⟨rfl, rfl⟩ := Prod.mk.inj read
    exact ⟨text, rfl, by simp [Nat.add_comm]⟩

/-- A backslash of the text makes what is read shorter, if the rest does not make it longer. -/
theorem escaped_shorter (unclosed : ∀ fuel, chars fuel tail = none)
    (bounded : ∀ {text value rest : Bytes}, chars fuel (quote text ++ 34 :: tail) = some (value, rest) →
      value.length ≤ text.length)
    (read : chars (fuel + 1) (92 :: (quote text ++ 34 :: tail)) = some (decoded, rest)) :
    decoded.length < text.length + 1 := by
  cases escaped : escape (quote text ++ 34 :: tail) with
  | none =>
    rw [chars_badEscape escaped] at read
    cases read
  | some result =>
    obtain ⟨character, behind⟩ := result
    rw [chars_escape escaped] at read
    obtain ⟨value, valueRead, rfl⟩ := map_eq_some_iff.mp read
    rw [List.length_append]
    obtain rfl | ⟨others, rfl⟩ | ⟨byte, others, notQuotation, rfl, shape⟩ := quote_cases text
    · -- the closing mark is taken for an escaped one
      obtain ⟨-, same⟩ := Prod.mk.inj (Option.some.inj escaped)
      rw [← same] at valueRead
      exact absurd valueRead (by simp [unclosed])
    · -- the escape of the mark is taken for an escaped backslash, and the mark closes the string
      obtain ⟨rfl, rfl⟩ := Prod.mk.inj (Option.some.inj escaped)
      cases fuel with
      | zero => cases valueRead
      | succ fuel =>
        obtain ⟨rfl, -⟩ := Prod.mk.inj (Option.some.inj valueRead)
        simp
    · obtain ⟨others', rfl, length⟩ := escape_quote notQuotation escaped
      have bound := bounded valueRead
      simp only [List.length_cons]
      omega

/-- What is read is shorter than the text, unless that needs no other escape. -/
theorem read_quote (unclosed : ∀ fuel, chars fuel tail = none)
    (read : chars fuel (quote text ++ 34 :: tail) = some (decoded, rest)) :
    decoded.length < text.length ∨ decoded = text ∧ Plain text := by
  induction fuel generalizing text decoded rest with
  | zero => cases read
  | succ fuel ih =>
    -- a byte that is read as itself
    have kept : ∀ {byte : UInt8} {others : Bytes}, 32 ≤ byte ∧ byte ≠ 92 →
        (chars fuel (quote others ++ 34 :: tail)).map (Prod.map (byte :: ·) id) = some (decoded, rest) →
        decoded.length < (byte :: others).length ∨ decoded = byte :: others ∧ Plain (byte :: others) := by
      intro byte others allowed read
      obtain ⟨value, valueRead, rfl⟩ := map_eq_some_iff.mp read
      rcases ih valueRead with shorter | ⟨rfl, plain⟩
      · exact .inl (Nat.succ_lt_succ shorter)
      · exact .inr ⟨rfl, plain_cons.mpr ⟨allowed, plain⟩⟩
    obtain rfl | ⟨others, rfl⟩ | ⟨byte, others, notQuotation, rfl, shape⟩ := quote_cases text
    · obtain ⟨rfl, -⟩ := Prod.mk.inj (Option.some.inj read)
      exact .inr ⟨rfl, fun _ member => absurd member List.not_mem_nil⟩
    · rw [quote_quotation, List.cons_append, List.cons_append, chars_quotation] at read
      exact kept (by decide) read
    · rw [shape, List.cons_append] at read
      by_cases backslash : byte = 92
      · subst backslash
        refine .inl (escaped_shorter unclosed ?_ read)
        intro text value rest valueRead
        rcases ih valueRead with shorter | ⟨rfl, -⟩
        · exact shorter.le
        · exact le_rfl
      · by_cases control : byte < 32
        · rw [chars_control control] at read
          cases read
        · have printed : 32 ≤ byte := UInt8.not_lt.mp control
          rw [chars_cons printed notQuotation backslash] at read
          exact kept ⟨printed, backslash⟩ read

theorem string_quote (plain : Plain text) : string (quote text ++ 34 :: tail) = some (text, tail) :=
  chars_quote plain (by simp)

theorem string_quote_iff (unclosed : ∀ fuel, chars fuel tail = none) :
    (∃ rest, string (quote text ++ 34 :: tail) = some (text, rest)) ↔ Plain text := by
  refine ⟨fun ⟨rest, read⟩ => ?_, fun plain => ⟨tail, string_quote plain⟩⟩
  rcases read_quote unclosed read with shorter | ⟨-, plain⟩
  · exact absurd shorter (lt_irrefl _)
  · exact plain

/-- `quote` is an escaping of the plain texts, and of no other. -/
theorem unescape_quote (text : Bytes) : unescape (quote text) = some text ↔ Plain text := by
  constructor
  · intro same
    rw [unescape] at same
    split at same
    · next decoded read =>
      obtain rfl := Option.some.inj same
      exact (string_quote_iff fun fuel => chars_nil).mp ⟨[], read⟩
    · cases same
  · intro plain
    rw [unescape, string_quote plain]

end Reading

/-! ## The text of a reply -/

def Alphanumeric (text : Bytes) : Prop :=
  ∀ byte ∈ text, (48 ≤ byte ∧ byte ≤ 57) ∨ (65 ≤ byte ∧ byte ≤ 90) ∨ (97 ≤ byte ∧ byte ≤ 122)

instance (text : Bytes) : Decidable (Alphanumeric text) := List.decidableBAll _ text

theorem Alphanumeric.verbatim {text : Bytes} (alphanumeric : Alphanumeric text) :
    ∀ byte ∈ text, 32 ≤ byte ∧ byte ≠ 34 ∧ byte ≠ 92 := by
  intro byte member
  have := alphanumeric byte member
  grind

theorem Alphanumeric.isUtf8 {text : Bytes} (alphanumeric : Alphanumeric text) : IsUtf8 text := by
  refine isUtf8_of_ascii (List.all_eq_true.mpr fun byte member => decide_eq_true ?_)
  have := alphanumeric byte member
  grind

/-- The reply to an error, read as JSON, has the code and, if there is one, the description. -/
structure Carries (config : Config) (errCode : Ec) (errDesc : Bytes) : Prop where
  utf8 : IsUtf8 (genReply config errCode errDesc).content
  members : ∃ members, parse (genReply config errCode errDesc).content = some (.object members) ∧
    members.lookup config.keyMDErrCode = some (.number errCode 0) ∧
    (errDesc ≠ [] → members.lookup config.keyMDErrDesc = some (.string errDesc))

section Content

variable {config : Config} {errCode : Ec} {errDesc : Bytes}

theorem decimal_eq (code : Ec) : decimal code = (if code < 0 then [45] else []) ++ decimalDigits code.natAbs := rfl

/-- The text up to the description. -/
def codePart (config : Config) (errCode : Ec) (rest : Bytes) : Bytes :=
  123 :: 34 :: (config.keyMDErrCode ++ 34 :: 58 :: (decimal errCode ++ rest))

/-- The member with the description and what closes the text. -/
def descPart (config : Config) (errDesc : Bytes) : Bytes :=
  34 :: (config.keyMDErrDesc ++ 34 :: 58 :: 34 :: (quote errDesc ++ 34 :: [125]))

theorem content_eq (config : Config) (errCode : Ec) (errDesc : Bytes) :
    (genReply config errCode errDesc).content =
      codePart config errCode (if errDesc = [] then [125] else 44 :: descPart config errDesc) := by
  have quoted : (if quotation ∈ errDesc then quote errDesc else errDesc) = quote errDesc := by
    split_ifs with marked
    · rfl
    · exact (quote_eq_self marked).symm
  have opening : ascii "\x7b\"" = [123, 34] := rfl
  have colon : ascii "\":" = [34, 58] := rfl
  have comma : ascii ",\"" = [44, 34] := rfl
  have colonMark : ascii "\":\"" = [34, 58, 34] := rfl
  have mark : ascii "\"" = [34] := rfl
  have closing : ascii "\x7d" = [125] := rfl
  simp only [genReply, codePart, descPart, quoted, opening, colon, comma, colonMark, mark, closing]
  split_ifs <;> simp

/-- Reading the member with the code, and what is behind it. -/
theorem value_codePart {fuel : ℕ} {mark : UInt8} {rest : Bytes} (alphanumeric : Alphanumeric config.keyMDErrCode)
    (ended : mark = 125 ∨ mark = 44) :
    value (fuel + 2) (codePart config errCode (mark :: rest)) =
      (if mark = 125 then some ([], rest) else separated (member (value (fuel + 1))) 125 fuel rest).map
        (Prod.map (fun members => .object ((config.keyMDErrCode, .number errCode 0) :: members)) id) := by
  have number : value (fuel + 1) (decimal errCode ++ mark :: rest) = some (.number errCode 0, mark :: rest) := by
    rw [decimal_eq, List.append_assoc]
    refine value_decimalDigits ?_ errCode
    rintro byte ⟨⟩
    rcases ended with rfl | rfl <;> decide
  have first : member (value (fuel + 1))
      (34 :: (config.keyMDErrCode ++ 34 :: 58 :: (decimal errCode ++ mark :: rest))) =
      some ((config.keyMDErrCode, .number errCode 0), mark :: rest) := by
    rw [member_verbatim alphanumeric.verbatim, number]
    rfl
  have notBlank : isBlank mark = false := by rcases ended with rfl | rfl <;> rfl
  rw [codePart, value_object, bracketed_cons rfl (by decide), separated_of_item first notBlank]
  rcases ended with rfl | rfl
  · rfl
  · exact Option.map_map ..

/-- The same for the whole text, with fuel for one more member. -/
theorem parse_codePart (errCode : Ec) {mark : UInt8} (rest : Bytes) {json : Json}
    (alphanumeric : Alphanumeric config.keyMDErrCode) (ended : mark = 125 ∨ mark = 44) :
    ∃ fuel, parse (codePart config errCode (mark :: rest)) = some json ↔ ∃ members behind,
      (if mark = 125 then some ([], rest) else separated (member (value (fuel + 2))) 125 (fuel + 1) rest) =
        some (members, behind) ∧ skip behind = [] ∧
      json = .object ((config.keyMDErrCode, .number errCode 0) :: members) := by
  refine ⟨(config.keyMDErrCode ++ 34 :: 58 :: (decimal errCode ++ mark :: rest)).length, ?_⟩
  rw [parse_eq_some_iff, show (codePart config errCode (mark :: rest)).length + 1 = _ + 1 + 2 from rfl,
    value_codePart alphanumeric ended]
  constructor
  · rintro ⟨behind, read, blank⟩
    obtain ⟨members, membersRead, rfl⟩ := map_eq_some_iff.mp read
    exact ⟨members, behind, membersRead, blank, rfl⟩
  · rintro ⟨members, behind, membersRead, blank, rfl⟩
    exact ⟨behind, map_eq_some_iff.mpr ⟨members, membersRead, rfl⟩, blank⟩

theorem member_descPart {fuel : ℕ} (alphanumeric : Alphanumeric config.keyMDErrDesc) :
    member (value (fuel + 1)) (descPart config errDesc) = (string (quote errDesc ++ 34 :: [125])).map
      (Prod.map (fun text => (config.keyMDErrDesc, .string text)) id) := by
  rw [descPart, member_verbatim alphanumeric.verbatim, value_string, Option.map_map]
  rfl

theorem isUtf8_decimal (code : Ec) : IsUtf8 (decimal code) := by
  refine isUtf8_of_ascii (List.all_eq_true.mpr fun byte member => decide_eq_true ?_)
  rw [decimal_eq] at member
  rcases List.mem_append.mp member with sign | digit
  · split_ifs at sign
    · rw [List.mem_singleton.mp sign]
      decide
    · cases sign
  · have digit := isDigit_of_mem_decimalDigits digit
    grind [isDigit]

theorem isUtf8_codePart {rest : Bytes} (codeKey : Alphanumeric config.keyMDErrCode) (utf8 : IsUtf8 rest) :
    IsUtf8 (codePart config errCode rest) := by
  have value : IsUtf8 (34 :: 58 :: (decimal errCode ++ rest)) :=
    (((isUtf8_decimal errCode).append utf8).cons (by decide)).cons (by decide)
  exact ((codeKey.isUtf8.append value).cons (by decide)).cons (by decide)

theorem isUtf8_descPart (descKey : Alphanumeric config.keyMDErrDesc) (utf8 : IsUtf8 errDesc) :
    IsUtf8 (descPart config errDesc) := by
  have closing : IsUtf8 [34, 125] := isUtf8_of_ascii (by decide)
  have value : IsUtf8 (34 :: 58 :: 34 :: (quote errDesc ++ [34, 125])) :=
    ((((isUtf8_quote utf8).append closing).cons (by decide)).cons (by decide)).cons (by decide)
  exact (descKey.isUtf8.append value).cons (by decide)

/-- UTF-8 or not does not depend on the escapes. -/
theorem isUtf8_content (codeKey : Alphanumeric config.keyMDErrCode) (descKey : Alphanumeric config.keyMDErrDesc)
    (utf8 : IsUtf8 errDesc) : IsUtf8 (genReply config errCode errDesc).content := by
  rw [content_eq]
  refine isUtf8_codePart codeKey ?_
  split_ifs
  · exact isUtf8_of_ascii (by decide)
  · exact (isUtf8_descPart descKey utf8).cons (by decide)

/-- The closing mark is the last one. -/
theorem chars_closing (fuel : ℕ) : chars fuel [125] = none := by
  cases fuel with
  | zero => rfl
  | succ fuel => rw [chars_cons (by decide) (by decide) (by decide), chars_nil, Option.map_none]

theorem members_of_plain (codeKey : Alphanumeric config.keyMDErrCode) (descKey : Alphanumeric config.keyMDErrDesc)
    (nonempty : errDesc ≠ []) (plain : Plain errDesc) :
    parse (genReply config errCode errDesc).content =
      some (.object [(config.keyMDErrCode, .number errCode 0), (config.keyMDErrDesc, .string errDesc)]) := by
  obtain ⟨fuel, parsed⟩ := parse_codePart errCode (descPart config errDesc) codeKey (.inr rfl)
  have read : member (value (fuel + 2)) (descPart config errDesc) =
      some ((config.keyMDErrDesc, .string errDesc), 125 :: []) := by
    rw [member_descPart descKey, string_quote plain]
    rfl
  rw [content_eq, if_neg nonempty]
  refine parsed.mpr ⟨[(config.keyMDErrDesc, .string errDesc)], [], ?_, rfl, rfl⟩
  rw [if_neg (by decide), separated_of_item read rfl, if_pos rfl]

/-- Whatever the description is, the second member holds what is read of it. -/
theorem second_of_parse {members : List (Bytes × Json)} (codeKey : Alphanumeric config.keyMDErrCode)
    (descKey : Alphanumeric config.keyMDErrDesc) (nonempty : errDesc ≠ [])
    (read : parse (genReply config errCode errDesc).content = some (.object members)) :
    ∃ text rest others, string (quote errDesc ++ 34 :: [125]) = some (text, rest) ∧
      members = (config.keyMDErrCode, .number errCode 0) :: (config.keyMDErrDesc, .string text) :: others := by
  obtain ⟨fuel, parsed⟩ := parse_codePart errCode (descPart config errDesc) codeKey (.inr rfl)
  rw [content_eq, if_neg nonempty] at read
  obtain ⟨members, behind, membersRead, -, same⟩ := parsed.mp read
  obtain rfl := Json.object.inj same
  rw [if_neg (by decide)] at membersRead
  obtain ⟨first, others, rest, firstRead, rfl⟩ := item_of_separated membersRead
  rw [member_descPart descKey] at firstRead
  obtain ⟨text, textRead, rfl⟩ := map_eq_some_iff.mp firstRead
  exact ⟨text, rest, others, textRead, rfl⟩

theorem carries_nil (codeKey : Alphanumeric config.keyMDErrCode) (descKey : Alphanumeric config.keyMDErrDesc) :
    Carries config errCode [] where
  utf8 := isUtf8_content codeKey descKey isUtf8_nil
  members := by
    obtain ⟨fuel, parsed⟩ := parse_codePart errCode [] codeKey (.inl rfl)
    refine ⟨[(config.keyMDErrCode, .number errCode 0)], ?_, List.lookup_cons_self, absurd rfl⟩
    rw [content_eq, if_pos rfl]
    exact parsed.mpr ⟨[], [], rfl, rfl, rfl⟩

theorem lookup_keyMDErrDesc {others : List (Bytes × Json)} {code desc : Json}
    (differ : config.keyMDErrCode ≠ config.keyMDErrDesc) :
    ((config.keyMDErrCode, code) :: (config.keyMDErrDesc, desc) :: others).lookup config.keyMDErrDesc =
      some desc := by
  rw [List.lookup_cons, beq_false_of_ne differ.symm]
  exact List.lookup_cons_self

/-- Two members of one name cannot both be looked up. -/
theorem carries_iff (codeKey : Alphanumeric config.keyMDErrCode) (descKey : Alphanumeric config.keyMDErrDesc)
    (utf8 : IsUtf8 errDesc) (nonempty : errDesc ≠ []) :
    Carries config errCode errDesc ↔ config.keyMDErrCode ≠ config.keyMDErrDesc ∧ Plain errDesc := by
  constructor
  · rintro ⟨-, members, read, -, lookup⟩
    obtain ⟨text, rest, others, textRead, rfl⟩ := second_of_parse codeKey descKey nonempty read
    have lookup := lookup nonempty
    have differ : config.keyMDErrCode ≠ config.keyMDErrDesc := by
      intro same
      rw [same, List.lookup_cons_self] at lookup
      cases lookup
    rw [lookup_keyMDErrDesc differ] at lookup
    obtain rfl := Json.string.inj (Option.some.inj lookup)
    exact ⟨differ, (string_quote_iff chars_closing).mp ⟨rest, textRead⟩⟩
  · rintro ⟨differ, plain⟩
    exact ⟨isUtf8_content codeKey descKey utf8, _, members_of_plain codeKey descKey nonempty plain,
      List.lookup_cons_self, fun _ => lookup_keyMDErrDesc differ⟩

/-- A reply carries its description, if there is one, just where the description is plain and has a name
of its own; and `quote` can be undone just on the plain texts. -/
theorem genReply_carries_iff (codeKey : Alphanumeric config.keyMDErrCode) (descKey : Alphanumeric config.keyMDErrDesc)
    (utf8 : IsUtf8 errDesc) :
    (Carries config errCode errDesc ↔
      errDesc = [] ∨ config.keyMDErrCode ≠ config.keyMDErrDesc ∧ Plain errDesc) ∧
      ∀ text, unescape (quote text) = some text ↔ Plain text := by
  refine ⟨?_, unescape_quote⟩
  by_cases empty : errDesc = []
  · subst empty
    exact iff_of_true (carries_nil codeKey descKey) (.inl rfl)
  · rw [carries_iff codeKey descKey utf8 empty, or_iff_right empty]

end Content

/-- A name with a backslash for `key-query-request-payload`. -/
def backslashConfig : Config := { (default : Config) with keyQUPayload := ascii "data\\" }

/-- The description that `err_bad_query` then has. -/
def badQueryDesc : Bytes := ascii "bad 'data\\' specified"

theorem alphanumeric_backslashConfig :
    Alphanumeric backslashConfig.keyMDErrCode ∧ Alphanumeric backslashConfig.keyMDErrDesc := by
  decide

theorem isUtf8_badQueryDesc : IsUtf8 badQueryDesc := isUtf8_of_ascii (by decide)

/-- A description with quotation marks at both ends is carried, one with a backslash is not. -/
theorem genReply_carries_marked : Carries backslashConfig Predicter.errNoQuery (ascii "\"\"data\"") ∧
    ¬Carries backslashConfig Predicter.errBadQuery badQueryDesc := by
  obtain ⟨codeKey, descKey⟩ := alphanumeric_backslashConfig
  have marked : IsUtf8 (ascii "\"\"data\"") := isUtf8_of_ascii (by decide)
  refine ⟨(genReply_carries_iff codeKey descKey marked).1.mpr (by decide), fun carries => ?_⟩
  exact absurd ((genReply_carries_iff codeKey descKey isUtf8_badQueryDesc).1.mp carries) (by decide)

/-- A reply that the router makes when it starts is no JSON text. Where a backslash happens to begin an
escape, the text is read as another one. -/
theorem badQuery_lost :
    (Predicter.initReplys backslashConfig StaticReplys.start).errBadQueryReply =
        some (genReply backslashConfig Predicter.errBadQuery badQueryDesc) ∧
      Alphanumeric backslashConfig.keyMDErrCode ∧ Alphanumeric backslashConfig.keyMDErrDesc ∧
      IsUtf8 badQueryDesc ∧ ¬Carries backslashConfig Predicter.errBadQuery badQueryDesc ∧
      parse (genReply backslashConfig Predicter.errBadQuery badQueryDesc).content = none ∧
      unescape (quote (ascii "da\\ta")) = some (ascii "da\ta") := by
  obtain ⟨codeKey, descKey⟩ := alphanumeric_backslashConfig
  refine ⟨by decide, codeKey, descKey, isUtf8_badQueryDesc, fun carries => ?_, by decide, by decide⟩
  exact absurd ((carries_iff codeKey descKey isUtf8_badQueryDesc (by decide)).mp carries) (by decide)

end Taboo
