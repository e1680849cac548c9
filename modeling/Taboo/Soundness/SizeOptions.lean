import Taboo.Model.SizeOption

/-! # Exact size options

For `uint32_t` the unit `t` is out of bound whatever stands before it, even a zero. For `std::size_t` the
bound is a shift of an `int` by more than its width, unless the unit is `t`.
-/

namespace Taboo

namespace TokenHandler

theorem digits_some {text : Bytes} {value : ℕ} (spelled : digits text = some value) :
    text ≠ [] ∧ ∀ byte ∈ text, 48 ≤ byte ∧ byte ≤ 57 := by
  unfold digits at spelled
  split_ifs at spelled with good
  simpa using good

/-- Digits have no sign. -/
theorem splitSign_digits {text : Bytes} {value : ℕ} (spelled : digits text = some value) :
    splitSign text = (false, text) := by
  unfold splitSign
  split
  · exact absurd ((digits_some spelled).2 45 List.mem_cons_self).1 (by decide)
  · exact absurd ((digits_some spelled).2 43 List.mem_cons_self).1 (by decide)
  · rfl

end TokenHandler

namespace SizeOption

open TokenHandler

/-- The suffixes that a number can have, with their bits. -/
def suffixes : List (Bytes × ℕ) :=
  [(ascii "", 0), (ascii "k", 10), (ascii "K", 10), (ascii "m", 20), (ascii "M", 20), (ascii "g", 30),
    (ascii "G", 30), (ascii "t", 40), (ascii "T", 40)]

/-- The number if it fits into the type, and otherwise an error that is thrown. -/
def Exact (type : IntType) (num : ℕ) (result : Except SizeError ℕ) : Prop :=
  if num < 2 ^ type.width then result = .ok num else ∃ error, error ≠ .badShift ∧ result = .error error

/-- A 32-bit size is no zero with the unit `t`; a 64-bit one has no unit, the unit `t` or a quantity that is
out of bound itself. -/
def Sized (type : IntType) (value bits : ℕ) : Prop :=
  match type with
  | .uint32 => value ≠ 0 ∨ bits ≠ 40
  | .size => bits = 0 ∨ bits = 40 ∨ 2 ^ 64 ≤ value

theorem unitBits_some {unit : UInt8} {bits : ℕ} (known : unitBits unit = some bits) :
    isAlpha unit = true ∧ (bits = 10 ∨ bits = 20 ∨ bits = 30 ∨ bits = 40) := by
  have alpha : isAlpha (toLower unit) = true → isAlpha unit = true := by
    unfold toLower
    split_ifs with upper
    · exact fun _ => by simp [isAlpha, upper]
    · exact id
  unfold unitBits at known
  split at known
  case h_5 => cases known
  all_goals
    rename_i lower
    obtain rfl := Option.some.inj known
    exact ⟨alpha (lower ▸ rfl), by decide⟩

/-- What `toInteger` takes for a unit is a suffix that is not empty. -/
def suffixBits : Bytes → Option ℕ
  | [] => some 0
  | [unit] => unitBits unit
  | _ => none

theorem suffixBits_of_listed : ∀ entry ∈ suffixes, suffixBits entry.1 = some entry.2 := by decide

theorem lexicalCast_digits (type : IntType) {number : Bytes} {value : ℕ}
    (spelled : digits number = some value) :
    lexicalCast type number = if value < 2 ^ type.width then some value else none := by
  simp [lexicalCast, splitSign_digits spelled, spelled]

theorem head?_digits {number : Bytes} {value : ℕ} (spelled : digits number = some value) (suffix : Bytes) :
    (number ++ suffix).head? ≠ some 45 := by
  obtain ⟨nonempty, all⟩ := digits_some spelled
  rw [List.head?_append_of_ne_nil _ nonempty]
  intro minus
  exact absurd (all 45 (List.mem_of_head? minus)).1 (by decide)

theorem toInteger_plain (type : IntType) {number : Bytes} {value : ℕ} (spelled : digits number = some value) :
    toInteger type number = if value < 2 ^ type.width then .ok value else .error .badCast := by
  obtain ⟨nonempty, all⟩ := digits_some spelled
  have head := head?_digits spelled []
  rw [List.append_nil] at head
  have last := all _ (List.getLast_mem nonempty)
  have plain : isAlpha (number.getLast nonempty) = false := by
    simp only [isAlpha, UInt8.le_iff_toNat_le] at last ⊢
    simp only [Bool.or_eq_false_iff, Bool.and_eq_false_iff, decide_eq_false_iff_not, not_le]
    have high : (number.getLast nonempty).toNat ≤ 57 := last.2
    exact ⟨Or.inl (lt_of_le_of_lt high (by decide)), Or.inl (lt_of_le_of_lt high (by decide))⟩
  unfold toInteger
  rw [List.getLast?_eq_some_getLast nonempty]
  simp only [head, plain, if_false, lexicalCast_digits type spelled, Bool.false_eq_true]
  split_ifs <;> rfl

theorem toInteger_unit (type : IntType) {number : Bytes} {value bits : ℕ} {unit : UInt8}
    (spelled : digits number = some value) (known : unitBits unit = some bits) :
    toInteger type (number ++ [unit]) =
      if value < 2 ^ type.width then shiftUnit type (number ++ [unit]) unit bits value
      else .error (errorBadValue (number ++ [unit]) (ascii "quantity part must be integer")) := by
  have head := head?_digits spelled [unit]
  unfold toInteger
  simp only [List.getLast?_concat, List.dropLast_concat, head, (unitBits_some known).1, if_true, if_false,
    lexicalCast_digits type spelled]
  split_ifs
  · simp only [known]
  · rfl

theorem not_exact_badShift (type : IntType) (num : ℕ) : ¬Exact type num (.error .badShift) := by
  unfold Exact
  split_ifs
  · exact nofun
  · rintro ⟨error, thrown, same⟩
    exact thrown (Except.error.inj same).symm

theorem exact_error (type : IntType) {num : ℕ} {error : SizeError} (thrown : error ≠ .badShift) :
    Exact type num (.error error) ↔ 2 ^ type.width ≤ num := by
  unfold Exact
  split_ifs with fits
  · exact iff_of_false nofun (not_le.mpr fits)
  · exact iff_of_true ⟨error, thrown, rfl⟩ (not_lt.mp fits)

theorem errorBadValue_thrown (text reason : Bytes) : errorBadValue text reason ≠ .badShift := nofun

theorem exact_ok (type : IntType) {num : ℕ} (fits : num < 2 ^ type.width) : Exact type num (.ok num) := by
  rw [Exact, if_pos fits]

/-- Where the bound is a power of two that an `int` has room for, nothing goes wrong. -/
theorem shiftUnit_exact {type : IntType} {bits : ℕ} (inside : bits ≤ type.width)
    (short : type.width - bits < 32) (text : Bytes) (unit : UInt8) (value : ℕ) :
    Exact type (value * 2 ^ bits) (shiftUnit type text unit bits value) := by
  have bound : value < 2 ^ (type.width - bits) ↔ value * 2 ^ bits < 2 ^ type.width := by
    rw [← Nat.sub_add_cancel inside, pow_add, Nat.sub_add_cancel inside]
    exact (Nat.mul_lt_mul_right (Nat.two_pow_pos bits)).symm
  simp only [shiftUnit, if_neg (not_lt.mpr inside), if_neg (not_le.mpr short), bound]
  split_ifs with fits
  · rw [Nat.shiftLeft_eq, Nat.mod_eq_of_lt fits]
    exact exact_ok type fits
  · exact (exact_error type (errorBadValue_thrown text _)).mpr (not_lt.mp fits)

theorem shiftUnit_exact_iff (type : IntType) (text : Bytes) (unit : UInt8) {bits value : ℕ}
    (unitized : bits = 10 ∨ bits = 20 ∨ bits = 30 ∨ bits = 40) (fits : value < 2 ^ type.width) :
    Exact type (value * 2 ^ bits) (shiftUnit type text unit bits value) ↔ Sized type value bits := by
  cases type with
  | uint32 =>
    by_cases tera : bits = 40
    · subst tera
      rw [shiftUnit, if_pos (by decide), exact_error _ (errorBadValue_thrown text _)]
      simp only [Sized, IntType.width]
      omega
    · refine iff_of_true (shiftUnit_exact ?_ ?_ text unit value) (Or.inr tera) <;>
        simp only [IntType.width] <;> omega
  | size =>
    by_cases tera : bits = 40
    · subst tera
      exact iff_of_true (shiftUnit_exact (by decide) (by decide) text unit value) (Or.inr (Or.inl rfl))
    · have wide : 32 ≤ IntType.size.width - bits := by
        simp only [IntType.width]
        omega
      rw [shiftUnit, if_neg (by simp only [IntType.width]; omega), if_pos wide]
      refine iff_of_false (not_exact_badShift _ _) ?_
      rintro (none | tera' | large)
      · omega
      · exact tera tera'
      · exact absurd fits (not_lt.mpr large)

/-- Read with a suffix or without one, a number is exact or refused exactly if it is sized. -/
theorem toInteger_exact_iff (type : IntType) {number suffix : Bytes} {value bits : ℕ}
    (spelled : digits number = some value) (listed : (suffix, bits) ∈ suffixes) :
    Exact type (value * 2 ^ bits) (toInteger type (number ++ suffix)) ↔ Sized type value bits := by
  have known : suffixBits suffix = some bits := suffixBits_of_listed _ listed
  unfold suffixBits at known
  split at known
  · obtain rfl := Option.some.inj known
    have sized : Sized type value 0 := by
      cases type
      · exact Or.inr (by decide)
      · exact Or.inl rfl
    rw [List.append_nil, toInteger_plain type spelled, pow_zero, mul_one]
    refine iff_of_true ?_ sized
    split_ifs with fits
    · exact exact_ok type fits
    · exact (exact_error type (by decide)).mpr (not_lt.mp fits)
  · next unit =>
    have unitized := (unitBits_some known).2
    rw [toInteger_unit type spelled known]
    split_ifs with fits
    · exact shiftUnit_exact_iff type _ unit unitized fits
    · -- the quantity alone is out of bound
      have large : 2 ^ type.width ≤ value * 2 ^ bits :=
        le_trans (not_lt.mp fits) (Nat.le_mul_of_pos_right value (Nat.two_pow_pos bits))
      refine iff_of_true ((exact_error type (errorBadValue_thrown _ _)).mpr large) ?_
      cases type with
      | uint32 =>
        left
        rintro rfl
        exact fits (by decide)
      | size => exact Or.inr (Or.inr (not_lt.mp fits))
  · cases known

/-- `10K`, the default of `max-iterations`. -/
theorem toInteger_exact_tenK : digits (ascii "10") = some 10 ∧ (ascii "K", 10) ∈ suffixes ∧
    Exact .uint32 (10 * 2 ^ 10) (toInteger .uint32 (ascii "10" ++ ascii "K")) :=
  ⟨by decide, by decide, (@toInteger_exact_iff .uint32 (ascii "10") (ascii "K") 10 10 (by decide)
    (by decide)).mpr (Or.inl (by decide))⟩

/-- `4K`, the default of `query-data-max-bytes`, takes the undefined shift as a 64-bit size, and a 32-bit
size of zero with the unit `t` is refused. -/
theorem fourK_undefined :
    toInteger .size (ascii "4" ++ ascii "K") = .error .badShift ∧
    ¬Exact .size (4 * 2 ^ 10) (toInteger .size (ascii "4" ++ ascii "K")) ∧
    ¬Exact .uint32 (0 * 2 ^ 40) (toInteger .uint32 (ascii "0" ++ ascii "t")) := by
  refine ⟨by decide, ?_, ?_⟩
  · exact not_exact_badShift _ _
  · have refused : toInteger .uint32 (ascii "0" ++ ascii "t") =
        .error (errorBadValue (ascii "0t") (ascii "unit 't' out of bound")) := by decide
    rw [refused, exact_error _ (errorBadValue_thrown _ _)]
    decide

end SizeOption

end Taboo
