import Mathlib.Data.List.Induction
import Mathlib.Data.List.Pairwise
import Taboo.Model.Filter

/-! # Looking a value up in a set of values

An `InFilter` looks the value of an item up in a hash set of its elements. The set takes for the same
what is equal and has the same hash, and the hash of a number depends on how it is represented, which
`==` looks through. So an integer may miss the double it is equal to. And since `==` is not transitive
on large numbers, an element may be dropped for an earlier one that a third value is not equal to.
-/

namespace Taboo

namespace ValuePtrSet

/-- What the set takes for the same value. -/
def same (hashing : Hashing) (left right : Value) : Bool :=
  hashing.value left == hashing.value right && left.equal right

/-- The elements that are kept when those are dropped that are the same as an earlier kept one; the
latest come first. -/
def kept (hashing : Hashing) (elements : List Value) : List Value :=
  elements.reverse.pwFilter fun later earlier => same hashing later earlier = false

theorem insert_reverse (hashing : Hashing) (values : List Value) (value : Value) :
    (insert hashing values value).reverse =
      if ∀ stored ∈ values.reverse, same hashing value stored = false then value :: values.reverse
      else values.reverse := by
  have absent : contains hashing values value = false ↔
      ∀ stored ∈ values.reverse, same hashing value stored = false := by
    simp [contains, same]
  cases there : contains hashing values value with
  | true => rw [if_neg (absent.not.mp (by simp [there])), insert, there, if_pos rfl]
  | false =>
    rw [if_pos (absent.mp there), insert, there, if_neg (by simp), List.reverse_append]
    rfl

theorem foldl_insert (hashing : Hashing) (elements : List Value) :
    (elements.foldl (insert hashing) []).reverse = kept hashing elements := by
  induction elements using List.reverseRecOn with
  | nil => rfl
  | append_singleton earlier value ih =>
    rw [List.foldl_append, List.foldl_cons, List.foldl_nil, insert_reverse, ih, kept, kept,
      List.reverse_concat]
    rfl

theorem contains_filled (hashing : Hashing) (elements : List Value) (value : Value) :
    contains hashing (elements.foldl (insert hashing) []) value = true ↔
      ∃ stored ∈ kept hashing elements, same hashing value stored = true := by
  simp only [← foldl_insert, List.mem_reverse, contains, same, List.any_eq_true]

theorem kept_subset (hashing : Hashing) (elements : List Value) : kept hashing elements ⊆ elements :=
  fun _ member => List.mem_reverse.mp (List.pwFilter_subset _ member)

theorem kept_concat (hashing : Hashing) (elements : List Value) (latest : Value) :
    kept hashing (elements ++ [latest]) =
      if ∀ stored ∈ kept hashing elements, same hashing latest stored = false then
        latest :: kept hashing elements
      else kept hashing elements := by
  rw [kept, kept, List.reverse_concat]
  rfl

/-- What comes later drops nothing. -/
theorem kept_subset_append (hashing : Hashing) (elements later : List Value) :
    kept hashing elements ⊆ kept hashing (elements ++ later) := by
  induction later using List.reverseRecOn with
  | nil => simp
  | append_singleton later latest ih =>
    rw [← List.append_assoc, kept_concat]
    split_ifs
    · exact fun stored member => List.mem_cons_of_mem _ (ih member)
    · exact ih

/-- An element is kept, or dropped for an earlier one that is kept and the same. -/
theorem kept_covers (hashing : Hashing) (before : List Value) (value : Value) (after : List Value) :
    value ∈ kept hashing (before ++ value :: after) ∨
      ∃ stored ∈ kept hashing (before ++ value :: after), stored ∈ before ∧
        same hashing value stored = true := by
  have later : kept hashing (before ++ [value]) ⊆ kept hashing (before ++ value :: after) := by
    have appended := kept_subset_append hashing (before ++ [value]) after
    rwa [List.append_assoc] at appended
  have step := kept_concat hashing before value
  split_ifs at step with fresh
  · exact Or.inl (later (by rw [step]; exact List.mem_cons_self))
  · push Not at fresh
    obtain ⟨stored, there, covers⟩ := fresh
    refine Or.inr ⟨stored, later (by rwa [step]), kept_subset hashing before there, by simpa using covers⟩

/-- Of two kept elements neither is the same as the other, whichever was inserted first. -/
theorem kept_distinct (hashing : Hashing) {elements : List Value} {left right : Value}
    (one : left ∈ kept hashing elements) (other : right ∈ kept hashing elements) (differ : left ≠ right) :
    same hashing left right = false ∨ same hashing right left = false := by
  let apart := fun left right => same hashing left right = false ∨ same hashing right left = false
  have symm : Std.Symm apart := ⟨fun _ _ => Or.symm⟩
  have pairwise : (kept hashing elements).Pairwise apart := (List.pairwise_pwFilter _).imp Or.inl
  exact pairwise.forall one other differ

end ValuePtrSet

namespace Filter

/-- Some element other than null is equal to the value. -/
def Met (elements : List Value) (found : Value) : Prop :=
  ∃ value ∈ elements, value.isNull = false ∧ found.equal value = true

/-- Some element that is equal to the value also has its hash, and is kept. -/
def Held (hashing : Hashing) (elements : List Value) (found : Value) : Prop :=
  ∃ value ∈ ValuePtrSet.kept hashing (elements.filter fun value => !value.isNull),
    hashing.value found = hashing.value value ∧ found.equal value = true

/-- What a scan of the elements says to an item. -/
def scan (attr : Bytes) (elements : List Value) (item : Item) : Bool :=
  match findMember item.dom attr with
  | none => elements.any Value.isNull
  | some found => elements.any fun value => !value.isNull && found.equal value

/-- A number of the same double value, under the same hash. -/
def twin (hashing : Hashing) (number : Number) : Value → Bool
  | .number other => other.toDouble == number.toDouble &&
      hashing.value (.number other) == hashing.value (.number number)
  | _ => false

/-- When the set has a value that a scan finds. An integer: it is an element itself, or no double of its
value is, or the first of its twins is a double. A double: one of its value is an element, or no integer
of its value is, or one that has its hash is. A container: no element is equal to it, or one is that is
equal to no earlier element but those the container is equal to as well. -/
def Findable (hashing : Hashing) (elements : List Value) : Value → Prop
  | .null | .bool _ | .string _ => True
  | .number (.integer value range) =>
      .number (.integer value range) ∈ elements ∨
      (∀ double, .number (.double double) ∈ elements → double.value ≠ (Number.integer value range).toDouble) ∨
      ∃ double, elements.find? (twin hashing (.integer value range)) = some (.number (.double double))
  | .number (.double value) =>
      (∃ double, .number (.double double) ∈ elements ∧ double.value = value.value) ∨
      (∀ integer range, .number (.integer integer range) ∈ elements →
        (Number.integer integer range).toDouble ≠ value.value) ∨
      ∃ integer range, .number (.integer integer range) ∈ elements ∧
        (Number.integer integer range).toDouble = value.value ∧
        hashing.value (.number (.integer integer range)) = hashing.double value.value
  | container =>
      (∀ value ∈ elements, container.equal value = false) ∨
      ∃ before value after, elements = before ++ value :: after ∧ container.equal value = true ∧
        ∀ earlier ∈ before, value.equal earlier = true → container.equal earlier = true

theorem scan_found {attr : Bytes} {item : Item} {found : Value} (there : findMember item.dom attr = some found)
    (elements : List Value) : scan attr elements item = true ↔ Met elements found := by
  simp [scan, there, Met]

theorem accepts_found (hashing : Hashing) {attr : Bytes} {item : Item} {found : Value}
    (there : findMember item.dom attr = some found) (elements : List Value) :
    (fillValues hashing attr elements).accepts hashing item = true ↔ Held hashing elements found := by
  simp only [fillValues, accepts, there, ValuePtrSet.contains_filled, Held, ValuePtrSet.same,
    Bool.and_eq_true, beq_iff_eq]

theorem Held.met {hashing : Hashing} {elements : List Value} {found : Value}
    (held : Held hashing elements found) : Met elements found := by
  obtain ⟨value, member, _, equal⟩ := held
  obtain ⟨there, proper⟩ := List.mem_filter.mp (ValuePtrSet.kept_subset _ _ member)
  exact ⟨value, there, by simpa using proper, equal⟩

/-- An element under the hash of the value is found, or what it is dropped for is. -/
theorem held_of_split {hashing : Hashing} {before after : List Value} {found value : Value}
    (proper : value.isNull = false) (hashed : hashing.value found = hashing.value value)
    (equal : found.equal value = true)
    (through : ∀ earlier ∈ before, ValuePtrSet.same hashing value earlier = true → found.equal earlier = true) :
    Held hashing (before ++ value :: after) found := by
  unfold Held
  rw [List.filter_append, List.filter_cons_of_pos (by simp [proper])]
  rcases ValuePtrSet.kept_covers hashing (before.filter fun value => !value.isNull) value
    (after.filter fun value => !value.isNull) with there | ⟨stored, there, earlier, same⟩
  · exact ⟨value, there, hashed, equal⟩
  · have sameHash : hashing.value value = hashing.value stored := by
      rw [ValuePtrSet.same, Bool.and_eq_true, beq_iff_eq] at same
      exact same.1
    exact ⟨stored, there, hashed.trans sameHash, through stored (List.mem_filter.mp earlier).1 same⟩

/-- A value that is an element is found if what it is equal to is itself. -/
theorem held_of_only {hashing : Hashing} {elements : List Value} {found : Value}
    (only : ∀ value, found.equal value = true → value = found) (met : Met elements found) :
    Held hashing elements found := by
  obtain ⟨value, member, proper, equal⟩ := met
  obtain rfl := only value equal
  obtain ⟨before, after, rfl⟩ := List.append_of_mem member
  refine held_of_split proper rfl equal fun earlier _ same => ?_
  rw [ValuePtrSet.same, Bool.and_eq_true] at same
  exact same.2

/-! ### Numbers -/

theorem roundToDouble_small {n : ℕ} (small : n < 2 ^ 53) : roundToDouble n = n := if_pos small

/-- Rounding keeps what is large large. -/
theorem le_roundToDouble {n : ℕ} (large : 2 ^ 53 ≤ n) : 2 ^ 53 ≤ roundToDouble n := by
  have nonzero : n ≠ 0 := by omega
  have bits : 53 ≤ n.log2 := (Nat.le_log2 nonzero).mpr large
  obtain ⟨shift, split⟩ : ∃ shift, n.log2 = 52 + shift := ⟨n.log2 - 52, by omega⟩
  have quotient : 2 ^ 52 ≤ n >>> shift := by
    rw [Nat.shiftRight_eq_div_pow, Nat.le_div_iff_mul_le (Nat.two_pow_pos shift), ← pow_add, ← split]
    exact Nat.log2_self_le nonzero
  have shifted : ∀ m, 2 ^ 52 ≤ m → 2 ^ 53 ≤ m <<< shift := by
    intro m le
    rw [Nat.shiftLeft_eq]
    calc 2 ^ 53 = 2 ^ 52 * 2 ^ 1 := rfl
      _ ≤ m * 2 ^ shift := Nat.mul_le_mul le (Nat.pow_le_pow_right Nat.two_pos (by omega))
  unfold roundToDouble
  rw [if_neg (by omega)]
  simp only [split, Nat.add_sub_cancel_left]
  split_ifs
  · exact shifted _ quotient
  · exact shifted _ (by omega)

/-- Doubles do not confuse integers this small. -/
theorem toDouble_eq_nat {integer : ℤ} {range : -2 ^ 63 ≤ integer ∧ integer < 2 ^ 64} {n : ℕ}
    (small : n < 2 ^ 53) :
    (Number.integer integer range).toDouble = n ↔ integer = n := by
  have whole : (Number.integer integer range).toDouble = n ↔
      integer.sign * (roundToDouble integer.natAbs : ℤ) = n := by
    simp only [Number.toDouble]
    norm_cast
  rw [whole]
  by_cases exact : integer.natAbs < 2 ^ 53
  · rw [roundToDouble_small exact, Int.sign_mul_natAbs]
  · have large := le_roundToDouble (not_lt.mp exact)
    refine iff_of_false (fun same => ?_) (by omega)
    rcases lt_trichotomy integer 0 with negative | rfl | positive
    · rw [Int.sign_eq_neg_one_of_neg negative] at same
      omega
    · simp at exact
    · rw [Int.sign_eq_one_of_pos positive] at same
      omega

theorem equal_double_iff (number : Number) (double : Double) :
    (Value.number number).equal (.number (.double double)) = true ↔ number.toDouble = double.value := by
  cases number <;> simp [Value.equal, Number.equal, Number.toDouble]

theorem double_equal_iff (double : Double) (number : Number) :
    (Value.number (.double double)).equal (.number number) = true ↔ double.value = number.toDouble := by
  cases number <;> simp [Value.equal, Number.equal, Number.toDouble]

/-- What an integer is equal to: itself, and the doubles of its value. -/
theorem integer_equal_iff {integer : ℤ} {range : -2 ^ 63 ≤ integer ∧ integer < 2 ^ 64} {value : Value} :
    (Value.number (.integer integer range)).equal value = true ↔
      value = .number (.integer integer range) ∨
        ∃ double, value = .number (.double double) ∧
          double.value = (Number.integer integer range).toDouble := by
  cases value with
  | number other =>
    cases other with
    | integer other range' =>
      simp only [Value.equal, Number.equal, beq_iff_eq, Value.number.injEq, Number.integer.injEq, reduceCtorEq,
        false_and, exists_false, or_false]
      exact eq_comm
    | double other =>
      rw [equal_double_iff]
      constructor
      · exact fun same => Or.inr ⟨other, rfl, same.symm⟩
      · rintro (same | ⟨double, same, value⟩)
        · cases same
        · cases same
          exact value.symm
  | null | bool | string | array | object => simp [Value.equal]

/-- What a double is equal to: the numbers of its value. -/
theorem double_equal_cases {double : Double} {value : Value}
    (equal : (Value.number (.double double)).equal value = true) :
    ∃ number, value = .number number ∧ number.toDouble = double.value := by
  cases value with
  | number other => exact ⟨other, rfl, ((double_equal_iff ..).mp equal).symm⟩
  | null | bool | string | array | object => cases equal

@[simp] theorem twin_number (hashing : Hashing) (number other : Number) :
    twin hashing number (.number other) = true ↔ other.toDouble = number.toDouble ∧
      hashing.value (.number other) = hashing.value (.number number) := by
  simp [twin]

theorem exists_of_twin {hashing : Hashing} {number : Number} {value : Value}
    (one : twin hashing number value = true) : ∃ other, value = .number other := by
  cases value with
  | number other => exact ⟨other, rfl⟩
  | null | bool | string | array | object => cases one

/-- What the set takes for the same as a twin is another twin. -/
theorem twin_same {hashing : Hashing} {number : Number} {value stored : Value}
    (one : twin hashing number value = true) (same : ValuePtrSet.same hashing value stored = true) :
    twin hashing number stored = true := by
  obtain ⟨other, rfl⟩ := exists_of_twin one
  rw [twin_number] at one
  rw [ValuePtrSet.same, Bool.and_eq_true, beq_iff_eq] at same
  obtain ⟨hashed, equal⟩ := same
  cases other with
  | integer other =>
    rcases integer_equal_iff.mp equal with rfl | ⟨double, rfl, value⟩
    · exact (twin_number ..).mpr one
    · exact (twin_number ..).mpr ⟨value.trans one.1, hashed.symm.trans one.2⟩
  | double other =>
    obtain ⟨number, rfl, value⟩ := double_equal_cases equal
    exact (twin_number ..).mpr ⟨value.trans one.1, hashed.symm.trans one.2⟩

/-- The first twin among the elements is kept. -/
theorem first_kept {hashing : Hashing} {elements : List Value} {number : Number} {first : Value}
    (found : elements.find? (twin hashing number) = some first) :
    first ∈ ValuePtrSet.kept hashing (elements.filter fun value => !value.isNull) := by
  obtain ⟨here, before, after, rfl, none⟩ := List.find?_eq_some_iff_append.mp found
  have proper : first.isNull = false := by
    obtain ⟨other, rfl⟩ := exists_of_twin here
    rfl
  rw [List.filter_append, List.filter_cons_of_pos (by simp [proper])]
  rcases ValuePtrSet.kept_covers hashing (before.filter fun value => !value.isNull) first
    (after.filter fun value => !value.isNull) with there | ⟨stored, _, earlier, same⟩
  · exact there
  · have other := none stored (List.mem_filter.mp earlier).1
    rw [twin_same here same] at other
    cases other

/-- So a double is found where it has a twin. -/
theorem held_of_twin {hashing : Hashing} {elements : List Value} {double : Double} {value : Value}
    (member : value ∈ elements) (one : twin hashing (.double double) value = true) :
    Held hashing elements (.number (.double double)) := by
  cases found : elements.find? (twin hashing (.double double)) with
  | none => exact absurd one (List.find?_eq_none.mp found value member)
  | some first =>
    have here := List.find?_some found
    obtain ⟨other, rfl⟩ := exists_of_twin here
    rw [twin_number] at here
    exact ⟨_, first_kept found, here.2.symm, (double_equal_iff ..).mpr here.1.symm⟩

/-- Where the first twin of an integer is another integer, no double is kept beside it. -/
theorem not_kept_double {hashing : Hashing} {elements : List Value} {number : Number} {double : Double}
    (notFirst : ∀ first, elements.find? (twin hashing number) ≠ some (.number (.double first)))
    (one : twin hashing number (.number (.double double)) = true) :
    .number (.double double) ∉ ValuePtrSet.kept hashing (elements.filter fun value => !value.isNull) := by
  intro kept
  have member := (List.mem_filter.mp (ValuePtrSet.kept_subset _ _ kept)).1
  cases found : elements.find? (twin hashing number) with
  | none => exact List.find?_eq_none.mp found _ member one
  | some first =>
    have here := List.find?_some found
    obtain ⟨other, rfl⟩ := exists_of_twin here
    cases other with
    | double other => exact notFirst other found
    | integer other range =>
      rw [twin_number] at here one
      have apart := ValuePtrSet.kept_distinct hashing kept (first_kept found) nofun
      have oneWay : (Value.number (.double double)).equal (.number (.integer other range)) = true :=
        (double_equal_iff ..).mpr (one.1.trans here.1.symm)
      have otherWay : (Value.number (.integer other range)).equal (.number (.double double)) = true :=
        (equal_double_iff ..).mpr (here.1.trans one.1.symm)
      simp [ValuePtrSet.same, oneWay, otherWay, one.2, here.2] at apart

theorem findable_integer_iff (hashing : Hashing) (elements : List Value) (integer : ℤ)
    (range : -2 ^ 63 ≤ integer ∧ integer < 2 ^ 64) :
    Findable hashing elements (.number (.integer integer range)) ↔
      (Met elements (.number (.integer integer range)) →
        Held hashing elements (.number (.integer integer range))) := by
  have itself : .number (.integer integer range) ∈ elements →
      Held hashing elements (.number (.integer integer range)) := by
    intro there
    obtain ⟨before, after, rfl⟩ := List.append_of_mem there
    refine held_of_split rfl rfl (integer_equal_iff.mpr (Or.inl rfl)) fun earlier _ same => ?_
    rw [ValuePtrSet.same, Bool.and_eq_true] at same
    exact same.2
  constructor
  · rintro (there | none | ⟨double, first⟩) met
    · exact itself there
    · obtain ⟨value, member, _, equal⟩ := met
      rcases integer_equal_iff.mp equal with rfl | ⟨double, rfl, value⟩
      · exact itself member
      · exact absurd value (none double member)
    · have here := List.find?_some first
      rw [twin_number] at here
      exact ⟨_, first_kept first, here.2.symm, (equal_double_iff ..).mpr here.1.symm⟩
  · intro found
    by_contra unfindable
    simp only [Findable, not_or, not_forall, not_not, not_exists] at unfindable
    obtain ⟨absent, ⟨double, member, value⟩, notFirst⟩ := unfindable
    obtain ⟨stored, kept, hashed, equal⟩ := found ⟨_, member, rfl, (equal_double_iff ..).mpr value.symm⟩
    rcases integer_equal_iff.mp equal with rfl | ⟨twin, rfl, value⟩
    · exact absent (List.mem_filter.mp (ValuePtrSet.kept_subset _ _ kept)).1
    · exact not_kept_double notFirst ((twin_number ..).mpr ⟨value, hashed.symm⟩) kept

theorem findable_double_iff (hashing : Hashing) (elements : List Value) (double : Double) :
    Findable hashing elements (.number (.double double)) ↔
      (Met elements (.number (.double double)) → Held hashing elements (.number (.double double))) := by
  constructor
  · rintro (⟨other, member, value⟩ | none | ⟨integer, range, member, value, hashed⟩) met
    · exact held_of_twin member ((twin_number ..).mpr ⟨value, congrArg hashing.double value⟩)
    · obtain ⟨value, member, _, equal⟩ := met
      obtain ⟨number, rfl, same⟩ := double_equal_cases equal
      cases number with
      | integer integer range => exact absurd same (none integer range member)
      | double other => exact held_of_twin member ((twin_number ..).mpr ⟨same, congrArg hashing.double same⟩)
    · exact held_of_twin member ((twin_number ..).mpr ⟨value, hashed⟩)
  · intro found
    by_contra unfindable
    simp only [Findable, not_or, not_forall, not_not, not_exists, not_and] at unfindable
    obtain ⟨noDouble, ⟨integer, range, member, value⟩, noInteger⟩ := unfindable
    obtain ⟨stored, kept, hashed, equal⟩ := found ⟨_, member, rfl, (double_equal_iff ..).mpr value.symm⟩
    have there := (List.mem_filter.mp (ValuePtrSet.kept_subset _ _ kept)).1
    obtain ⟨number, rfl, same⟩ := double_equal_cases equal
    cases number with
    | integer integer range => exact noInteger integer range there same hashed.symm
    | double other => exact noDouble other there same

/-! ### All values -/

/-- A container, or any value that has the hash of all that it is equal to. -/
theorem findable_container {hashing : Hashing} {elements : List Value} {found : Value}
    (hashed : ∀ value, found.equal value = true → hashing.value found = hashing.value value)
    (findable : (∀ value ∈ elements, found.equal value = false) ∨
      ∃ before value after, elements = before ++ value :: after ∧ found.equal value = true ∧
        ∀ earlier ∈ before, value.equal earlier = true → found.equal earlier = true)
    (proper : ∀ value, found.equal value = true → value.isNull = false)
    (met : Met elements found) : Held hashing elements found := by
  rcases findable with none | ⟨before, value, after, rfl, equal, through⟩
  · obtain ⟨value, member, _, equal⟩ := met
    exact absurd equal (by simp [none value member])
  · refine held_of_split (proper value equal) (hashed value equal) equal fun earlier member same => ?_
    rw [ValuePtrSet.same, Bool.and_eq_true] at same
    exact through earlier member same.2

/-- A findable value is found where it is met. -/
theorem held_of_findable {hashing : Hashing} {elements : List Value} {found : Value}
    (findable : Findable hashing elements found) (met : Met elements found) : Held hashing elements found := by
  cases found with
  | null =>
    obtain ⟨value, _, proper, equal⟩ := met
    cases value <;> simp [Value.isNull, Value.equal] at proper equal
  | bool =>
    refine held_of_only (fun value equal => ?_) met
    cases value <;> simp_all [Value.equal]
  | string =>
    refine held_of_only (fun value equal => ?_) met
    cases value <;> simp_all [Value.equal]
  | number number =>
    cases number with
    | integer integer range => exact (findable_integer_iff ..).mp findable met
    | double double => exact (findable_double_iff ..).mp findable met
  | array | object =>
    refine findable_container (fun value equal => ?_) findable (fun value equal => ?_) met
    · cases value <;> first | rfl | cases equal
    · cases value <;> first | rfl | cases equal

/-- An integer has the hash of the double that it is equal to. -/
def Alike (hashing : Hashing) : Value → Value → Prop
  | .number (.integer left range), .number (.double right) =>
      (Number.integer left range).toDouble = right.value →
        hashing.value (.number (.integer left range)) = hashing.double right.value
  | .number (.double left), .number (.integer right range) =>
      left.value = (Number.integer right range).toDouble →
        hashing.double left.value = hashing.value (.number (.integer right range))
  | _, _ => True

theorem one_representable : ∃ mantissa exponent : ℤ, |mantissa| < 2 ^ 53 ∧ -1074 ≤ exponent ∧
    exponent ≤ 971 ∧ (1 : ℚ) = mantissa * (2 : ℚ) ^ exponent :=
  ⟨1, 0, by decide, by decide, by decide, by simp⟩

/-- The number `1.0`. -/
def oneAsDouble : Value := .number (.double ⟨1, one_representable⟩)

theorem one_equal : (Value.ofUint 1).equal oneAsDouble = true := by
  have rounded : roundToDouble 1 = 1 := rfl
  simp [Value.equal, Value.ofUint, oneAsDouble, Number.equal, Number.toDouble, rounded]

/-- `boost::hash` leaves an integer as it is; of a double with few digits, like 1.0, it leaves no more
than zeros in an `int`. -/
def boostHashing : Hashing := { (default : Hashing) with int64 := id }

/-- An item whose `a` is the integer 1. -/
def withOne : Item := .sent 1 [(ascii "a", .ofUint 1)]

end Filter

end Taboo
