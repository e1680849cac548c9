import Mathlib.Data.List.Perm.Basic
import Taboo.Model.Seeker
import Taboo.Soundness.SetLookup

/-! # What the conditions of a query mean

The loop that builds a chain from an object hangs one filter after the other behind a cursor, and skips
the members it has no use for. On an empty chain it makes the list of their filters, in member order. So
a chain is a conjunction, whose order does not show. Only an array that has the id of an item as a double
means something else: the set of its elements may miss the id.
-/

namespace Taboo

namespace Filter

/-- The filter of a member, standing alone. Null and objects have none. -/
def ofMember (hashing : Hashing) (member : Bytes × Value) : Option Filter :=
  match member.2 with
  | .array elements => some (fillValues hashing member.1 elements)
  | .object _ => none
  | .null => none
  | value => some (.equal member.1 value)

/-- The filters that a condition imposes. -/
def imposed (hashing : Hashing) (keyId : Bytes) : Option Value → List Filter
  | none => []
  | some (.array elements) => [fillValues hashing keyId elements]
  | some (.object members) => members.filterMap (ofMember hashing)
  | some value => if value.isUint then [.equal keyId value] else []

/-- The item meets every one of the filters. -/
def Meets (hashing : Hashing) (filters : List Filter) (item : Item) : Prop :=
  ∀ filter ∈ filters, filter.accepts hashing item = true

theorem applyAll_iff (hashing : Hashing) (filters : List Filter) (item : Item) :
    applyAll hashing item filters = true ↔ Meets hashing filters item := by
  induction filters with
  | nil => simp [applyAll, Meets]
  | cons first rest ih => simp [applyAll, Meets, ih]

/-- The cursor stands at the end of the chain, if there is one. -/
def AtEnd (state : List Filter × ℕ) : Prop := state.1 = [] ∨ state.2 + 1 = state.1.length

theorem attach_atEnd {chain : List Filter} {cursor : ℕ} (atEnd : AtEnd (chain, cursor)) (next : Filter) :
    (attach chain cursor next).1 = chain ++ [next] ∧ AtEnd (attach chain cursor next) := by
  unfold attach
  split_ifs with empty
  · exact ⟨by simp [empty], Or.inr rfl⟩
  · have last : cursor + 1 = chain.length := atEnd.resolve_left empty
    rw [last, List.take_length]
    exact ⟨rfl, Or.inr (by simp)⟩

theorem byMember_atEnd {hashing : Hashing} {state : List Filter × ℕ} (atEnd : AtEnd state)
    (member : Bytes × Value) :
    (byMember hashing state member).1 = state.1 ++ (ofMember hashing member).toList ∧
      AtEnd (byMember hashing state member) := by
  obtain ⟨name, value⟩ := member
  cases value with
  | array elements => exact attach_atEnd atEnd _
  | null | object => exact ⟨(List.append_nil _).symm, atEnd⟩
  | bool | number | string => exact attach_atEnd atEnd _

theorem foldl_byMember {hashing : Hashing} (members : Members) {state : List Filter × ℕ}
    (atEnd : AtEnd state) :
    (members.foldl (byMember hashing) state).1 = state.1 ++ members.filterMap (ofMember hashing) := by
  induction members generalizing state with
  | nil => simp
  | cons member rest ih =>
    obtain ⟨appended, atEnd'⟩ := @byMember_atEnd hashing _ atEnd member
    rw [List.foldl_cons, ih atEnd', appended, List.append_assoc]
    cases made : ofMember hashing member <;> simp [made]

/-- An empty chain becomes the list of what is imposed. -/
theorem rebuild_empty (hashing : Hashing) (keyId : Bytes) (cond : Option Value) :
    rebuild hashing keyId [] cond = imposed hashing keyId cond := by
  cases cond with
  | none => rfl
  | some value =>
    cases value with
    | object members => exact foldl_byMember members (Or.inl rfl)
    | null | bool | number | string | array => rfl

end Filter

namespace FilterChain

/-- A chain lets through what meets its filters and does not meet its excludes, if it has any. -/
theorem apply_iff (hashing : Hashing) (chain : FilterChain) (item : Item) :
    chain.apply hashing item = true ↔ Filter.Meets hashing chain.filter item ∧
      ¬(chain.exclude ≠ [] ∧ Filter.Meets hashing chain.exclude item) := by
  have filtered : chain.matched hashing item = true ↔ Filter.Meets hashing chain.filter item := by
    rw [matched, Bool.or_eq_true, Filter.applyAll_iff, List.isEmpty_iff]
    refine or_iff_right_of_imp fun empty => ?_
    simp [empty, Filter.Meets]
  have excluded : chain.excludes hashing item = true ↔
      chain.exclude ≠ [] ∧ Filter.Meets hashing chain.exclude item := by
    rw [excludes, Bool.and_eq_true, Filter.applyAll_iff, Bool.not_eq_true', List.isEmpty_eq_false_iff]
  rw [apply, Bool.and_eq_true, Bool.not_eq_true', ← Bool.not_eq_true, filtered, excluded, and_comm]

end FilterChain

namespace Seeker

open Taboo.Filter

/-- The same condition, or the same object with its members in another order. -/
inductive Reordered : Option Value → Option Value → Prop
  | refl (cond : Option Value) : Reordered cond cond
  | object {members others : Members} (perm : members.Perm others) :
      Reordered (some (.object members)) (some (.object others))

theorem Reordered.imposed_perm {cond other : Option Value} (reordered : Reordered cond other)
    (hashing : Hashing) (keyId : Bytes) : (imposed hashing keyId cond).Perm (imposed hashing keyId other) := by
  cases reordered with
  | refl => exact List.Perm.refl _
  | object perm => exact perm.filterMap _

/-- What a query lets through on a fresh chain. -/
theorem rebuildChain_apply_iff (around : Surroundings) (query : Query) (item : Item) :
    (rebuildChain around .empty query).apply around.hashing item = true ↔
      Meets around.hashing (imposed around.hashing around.config.keyId query.filters) item ∧
        ¬(imposed around.hashing around.config.keyId query.excludes ≠ [] ∧
          Meets around.hashing (imposed around.hashing around.config.keyId query.excludes) item) := by
  rw [FilterChain.apply_iff, rebuildChain, FilterChain.empty, rebuild_empty, rebuild_empty]

theorem reordered_apply (around : Surroundings) {query : Query} (item : Item) {filters excludes : Option Value}
    (filtered : Reordered query.filters filters) (excluded : Reordered query.excludes excludes) :
    (rebuildChain around .empty { query with filters, excludes }).apply around.hashing item =
      (rebuildChain around .empty query).apply around.hashing item := by
  have meets : ∀ {cond other : Option Value}, Reordered cond other →
      (Meets around.hashing (imposed around.hashing around.config.keyId other) item ↔
        Meets around.hashing (imposed around.hashing around.config.keyId cond) item) := by
    intro cond other reordered
    have perm := reordered.imposed_perm around.hashing around.config.keyId
    exact forall_congr' fun filter => imp_congr_left perm.symm.mem_iff
  have empty : imposed around.hashing around.config.keyId excludes = [] ↔
      imposed around.hashing around.config.keyId query.excludes = [] := by
    have perm := excluded.imposed_perm around.hashing around.config.keyId
    rw [← List.length_eq_zero_iff, ← List.length_eq_zero_iff, perm.length_eq]
  rw [Bool.eq_iff_iff, rebuildChain_apply_iff, rebuildChain_apply_iff, meets filtered, meets excluded,
    ne_eq, ne_eq, empty]

/-! ### What a query says -/

/-- The item satisfies the condition: an array has its id, an unsigned integer is its id, and of an object
every usable member lets it through. -/
def Satisfies (hashing : Hashing) (keyId : Bytes) (item : Item) : Option Value → Prop
  | none => True
  | some (.array elements) => scan keyId elements item = true
  | some (.object members) => Meets hashing (members.filterMap (ofMember hashing)) item
  | some value => value.isUint = true → ∃ id, findMember item.dom keyId = some id ∧ id.equal value = true

/-- The condition imposes something: it is an unsigned integer, an array, or an object with a usable
member. -/
def Imposes : Option Value → Prop
  | none => False
  | some (.array _) => True
  | some (.object members) => ∃ member ∈ members, member.2.isNull = false ∧ member.2.isObject = false
  | some value => value.isUint = true

/-- The query excludes the item. -/
def Excluded (hashing : Hashing) (keyId : Bytes) (query : Query) (item : Item) : Prop :=
  Imposes query.excludes ∧ Satisfies hashing keyId item query.excludes

/-- A fresh chain lets through what satisfies the filters and is not excluded, in whatever order the query
has its members. -/
def Means (around : Surroundings) (query : Query) (item : Item) : Prop :=
  ((rebuildChain around .empty query).apply around.hashing item = true ↔
    Satisfies around.hashing around.config.keyId item query.filters ∧
      ¬Excluded around.hashing around.config.keyId query item) ∧
  ∀ filters excludes, Reordered query.filters filters → Reordered query.excludes excludes →
    (rebuildChain around .empty { query with filters, excludes }).apply around.hashing item =
      (rebuildChain around .empty query).apply around.hashing item

/-- The condition is an array that has the id as a double only, under another hash. -/
def MissesId (hashing : Hashing) (id : IdT) : Option Value → Prop
  | some (.array elements) => .ofUint id ∉ elements ∧
      (∃ double, .number (.double double) ∈ elements ∧ double.value = (id.toNat : ℚ)) ∧
      hashing.value (.ofUint id) ≠ hashing.double id.toNat
  | _ => False

section Meaning

variable {hashing : Hashing} {keyId : Bytes} {item : Item}

theorem imposes_iff (hashing : Hashing) (keyId : Bytes) (cond : Option Value) :
    imposed hashing keyId cond ≠ [] ↔ Imposes cond := by
  cases cond with
  | none => simp [imposed, Imposes]
  | some value =>
    cases value with
    | object members =>
      have usable : ∀ member : Bytes × Value, ofMember hashing member ≠ none ↔
          member.2.isNull = false ∧ member.2.isObject = false := by
        rintro ⟨name, value⟩
        cases value <;> simp [ofMember, Value.isNull, Value.isObject]
      simp only [imposed, Imposes, ne_eq, List.filterMap_eq_nil_iff, not_forall, ← usable, exists_prop]
    | array elements => simp [imposed, Imposes]
    | null | bool | number | string => simp [imposed, Imposes]

/-- An item that was made has its id among its members. -/
theorem found_id {parse : Parser} {text : Bytes} (made : makeItem parse keyId text = .ok (some item)) :
    findMember item.dom keyId = some (.ofUint item.id) := by
  unfold makeItem at made
  split at made
  · cases made
  · next members parsed =>
    simp only [Except.ok.injEq, Option.bind_eq_bind, Option.bind_eq_some_iff, Option.pure_def,
      Option.some.injEq] at made
    obtain ⟨value, found, id, read, rfl⟩ := made
    rw [found, Value.uint?_eq_some_iff.mp read]
  · cases made

/-- A twin of an id that is an integer is the id. -/
theorem twin_id {id : IdT} {integer : ℤ} {range : -2 ^ 63 ≤ integer ∧ integer < 2 ^ 64}
    (value : (Number.integer integer range).toDouble = (id.toNat : ℚ)) :
    Value.number (.integer integer range) = .ofUint id := by
  have bound := id.toNat_lt
  obtain rfl := (toDouble_eq_nat (by omega)).mp value
  rfl

/-- The ways in which an array does not miss the id. -/
theorem findable_id (elements : List Value) (id : IdT) :
    Findable hashing elements (.ofUint id) ↔ ¬MissesId hashing id (some (.array elements)) := by
  have bound := id.toNat_lt
  let number : Number := .integer id.toNat ⟨by omega, by omega⟩
  have value : number.toDouble = (id.toNat : ℚ) := (toDouble_eq_nat (by omega)).mpr rfl
  have unfolded : Findable hashing elements (.ofUint id) ↔ .ofUint id ∈ elements ∨
      (∀ double, .number (.double double) ∈ elements → double.value ≠ number.toDouble) ∨
      ∃ double, elements.find? (twin hashing number) = some (.number (.double double)) := Iff.rfl
  rw [unfolded, MissesId, value]
  constructor
  · rintro (there | none | ⟨double, first⟩) ⟨absent, ⟨other, member, same⟩, differ⟩
    · exact absent there
    · exact none other member same
    · have here := List.find?_some first
      rw [twin_number, value] at here
      have hashed : hashing.double double.value = hashing.value (.ofUint id) := here.2
      rw [show double.value = (id.toNat : ℚ) from here.1] at hashed
      exact differ hashed.symm
  · intro found
    by_contra unfindable
    simp only [not_or, not_forall, not_not, not_exists] at unfindable
    obtain ⟨absent, ⟨double, member, same⟩, notFirst⟩ := unfindable
    refine found ⟨absent, ⟨double, member, same⟩, fun hashed => ?_⟩
    have one : twin hashing number (.number (.double double)) = true :=
      (twin_number ..).mpr ⟨same.trans value.symm, (congrArg hashing.double same).trans hashed.symm⟩
    cases first : elements.find? (twin hashing number) with
    | none => exact List.find?_eq_none.mp first _ member one
    | some twin =>
      have here := List.find?_some first
      obtain ⟨other, rfl⟩ := exists_of_twin here
      rw [twin_number, value] at here
      cases other with
      | double other => exact notFirst other first
      | integer other range => exact absent (twin_id here.1 ▸ List.mem_of_find?_eq_some first)

/-- The chain of one side asks for what the condition says, but for the ids that it misses. -/
theorem meets_imposed_iff (hashing : Hashing) (there : findMember item.dom keyId = some (.ofUint item.id))
    (cond : Option Value) :
    Meets hashing (imposed hashing keyId cond) item ↔
      Satisfies hashing keyId item cond ∧ ¬MissesId hashing item.id cond := by
  cases cond with
  | none => simp [imposed, Meets, Satisfies, MissesId]
  | some value =>
    cases value with
    | array elements =>
      rw [← findable_id, imposed, Satisfies, scan_found there]
      simp only [Meets, List.forall_mem_singleton, accepts_found hashing there]
      exact ⟨fun held => ⟨held.met, (findable_integer_iff ..).mpr fun _ => held⟩,
        fun ⟨met, findable⟩ => held_of_findable findable met⟩
    | object => simp [imposed, Satisfies, MissesId]
    | null | bool | string => simp [imposed, Satisfies, MissesId, Meets, Value.isUint, Value.uint?]
    | number number =>
      simp only [imposed, Satisfies, MissesId, not_false_eq_true, and_true]
      split_ifs with unsigned
      · simp [Meets, unsigned, accepts, there, Value.isNull]
      · simp [Meets, unsigned]

/-- A missed id is one that the condition has. -/
theorem MissesId.satisfies (there : findMember item.dom keyId = some (.ofUint item.id)) {cond : Option Value}
    (misses : MissesId hashing item.id cond) : Imposes cond ∧ Satisfies hashing keyId item cond := by
  cases cond with
  | none => exact misses.elim
  | some value =>
    cases value with
    | array elements =>
      obtain ⟨_, ⟨double, member, same⟩, _⟩ := misses
      refine ⟨trivial, (scan_found there elements).mpr ⟨_, member, rfl, ?_⟩⟩
      have bound := item.id.toNat_lt
      exact (equal_double_iff ..).mpr (((toDouble_eq_nat (by omega)).mpr rfl).trans same.symm)
    | null | bool | number | string | object => exact misses.elim

end Meaning

/-- Filters that miss the id of an item do no harm where the query excludes it, and excludes that do so
where the filters miss it as well or turn it away. -/
def MissedHarmlessly (hashing : Hashing) (keyId : Bytes) (query : Query) (item : Item) : Prop :=
  (MissesId hashing item.id query.filters → Excluded hashing keyId query item) ∧
  (MissesId hashing item.id query.excludes →
    MissesId hashing item.id query.filters ∨ ¬Satisfies hashing keyId item query.filters)

/-- Exactly if no id is missed in a way that shows, a fresh chain means what the query says. -/
theorem chain_means_iff (around : Surroundings) (query : Query) {parse : Parser} {text : Bytes} {item : Item}
    (made : makeItem parse around.config.keyId text = .ok (some item)) :
    Means around query item ↔ MissedHarmlessly around.hashing around.config.keyId query item := by
  have there := found_id made
  have filtered := meets_imposed_iff around.hashing there query.filters
  have excluded := meets_imposed_iff around.hashing there query.excludes
  have filtersMiss : MissesId around.hashing item.id query.filters → _ := MissesId.satisfies there
  have excludesMiss : MissesId around.hashing item.id query.excludes → _ := MissesId.satisfies there
  rw [Means, and_iff_left fun filters excludes filtered excluded =>
      reordered_apply around item filtered excluded,
    rebuildChain_apply_iff, imposes_iff, filtered, excluded]
  unfold MissedHarmlessly Excluded
  grind

def boostSurroundings : Surroundings := ⟨default, boostHashing, .insertion _⟩

/-- An item with an id and nothing else. -/
def onlyId : Item := .sent 1 []

def parseOne : Parser := fun _ => some (.object onlyId.dom)

/-- Every item but 2, by two spellings of its id. -/
def exceptTwo : Query :=
  { Query.fresh with excludes := some (.array [.ofUint 2, .string (ascii "2")]) }

theorem chain_means_exceptTwo : Means boostSurroundings exceptTwo onlyId := by
  refine (@chain_means_iff boostSurroundings exceptTwo parseOne [] onlyId
    (makeItem_sent rfl)).mpr ⟨?_, ?_⟩
  · exact False.elim
  · rintro ⟨_, ⟨double, member, _⟩, _⟩
    simp [Value.ofUint] at member

/-- Asks for the item with the id 1, by its double. -/
def wantsOne : Query := { Query.fresh with filters := some (.array [oneAsDouble]) }

/-- The item with the id 1 is in the array, and the chain turns it away. -/
theorem one_notMeant : makeItem parseOne (ascii "id") [] = .ok (some onlyId) ∧
    Satisfies boostHashing (ascii "id") onlyId wantsOne.filters ∧
    ¬Excluded boostHashing (ascii "id") wantsOne onlyId ∧
    (rebuildChain boostSurroundings .empty wantsOne).apply boostHashing onlyId = false ∧
    ¬Means boostSurroundings wantsOne onlyId := by
  have satisfied : Satisfies boostHashing (ascii "id") onlyId wantsOne.filters :=
    (scan_found rfl [oneAsDouble]).mpr ⟨oneAsDouble, List.mem_cons_self, rfl, one_equal⟩
  have included : ¬Excluded boostHashing (ascii "id") wantsOne onlyId := fun excluded => excluded.1
  have turnedAway : (rebuildChain boostSurroundings .empty wantsOne).apply boostHashing onlyId = false := rfl
  refine ⟨makeItem_sent rfl, satisfied, included, turnedAway, fun means => ?_⟩
  have passes := means.1.mpr ⟨satisfied, included⟩
  rw [show boostSurroundings.hashing = boostHashing from rfl, turnedAway] at passes
  cases passes

/-! ### A scalar and the list of it -/

/-- Some usable member turns the item away. -/
def Rejected (hashing : Hashing) (members : Members) (item : Item) : Prop :=
  ¬Meets hashing (members.filterMap (ofMember hashing)) item

/-- As filters and as excludes, whatever else the query says, it makes no difference to the item whether
the object has the value at this place or the list of it. -/
def Interchangeable (around : Surroundings) (attr : Bytes) (value : Value) (before after : Members)
    (item : Item) : Prop :=
  let alone := some (.object (before ++ (attr, value) :: after))
  let listed := some (.object (before ++ (attr, .array [value]) :: after))
  ∀ query : Query,
    (rebuildChain around .empty { query with filters := alone }).apply around.hashing item =
      (rebuildChain around .empty { query with filters := listed }).apply around.hashing item ∧
    (rebuildChain around .empty { query with excludes := alone }).apply around.hashing item =
      (rebuildChain around .empty { query with excludes := listed }).apply around.hashing item

/-- Null: there is another usable member, and the item is turned away by one or lacks the attribute. Any
other value: the item is turned away by another member, or has a value that is equal only if it has the
same hash. -/
def Exchangeable (around : Surroundings) (attr : Bytes) (others : Members) (item : Item) : Value → Prop
  | .null => others.filterMap (ofMember around.hashing) ≠ [] ∧
      (Rejected around.hashing others item ∨ findMember item.dom attr = none)
  | value => Rejected around.hashing others item ∨
      ∀ found, findMember item.dom attr = some found → found.equal value = true →
        around.hashing.value found = around.hashing.value value

section Scalar

variable {hashing : Hashing} {attr : Bytes} {value : Value} {before after : Members} {item : Item}

/-- One filter in the midst of others. -/
theorem meets_insert (filter : Filter) (first second : List Filter) :
    Meets hashing (first ++ filter :: second) item ↔
      Meets hashing (first ++ second) item ∧ filter.accepts hashing item = true := by
  simp only [Meets, List.mem_append, List.mem_cons, or_imp, forall_and, forall_eq]
  exact ⟨fun ⟨one, here, two⟩ => ⟨⟨one, two⟩, here⟩, fun ⟨⟨one, two⟩, here⟩ => ⟨one, here, two⟩⟩

theorem ofMember_scalar (notObject : value.isObject = false) (notArray : value.isArray = false)
    (proper : value.isNull = false) : ofMember hashing (attr, value) = some (.equal attr value) := by
  cases value with
  | null => cases proper
  | array => cases notArray
  | object => cases notObject
  | bool | number | string => rfl

/-- The list of a value lets an item through that has the value, under the same hash. -/
theorem accepts_listed (proper : value.isNull = false) :
    (fillValues hashing attr [value]).accepts hashing item = true ↔
      ∃ found, findMember item.dom attr = some found ∧ hashing.value found = hashing.value value ∧
        found.equal value = true := by
  have filled : fillValues hashing attr [value] = .inSet attr [value] false := by
    simp [fillValues, proper, ValuePtrSet.insert, ValuePtrSet.contains]
  rw [filled]
  cases there : findMember item.dom attr <;> simp [accepts, there, ValuePtrSet.contains]

theorem accepts_alone (proper : value.isNull = false) :
    (Filter.equal attr value).accepts hashing item = true ↔
      ∃ found, findMember item.dom attr = some found ∧ found.equal value = true := by
  cases there : findMember item.dom attr <;> simp [accepts, there, proper]

/-- The list of null lets an item through that lacks the attribute. -/
theorem accepts_listedNull : (fillValues hashing attr [.null]).accepts hashing item = true ↔
    findMember item.dom attr = none := by
  have filled : fillValues hashing attr [.null] = .inSet attr [] true := rfl
  rw [filled]
  cases there : findMember item.dom attr <;> simp [accepts, there, ValuePtrSet.contains]

end Scalar

theorem same_apply_iff (around : Surroundings) (query other : Query) (item : Item) :
    (rebuildChain around .empty query).apply around.hashing item =
        (rebuildChain around .empty other).apply around.hashing item ↔
      (Meets around.hashing (imposed around.hashing around.config.keyId query.filters) item ∧
          ¬(imposed around.hashing around.config.keyId query.excludes ≠ [] ∧
            Meets around.hashing (imposed around.hashing around.config.keyId query.excludes) item) ↔
        Meets around.hashing (imposed around.hashing around.config.keyId other.filters) item ∧
          ¬(imposed around.hashing around.config.keyId other.excludes ≠ [] ∧
            Meets around.hashing (imposed around.hashing around.config.keyId other.excludes) item)) := by
  rw [Bool.eq_iff_iff, rebuildChain_apply_iff, rebuildChain_apply_iff]

/-- The rest of the query does not matter. -/
theorem interchangeable_iff_meets (around : Surroundings) (attr : Bytes) (value : Value)
    (before after : Members)
    (item : Item) {alone listed : List Filter}
    (oneWay : (before ++ (attr, value) :: after).filterMap (ofMember around.hashing) = alone)
    (otherWay : (before ++ (attr, .array [value]) :: after).filterMap (ofMember around.hashing) = listed) :
    Interchangeable around attr value before after item ↔
      (Meets around.hashing alone item ↔ Meets around.hashing listed item) ∧
        (alone ≠ [] ∧ Meets around.hashing alone item ↔ listed ≠ [] ∧ Meets around.hashing listed item) := by
  simp only [Interchangeable, same_apply_iff, imposed, oneWay, otherWay]
  constructor
  · intro same
    obtain ⟨filtered, excluded⟩ := same Query.fresh
    simp only [Query.fresh, ne_eq, not_true_eq_false, false_and, not_false_eq_true, and_true] at filtered
    simp only [Query.fresh, Meets, List.not_mem_nil, false_implies, implies_true, true_and] at excluded
    exact ⟨filtered, not_iff_not.mp excluded⟩
  · rintro ⟨filtered, excluded⟩ query
    exact ⟨and_congr_left' filtered, and_congr_right' (not_congr excluded)⟩

theorem ofMember_array (hashing : Hashing) (attr : Bytes) (values : List Value) :
    ofMember hashing (attr, .array values) = some (fillValues hashing attr values) := rfl

/-- A usable member of an object becomes a filter at its place. -/
theorem filterMap_ofMember {hashing : Hashing} {member : Bytes × Value} {filter : Filter}
    (before after : Members)
    (made : ofMember hashing member = some filter) :
    (before ++ member :: after).filterMap (ofMember hashing) =
      before.filterMap (ofMember hashing) ++ filter :: after.filterMap (ofMember hashing) := by
  rw [List.filterMap_append, List.filterMap_cons, made]

theorem interchangeable_null_iff (around : Surroundings) (attr : Bytes) (before after : Members) (item : Item) :
    Interchangeable around attr .null before after item ↔
      Exchangeable around attr (before ++ after) item .null := by
  have oneWay : (before ++ (attr, .null) :: after).filterMap (ofMember around.hashing) =
      before.filterMap (ofMember around.hashing) ++ after.filterMap (ofMember around.hashing) := by
    rw [List.filterMap_append, List.filterMap_cons]
    rfl
  rw [interchangeable_iff_meets around attr .null before after item oneWay
    (filterMap_ofMember before after (ofMember_array around.hashing attr [.null])), meets_insert,
    accepts_listedNull]
  simp only [Exchangeable, Rejected, List.filterMap_append]
  generalize before.filterMap (ofMember around.hashing) = first
  generalize after.filterMap (ofMember around.hashing) = second
  -- without other filters, the list of null is the only one there is
  have nothing : first ++ second = [] → Meets around.hashing (first ++ second) item := by
    intro empty
    simp [empty, Meets]
  have listed : first ++ fillValues around.hashing attr [.null] :: second ≠ [] := by simp
  grind

theorem interchangeable_proper_iff (around : Surroundings) (attr : Bytes) {value : Value}
    (notObject : value.isObject = false) (notArray : value.isArray = false) (proper : value.isNull = false)
    (before after : Members) (item : Item) : Interchangeable around attr value before after item ↔
      Exchangeable around attr (before ++ after) item value := by
  have clause : Exchangeable around attr (before ++ after) item value ↔
      Rejected around.hashing (before ++ after) item ∨
        ∀ found, findMember item.dom attr = some found → found.equal value = true →
          around.hashing.value found = around.hashing.value value := by
    cases value <;> first | exact Iff.rfl | cases proper
  rw [interchangeable_iff_meets around attr value before after item
    (filterMap_ofMember before after (ofMember_scalar notObject notArray proper))
    (filterMap_ofMember before after (ofMember_array around.hashing attr [value])), meets_insert,
    meets_insert, accepts_listed proper, accepts_alone proper, clause, Rejected, List.filterMap_append]
  generalize before.filterMap (ofMember around.hashing) = first
  generalize after.filterMap (ofMember around.hashing) = second
  have alone : first ++ .equal attr value :: second ≠ [] := by simp
  have listed : first ++ fillValues around.hashing attr [value] :: second ≠ [] := by simp
  simp only [alone, listed, ne_eq, not_false_eq_true, true_and, and_self]
  cases there : findMember item.dom attr with
  | none => simp
  | some found =>
    simp only [Option.some.injEq, exists_eq_left', forall_eq']
    grind

/-- Exactly the exchangeable scalars mean the same as the list of them. -/
theorem interchangeable_iff (around : Surroundings) (attr : Bytes) {value : Value}
    (notObject : value.isObject = false) (notArray : value.isArray = false) (before after : Members)
    (item : Item) : Interchangeable around attr value before after item ↔
      Exchangeable around attr (before ++ after) item value := by
  cases missing : value.isNull with
  | true =>
    cases value <;> cases missing
    exact interchangeable_null_iff around attr before after item
  | false => exact interchangeable_proper_iff around attr notObject notArray missing before after item

theorem interchangeable_true :
    Interchangeable boostSurroundings (ascii "a") (.bool true) [] [(ascii "b", .null)] withOne :=
  (@interchangeable_iff boostSurroundings (ascii "a") (.bool true) rfl rfl [] [(ascii "b", .null)]
    withOne).mpr (Or.inr fun found there equal => by
      cases there
      cases equal)

/-- As a filter, null lets the item through and the list of it does not; `1.0` does and `[1.0]` does
not. -/
theorem null_notInterchangeable :
    ¬Interchangeable boostSurroundings (ascii "a") .null [] [] withOne ∧
      ¬Interchangeable boostSurroundings (ascii "a") oneAsDouble [] [] withOne := by
  constructor
  · intro same
    have filtered := (same Query.fresh).1
    revert filtered
    decide
  · intro same
    have there : findMember withOne.dom (ascii "a") = some (.ofUint 1) := rfl
    have filtered : Meets boostHashing [.equal (ascii "a") oneAsDouble] withOne ↔
        Meets boostHashing [fillValues boostHashing (ascii "a") [oneAsDouble]] withOne :=
      ((interchangeable_iff_meets boostSurroundings (ascii "a") oneAsDouble [] [] withOne rfl rfl).mp same).1
    have alone : Meets boostHashing [.equal (ascii "a") oneAsDouble] withOne := by
      intro filter member
      obtain rfl := List.mem_singleton.mp member
      exact (accepts_alone rfl).mpr ⟨_, there, one_equal⟩
    have listed := filtered.mp alone _ (List.mem_singleton_self _)
    obtain ⟨found, found', hashed, _⟩ := (accepts_listed rfl).mp listed
    cases there.symm.trans found'
    revert hashed
    decide

end Seeker

end Taboo
