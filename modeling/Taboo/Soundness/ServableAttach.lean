import Taboo.Model.AttachHandler

/-! # Attach requests that end the process

Whether `prefixes` is an array and whether the item has an unsigned id is tested; whether the elements
are strings, the item is an object and cedar can take the keys is not. The last two matter only as far
as a request gets.
-/

namespace Taboo.AttachHandler

/-- The elements of `prefixes`, where it is an array. -/
def elements? (config : Config) (parse : Parser) (params : ParamMap) : Option (List Value) :=
  match params[config.keyMUPrefixes]?.bind fun text => parse (cStr text) with
  | some (.array elements) => some elements
  | _ => none

/-- What the text of the item parses to. -/
def itemValue? (config : Config) (parse : Parser) (params : ParamMap) : Option Value :=
  params[config.keyMUItem]?.bind fun text => parse (cStr text)

/-- Only strings are prefixes; if there is one, an item that parses is an object; and if that object is
an item, cedar can take the keys. -/
structure Servable (config : Config) (parse : Parser) (params : ParamMap) : Prop where
  strings : ∀ elements, elements? config parse params = some elements →
    ∀ element ∈ elements, element.isString = true
  object : ∀ elements value, elements? config parse params = some elements → elements ≠ [] →
    itemValue? config parse params = some value → value.isObject = true
  keys : ∀ elements members, elements? config parse params = some elements →
    itemValue? config parse params = some (.object members) →
      ∀ id, findMember members config.keyId = some id → id.isUint = true →
        ∀ bytes, .string bytes ∈ elements → bytes ≠ [] ∧ 0 ∉ bytes

variable {config : Config} {parse : Parser} {params : ParamMap}

theorem getKeys_eq : getKeys config parse params = ((elements? config parse params).getD []).mapM keyOf := by
  unfold getKeys elements?
  cases params[config.keyMUPrefixes]? with
  | none => rfl
  | some text =>
    simp only [Option.bind_some]
    split <;> simp_all [pure, Except.pure]

theorem isString_iff (element : Value) : element.isString = true ↔ ∃ bytes, Value.string bytes = element := by
  cases element <;> simp [Value.isString]

theorem usable_iff (bytes : Bytes) : bytes ≠ [] ∧ 0 ∉ bytes ↔ ∃ key : Key, key.bytes = bytes := by
  constructor
  · exact fun usable => ⟨⟨bytes, usable.1, usable.2⟩, rfl⟩
  · rintro ⟨key, rfl⟩
    exact ⟨key.nonempty, key.noZero⟩

/-- A request ends with a result unless it ends the process before it reaches the keeper. -/
theorem deal_ends_iff_request (handler : AttachHandler) (store : Store) :
    (∃ result after, deal config parse handler store = .ok (some result, after)) ↔
      ∃ outcome, request config parse handler.params = .ok outcome := by
  unfold deal dealOf request
  cases requestOf config parse toKey handler.params with
  | error fault => simp [bind, Except.bind]
  | ok outcome =>
    refine iff_of_true ?_ ⟨outcome, rfl⟩
    cases outcome with
    | inl code => exact ⟨_, _, rfl⟩
    | inr request =>
      simp only [bind, Except.bind, pure, Except.pure]
      split_ifs
      · exact ⟨_, _, rfl⟩
      · exact ⟨_, _, rfl⟩

/-- The item decides whether the keys are looked at. -/
theorem request_ends_iff {keys : List Bytes} (read : getKeys config parse params = .ok keys)
    (listed : keys ≠ []) {text : Bytes} (given : params[config.keyMUItem]? = some text) :
    (∃ outcome, request config parse params = .ok outcome) ↔
      ∃ made, makeItem parse config.keyId text = .ok made ∧
        (made.isSome = true → ∀ bytes ∈ keys, bytes ≠ [] ∧ 0 ∉ bytes) := by
  simp only [request, requestOf, read, given, listed, if_false, bind, Except.bind]
  cases makeItem parse config.keyId text with
  | error fault => simp
  | ok made =>
    cases made with
    | none => simp [pure, Except.pure]
    | some item =>
      have ends := mapM_ends_iff toKey_ok_iff keys
      simp only [← usable_iff] at ends
      simp only [Except.ok.injEq, exists_eq_left', Option.isSome_some, forall_const, ← ends]
      cases keys.mapM toKey <;> simp [pure, Except.pure]

/-- Making an item fails on documents that are no objects, and makes one of an object with an unsigned
id. -/
theorem makeItem_ends_iff (parse : Parser) (keyId text : Bytes) (P : Prop) :
    (∃ made, makeItem parse keyId text = .ok made ∧ (made.isSome = true → P)) ↔
      (∀ value, parse (cStr text) = some value → value.isObject = true) ∧
        ∀ members, parse (cStr text) = some (.object members) →
          ∀ id, findMember members keyId = some id → id.isUint = true → P := by
  unfold makeItem
  cases parse (cStr text) with
  | none => simp
  | some value =>
    cases value with
    | object members =>
      simp only [Except.ok.injEq, exists_eq_left', Option.some.injEq, Value.object.injEq]
      cases found : findMember members keyId with
      | none => simp [Value.isObject, found]
      | some id => cases unsigned : id.uint? <;> simp [Value.isObject, Value.isUint, found, unsigned]
    | null | bool | number | string | array => simp [Value.isObject]

theorem servable_iff {elements : List Value} (listed : elements? config parse params = some elements) :
    Servable config parse params ↔ (∀ element ∈ elements, element.isString = true) ∧ (elements ≠ [] →
      (∀ value, itemValue? config parse params = some value → value.isObject = true) ∧
      ∀ members, itemValue? config parse params = some (.object members) →
        ∀ id, findMember members config.keyId = some id → id.isUint = true →
          ∀ bytes, .string bytes ∈ elements → bytes ≠ [] ∧ 0 ∉ bytes) := by
  constructor
  · intro servable
    refine ⟨servable.strings elements listed, fun some => ⟨fun value => ?_, fun members => ?_⟩⟩
    · exact servable.object elements value listed some
    · exact servable.keys elements members listed
  · rintro ⟨strings, later⟩
    refine ⟨fun other same => ?_, fun other value same some => ?_,
      fun other members same there id found unsigned => ?_⟩
    · cases listed.symm.trans same
      exact strings
    · cases listed.symm.trans same
      exact (later some).1 value
    · cases listed.symm.trans same
      intro bytes member
      exact (later (List.ne_nil_of_mem member)).2 members there id found unsigned bytes member

/-- A request is served exactly if it is servable. -/
theorem deal_ends_iff (config : Config) (parse : Parser) (handler : AttachHandler) (store : Store) :
    (∃ result after, deal config parse handler store = .ok (some result, after)) ↔
      Servable config parse handler.params := by
  rw [deal_ends_iff_request]
  cases listed : elements? config parse handler.params with
  | none =>
    refine iff_of_true ⟨.inl errNoKeys, ?_⟩ ⟨by simp [listed], by simp [listed], by simp [listed]⟩
    simp [request, requestOf, getKeys_eq, listed, pure, Except.pure, bind, Except.bind]
  | some elements =>
    have reads : (∃ keys, getKeys config parse handler.params = .ok keys) ↔
        ∀ element ∈ elements, element.isString = true := by
      simp only [getKeys_eq, listed, Option.getD_some, isString_iff]
      exact mapM_ends_iff keyOf_ok_iff elements
    rw [servable_iff listed, ← reads]
    cases read : getKeys config parse handler.params with
    | error fault => simp [request, requestOf, read, bind, Except.bind]
    | ok keys =>
      obtain rfl : elements = keys.map .string := by
        rw [getKeys_eq, listed] at read
        exact (mapM_ok_iff keyOf_ok_iff elements keys).mp read
      rw [and_iff_right ⟨keys, rfl⟩]
      by_cases nothing : keys = []
      · refine iff_of_true ⟨.inl errNoKeys, ?_⟩ (by simp [nothing])
        simp [request, requestOf, read, nothing, pure, Except.pure, bind, Except.bind]
      · have some : keys.map Value.string ≠ [] := by simpa using nothing
        rw [forall_prop_of_true some]
        cases given : handler.params[config.keyMUItem]? with
        | none =>
          refine iff_of_true ⟨.inl ManageHandler.errBadParam, ?_⟩ (by simp [itemValue?, given])
          simp [request, requestOf, read, nothing, given, pure, Except.pure, bind, Except.bind]
        | some text =>
          rw [request_ends_iff read nothing given, makeItem_ends_iff]
          simp [itemValue?, given]

/-- A request with these two parameters besides its key. -/
def attaching (prefixes item : Bytes) : AttachHandler :=
  [(ascii "key", []), (ascii "prefixes", prefixes), (ascii "item", item)].foldl (fun handler entry =>
      BaseHandler.addPostParam (ManageHandler.reviewParam default ManageHandler._reviewParam)
        handler entry.1 entry.2)
    (BaseHandler.create ⟨[], ()⟩)

/-- What the parser makes of the texts below. -/
def parseUnservable : Parser := fun text =>
  if text = ascii "[1]" then some (.array [.ofUint 1])
  else if text = ascii "[\"\"]" then some (.array [.string []])
  else if text = ascii "\x7b\"id\":1\x7d" then some (.object [(ascii "id", .ofUint 1)])
  else if text = ascii "1" then some (.ofUint 1)
  else none

/-- A prefix that is a number, an empty prefix, and an item that is a number. -/
theorem deal_unservable :
    deal default parseUnservable (attaching (ascii "[1]") (ascii "\x7b\"id\":1\x7d")) .empty =
      .error .badAccess ∧
    deal default parseUnservable (attaching (ascii "[\"\"]") (ascii "\x7b\"id\":1\x7d")) .empty =
      .error .badKey ∧
    deal default parseUnservable (attaching (ascii "[\"\"]") (ascii "1")) .empty = .error .badAccess ∧
    ¬∃ result after, deal default parseUnservable (attaching (ascii "[1]") (ascii "\x7b\"id\":1\x7d")) .empty =
      .ok (some result, after) := by
  refine ⟨rfl, rfl, rfl, ?_⟩
  rintro ⟨result, after, done⟩
  cases done

end Taboo.AttachHandler
