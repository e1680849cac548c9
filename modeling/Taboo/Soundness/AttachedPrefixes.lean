import Taboo.Soundness.Rebuild
import Taboo.Soundness.ServableAttach

/-! # Prefixes, attached and asked for

Both sides are given a JSON string. An attach request takes it with its length and a query up to its
first zero byte; and a string that does not stand in an array, which an attach request means to take,
it does not.
-/

namespace Taboo

namespace Query

variable {config : Config} {aside : Aside} {parse : Parser} {hash : HashOrder Bytes} {body : Members}
  {query rebuilt : Query} {answer : Bool}

/-- The sections behind the prefix leave it alone. -/
theorem rebuildConditions_prefix
    (ended : rebuildConditions config aside hash body query = .ok (answer, rebuilt)) :
    rebuilt.queryPrefix = query.queryPrefix := by
  unfold rebuildConditions at ended
  split at ended
  · cases ended
    rfl
  · split at ended
    · cases ended
      rfl
    · simp only [rebuildFields] at ended
      split_ifs at ended
      · cases ended
        rfl
      · obtain ⟨shown, _, answered⟩ := ok_of_map ended
        unfold finish at answered
        split_ifs at answered <;> cases answered <;> rfl

/-- Whether it is accepted or not, the query has the C string of its prefix. -/
theorem rebuild_prefix {text wanted : Bytes} (parsed : parse (cStr text) = some (.object body))
    (found : findMember body config.keyQUPrefix = some (.string wanted))
    (sized : prefixValid config wanted.length = true)
    (ended : query.rebuild config aside parse hash text = .ok (answer, rebuilt)) :
    rebuilt.queryPrefix = cStr wanted := by
  simp only [rebuild, parsed, found, sized, Bool.not_true, Bool.false_eq_true, if_false] at ended
  split_ifs at ended with empty
  · cases ended
    exact empty.symm
  · exact rebuildConditions_prefix ended

end Query

namespace AttachHandler

open BaseHandler ManageHandler

variable {config : Config} {parse : Parser} {digest : Bytes → Bytes} {handler : AttachHandler}

/-- The request is valid and comes with upsert, some keys and an item; only the bytes of the keys are
open. Cedar exits on an empty key, and does not look for zero bytes. -/
structure InOrder (config : Config) (parse : Parser) (digest : Bytes → Bytes) (handler : AttachHandler)
    (keys : List Bytes) : Prop where
  valid : validate config digest (checkParams config) handler = errOk
  read : getKeys config parse handler.params = .ok keys
  listed : keys ≠ []
  item : ∃ text item, handler.params[config.keyMUItem]? = some text ∧
    makeItem parse config.keyId text = .ok (some item)
  upsert : upsertFlag config handler.params = true

/-- What is answered with `errOk` was in order. -/
theorem inOrder_of_answered (upsert : upsertFlag config handler.params = true) {store after : Store}
    {result : Result} (answered : process config parse digest handler store = .ok (some result, after))
    (accepted : result.code = errOk) : ∃ keys, InOrder config parse digest handler keys := by
  simp only [process, processOf, ManageHandler.process] at answered
  split_ifs at answered with valid
  · rcases deal_cases answered with ⟨code, sent, same, _⟩ | ⟨arguments, sent, _, _⟩
    · cases same
      rcases code_of_request sent with rfl | rfl | rfl <;> exact absurd accepted (by decide)
    · rcases request_cases sent with ⟨_, same⟩ | ⟨keys, read, listed, ⟨_, same⟩ | ⟨text, given, made⟩⟩
      · cases same
      · cases same
      · rcases made with ⟨_, same⟩ | ⟨item, _, made, _, _⟩
        · cases same
        · exact ⟨keys, valid, read, listed, ⟨text, item, given, made⟩, upsert⟩
  · cases answered
    exact absurd accepted valid

/-- Keys that cedar can take make a request in order one that is answered with `errOk`. -/
theorem InOrder.answered {keys : KeyList} (inOrder : InOrder config parse digest handler (keys.map Key.bytes))
    (store : Store) : ∃ after,
      process config parse digest handler store = .ok (some ⟨some (okReply config), errOk⟩, after) := by
  obtain ⟨text, item, given, made⟩ := inOrder.item
  have taken : (keys.map Key.bytes).mapM toKey = .ok keys := (mapM_ok_iff toKey_ok_iff _ _).mpr rfl
  refine ⟨(Keeper.attach store keys item true).2, ?_⟩
  simp only [process, processOf, ManageHandler.process, inOrder.valid, if_true, dealOf, requestOf, inOrder.read,
    inOrder.listed, if_false, given, made, taken, inOrder.upsert, keeper_true_of_upsert, bind, Except.bind, pure,
    Except.pure]

/-- The prefixes that the parameter is meant to spell. -/
def spelled : Value → List Value
  | .array elements => elements
  | value => [value]

/-- What is attached under `wanted` is found under `queryPrefix`, and a string is taken like the array
with that one string in it. -/
structure Predicted (config : Config) (parse : Parser) (digest : Bytes → Bytes) (handler : AttachHandler)
    (given : Value) (wanted arrayText queryPrefix : Bytes) : Prop where
  same : ∀ keys, InOrder config parse digest handler keys →
    ∀ i : ℕ, (spelled given)[i]? = some (Value.string wanted) → keys[i]? = some queryPrefix
  alone : given = .string wanted → validate config digest (checkParams config) handler = errOk →
    ∀ store, deal config parse handler store =
      deal config parse { handler with params := handler.params.insert config.keyMUPrefixes arrayText } store

/-- The parameter is an array, and the prefix has no zero byte if the request is valid, has nothing but
strings in the array and comes with an item and upsert; or the request is not valid. -/
def Predictable (config : Config) (parse : Parser) (digest : Bytes → Bytes) (handler : AttachHandler)
    (wanted : Bytes) : Value → Prop
  | .array elements =>
      validate config digest (checkParams config) handler = errOk →
        (∀ element ∈ elements, element.isString = true) →
        (∃ text item, handler.params[config.keyMUItem]? = some text ∧
          makeItem parse config.keyId text = .ok (some item)) →
        upsertFlag config handler.params = true → 0 ∉ wanted
  | _ => validate config digest (checkParams config) handler ≠ errOk

/-- Only a request without keys is answered so. -/
theorem getKeys_of_noKeys {store after : Store}
    (done : deal config parse handler store = .ok (some ⟨none, errNoKeys⟩, after)) :
    getKeys config parse handler.params = .ok [] := by
  rcases deal_cases done with ⟨code, sent, same, _⟩ | ⟨arguments, _, _, same⟩
  · cases same
    rcases request_cases sent with
      ⟨read, _⟩ | ⟨_, _, _, ⟨_, same⟩ | ⟨_, _, ⟨_, same⟩ | ⟨_, _, _, _, same⟩⟩⟩
    · exact read
    all_goals cases same
  · split_ifs at same <;> cases same

theorem getKeys_of_array {other : AttachHandler} {text : Bytes} {elements : List Value}
    (there : other.params[config.keyMUPrefixes]? = some text) (array : parse (cStr text) = some (.array elements)) :
    getKeys config parse other.params = elements.mapM keyOf := by
  simp [getKeys_eq, elements?, there, array]

/-- An array's keys are its strings up to their first zero bytes. -/
theorem predicted_array_iff {listed : List Value} {wanted text : Bytes} (arrayText : Bytes)
    (sent : handler.params[config.keyMUPrefixes]? = some text) (parsed : parse (cStr text) = some (.array listed))
    (holds : .string wanted ∈ listed) :
    Predicted config parse digest handler (.array listed) wanted arrayText (cStr wanted) ↔
      Predictable config parse digest handler wanted (.array listed) := by
  have reads := mapM_ok_iff keyOf_ok_iff listed
  rw [← getKeys_of_array sent parsed] at reads
  constructor
  · intro predicted valid strings item upsert
    obtain ⟨keys, rfl⟩ : ∃ keys : List Bytes, listed = keys.map Value.string := by
      have all := mapM_ends_iff keyOf_ok_iff listed
      simp only [← isString_iff, mapM_ok_iff keyOf_ok_iff] at all
      exact all.mpr strings
    have nonempty : keys ≠ [] := by simpa using List.ne_nil_of_mem holds
    obtain ⟨i, there⟩ := List.mem_iff_getElem?.mp holds
    have stored := predicted.same keys ⟨valid, (reads keys).mpr rfl, nonempty, item, upsert⟩ i there
    rw [List.getElem?_map, stored] at there
    rw [← cStr_eq_self_iff]
    simpa using there
  · intro safe
    refine ⟨fun keys inOrder i there => ?_, fun same => by cases same⟩
    obtain rfl := (reads keys).mp inOrder.read
    have strings : ∀ element ∈ keys.map Value.string, element.isString = true := by simp [Value.isString]
    rw [(cStr_eq_self_iff wanted).mpr (safe inOrder.valid strings inOrder.item inOrder.upsert)]
    simpa [spelled] using there

/-- A string has no keys, unlike the array of it; so its request must not be a valid one. -/
theorem predicted_string_iff {wanted text arrayText : Bytes} (queryPrefix : Bytes)
    (sent : handler.params[config.keyMUPrefixes]? = some text) (parsed : parse (cStr text) = some (.string wanted))
    (wrapped : parse (cStr arrayText) = some (.array [.string wanted])) :
    Predicted config parse digest handler (.string wanted) wanted arrayText queryPrefix ↔
      Predictable config parse digest handler wanted (.string wanted) := by
  have nothing : getKeys config parse handler.params = .ok [] := by
    simp [getKeys_eq, elements?, sent, parsed, pure, Except.pure]
  constructor
  · intro predicted valid
    have done : deal config parse handler .empty = .ok (some ⟨none, errNoKeys⟩, .empty) := by
      simp [deal, dealOf, requestOf, nothing, bind, Except.bind, pure, Except.pure]
    rw [predicted.alone rfl valid] at done
    have none := getKeys_of_noKeys done
    rw [getKeys_of_array Std.ExtTreeMap.getElem?_insert_self wrapped, mapM_ok_iff keyOf_ok_iff] at none
    cases none
  · intro invalid
    exact ⟨fun keys inOrder => absurd inOrder.valid invalid, fun _ valid => absurd valid invalid⟩

/-- Attached prefixes are predicted exactly if they are predictable. -/
theorem predicted_iff {given : Value} {wanted text arrayText payload : Bytes} {body : Members}
    {aside : Aside} {hash : HashOrder Bytes} {query rebuilt : Query} {answer : Bool}
    (sized : Query.prefixValid config wanted.length = true)
    (sent : handler.params[config.keyMUPrefixes]? = some text) (parsed : parse (cStr text) = some given)
    (holds : .string wanted ∈ spelled given)
    (wrapped : parse (cStr arrayText) = some (.array [.string wanted]))
    (asked : parse (cStr payload) = some (.object body))
    (found : findMember body config.keyQUPrefix = some (.string wanted))
    (ended : query.rebuild config aside parse hash payload = .ok (answer, rebuilt)) :
    Predicted config parse digest handler given wanted arrayText rebuilt.queryPrefix ↔
      Predictable config parse digest handler wanted given := by
  rw [Query.rebuild_prefix asked found sized ended]
  cases given with
  | array listed => exact predicted_array_iff arrayText sent parsed holds
  | string value =>
    obtain rfl : wanted = value := by simpa [spelled] using holds
    exact predicted_string_iff _ sent parsed wrapped
  | null | bool | number | object => simp [spelled] at holds

/-- Requests need no signature, and every field is visible. -/
def openConfig : Config := { (Config.loadVisibility default [star] []) with checkSign := false }

/-- A prefix, and an item under it. -/
def arrayAB : Bytes := ascii "[\"ab\"]"

def bareAB : Bytes := ascii "\"ab\""

def itemOne : Bytes := ascii "\x7b\"id\":1\x7d"

def wantsAB : Bytes := ascii "\x7b\"prefix\":\"ab\"\x7d"

def parseAB : Parser := fun text =>
  if text = arrayAB then some (.array [.string (ascii "ab")])
  else if text = bareAB then some (.string (ascii "ab"))
  else if text = itemOne then some (.object [(ascii "id", .ofUint 1)])
  else if text = wantsAB then some (.object [(ascii "prefix", .string (ascii "ab"))])
  else none

theorem predicted_array : Predicted openConfig parseAB id (attaching arrayAB itemOne)
    (.array [.string (ascii "ab")]) (ascii "ab") arrayAB (ascii "ab") := by
  refine (@predicted_iff openConfig parseAB id (attaching arrayAB itemOne) (.array [.string (ascii "ab")])
    (ascii "ab") arrayAB arrayAB wantsAB [(ascii "prefix", .string (ascii "ab"))]
    (Aside.ofConfig openConfig) (.insertion _) .fresh _ true rfl rfl rfl List.mem_cons_self rfl rfl rfl rfl).mpr ?_
  intro _ _ _ _
  decide

/-- The string in an array is attached, and the string alone is no key at all. -/
theorem bare_unpredicted :
    (∃ after, deal openConfig parseAB (attaching arrayAB itemOne) .empty =
      .ok (some ⟨some (okReply openConfig), errOk⟩, after)) ∧
    deal openConfig parseAB (attaching bareAB itemOne) .empty = .ok (some ⟨none, errNoKeys⟩, .empty) ∧
    ¬Predicted openConfig parseAB id (attaching bareAB itemOne) (.string (ascii "ab")) (ascii "ab") arrayAB
      (ascii "ab") := by
  refine ⟨⟨_, rfl⟩, rfl, fun predicted => ?_⟩
  have same := predicted.alone rfl rfl .empty
  have codes := congrArg (Except.map fun outcome => outcome.1.map Result.code) same
  revert codes
  decide

end AttachHandler

end Taboo
