import Taboo.Soundness.Parameters

/-! # The filters of a token request

The parameter map keeps the first filters that are accepted, and it is the map that is signed. The
handler keeps the last ones, and it is these that the token is bound to.
-/

namespace Taboo.TokenHandler

open BaseHandler ManageHandler

/-- A parameter as it reaches a handler. -/
inductive Received
  | get (key value : Bytes)
  | post (key value : Bytes)

/-- Key and value as `addParam` sees them. -/
def Received.param : Received → Bytes × Bytes
  | .get key value => (cStr key, cStr value)
  | .post key value => (cStr key, value)

section

variable (config : Config) (parse : Parser)

def receive (handler : TokenHandler) : Received → TokenHandler
  | .get key value => addGetParam (reviewParam config (_reviewParam config parse)) handler key value
  | .post key value => addPostParam (reviewParam config (_reviewParam config parse)) handler key value

theorem foldl_receive (handler : TokenHandler) (calls : List Received) :
    calls.foldl (receive config parse) handler =
      addAll config (Review.token config parse) handler (calls.map Received.param) := by
  induction calls generalizing handler with
  | nil => rfl
  | cons call rest ih =>
    rw [List.foldl_cons, ih]
    cases call <;> rfl

/-- The parsed value of the filters parameter in the map, `Null` without one. -/
def signedFilters (handler : TokenHandler) : Value :=
  match handler.params[config.keyMUFilters]? with
  | none => .null
  | some text => (parse (cStr text)).getD .null

/-- The objects that the filters parameters parse as, in the order of their arrival. -/
def offeredFilters (calls : List Received) : List Value :=
  (valuesOf config.keyMUFilters (calls.map Received.param)).filterMap (objectOf parse)

variable {config parse}

private theorem find_filterMap {α β : Type} (f : α → Option β) (list : List α) :
    (list.find? fun value => (f value).isSome).bind f = (list.filterMap f).head? := by
  induction list with
  | nil => rfl
  | cons value rest ih =>
    cases found : f value with
    | none => simpa [found] using ih
    | some result => simp [found]

/-- The first accepted filters are the signed ones. -/
theorem signedFilters_addAll (proper : config.keyMUFilters ≠ config.keyMUSign) (params : List (Bytes × Bytes)) :
    signedFilters config parse (addAll config (Review.token config parse) create params) =
      ((valuesOf config.keyMUFilters params).filterMap (objectOf parse)).head?.getD .null := by
  have stored := addAll_params config (Review.token config parse) create params proper
  have accepts : (Review.token config parse).accepts config.keyMUFilters =
      fun value => (objectOf parse value).isSome := by
    funext value
    exact if_pos rfl
  rw [accepts] at stored
  simp only [create, BaseHandler.create, Std.ExtTreeMap.getElem?_empty, Option.none_or] at stored
  rw [signedFilters, ← find_filterMap]
  unfold create BaseHandler.create
  rw [stored]
  cases found : (valuesOf config.keyMUFilters params).find? fun value => (objectOf parse value).isSome with
  | none => rfl
  | some text =>
    obtain ⟨value, object⟩ := Option.isSome_iff_exists.mp
      (List.find?_some (p := fun value => (objectOf parse value).isSome) found)
    have parsed := (Option.filter_eq_some_iff.mp object).1
    simp [object, parsed]

end

/-- The token is bound to the signed filters exactly if the first and the last filters parameter that
parse as objects parse as the same one. -/
theorem filters_signed_iff (config : Config) (parse : Parser) (calls : List Received) :
    (calls.foldl (receive config parse) create).own.own =
        signedFilters config parse (calls.foldl (receive config parse) create) ↔
      config.keyMUFilters = config.keyMUSign ∨
        (offeredFilters config parse calls).head? = (offeredFilters config parse calls).getLast? := by
  rw [foldl_receive]
  by_cases clash : config.keyMUFilters = config.keyMUSign
  · refine iff_of_true ?_ (Or.inl clash)
    have unread : ∀ key, (Review.token config parse).judged = some key → key = config.keyMUSign :=
      fun key judges => (Option.some.inj judges).symm.trans clash
    rw [addAll_own_unread _ _ _ _ unread, signedFilters, clash, addAll_params_sign]
    simp [create, BaseHandler.create]
  · rw [addAll_own _ _ _ _ clash rfl, signedFilters_addAll clash, or_iff_right clash, offeredFilters, lastRead]
    change ((valuesOf config.keyMUFilters (calls.map Received.param)).filterMap
      (objectOf parse)).getLast?.getD _ = _ ↔ _
    generalize (valuesOf config.keyMUFilters (calls.map Received.param)).filterMap (objectOf parse) = offered
    cases offered with
    | nil => exact iff_of_true rfl rfl
    | cons first rest => simp [List.getLast?_cons, eq_comm]

/-- What the parser makes of the two texts below. -/
def parseFilters : Parser := fun text =>
  if text = ascii "\x7b\"a\":null\x7d" then some (.object [(ascii "a", .null)])
  else if text = ascii "\x7b\x7d" then some (.object [])
  else none

/-- Filters, and then empty ones. -/
def emptiedFilters : List Received :=
  [.post (ascii "filters") (ascii "\x7b\"a\":null\x7d"), .post (ascii "filters") (ascii "\x7b\x7d")]

theorem emptied_filters_not_signed :
    (emptiedFilters.foldl (receive default parseFilters) create).own.own = .object [] ∧
    signedFilters default parseFilters (emptiedFilters.foldl (receive default parseFilters) create) =
      .object [(ascii "a", .null)] ∧
    (emptiedFilters.foldl (receive default parseFilters) create).own.own ≠
      signedFilters default parseFilters (emptiedFilters.foldl (receive default parseFilters) create) := by
  refine ⟨rfl, rfl, fun same => ?_⟩
  have objects : Value.object [] = .object [(ascii "a", .null)] := same
  cases objects

end Taboo.TokenHandler
