import Taboo.Model.ManageHandler
import Taboo.Model.Session

/-! # Token requests

The handler keeps the filters that arrive with a request, parsed, as a member of its own, and binds them
to the token of the requested identity.
-/

namespace Taboo

open BaseHandler ManageHandler

/-- `manager::TokenHandler` adds `filters`. -/
abbrev TokenHandler := Handler (Manage Value)

namespace TokenHandler

def create : TokenHandler := BaseHandler.create ⟨[], .null⟩

/-- Each filters parameter that parses as an object replaces the member; the others are turned away. -/
def _reviewParam (config : Config) (parse : Parser) (key value : Bytes) (filters : Value) : Bool × Value :=
  if key = config.keyMUFilters then
    match parse (cStr value) with
    | some (.object members) => (true, .object members)
    | _ => (false, filters)
  else (true, filters)

/-- The decimal digits `0` to `9`, at least one. -/
def digits (text : Bytes) : Option ℕ :=
  if !text.isEmpty && text.all fun byte => decide (48 ≤ byte) && decide (byte ≤ 57) then
    some (text.foldl (fun value byte => 10 * value + (byte - 48).toNat) 0)
  else none

/-- The sign that `lexical_cast` takes off a number: whether it is a minus, and the rest. -/
def splitSign : Bytes → Bool × Bytes
  | 45 :: rest => (true, rest)
  | 43 :: rest => (false, rest)
  | text => (false, text)

/-- `boost::lexical_cast<identy_t>`: a minus wraps. -/
def identyCast (text : Bytes) : Option Identy :=
  match digits (splitSign text).2 with
  | some value =>
      if value < 2 ^ 64 then
        some (if (splitSign text).1 then 0 - UInt64.ofNat value else UInt64.ofNat value)
      else none
  | none => none

/-- `boost::lexical_cast<std::time_t>` -/
def timeCast (text : Bytes) : Option ℤ :=
  match digits (splitSign text).2 with
  | some value =>
      let signed : ℤ := if (splitSign text).1 then -value else value
      if -2 ^ 63 ≤ signed ∧ signed < 2 ^ 63 then some signed else none
  | none => none

/-- `deal` before it calls `ensure`: an error code, or the arguments of that call. -/
def request (config : Config) (now : ℤ) (handler : TokenHandler) : Except Fault (Ec ⊕ Ensure) :=
  match handler.params[config.keyMUIdenty]? with
  | none => .ok (.inl errBadParam)
  | some text =>
      match identyCast text with
      | none => .error .badCast
      | some identy =>
          match handler.params[config.keyMUExpire]? with
          | none => .ok (.inr ⟨identy, handler.own.own, now + config.tokenDefaultExpire⟩)
          | some text =>
              match timeCast text with
              | none => .error .badCast
              | some expire => .ok (.inr ⟨identy, handler.own.own, expire⟩)

/-- The three ways out: no identity, a cast that throws, and the call for what the casts yield. -/
theorem request_cases (config : Config) (now : ℤ) (handler : TokenHandler) :
    (handler.params[config.keyMUIdenty]? = none ∧ request config now handler = .ok (.inl errBadParam)) ∨
      ∃ text, handler.params[config.keyMUIdenty]? = some text ∧
        (((identyCast text = none ∨
              ∃ expire, handler.params[config.keyMUExpire]? = some expire ∧ timeCast expire = none) ∧
            request config now handler = .error .badCast) ∨
          ∃ call, request config now handler = .ok (.inr call) ∧ identyCast text = some call.identy ∧
            ∀ expire, handler.params[config.keyMUExpire]? = some expire →
              timeCast expire = some call.expireTill) := by
  unfold request
  cases handler.params[config.keyMUIdenty]? with
  | none => exact Or.inl ⟨rfl, rfl⟩
  | some text =>
    refine Or.inr ⟨text, rfl, ?_⟩
    cases cast : identyCast text with
    | none => exact Or.inl ⟨Or.inl rfl, by simp only [cast]⟩
    | some identy =>
      cases handler.params[config.keyMUExpire]? with
      | none => exact Or.inr ⟨_, by simp only [cast]; rfl, rfl, nofun⟩
      | some expire =>
        cases time : timeCast expire with
        | none => exact Or.inl ⟨Or.inr ⟨expire, rfl, time⟩, by simp only [cast, time]⟩
        | some till =>
          refine Or.inr ⟨⟨identy, handler.own.own, till⟩, by simp only [cast, time], rfl, ?_⟩
          rintro _ ⟨⟩
          exact time

theorem code_of_request {config : Config} {now : ℤ} {handler : TokenHandler} {code : Ec}
    (sent : request config now handler = .ok (.inl code)) : code = errBadParam := by
  rcases request_cases config now handler with ⟨_, refused⟩ | ⟨_, _, ⟨_, thrown⟩ | ⟨_, called, _⟩⟩
  · exact (Sum.inl.inj (Except.ok.inj (refused.symm.trans sent))).symm
  · cases thrown.symm.trans sent
  · cases called.symm.trans sent

/-- `none` as long as the candidates for a token are all taken. The code of a result with a token stays
the one that results begin with. -/
def deal (config : Config) (now : ℤ) (manager : SessionManager) (candidates : List Bytes)
    (handler : TokenHandler) : Except Fault (Option (Option Result × SessionManager)) :=
  (request config now handler).map fun
    | .inl code => some (some ⟨none, code⟩, manager)
    | .inr call => (manager.ensure call candidates).map fun answer =>
        (some ⟨some (genReply config errOk answer.1), errUnknown⟩, answer.2)

def process (config : Config) (digest : Bytes → Bytes) (now : ℤ) (manager : SessionManager)
    (candidates : List Bytes) (handler : TokenHandler) :
    Except Fault (Option (Option Result × SessionManager)) :=
  ManageHandler.process config digest (checkParams config) (deal config now manager candidates)
    (fun result => .ok (some (result, manager))) handler

end TokenHandler

end Taboo
