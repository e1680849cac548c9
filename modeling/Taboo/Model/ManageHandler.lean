import Taboo.Model.BaseHandler

/-! # Manage requests

The part that all handlers of `manager` share: the signature is taken out of the parameters as they
arrive, and a request is validated before the handler deals with it. The digest is a parameter.
-/

namespace Taboo.ManageHandler

open BaseHandler

/-- `manager::BaseHandler`, with the members that a derived class adds. -/
structure Manage (τ : Type) where
  sign : Bytes
  own : τ

def errBadRequestMethod : Ec := ecc 1 0 1
def errBadRequest : Ec := ecc 1 0 2
def errBadParam : Ec := ecc 1 0 4
def errBadSign : Ec := ecc 1 0 5

/-- Accepts every parameter, unless a derived class overrides it. -/
def _reviewParam (_key _value : Bytes) (own : Unit) : Bool × Unit := (true, own)

section

variable {τ : Type} (config : Config)

/-- The parameter `keyMUSign` becomes the signature and never enters the map. -/
def reviewParam (_reviewParam : Bytes → Bytes → τ → Bool × τ) (key value : Bytes) (manage : Manage τ) :
    Bool × Manage τ :=
  if key = config.keyMUSign then (false, { manage with sign := value })
  else
    let reviewed := _reviewParam key value manage.own
    (reviewed.1, { manage with own := reviewed.2 })

/-- What `checkSign` feeds to the digest. -/
def signedText (uri method : Bytes) (params : ParamMap) : Bytes :=
  uri ++ config.signDelimiter ++ method ++ config.signDelimiter ++ config.manageSecret ++
    params.toList.flatMap fun entry => config.signDelimiter ++ entry.1 ++ config.signHyphen ++ entry.2

def checkSign (digest : Bytes → Bytes) (handler : Handler (Manage τ)) : Ec :=
  if !config.checkSign then errOk
  else if digest (signedText config handler.uri handler.method handler.params) = handler.own.sign then errOk
  else errBadSign

def checkParams (handler : Handler (Manage τ)) : Ec :=
  if config.checkSign ∧ handler.own.sign = [] then errBadParam else errOk

def validate (digest : Bytes → Bytes) (checkParams : Handler (Manage τ) → Ec) (handler : Handler (Manage τ)) :
    Ec :=
  let code := checkParams handler
  if code = errOk then checkSign config digest handler else code

/-- `process` up to the choice of the reply: an invalid request is refused with its error code. -/
def process {ρ : Type} (digest : Bytes → Bytes) (checkParams : Handler (Manage τ) → Ec)
    (deal : Handler (Manage τ) → ρ) (refuse : Option Result → ρ) (handler : Handler (Manage τ)) : ρ :=
  let code := validate config digest checkParams handler
  if code = errOk then deal handler else refuse (some ⟨none, code⟩)

theorem checkParams_cases (handler : Handler (Manage τ)) :
    checkParams config handler = errOk ∨ checkParams config handler = errBadParam := by
  unfold checkParams
  split_ifs <;> simp

theorem validate_cases {digest : Bytes → Bytes} {checkParams : Handler (Manage τ) → Ec}
    {handler : Handler (Manage τ)} (checks : checkParams handler = errOk ∨ checkParams handler = errBadParam) :
    validate config digest checkParams handler = errOk ∨
      validate config digest checkParams handler = errBadParam ∨
        validate config digest checkParams handler = errBadSign := by
  have sign : checkSign config digest handler = errOk ∨ checkSign config digest handler = errBadSign := by
    unfold checkSign
    split_ifs <;> simp
  unfold validate
  rcases checks with passed | failed
  · rw [passed, if_pos rfl]
    exact sign.imp_right Or.inr
  · rw [failed, if_neg (by decide)]
    exact Or.inr (Or.inl rfl)

/-- A request is dealt with, or refused with one of two codes. -/
theorem process_cases {ρ : Type} {digest : Bytes → Bytes} {checkParams : Handler (Manage τ) → Ec}
    {handler : Handler (Manage τ)} (checks : checkParams handler = errOk ∨ checkParams handler = errBadParam)
    (deal : Handler (Manage τ) → ρ) (refuse : Option Result → ρ) :
    (validate config digest checkParams handler = errOk ∧
        process config digest checkParams deal refuse handler = deal handler) ∨
      (validate config digest checkParams handler ≠ errOk ∧ ∃ code, (code = errBadParam ∨ code = errBadSign) ∧
        process config digest checkParams deal refuse handler = refuse (some ⟨none, code⟩)) := by
  simp only [process]
  split_ifs with valid
  · exact Or.inl ⟨valid, rfl⟩
  · exact Or.inr ⟨valid, _, (validate_cases config checks).resolve_left valid, rfl⟩

end

/-- `getReply`, with `errUnknownReply` where the code has no reply. -/
def getReply (replys : Replys) (errUnknownReply : Option Reply) (errCode : Ec) : Option Reply :=
  replys[errCode]?.or errUnknownReply

/-- The reply that `process` and `_process` return for a result; a null result counts as unknown. -/
def resultReply (replys : Replys) (errUnknownReply : Option Reply) : Option Result → Option Reply
  | some result => result.reply.or (getReply replys errUnknownReply result.code)
  | none => getReply replys errUnknownReply errUnknown

/-- `manager::BaseHandler::initReplys` -/
def initReplys (config : Config) (replys : Replys) : Replys :=
  let replys := fillReply config replys errBadRequestMethod (ascii "request method not allowed")
  let replys := fillReply config replys errBadRequest (ascii "bad request")
  let replys := fillReply config replys errBadSign (ascii "bad sign")
  fillReply config replys errBadParam (ascii "bad param")

theorem resultReply_none (replys : Replys) (errUnknownReply : Option Reply) :
    resultReply replys errUnknownReply none = resultReply replys errUnknownReply (some ⟨none, errUnknown⟩) := rfl

theorem resultReply_isSome_iff (replys : Replys) (result : Result) :
    (resultReply replys none (some result)).isSome = true ↔
      result.reply.isSome = true ∨ result.code ∈ replys := by
  obtain ⟨reply, code⟩ := result
  cases reply <;> simp [resultReply, getReply]

end Taboo.ManageHandler
