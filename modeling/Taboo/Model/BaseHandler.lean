import Taboo.Model.Reply

/-! # Request handlers

A handler collects the parameters of one request. Its class may look at each parameter first, keep
what it wants of it among its own members, and turn it away.
-/

namespace Taboo

open Std

/-- `std::map` of byte strings, in byte order. -/
abbrev ParamMap := ExtTreeMap Bytes Bytes

/-- `taboo::BaseHandler`, with the members that a derived class adds. -/
structure Handler (σ : Type) where
  method : Bytes
  uri : Bytes
  params : ParamMap
  own : σ

/-- `BaseHandler::Result`, `none` being the null reply. -/
structure Result where
  reply : Option Reply
  code : Ec

namespace BaseHandler

def errOk : Ec := ecc 0 0 0
def errUnknown : Ec := ecc 0 0 1
def errNoRoute : Ec := ecc 0 0 2

def create {σ : Type} (own : σ) : Handler σ := ⟨[], [], ∅, own⟩

def slash : UInt8 := 47

def setMeta {σ : Type} (handler : Handler σ) (method uri : Bytes) : Bool × Handler σ :=
  if method = [] ∨ uri = [] then (false, handler)
  else
    let uri := if uri.getLast? = some slash then uri.dropLast else uri
    (true, { handler with method, uri })

section Params

variable {σ : Type} (reviewParam : Bytes → Bytes → σ → Bool × σ)

/-- `insert` keeps the first value of a key. -/
def addParam (handler : Handler σ) (key value : Bytes) : Handler σ :=
  let reviewed := reviewParam key value handler.own
  { handler with
    params := if reviewed.1 then handler.params.insertIfNew key value else handler.params
    own := reviewed.2 }

/-- Key and value arrive as C strings. -/
def addGetParam (handler : Handler σ) (key value : Bytes) : Handler σ :=
  addParam reviewParam handler (cStr key) (cStr value)

/-- The value arrives with its length. -/
def addPostParam (handler : Handler σ) (key value : Bytes) : Handler σ :=
  addParam reviewParam handler (cStr key) value

/-- `Manager::postParamIterator` does not pass on where in the value its piece belongs. -/
def postParamIterator (handler : Handler σ) (key data : Bytes) (_offset : ℕ) : Handler σ :=
  addPostParam reviewParam handler key data

/-- One parameter of a body, delivered in consecutive pieces. -/
def postPieces (key : Bytes) : ℕ → List Bytes → Handler σ → Handler σ
  | _, [], handler => handler
  | offset, data :: rest, handler =>
      postPieces key (offset + data.length) rest (postParamIterator reviewParam handler key data offset)

end Params

end BaseHandler

end Taboo
