import Taboo.Model.AttachHandler
import Taboo.Model.Predicter
import Taboo.Model.TokenHandler

/-! # Routes

The router makes a new handler for each request. Which replies the handlers share is decided when it
starts, by the `initReplys` that it calls; a class that has none of its own hides nothing, and one that
has hides the one above it.
-/

namespace Taboo

open BaseHandler ManageHandler

/-- The static replies of all handler classes; `none` is the null pointer that they start with. -/
structure StaticReplys where
  replys : Replys
  errUnknownReply : Option Reply
  /-- `NoRouteHandler::reply` -/
  noRoute : Option Reply
  /-- `AttachHandler::okReply` -/
  attachOk : Option Reply
  errNoQueryReply : Option Reply
  errBadQueryReply : Option Reply

def StaticReplys.start : StaticReplys := ⟨∅, none, none, none, none, none⟩

namespace NoRouteHandler

def initReplys (config : Config) (statics : StaticReplys) : StaticReplys :=
  { statics with noRoute := some (genReply config errNoRoute (ascii "no matching route")) }

end NoRouteHandler

namespace StatusHandler

/-- The null result. -/
def deal (_handler : Handler (Manage Unit)) : Option Result := none

def initReplys (statics : StaticReplys) : StaticReplys := statics

end StatusHandler

namespace DetachHandler

def errDetach : Ec := 203001

def deal (_handler : Handler (Manage Unit)) : Option Result := some ⟨none, errDetach⟩

def initReplys (statics : StaticReplys) : StaticReplys := statics

end DetachHandler

namespace Predicter

def errNoQuery : Ec := ecc 2 0 5
def errBadQuery : Ec := ecc 2 0 6

/-- `BasePredicter::initReplys`; those of the two predicters are empty. -/
def initReplys (config : Config) (statics : StaticReplys) : StaticReplys :=
  { statics with
    errNoQueryReply := some (genReply config errNoQuery
      (ascii "no '" ++ config.keyQUPayload ++ ascii "' specified"))
    errBadQueryReply := some (genReply config errBadQuery
      (ascii "bad '" ++ config.keyQUPayload ++ ascii "' specified")) }

/-- The reply of `HttpPredicter::process`; `write` spells a document. -/
def Answer.reply (statics : StaticReplys) (write : Value → Bytes) : Answer → Option Reply
  | .noQuery => statics.errNoQueryReply
  | .badQuery => statics.errBadQueryReply
  | .predicted _ _ _ document => some ⟨write document, .mustCopy⟩

end Predicter

/-- What `route` answers with, by the class of the handler. -/
inductive Routed
  | noRoute (handler : Handler Unit)
  | status (handler : Handler (Manage Unit))
  | attach (handler : AttachHandler)
  | detach (handler : Handler (Manage Unit))
  | token (handler : TokenHandler)
  | predict (handler : Handler Predicter)

namespace Routed

def setMeta (method uri : Bytes) : Routed → Routed
  | noRoute handler => noRoute (BaseHandler.setMeta handler method uri).2
  | status handler => status (BaseHandler.setMeta handler method uri).2
  | attach handler => attach (BaseHandler.setMeta handler method uri).2
  | detach handler => detach (BaseHandler.setMeta handler method uri).2
  | token handler => token (BaseHandler.setMeta handler method uri).2
  | predict handler => predict (BaseHandler.setMeta handler method uri).2

def method : Routed → Bytes
  | noRoute handler => handler.method
  | status handler => handler.method
  | attach handler => handler.method
  | detach handler => handler.method
  | token handler => handler.method
  | predict handler => handler.method

def methodPost : Bytes := ascii "POST"

def isPost (routed : Routed) : Bool := decide (routed.method = methodPost)

/-- Only `NoRouteHandler` overrides `addParam`. -/
def addParam (config : Config) (parse : Parser) (key value : Bytes) : Routed → Routed
  | noRoute handler => noRoute handler
  | status handler => status (BaseHandler.addParam (reviewParam config _reviewParam) handler key value)
  | attach handler => attach (BaseHandler.addParam (reviewParam config _reviewParam) handler key value)
  | detach handler => detach (BaseHandler.addParam (reviewParam config _reviewParam) handler key value)
  | token handler =>
      token (BaseHandler.addParam (reviewParam config (TokenHandler._reviewParam config parse)) handler key value)
  | predict handler => predict (BaseHandler.addParam (fun _ _ own => (true, own)) handler key value)

def addGetParam (config : Config) (parse : Parser) (routed : Routed) (key value : Bytes) : Routed :=
  routed.addParam config parse (cStr key) (cStr value)

def addPostParam (config : Config) (parse : Parser) (routed : Routed) (key value : Bytes) : Routed :=
  routed.addParam config parse (cStr key) value

end Routed

namespace Router

/-- `handlerCreatorMap`, each creator by the handler it creates. -/
def creators : List (Bytes × Routed) :=
  [(ascii "/manage/status", .status (create ⟨[], ()⟩)),
    (ascii "/manage/attach", .attach (create ⟨[], ()⟩)),
    (ascii "/manage/detach", .detach (create ⟨[], ()⟩)),
    (ascii "/manage/erase", .detach (create ⟨[], ()⟩)),
    (ascii "/manage/get_access_token", .token TokenHandler.create),
    (ascii "/query/predict", .predict (create Predicter.create))]

/-- `setMeta` is called only where there is a route. -/
def route (method uri : Bytes) : Routed :=
  if uri = [] then .noRoute (create ())
  else
    match creators.find? fun entry => entry.1 == uri with
    | none => .noRoute (create ())
    | some entry => entry.2.setMeta method uri

/-- `initHandlerRelyMap`. Neither `BaseHandler::initReplys` nor one of `TokenHandler` is among the calls. -/
def initHandlerRelyMap (config : Config) (statics : StaticReplys) : StaticReplys :=
  let statics := NoRouteHandler.initReplys config statics
  let statics := { statics with replys := ManageHandler.initReplys config statics.replys }
  let statics := StatusHandler.initReplys statics
  let statics :=
    { statics with
      attachOk := some (AttachHandler.okReply config)
      replys := AttachHandler.initReplys config statics.replys }
  let statics := DetachHandler.initReplys statics
  Predicter.initReplys config statics

end Router

/-- The shared state that requests are processed on. -/
structure Server where
  store : Store
  sessions : SessionManager

/-- What else a request is processed with. -/
structure Environment where
  service : Predicter.Service
  digest : Bytes → Bytes
  write : Value → Bytes
  now : ℤ
  candidates : List Bytes
  /-- An attach with a zero byte in a word: the arrays read the cell of a value there, the trie has none,
  so nothing is assumed. -/
  astray : Store → List Bytes → Item → Bool → Bool × Store

namespace Routed

/-- `process` of the handler's class: a reply, which may be null, unless the process ends or no
candidate for a token is free. -/
def process (statics : StaticReplys) (env : Environment) (server : Server) :
    Routed → Except Fault (Option (Option Reply × Server))
  | noRoute _ => .ok (some (statics.noRoute, server))
  | status handler =>
      let result := ManageHandler.process env.service.around.config env.digest
        (checkParams env.service.around.config) StatusHandler.deal id handler
      .ok (some (resultReply statics.replys statics.errUnknownReply result, server))
  | attach handler =>
      (AttachHandler.processOf env.service.around.config env.service.parse env.digest AttachHandler.toWord
        (AttachHandler.attachWords env.astray) handler server.store).map fun answer =>
          -- the only reply that `deal` sets is the static one
          let result := answer.1.map fun result =>
            { result with reply := result.reply.bind fun _ => statics.attachOk }
          some (resultReply statics.replys statics.errUnknownReply result, { server with store := answer.2 })
  | detach handler =>
      let result := ManageHandler.process env.service.around.config env.digest
        (checkParams env.service.around.config) DetachHandler.deal id handler
      .ok (some (resultReply statics.replys statics.errUnknownReply result, server))
  | token handler =>
      (TokenHandler.process env.service.around.config env.digest env.now server.sessions env.candidates
        handler).map fun answer => answer.map fun answer =>
          (resultReply statics.replys statics.errUnknownReply answer.1, { server with sessions := answer.2 })
  | predict handler =>
      (Predicter.processHttp env.service server.store handler.own handler.params).map fun answer =>
        some (answer.1.reply statics env.write, server)

end Routed

end Taboo
