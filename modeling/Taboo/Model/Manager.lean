import Taboo.Machine.Lifetime
import Taboo.Model.Router

/-! # One request and its callbacks

libmicrohttpd calls `handleReqpest` for a request until that has queued a response or answered no, and
`onRequestCompleted` in the end. What it answers to the calls made of it is up to it, and so are the
pieces into which its post processor cuts a body.
-/

namespace Taboo

/-- A closure, by the object that its handler is and by whether its post processor is not null. -/
structure Closure where
  handler : Routed
  postProcessor : Bool

namespace Manager

/-- What is fixed for a request, with the arguments of its URI. -/
structure Request where
  method : Bytes
  uri : Bytes
  arguments : List (Bytes × Bytes)

/-- Where libmicrohttpd is with a request. -/
inductive Stage
  | waiting
  | receiving
  /-- `handleReqpest` answered no -/
  | refused
  | answered
  | completed
deriving DecidableEq

/-- `conClosure` is `none` for the null pointer. The history is that of the closure, and `posted` has
an entry for each call of `MHD_post_process`: whether its post processor was not null. -/
structure State where
  stage : Stage
  conClosure : Option Closure
  history : List Lifetime.Op
  processed : ℕ
  posted : List Bool
  server : Server

def initial (server : Server) : State := ⟨.waiting, none, [], 0, [], server⟩

/-- Key, data and offset of a piece of the body. -/
abbrev Piece := Bytes × Bytes × ℕ

/-- A call of `handleReqpest` comes with a part of the body, cut into pieces, or without. `answer` is
what libmicrohttpd answers to the last call that is made of it in turn: whether there is a post
processor, the part was processed, or the response is queued. -/
inductive Callback
  | handleReqpest (upload : Option (List Piece)) (answer : Bool)
  | onRequestCompleted

section

variable (statics : StaticReplys) (env : Environment) (request : Request)

/-- `Closure::create` and `getParamIterator` for each argument. -/
def createClosure : Routed :=
  request.arguments.foldl (fun handler argument =>
      handler.addGetParam env.service.around.config env.service.parse argument.1 argument.2)
    (Router.route request.method request.uri)

/-- `postParamIterator` for each piece. -/
def postPieces (handler : Routed) (pieces : List Piece) : Routed :=
  pieces.foldl (fun handler piece =>
    handler.addPostParam env.service.around.config env.service.parse piece.1 piece.2.1) handler

/-- The answer of `handleReqpest`, and what it does. A null reply ends the process. -/
def handleReqpest (state : State) (upload : Option (List Piece)) (answer : Bool) : Option (Bool × State) :=
  match state.conClosure with
  | none =>
      let handler := createClosure env request
      let history := state.history ++ .create :: .replicate (request.arguments.length + 1) .use
      if handler.isPost then
        some (answer, { state with conClosure := some ⟨handler, answer⟩, history })
      else some (true, { state with conClosure := some ⟨handler, false⟩, history })
  | some closure =>
      match upload with
      | some pieces =>
          some (answer, { state with
            conClosure := some { closure with
              handler := if closure.postProcessor then postPieces env closure.handler pieces else closure.handler }
            history := state.history ++
              .replicate (if closure.postProcessor then pieces.length + 1 else 1) .use
            posted := state.posted ++ [closure.postProcessor] })
      | none =>
          match closure.handler.process statics env state.server with
          | .ok (some (some _, server)) =>
              some (answer, { state with
                conClosure := none
                history := state.history ++ [.use, .destroy]
                processed := state.processed + 1
                server })
          | _ => none

def onRequestCompleted (state : State) : State :=
  { state with
    stage := .completed
    history := if state.conClosure.isSome then state.history ++ [.destroy] else state.history }

/-- The callbacks that libmicrohttpd may make: the first one brings no part of the body, and a request
can be given up at any point after it. -/
def step (state : State) : Callback → Option State
  | .handleReqpest upload answer =>
      match state.stage with
      | .waiting =>
          if upload.isSome then none
          else (handleReqpest statics env request state upload answer).map fun answered =>
            { answered.2 with stage := if answered.1 then .receiving else .refused }
      | .receiving =>
          (handleReqpest statics env request state upload answer).map fun answered =>
            { answered.2 with
              stage := if !answered.1 then .refused else if upload.isSome then .receiving else .answered }
      | _ => none
  | .onRequestCompleted =>
      if state.stage = .waiting ∨ state.stage = .completed then none else some (onRequestCompleted state)

end

end Manager

end Taboo
