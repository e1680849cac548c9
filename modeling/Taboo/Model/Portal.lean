import Taboo.Model.Manager

/-! # The server and its clients

The workers of libmicrohttpd make the callbacks of many requests, and the thread of the web sockets takes
the messages; they come in any order. `process` reaches the shared state in one locked section, but for an
identity without a token: the request then waits with its call of `ensure` for the section that inserts.
-/

namespace Taboo.Portal

open BaseHandler ManageHandler

/-- An `ensure` call that has found no token, and the time that its request was dealt with. -/
structure Missed where
  call : Ensure
  now : ℤ

/-- A request. The server in its state is the one that its last callback left. -/
structure Exchange where
  request : Manager.Request
  state : Manager.State
  ensuring : Option Missed

/-- What there is to answer. -/
inductive Work
  | request (index : ℕ) (handler : Routed)
  | message (payload : Bytes)

def Work.index? : Work → Option ℕ
  | .request index _ => some index
  | .message _ => none

/-- A reply that was sent, and what `process` took from outside on the way to it. -/
structure Answer where
  work : Work
  now : ℤ
  candidates : List Bytes
  reply : Reply

/-- The answers stand in the order in which they took effect. -/
structure State where
  server : Server
  exchanges : List Exchange
  answers : List Answer

def initial (server : Server) : State := ⟨server, [], []⟩

inductive Event
  | arrive (request : Manager.Request)
  | callback (index : ℕ) (callback : Manager.Callback) (now : ℤ)
  /-- the write-locked section of `ensure`, and what is left of the callback that waits for it -/
  | insert (index : ℕ) (candidates : List Bytes) (answer : Bool)
  /-- `Portal::onMessage` -/
  | message (payload : Bytes) (now : ℤ)

/-- The handler that a callback makes process its request, and whether the response is queued. -/
def Exchange.processing (exchange : Exchange) : Manager.Callback → Option (Routed × Bool)
  | .handleReqpest none answer =>
      match exchange.state.stage, exchange.state.conClosure with
      | .receiving, some closure => some (closure.handler, answer)
      | _, _ => none
  | _ => none

/-- What the last call of `handleReqpest` does after `process`. -/
def Exchange.answered (exchange : Exchange) (answer : Bool) (server : Server) : Exchange :=
  { exchange with
    ensuring := none
    state := { exchange.state with
      stage := if answer then .answered else .refused
      conClosure := none
      history := exchange.state.history ++ [.use, .destroy]
      processed := exchange.state.processed + 1
      server } }

section

variable (statics : StaticReplys) (env : Environment)

/-- The call that a token request comes to. -/
def ensureCall (now : ℤ) : Routed → Option Ensure
  | .token handler =>
      if validate env.service.around.config env.digest
        (checkParams env.service.around.config) handler = errOk then
        match TokenHandler.request env.service.around.config now handler with
        | .ok (.inr call) => some call
        | _ => none
      else none
  | _ => none

/-- The call that finds no token under the read lock. -/
def missedCall (now : ℤ) (sessions : SessionManager) (handler : Routed) : Option Ensure :=
  (ensureCall env now handler).filter fun call => (sessions.lookup call.identy).isNone

def Work.process (server : Server) : Work → Except Fault (Option (Option Reply × Server))
  | .request _ handler => handler.process statics env server
  | .message payload =>
      (Predicter.processWs env.service server.store .create payload).map fun answer =>
        some (answer.1.reply statics env.write, server)

/-- `process` up to the reply; a null reply ends the process. -/
def perform (work : Work) (now : ℤ) (candidates : List Bytes) (server : Server) :
    Option (Answer × Server) :=
  match work.process statics { env with now, candidates } server with
  | .ok (some (some reply, server)) => some (⟨work, now, candidates, reply⟩, server)
  | _ => none

def step (state : State) : Event → Option State
  | .arrive request =>
      some { state with exchanges := state.exchanges ++ [⟨request, Manager.initial state.server, none⟩] }
  | .callback index callback now =>
      match state.exchanges[index]? with
      | none => none
      | some exchange =>
          if exchange.ensuring.isSome then none
          else
            match exchange.processing callback with
            | some (handler, answer) =>
                match missedCall env now state.server.sessions handler with
                | some call =>
                    some { state with
                      exchanges := state.exchanges.set index
                        { exchange with ensuring := some ⟨call, now⟩ } }
                | none =>
                    (perform statics env (.request index handler) now [] state.server).map fun done =>
                      { server := done.2
                        exchanges := state.exchanges.set index (exchange.answered answer done.2)
                        answers := state.answers ++ [done.1] }
            | none =>
                (Manager.step statics { env with now } exchange.request
                  { exchange.state with server := state.server }
                    callback).map fun next =>
                  { state with exchanges := state.exchanges.set index { exchange with state := next } }
  | .insert index candidates answer =>
      match state.exchanges[index]? with
      | none => none
      | some exchange =>
          match exchange.ensuring, exchange.state.conClosure with
          | some missed, some closure =>
              (state.server.sessions.insert missed.call candidates).map fun inserted =>
                let server := { state.server with sessions := inserted.2 }
                { server
                  exchanges := state.exchanges.set index (exchange.answered answer server)
                  answers := state.answers ++ [⟨.request index closure.handler, missed.now, candidates,
                    genReply env.service.around.config errOk inserted.1⟩] }
          | _, _ => none
  | .message payload now =>
      (perform statics env (.message payload) now [] state.server).map fun done =>
        { state with server := done.2, answers := state.answers ++ [done.1] }

end

end Taboo.Portal
