import Taboo.Soundness.Exchanges
import Taboo.Soundness.IssuedTokens

/-! # The store and the sessions behind the answers

The store is what the calls of the answered attach requests make of an empty one, each made once and in the
order of the answers. Seen from the sessions a run of the server is one of the session manager, whose calls
are those of the answered token requests and of the requests that still wait.
-/

namespace Taboo

open Machine BaseHandler ManageHandler

namespace Routed

variable {statics : StaticReplys} {env : Environment} {server after : Server} {reply : Option Reply}

/-- The call of the keeper that a request comes to. -/
def attachRequest (env : Environment) : Routed → Option (AttachHandler.RequestOf Bytes)
  | attach handler => AttachHandler.requested env.service.around.config env.service.parse env.digest
      handler
  | _ => none

/-- An attach request that reaches the keeper calls it once, and nothing else touches the store. -/
theorem process_store {handler : Routed}
    (processed : handler.process statics env server = .ok (some (reply, after))) :
    after.store = match handler.attachRequest env with
      | some request => (AttachHandler.attachWords env.astray server.store request.keys request.item
          request.upsert).2
      | none => server.store := by
  cases handler with
  | noRoute handler | status handler | detach handler =>
    cases processed
    rfl
  | predict handler =>
    obtain ⟨_, _, same⟩ := ok_of_map processed
    cases same
    rfl
  | token handler =>
    obtain ⟨outcome, _, same⟩ := ok_of_map processed
    obtain ⟨_, _, same⟩ := Option.map_eq_some_iff.mp same
    cases same
    rfl
  | attach handler =>
    obtain ⟨⟨result, store⟩, dealt, same⟩ := ok_of_map processed
    cases same
    simp only [attachRequest]
    cases reaches : AttachHandler.requested env.service.around.config env.service.parse env.digest
      handler with
    | none => exact AttachHandler.processOf_unrequested _ reaches dealt
    | some request =>
      obtain ⟨result', dealt', -⟩ := AttachHandler.processOf_requested
        (AttachHandler.attachWords env.astray) reaches server.store
      cases dealt'.symm.trans dealt
      rfl

/-- A token request that comes to `ensure` calls it once, and nothing else touches the sessions. -/
theorem process_sessions {handler : Routed}
    (processed : handler.process statics env server = .ok (some (reply, after))) :
    match Portal.ensureCall env env.now handler with
    | some call => ∃ token, server.sessions.ensure call env.candidates = some (token, after.sessions) ∧
        reply = some (genReply env.service.around.config errOk token)
    | none => after.sessions = server.sessions := by
  cases handler with
  | noRoute handler | status handler | detach handler =>
    cases processed
    rfl
  | predict handler | attach handler =>
    obtain ⟨_, _, same⟩ := ok_of_map processed
    cases same
    rfl
  | token handler =>
    obtain ⟨outcome, dealt, same⟩ := ok_of_map processed
    obtain ⟨⟨result, sessions⟩, rfl, same⟩ := Option.map_eq_some_iff.mp same
    cases same
    simp only [Portal.ensureCall]
    simp only [TokenHandler.process, ManageHandler.process] at dealt
    split_ifs at dealt ⊢ with valid
    · obtain ⟨sent, requested, ensured⟩ := ok_of_map dealt
      rw [requested]
      cases sent with
      | inl code =>
        cases ensured
        rfl
      | inr call =>
        have ensured : (server.sessions.ensure call env.candidates).map _ =
          some (result, sessions) := ensured
        obtain ⟨⟨token, manager⟩, found, same⟩ := Option.map_eq_some_iff.mp ensured
        cases same
        exact ⟨token, found, rfl⟩
    · cases dealt
      rfl

end Routed

namespace Portal

variable {statics : StaticReplys} {env : Environment} {state next : State} {event : Event}

/-! ### What one answer does -/

namespace Work

def attachRequest (env : Environment) : Work → Option (AttachHandler.RequestOf Bytes)
  | .request _ handler => handler.attachRequest env
  | .message _ => none

def ensureCall (env : Environment) (now : ℤ) : Work → Option Ensure
  | .request _ handler => Portal.ensureCall env now handler
  | .message _ => none

/-- Messages only ask. -/
theorem process_message {payload : Bytes} {server after : Server} {reply : Option Reply}
    (processed : (message payload).process statics env server = .ok (some (reply, after))) :
    after = server := by
  obtain ⟨_, _, same⟩ := ok_of_map processed
  cases same
  rfl

end Work

/-- The calls of the keeper that the answered requests have made, in the order in which they took effect. -/
def attachRequests (env : Environment) (answers : List Answer) : List (AttachHandler.RequestOf Bytes) :=
  answers.filterMap fun answer => answer.work.attachRequest env

/-- What such calls leave of a store. -/
def storeAfter (env : Environment) (store : Store) (requests : List (AttachHandler.RequestOf Bytes)) : Store :=
  requests.foldl (fun store request =>
    (AttachHandler.attachWords env.astray store request.keys request.item request.upsert).2) store

/-- The calls of `ensure`, in the order in which they returned, and the replies to them. -/
def grants (env : Environment) (answers : List Answer) : List (Ensure × Reply) :=
  answers.filterMap fun answer => (answer.work.ensureCall env answer.now).map (·, answer.reply)

theorem perform_process {work : Work} {now : ℤ} {candidates : List Bytes} {server after : Server}
    {sent : Answer} (done : perform statics env work now candidates server = some (sent, after)) :
    work.process statics { env with now, candidates } server = .ok (some (some sent.reply, after)) := by
  unfold perform at done
  split at done
  · next processed =>
    cases done
    exact processed
  · cases done

/-- An answer makes the call of its request. -/
theorem store_perform {work : Work} {now : ℤ} {candidates : List Bytes} {server after : Server}
    {sent : Answer} (done : perform statics env work now candidates server = some (sent, after)) :
    after.store = storeAfter env server.store (attachRequests env [sent]) := by
  have processed := perform_process done
  obtain ⟨rfl, -, -⟩ := perform_work done
  simp only [attachRequests, List.filterMap_cons, List.filterMap_nil]
  cases work : sent.work with
  | message payload =>
    rw [work] at processed
    exact congrArg Server.store (Work.process_message processed)
  | request index handler =>
    rw [work] at processed
    have stored := Routed.process_store processed
    simp only [Work.attachRequest]
    change after.store = match handler.attachRequest env with | some request => _ | none => _ at stored
    cases reaches : handler.attachRequest env with
    | none =>
      rw [reaches] at stored
      exact stored
    | some request =>
      rw [reaches] at stored
      exact stored

/-- A section that reads the sessions only leaves them alone, and returns the token of a call that has one. -/
theorem sessions_perform {work : Work} {now : ℤ} {candidates : List Bytes} {server after : Server}
    {sent : Answer} (done : perform statics env work now candidates server = some (sent, after))
    (found : ∀ call, work.ensureCall env now = some call → server.sessions.lookup call.identy ≠ none) :
    after.sessions = server.sessions ∧ ∀ call, work.ensureCall env now = some call →
      ∃ token, server.sessions.lookup call.identy = some token ∧
        sent.reply = genReply env.service.around.config errOk token := by
  have processed := perform_process done
  cases work with
  | message payload =>
    exact ⟨congrArg Server.sessions (Work.process_message processed), by simp [Work.ensureCall]⟩
  | request index handler =>
    have sessions := Routed.process_sessions processed
    change match ensureCall env now handler with | some call => _ | none => _ at sessions
    simp only [Work.ensureCall] at found ⊢
    cases reaches : ensureCall env now handler with
    | none =>
      rw [reaches] at sessions
      exact ⟨sessions, by simp⟩
    | some call =>
      rw [reaches] at sessions
      obtain ⟨token, ensured, replied⟩ := sessions
      obtain ⟨held, known⟩ := Option.ne_none_iff_exists'.mp (found call reaches)
      simp only [SessionManager.ensure, known] at ensured
      obtain ⟨rfl, same⟩ := Prod.mk.inj (Option.some.inj ensured)
      refine ⟨same.symm, ?_⟩
      rintro _ ⟨⟩
      exact ⟨held, known, Option.some.inj replied⟩

/-! ### The sessions -/

/-- The call that a request waits with. -/
def waitingCall (state : State) (place : ℕ) : Option Ensure :=
  state.exchanges[place]?.bind fun exchange => exchange.ensuring.map Missed.call

theorem waitingCall_set {index : ℕ} {exchange : Exchange}
    (there : state.exchanges[index]? = some exchange)
    (after : Exchange) (server : Server) (answers : List Answer) (place : ℕ) :
    waitingCall ⟨server, state.exchanges.set index after, answers⟩ place =
      if place = index then after.ensuring.map Missed.call else waitingCall state place := by
  have inside := (List.getElem?_eq_some_iff.mp there).1
  simp only [waitingCall, List.getElem?_set]
  split_ifs with same same' same'
  · rfl
  · exact absurd same.symm same'
  · exact absurd same'.symm same
  · rfl

theorem waitingCall_eq {index : ℕ} {exchange : Exchange}
    (there : state.exchanges[index]? = some exchange) :
    waitingCall state index = exchange.ensuring.map Missed.call := by
  rw [waitingCall, there, Option.bind_some]

theorem grants_append (answers : List Answer) (sent : Answer) : grants env (answers ++ [sent]) =
    grants env answers ++ ((sent.work.ensureCall env sent.now).map (·, sent.reply)).toList := by
  cases given : sent.work.ensureCall env sent.now <;> simp [grants, given]

/-- The session manager behind the server: its maps, its returned calls with the replies to them, and the
calls that wait, at the places of their requests. -/
structure Serves (env : Environment) (state : State) (sessions : SessionManager.State) : Prop where
  manager : state.server.sessions = sessions.manager
  granted : grants env state.answers =
    sessions.done.reverse.map fun done => (done.1, genReply env.service.around.config errOk done.2)
  waiting : ∃ places : List ℕ, places.Nodup ∧ places.map (waitingCall state) = sessions.pending.map some ∧
    ∀ place, waitingCall state place ≠ none → place ∈ places

theorem serves_initial : Serves env (initial Router.emptyServer) SessionManager.initial where
  manager := rfl
  granted := rfl
  waiting := ⟨[], List.nodup_nil, rfl, by simp [waitingCall, initial]⟩

/-- Sessions, grants and waiting calls are all that counts. -/
theorem Serves.frame {sessions : SessionManager.State} (serves : Serves env state sessions)
    (manager : next.server.sessions = state.server.sessions)
    (granted : grants env next.answers = grants env state.answers)
    (waiting : ∀ place, waitingCall next place = waitingCall state place) : Serves env next sessions := by
  refine ⟨manager.trans serves.manager, granted.trans serves.granted, ?_⟩
  rw [funext waiting]
  exact serves.waiting

/-- An answered request that did not have to wait. -/
theorem Serves.performed {sessions : SessionManager.State} (serves : Serves env state sessions)
    {work : Work} {now : ℤ}
    {sent : Answer} (done : perform statics env work now [] state.server = some (sent, next.server))
    (found : ∀ call, work.ensureCall env now = some call →
      state.server.sessions.lookup call.identy ≠ none)
    (answers : next.answers = state.answers ++ [sent])
    (waiting : ∀ place, waitingCall next place = waitingCall state place) :
    ∃ events sessions', run SessionManager.step sessions events = some sessions' ∧
      Serves env next sessions' := by
  obtain ⟨manager, replied⟩ := sessions_perform done found
  obtain ⟨rfl, rfl, -⟩ := perform_work done
  have granted := @grants_append env state.answers sent
  rw [← answers] at granted
  cases given : sent.work.ensureCall env sent.now with
  | none =>
    rw [given, Option.map_none, Option.toList_none, List.append_nil] at granted
    exact ⟨[], sessions, rfl, serves.frame manager granted waiting⟩
  | some call =>
    obtain ⟨token, known, same⟩ := replied call given
    refine ⟨[.lookup call], { sessions with done := (call, token) :: sessions.done }, ?_, ?_⟩
    · rw [serves.manager] at known
      simp [run_cons, SessionManager.step, known]
    · refine ⟨manager.trans serves.manager, ?_, ?_⟩
      · rw [granted, given, serves.granted, same]
        simp
      · rw [funext waiting]
        exact serves.waiting

/-- A request that finds no token under the read lock waits from now on. -/
theorem Serves.missed {sessions : SessionManager.State} (serves : Serves env state sessions) {index : ℕ}
    {exchange : Exchange} (there : state.exchanges[index]? = some exchange)
    (free : exchange.ensuring = none)
    {missed : Missed} (lost : state.server.sessions.lookup missed.call.identy = none) :
    ∃ events sessions', run SessionManager.step sessions events = some sessions' ∧
      Serves env { state with
        exchanges := state.exchanges.set index { exchange with ensuring := some missed } }
        sessions' := by
  obtain ⟨places, distinct, calls, listed⟩ := serves.waiting
  have idle : waitingCall state index = none := by rw [waitingCall_eq there, free, Option.map_none]
  have outside : index ∉ places := by
    intro member
    have waits := List.mem_map_of_mem (f := waitingCall state) member
    rw [idle, calls] at waits
    simp at waits
  refine ⟨[.lookup missed.call], { sessions with pending := sessions.pending ++ [missed.call] }, ?_, ?_⟩
  · rw [serves.manager] at lost
    simp [run_cons, SessionManager.step, lost]
  · refine ⟨serves.manager, serves.granted, places ++ [index], ?_, ?_, fun place waits => ?_⟩
    · exact List.nodup_append.mpr ⟨distinct, List.nodup_singleton index, by
        rintro _ member _ last rfl
        exact outside (List.mem_singleton.mp last ▸ member)⟩
    · rw [List.map_append, List.map_append, ← calls, List.map_singleton, List.map_singleton,
        waitingCall_set there, if_pos rfl, Option.map_some]
      congr 1
      refine List.map_congr_left fun place member => ?_
      rw [waitingCall_set there, if_neg]
      rintro rfl
      exact outside member
    · rw [waitingCall_set there] at waits
      split_ifs at waits with here
      · exact List.mem_append_right _ (List.mem_singleton.mpr here)
      · exact List.mem_append_left _ (listed place waits)

/-- The section that inserts answers a request that waits. -/
theorem Serves.inserted {sessions : SessionManager.State} (serves : Serves env state sessions) {index : ℕ}
    {exchange after : Exchange} (there : state.exchanges[index]? = some exchange) {missed : Missed}
    (waits : exchange.ensuring = some missed) (free : after.ensuring = none)
    {candidates : List Bytes} {token : Bytes}
    {manager : SessionManager} (inserted : state.server.sessions.insert missed.call candidates =
      some (token, manager))
    {sent : Answer} (own : sent.work.ensureCall env sent.now = some missed.call)
    (replied : sent.reply = genReply env.service.around.config errOk token) :
    ∃ events sessions', run SessionManager.step sessions events = some sessions' ∧
      Serves env ⟨{ state.server with sessions := manager }, state.exchanges.set index after,
        state.answers ++ [sent]⟩
        sessions' := by
  obtain ⟨places, distinct, calls, listed⟩ := serves.waiting
  have call : waitingCall state index = some missed.call := by
    rw [waitingCall_eq there, waits, Option.map_some]
  obtain ⟨turn, inside, here⟩ := List.getElem_of_mem (listed index (by simp [call]))
  have turned : sessions.pending[turn]? = some missed.call := by
    have same := congrArg (·[turn]?) calls
    simp only [List.getElem?_map, List.getElem?_eq_getElem inside, here, Option.map_some, call] at same
    cases pending : sessions.pending[turn]? with
    | none => simp [pending] at same
    | some waiting => simpa [pending] using same.symm
  rw [serves.manager] at inserted
  refine ⟨[.insert turn candidates], ⟨manager, sessions.pending.eraseIdx turn,
    (missed.call, token) :: sessions.done⟩,
    ?_, ?_⟩
  · simp [run_cons, SessionManager.step, turned, inserted]
  · have left : places.eraseIdx turn = places.erase index := by rw [← here, distinct.erase_getElem]
    refine ⟨rfl, ?_, places.erase index, distinct.erase index, ?_, fun place waits => ?_⟩
    · rw [grants_append, own, serves.granted, replied]
      simp
    · rw [← List.eraseIdx_map, ← calls, List.eraseIdx_map, left]
      refine List.map_congr_left fun place member => ?_
      rw [waitingCall_set there, if_neg (distinct.mem_erase_iff.mp member).1]
    · rw [waitingCall_set there] at waits
      split_ifs at waits with same
      · exact absurd (by rw [free, Option.map_none]) waits
      · exact distinct.mem_erase_iff.mpr ⟨same, listed place waits⟩

theorem missedCall_eq_none_iff {now : ℤ} {sessions : SessionManager} {handler : Routed} :
    missedCall env now sessions handler = none ↔
      ∀ call, ensureCall env now handler = some call → sessions.lookup call.identy ≠ none := by
  simp [missedCall, Option.filter_eq_none_iff]

theorem Serves.step {sessions : SessionManager.State} (serves : Serves env state sessions)
    (settled : Settled env state) (taken : step statics env state event = some next) :
    ∃ events sessions', run SessionManager.step sessions events = some sessions' ∧
      Serves env next sessions' := by
  cases stepped_of_step taken with
  | arrived request =>
    refine ⟨[], sessions, rfl, serves.frame rfl rfl fun place => ?_⟩
    simp only [waitingCall, List.getElem?_append]
    split_ifs with before
    · rfl
    · rw [List.getElem?_eq_none (not_lt.mp before), Option.bind_none, Option.bind_eq_none_iff]
      intro exchange known
      obtain rfl := List.mem_singleton.mp (List.mem_of_getElem? known)
      rfl
  | called index exchange callback now left there free other stepped =>
    refine ⟨[], sessions, rfl, serves.frame rfl rfl fun place => ?_⟩
    rw [waitingCall_set there]
    split_ifs with same
    · rw [same, waitingCall_eq there]
    · rfl
  | missed index exchange callback now handler answer call there free last missed =>
    have lost := (Option.filter_eq_some_iff.mp missed).2
    exact @Serves.missed env state sessions serves index exchange there free ⟨call, now⟩
      (by simpa using lost)
  | performed index exchange callback now handler answer sent server there free last found done =>
    refine serves.performed done (missedCall_eq_none_iff.mp found) rfl fun place => ?_
    rw [waitingCall_set there]
    split_ifs with same
    · rw [same, waitingCall_eq there, free]
      rfl
    · rfl
  | inserted index exchange missed closure candidates answer token manager there waits opened inserted =>
    obtain ⟨-, closure', opened', own⟩ := (settled.sane index exchange there).waits missed waits
    obtain rfl := Option.some.inj (opened.symm.trans opened')
    exact serves.inserted there waits rfl inserted own rfl
  | messaged payload now sent server done =>
    exact serves.performed done (by simp [Work.ensureCall]) rfl fun _ => rfl

/-! ### The store -/

/-- The store is what the calls so far make of an empty one. -/
def Stored (env : Environment) (state : State) : Prop :=
  state.server.store = storeAfter env .empty (attachRequests env state.answers)

/-- The new answers make their calls. -/
theorem Stored.append (stored : Stored env state) {more : List Answer}
    (answers : next.answers = state.answers ++ more)
    (store : next.server.store = storeAfter env state.server.store (attachRequests env more)) :
    Stored env next := by
  rw [Stored, answers, store, stored, attachRequests, attachRequests, attachRequests, List.filterMap_append]
  exact List.foldl_append.symm

theorem Stored.step (stored : Stored env state) (settled : Settled env state)
    (taken : step statics env state event = some next) : Stored env next := by
  cases stepped_of_step taken with
  | arrived | called | missed => exact stored
  | performed index exchange callback now handler answer sent server there free last found done =>
    exact stored.append rfl (store_perform done)
  | messaged payload now sent server done => exact stored.append rfl (store_perform done)
  | inserted index exchange missed closure candidates answer token sessions there waits opened inserted =>
    obtain ⟨-, closure', opened', own⟩ := (settled.sane index exchange there).waits missed waits
    obtain rfl := Option.some.inj (opened.symm.trans opened')
    -- only a token request waits
    have silent : closure.handler.attachRequest env = none := by
      cases made : closure.handler <;> simp [made, ensureCall, Routed.attachRequest] at own ⊢
    refine stored.append rfl ?_
    simp [attachRequests, Work.attachRequest, silent, storeAfter]

/-! ### Runs -/

/-- The calls behind the server. -/
theorem behind_run {events : List Event}
    (ran : run (step statics env) (initial Router.emptyServer) events = some state) :
    Settled env state ∧ Stored env state ∧
      ∃ calls sessions, run SessionManager.step SessionManager.initial calls = some sessions ∧
        Serves env state sessions := by
  refine run_invariant (P := fun state => Settled env state ∧ Stored env state ∧
    ∃ calls sessions, run SessionManager.step SessionManager.initial calls = some sessions ∧
      Serves env state sessions) ?_ ?_ ran
  · rintro state event next ⟨settled, stored, calls, sessions, called, serves⟩ taken
    refine ⟨settled.step taken, stored.step settled taken, ?_⟩
    obtain ⟨more, sessions', called', serves'⟩ := serves.step settled taken
    exact ⟨calls ++ more, sessions', by rw [run_append, called, Option.bind_some, called'], serves'⟩
  · exact ⟨settled_initial _, rfl, [], _, rfl, serves_initial⟩

end Portal

end Taboo
