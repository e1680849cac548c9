import Taboo.Model.Portal
import Taboo.Soundness.RequestLifeCycle

/-! # Requests side by side

However the callbacks of many requests, the insertions that some of them wait for and the messages of the
web sockets interleave, each request goes through its own callbacks only: its closure lives and dies as if
there were no other, and it is answered once for each time that it is processed.
-/

namespace Taboo.Portal

open Machine Manager

variable {statics : StaticReplys} {env : Environment} {state next : State} {event : Event}

/-- What an event does. -/
inductive Stepped (statics : StaticReplys) (env : Environment) (state : State) : Event → State → Prop
  | arrived (request : Request) : Stepped statics env state (.arrive request)
      { state with exchanges := state.exchanges ++ [⟨request, Manager.initial state.server, none⟩] }
  | called (index : ℕ) (exchange : Exchange) (callback : Callback) (now : ℤ) (left : Manager.State)
      (there : state.exchanges[index]? = some exchange) (free : exchange.ensuring = none)
      (other : exchange.processing callback = none)
      (taken : Manager.step statics { env with now } exchange.request
        { exchange.state with server := state.server }
        callback = some left) :
      Stepped statics env state (.callback index callback now)
        { state with exchanges := state.exchanges.set index { exchange with state := left } }
  | missed (index : ℕ) (exchange : Exchange) (callback : Callback) (now : ℤ) (handler : Routed)
      (answer : Bool)
      (call : Ensure) (there : state.exchanges[index]? = some exchange) (free : exchange.ensuring = none)
      (last : exchange.processing callback = some (handler, answer))
      (missed : missedCall env now state.server.sessions handler = some call) :
      Stepped statics env state (.callback index callback now)
        { state with
          exchanges := state.exchanges.set index { exchange with ensuring := some ⟨call, now⟩ } }
  | performed (index : ℕ) (exchange : Exchange) (callback : Callback) (now : ℤ) (handler : Routed)
      (answer : Bool)
      (sent : Answer) (server : Server) (there : state.exchanges[index]? = some exchange)
      (free : exchange.ensuring = none) (last : exchange.processing callback = some (handler, answer))
      (found : missedCall env now state.server.sessions handler = none)
      (done : perform statics env (.request index handler) now [] state.server = some (sent, server)) :
      Stepped statics env state (.callback index callback now)
        ⟨server, state.exchanges.set index (exchange.answered answer server), state.answers ++ [sent]⟩
  | inserted (index : ℕ) (exchange : Exchange) (missed : Missed) (closure : Closure)
      (candidates : List Bytes) (answer : Bool) (token : Bytes) (sessions : SessionManager)
      (there : state.exchanges[index]? = some exchange) (waits : exchange.ensuring = some missed)
      (opened : exchange.state.conClosure = some closure)
      (inserted : state.server.sessions.insert missed.call candidates = some (token, sessions)) :
      Stepped statics env state (.insert index candidates answer)
        ⟨{ state.server with sessions },
          state.exchanges.set index (exchange.answered answer { state.server with sessions }),
          state.answers ++ [⟨.request index closure.handler, missed.now, candidates,
            genReply env.service.around.config BaseHandler.errOk token⟩]⟩
  | messaged (payload : Bytes) (now : ℤ) (sent : Answer) (server : Server)
      (done : perform statics env (.message payload) now [] state.server = some (sent, server)) :
      Stepped statics env state (.message payload now)
        { state with server, answers := state.answers ++ [sent] }

theorem stepped_of_step (taken : step statics env state event = some next) :
    Stepped statics env state event next := by
  cases event with
  | arrive request =>
    cases taken
    exact .arrived request
  | callback index callback now =>
    simp only [step] at taken
    split at taken
    · cases taken
    · next exchange there =>
      split_ifs at taken with waits
      have free : exchange.ensuring = none := by simpa using waits
      split at taken
      · next handler answer last =>
        split at taken
        · next call missed =>
          cases taken
          exact .missed index exchange callback now handler answer call there free last missed
        · next found =>
          obtain ⟨⟨sent, server⟩, done, rfl⟩ := Option.map_eq_some_iff.mp taken
          exact .performed index exchange callback now handler answer sent server there free last
            found done
      · next other =>
        obtain ⟨left, stepped, rfl⟩ := Option.map_eq_some_iff.mp taken
        exact .called index exchange callback now left there free other stepped
  | insert index candidates answer =>
    simp only [step] at taken
    split at taken
    · cases taken
    · next exchange there =>
      split at taken
      · next missed closure waits opened =>
        obtain ⟨⟨token, sessions⟩, inserted, rfl⟩ := Option.map_eq_some_iff.mp taken
        exact .inserted index exchange missed closure candidates answer token sessions there waits
          opened inserted
      · cases taken
  | message payload now =>
    obtain ⟨⟨sent, server⟩, done, rfl⟩ := Option.map_eq_some_iff.mp taken
    exact .messaged payload now sent server done

/-! ### The last callback -/

theorem Exchange.processing_eq_some_iff {exchange : Exchange} {callback : Callback} {handler : Routed}
    {answer : Bool} : exchange.processing callback = some (handler, answer) ↔
      callback = .handleReqpest none answer ∧ exchange.state.stage = .receiving ∧
        ∃ closure, exchange.state.conClosure = some closure ∧ closure.handler = handler := by
  constructor
  · intro last
    unfold Exchange.processing at last
    split at last
    · split at last
      · next closure stage opened =>
        cases last
        exact ⟨rfl, stage, closure, opened, rfl⟩
      · cases last
    · cases last
  · rintro ⟨rfl, stage, closure, opened, rfl⟩
    simp [Exchange.processing, stage, opened]

/-- The callback that processes a request is the last call of `handleReqpest`, performed on the shared
server. -/
theorem Exchange.step_processing {exchange : Exchange} {callback : Callback} {handler : Routed}
    {answer : Bool}
    (last : exchange.processing callback = some (handler, answer)) (index : ℕ) (server : Server) :
    Manager.step statics env exchange.request { exchange.state with server } callback =
      (perform statics env (.request index handler) env.now env.candidates server).map fun done =>
        (exchange.answered answer done.2).state := by
  obtain ⟨rfl, stage, closure, opened, rfl⟩ := processing_eq_some_iff.mp last
  simp only [Manager.step, stage, handleReqpest, opened, perform, Work.process, Option.isSome_none]
  rcases closure.handler.process statics env server with fault | _ | ⟨_ | reply, after⟩ <;>
    cases answer <;> rfl

/-! ### One request among others -/

/-- Between its callbacks a request does not look at its own server. -/
theorem consistent_server {request : Request} {left : Manager.State}
    (consistent : Manager.Consistent request left)
    (server : Server) : Manager.Consistent request { left with server } := by
  cases consistent with
  | waiting stage closed unborn processed => exact .waiting stage closed unborn processed
  | receiving stage closure opened posts live processed =>
    exact .receiving stage closure opened posts live processed
  | refused stage closure opened live processed => exact .refused stage closure opened live processed
  | closed stage closed dead processed => exact .closed stage closed dead processed
  | completed stage dead processed => exact .completed stage dead processed

/-- The closure is where the request is, its body found a post processor or did not, and a call that the
request waits for is the one of its handler. -/
structure Sane (env : Environment) (exchange : Exchange) : Prop where
  consistent : Manager.Consistent exchange.request exchange.state
  posted : ∀ called ∈ exchange.state.posted, (called = true ↔ exchange.request.Posts)
  waits : ∀ missed, exchange.ensuring = some missed → exchange.state.stage = .receiving ∧
    ∃ closure, exchange.state.conClosure = some closure ∧
      ensureCall env missed.now closure.handler = some missed.call

theorem Sane.answered {exchange : Exchange} (sane : Sane env exchange)
    (stage : exchange.state.stage = .receiving)
    (answer : Bool) (server : Server) : Sane env (exchange.answered answer server) :=
  ⟨sane.consistent.of_stepped (.last stage answer answer server), sane.posted,
    by simp [Exchange.answered]⟩

theorem Sane.called {exchange : Exchange} (sane : Sane env exchange) (free : exchange.ensuring = none)
    {callback : Callback} {now : ℤ} {server : Server} {left : Manager.State}
    (taken : Manager.step statics { env with now } exchange.request
      { exchange.state with server } callback =
      some left) : Sane env { exchange with state := left } := by
  have consistent := consistent_server sane.consistent server
  refine ⟨consistent.step taken, (consistent.stepped taken).posted sane.posted, fun missed waits => ?_⟩
  cases free.symm.trans waits

/-- A callback that does not process its request leaves it as often processed as it was. -/
theorem Sane.called_processed {exchange : Exchange} (sane : Sane env exchange) {callback : Callback}
    {now : ℤ} {server : Server} {left : Manager.State} (other : exchange.processing callback = none)
    (taken : Manager.step statics { env with now } exchange.request
      { exchange.state with server } callback =
      some left) : left.processed = exchange.state.processed := by
  cases (consistent_server sane.consistent server).stepped taken with
  | first | upload | completed => rfl
  | last stage answer yes after =>
    obtain ⟨closure, opened, -⟩ := sane.consistent.of_receiving stage
    have last : exchange.processing (.handleReqpest none answer) = some (closure.handler, answer) :=
      Exchange.processing_eq_some_iff.mpr ⟨rfl, stage, closure, opened, rfl⟩
    cases other.symm.trans last

/-- Every request is sane, and was answered as often as it was processed. -/
structure Settled (env : Environment) (state : State) : Prop where
  sane : ∀ (index : ℕ) (exchange : Exchange), state.exchanges[index]? = some exchange → Sane env exchange
  counted : ∀ (index : ℕ) (exchange : Exchange), state.exchanges[index]? = some exchange →
    state.answers.countP (fun answer => answer.work.index? = some index) = exchange.state.processed
  known : ∀ answer ∈ state.answers, ∀ index, answer.work.index? = some index →
    index < state.exchanges.length

theorem settled_initial (server : Server) : Settled env (initial server) := by
  constructor <;> simp [initial]

theorem perform_work {work : Work} {now : ℤ} {candidates : List Bytes} {server after : Server}
    {sent : Answer} (done : perform statics env work now candidates server = some (sent, after)) :
    sent.work = work ∧ sent.now = now ∧ sent.candidates = candidates := by
  unfold perform at done
  split at done
  · cases done
    exact ⟨rfl, rfl, rfl⟩
  · cases done

/-- A request that is not answered on the way, at its own place. -/
theorem Settled.keep (settled : Settled env state) {index : ℕ} {exchange after : Exchange}
    (there : state.exchanges[index]? = some exchange) (sane : Sane env after)
    (processed : after.state.processed = exchange.state.processed) :
    Settled env { state with exchanges := state.exchanges.set index after } := by
  have inside := (List.getElem?_eq_some_iff.mp there).1
  constructor
  · intro other found known
    rw [List.getElem?_set] at known
    split_ifs at known
    · cases known
      exact sane
    · exact settled.sane other found known
  · intro other found known
    rw [List.getElem?_set] at known
    split_ifs at known with same
    · cases known
      rw [processed, ← same]
      exact settled.counted index exchange there
    · exact settled.counted other found known
  · rw [List.length_set]
    exact settled.known

/-- A request that is answered. -/
theorem Settled.answer (settled : Settled env state) {index : ℕ} {exchange : Exchange}
    (there : state.exchanges[index]? = some exchange) (stage : exchange.state.stage = .receiving)
    (answer : Bool) {sent : Answer} (own : sent.work.index? = some index) (server : Server) :
    Settled env ⟨server, state.exchanges.set index (exchange.answered answer server),
      state.answers ++ [sent]⟩ := by
  have inside := (List.getElem?_eq_some_iff.mp there).1
  constructor
  · intro other found known
    rw [List.getElem?_set] at known
    split_ifs at known
    · cases known
      exact (settled.sane index exchange there).answered stage answer server
    · exact settled.sane other found known
  · intro other found known
    rw [List.getElem?_set] at known
    rw [List.countP_append, List.countP_singleton, own]
    split_ifs at known with same
    · cases known
      subst same
      simp [settled.counted index exchange there, Exchange.answered]
    · simp [settled.counted other found known, same]
  · intro other member place own'
    rw [List.length_set]
    rcases List.mem_append.mp member with before | last
    · exact settled.known other before place own'
    · rw [List.mem_singleton.mp last, own] at own'
      exact Option.some.inj own' ▸ inside

theorem Settled.step (settled : Settled env state) (taken : step statics env state event = some next) :
    Settled env next := by
  cases stepped_of_step taken with
  | arrived request =>
    refine ⟨fun index exchange => ?_, fun index exchange => ?_, fun answer member index own => ?_⟩
    · intro known
      rw [List.getElem?_append] at known
      split_ifs at known with before
      · exact settled.sane index exchange known
      · obtain rfl := List.mem_singleton.mp (List.mem_of_getElem? known)
        exact ⟨consistent_initial request state.server, by simp [Manager.initial], by simp⟩
    · intro known
      rw [List.getElem?_append] at known
      split_ifs at known with before
      · exact settled.counted index exchange known
      · obtain rfl := List.mem_singleton.mp (List.mem_of_getElem? known)
        rw [Manager.initial, List.countP_eq_zero]
        intro answer member
        simpa using fun own => before (settled.known answer member index own)
    · rw [List.length_append]
      exact Nat.lt_add_right _ (settled.known answer member index own)
  | called index exchange callback now left there free other stepped =>
    have sane := settled.sane index exchange there
    exact settled.keep there (sane.called free stepped) (sane.called_processed other stepped)
  | missed index exchange callback now handler answer call there free last missed =>
    have sane := settled.sane index exchange there
    obtain ⟨-, stage, closure, opened, rfl⟩ := Exchange.processing_eq_some_iff.mp last
    refine settled.keep there ⟨sane.consistent, sane.posted, fun waiting own => ?_⟩ rfl
    obtain rfl := Option.some.inj own
    exact ⟨stage, closure, opened, (Option.filter_eq_some_iff.mp missed).1⟩
  | performed index exchange callback now handler answer sent server there free last found done =>
    obtain ⟨-, stage, -⟩ := Exchange.processing_eq_some_iff.mp last
    have own : sent.work.index? = some index := by rw [(perform_work done).1]; rfl
    exact settled.answer there stage answer own server
  | inserted index exchange missed closure candidates answer token sessions there waits opened inserted =>
    obtain ⟨stage, -⟩ := (settled.sane index exchange there).waits missed waits
    exact settled.answer there stage answer rfl _
  | messaged payload now sent server done =>
    have own : sent.work.index? = none := by rw [(perform_work done).1]; rfl
    refine ⟨settled.sane, fun index exchange known => ?_, fun answer member => ?_⟩
    · rw [List.countP_append, List.countP_singleton, own]
      simpa using settled.counted index exchange known
    · rcases List.mem_append.mp member with before | last
      · exact settled.known answer before
      · simp [List.mem_singleton.mp last, own]

/-- In every run, each request is answered once at most, and if it was, its closure is gone. The closure is
made once, used while it is live and destroyed once, and its life cycle is kept exactly if its own body
was posted to a post processor, which only a request that posts has. -/
theorem exchanges_apart {server : Server} {events : List Event}
    (ran : run (step statics env) (initial server) events = some state) {index : ℕ}
    {exchange : Exchange} (there : state.exchanges[index]? = some exchange) :
    let count := state.answers.countP fun answer => answer.work.index? = some index
    count ≤ 1 ∧ (count = 1 → Lifetime.after exchange.state.history = some .dead) ∧
      Lives exchange.state ∧
      (∀ called ∈ exchange.state.posted, (called = true ↔ exchange.request.Posts)) ∧
      (LifeCycle exchange.state ↔ ∀ called ∈ exchange.state.posted, called = true) := by
  have settled : Settled env state :=
    run_invariant (fun _ _ _ settled taken => settled.step taken) (settled_initial server) ran
  have sane := settled.sane index exchange there
  rw [settled.counted index exchange there]
  refine ⟨sane.consistent.processed_le, fun answered => ?_, sane.consistent.lives, sane.posted,
    sane.consistent.lifeCycle_iff⟩
  cases sane.consistent with
  | waiting _ _ _ processed | receiving _ _ _ _ _ processed | refused _ _ _ _ processed => omega
  | closed _ _ dead | completed _ dead => exact dead

/-- Two clients post to the attach route; the second is gone before it has sent all of its body. -/
def secondGivenUp : List Event :=
  [.arrive postAttach, .arrive postAttach, .callback 1 (.handleReqpest none true) 0,
    .callback 0 (.handleReqpest none true) 0,
    .callback 1 (.handleReqpest (some [(ascii "item", ascii "1", 0)]) true) 1,
    .callback 0 (.handleReqpest none true) 2, .callback 1 .onRequestCompleted 3]

theorem exchanges_apart_secondGivenUp : ∃ state exchange,
    run (step (Router.initialized default) Router.unsignedEnvironment) (initial Router.emptyServer)
      secondGivenUp = some state ∧
    state.exchanges[0]? = some exchange ∧
    state.answers.countP (fun answer => answer.work.index? = some 0) = 1 ∧
    Lifetime.after exchange.state.history = some .dead := by
  refine ⟨_, _, rfl, rfl, rfl, ?_⟩
  exact (@exchanges_apart (Router.initialized default) Router.unsignedEnvironment _
    Router.emptyServer secondGivenUp
    rfl 0 _ rfl).2.1 rfl

/-! ### Requests that are given up -/

theorem step_of_stepped (stepped : Stepped statics env state event next) :
    step statics env state event = some next := by
  cases stepped with
  | arrived request => rfl
  | called index exchange callback now left there free other taken =>
      simp [step, there, free, other, taken]
  | missed index exchange callback now handler answer call there free last missed =>
    simp [step, there, free, last, missed]
  | performed index exchange callback now handler answer sent server there free last found done =>
    simp [step, there, free, last, found, done]
  | inserted index exchange missed closure candidates answer token sessions there waits opened inserted =>
    simp [step, there, waits, opened, inserted]
  | messaged payload now sent server done => simp [step, done]

/-- Answers are never taken back. -/
theorem answers_kept (taken : step statics env state event = some next) :
    state.answers <+: next.answers := by
  cases stepped_of_step taken with
  | arrived | called | missed => exact List.prefix_rfl
  | performed | inserted | messaged => exact List.prefix_append _ _

def Event.concerns (index : ℕ) : Event → Bool
  | .callback other _ _ => other = index
  | .insert other _ _ => other = index
  | _ => false

/-- The same, except for one request. -/
structure SameBut (index : ℕ) (state other : State) : Prop where
  server : state.server = other.server
  answers : state.answers = other.answers
  length : state.exchanges.length = other.exchanges.length
  exchanges : ∀ place, place ≠ index → state.exchanges[place]? = other.exchanges[place]?

namespace SameBut

variable {index : ℕ} {other : State}

theorem set (same : SameBut index state other) (place : ℕ) (exchange : Exchange) (server : Server)
    (answers : List Answer) : SameBut index ⟨server, state.exchanges.set place exchange, answers⟩
      ⟨server, other.exchanges.set place exchange, answers⟩ where
  server := rfl
  answers := rfl
  length := by rw [List.length_set, List.length_set, same.length]
  exchanges place' ne := by simp only [List.getElem?_set, same.length, same.exchanges place' ne]

/-- What does not concern the request is done to both. -/
theorem step (same : SameBut index state other) (apart : event.concerns index = false)
    (taken : step statics env state event = some next) :
    ∃ next', Portal.step statics env other event = some next' ∧ SameBut index next next' := by
  obtain ⟨server, exchanges, answers⟩ := state
  obtain ⟨server', exchanges', answers'⟩ := other
  obtain ⟨rfl, rfl, -, -⟩ := id same
  cases stepped_of_step taken with
  | arrived request =>
    refine ⟨_, step_of_stepped (.arrived request), rfl, rfl, ?_, fun place ne => ?_⟩
    · simpa using same.length
    · simp only [List.getElem?_append, same.length, same.exchanges place ne]
  | called place exchange callback now left there free last stepped =>
    have known := (same.exchanges place (by simpa [Event.concerns] using apart)).symm.trans there
    exact ⟨_, step_of_stepped (.called place exchange callback now left known free last stepped),
      same.set ..⟩
  | missed place exchange callback now handler answer call there free last missed =>
    have known := (same.exchanges place (by simpa [Event.concerns] using apart)).symm.trans there
    exact ⟨_, step_of_stepped (.missed place exchange callback now handler answer call known free
      last missed), same.set ..⟩
  | performed place exchange callback now handler answer sent after there free last found done =>
    have known := (same.exchanges place (by simpa [Event.concerns] using apart)).symm.trans there
    exact ⟨_, step_of_stepped (.performed place exchange callback now handler answer sent after
      known free last found done), same.set ..⟩
  | inserted place exchange missed closure candidates answer token sessions there waits opened inserted =>
    have known := (same.exchanges place (by simpa [Event.concerns] using apart)).symm.trans there
    exact ⟨_, step_of_stepped (.inserted place exchange missed closure candidates answer token
      sessions known waits opened inserted), same.set ..⟩
  | messaged payload now sent after done =>
    exact ⟨_, step_of_stepped (.messaged payload now sent after done), rfl, rfl, same.length,
      same.exchanges⟩

/-- What concerns the request, and does not answer it, shows nowhere else. -/
theorem skip (same : SameBut index state other) (concerns : event.concerns index = true)
    (taken : Portal.step statics env state event = some next)
    (silent : ∀ answer ∈ next.answers, answer.work.index? ≠ some index) : SameBut index next other := by
  have unseen : ∀ exchange,
      SameBut index { state with exchanges := state.exchanges.set index exchange } other := by
    intro exchange
    refine ⟨same.server, same.answers, by rw [List.length_set, same.length], fun place ne => ?_⟩
    rw [List.getElem?_set_ne ne.symm, same.exchanges place ne]
  cases stepped_of_step taken with
  | arrived | messaged => simp [Event.concerns] at concerns
  | called place | missed place =>
    obtain rfl : place = index := by simpa [Event.concerns] using concerns
    exact unseen _
  | performed place exchange callback now handler answer sent server there free last found done =>
    obtain rfl : place = index := by simpa [Event.concerns] using concerns
    refine absurd ?_ (silent sent (List.mem_append_right _ List.mem_cons_self))
    rw [(perform_work done).1]
    rfl
  | inserted place =>
    obtain rfl : place = index := by simpa [Event.concerns] using concerns
    exact absurd rfl (silent _ (List.mem_append_right _ List.mem_cons_self))

/-- A run that does not answer the request goes on in the same way without it. -/
theorem run {events : List Event} {final : State} (same : SameBut index state other)
    (ran : Machine.run (Portal.step statics env) state events = some final)
    (silent : ∀ answer ∈ final.answers, answer.work.index? ≠ some index) :
    ∃ final', Machine.run (Portal.step statics env) other
      (events.filter fun event => !event.concerns index) =
      some final' ∧ SameBut index final final' := by
  induction events generalizing state other with
  | nil =>
    cases ran
    exact ⟨other, rfl, same⟩
  | cons event rest ih =>
    rw [run_cons] at ran
    obtain ⟨middle, taken, ran⟩ := Option.bind_eq_some_iff.mp ran
    cases concerns : event.concerns index with
    | true =>
      have kept : middle.answers <+: final.answers :=
        run_invariant (P := fun later => middle.answers <+: later.answers)
          (fun _ _ _ held taken => held.trans (answers_kept taken)) List.prefix_rfl ran
      rw [List.filter_cons_of_neg (by simp [concerns])]
      exact ih (same.skip concerns taken fun answer member => silent answer (kept.subset member)) ran
    | false =>
      obtain ⟨middle', taken', same'⟩ := same.step concerns taken
      rw [List.filter_cons_of_pos (by simp [concerns]), run_cons, taken', Option.bind_some]
      exact ih same' ran

end SameBut

end Taboo.Portal
