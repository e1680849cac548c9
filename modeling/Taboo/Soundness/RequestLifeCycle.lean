import Taboo.Model.Manager
import Taboo.Soundness.Replies

/-! # The life of a closure

Between the callbacks of one request the closure is alive exactly as long as `conClosure` points to it,
except after the completion. Whether it has a post processor is decided by the method that the handler
was given, and a handler without a route was given none; the parts of a body arrive all the same.
-/

namespace Taboo

namespace Routed

variable {config : Config} {parse : Parser}

/-- Parameters leave the method alone. -/
theorem addParam_method (routed : Routed) (key value : Bytes) :
    (routed.addParam config parse key value).method = routed.method := by
  cases routed <;> rfl

theorem setMeta_method (method uri : Bytes) (routed : Routed) : (routed.setMeta method uri).method =
    if method = [] ∨ uri = [] then routed.method else method := by
  have set : ∀ {σ : Type} (handler : Handler σ), (BaseHandler.setMeta handler method uri).2.method =
      if method = [] ∨ uri = [] then handler.method else method := by
    intro σ handler
    unfold BaseHandler.setMeta
    split_ifs <;> rfl
  cases routed <;> exact set _

end Routed

namespace Manager

open Machine

/-- The request is posted, and to a route. -/
def Request.Posts (request : Request) : Prop :=
  request.method = Routed.methodPost ∧ request.uri ∈ Router.creators.map Prod.fst

/-- Only a handler with a route knows that it is posted to. -/
theorem route_isPost_iff (method uri : Bytes) : (Router.route method uri).isPost = true ↔
    method = Routed.methodPost ∧ uri ∈ Router.creators.map Prod.fst := by
  have created : ∀ entry ∈ Router.creators, entry.1 ≠ [] ∧ entry.2.method = [] := by decide
  unfold Router.route
  split_ifs with empty
  · subst empty
    exact iff_of_false (by decide) fun posts => absurd posts.2 (by decide)
  · cases found : Router.creators.find? fun entry => entry.1 == uri with
    | none =>
      refine iff_of_false (show ¬(Routed.noRoute (BaseHandler.create ())).isPost = true by decide)
        fun posts => ?_
      obtain ⟨entry, listed, same⟩ := List.mem_map.mp posts.2
      exact List.find?_eq_none.mp found entry listed (beq_iff_eq.mpr same)
    | some entry =>
      have listed := List.mem_of_find?_eq_some found
      obtain rfl : entry.1 = uri := by simpa using List.find?_some found
      rw [and_iff_left (List.mem_map_of_mem listed)]
      simp only [Routed.isPost, decide_eq_true_eq, Routed.setMeta_method, (created entry listed).2,
        empty, or_false]
      split_ifs with nothing
      · subst nothing
        decide
      · rfl

theorem createClosure_isPost_iff (env : Environment) (request : Request) :
    (createClosure env request).isPost = true ↔ request.Posts := by
  rw [Request.Posts, ← route_isPost_iff, createClosure]
  generalize Router.route request.method request.uri = routed
  induction request.arguments generalizing routed with
  | nil => rfl
  | cons argument rest ih =>
    refine (ih _).trans ?_
    simp [Routed.isPost, Routed.addGetParam, Routed.addParam_method]

variable {statics : StaticReplys} {env : Environment} {request : Request} {state next : State}

/-- Where a request can be, with its closure. -/
inductive Consistent (request : Request) (state : State) : Prop
  | waiting (stage : state.stage = .waiting) (closed : state.conClosure = none)
      (unborn : Lifetime.after state.history = some .unborn) (processed : state.processed = 0)
  | receiving (stage : state.stage = .receiving) (closure : Closure) (opened : state.conClosure = some closure)
      (posts : closure.postProcessor = true ↔ request.Posts)
      (live : Lifetime.after state.history = some .live) (processed : state.processed = 0)
  | refused (stage : state.stage = .refused) (closure : Closure) (opened : state.conClosure = some closure)
      (live : Lifetime.after state.history = some .live) (processed : state.processed = 0)
  | closed (stage : state.stage = .refused ∨ state.stage = .answered) (closed : state.conClosure = none)
      (dead : Lifetime.after state.history = some .dead) (processed : state.processed = 1)
  | completed (stage : state.stage = .completed) (dead : Lifetime.after state.history = some .dead)
      (processed : state.processed ≤ 1)

theorem consistent_initial (request : Request) (server : Server) : Consistent request (initial server) :=
  .waiting rfl rfl rfl rfl

/-- A call that makes the closure. -/
theorem handleReqpest_first (closed : state.conClosure = none) {upload : Option (List Piece)}
    {answer yes : Bool}
    (called : handleReqpest statics env request state upload answer = some (yes, next)) :
    ∃ closure count, next = { state with
        conClosure := some closure, history := state.history ++ .create :: .replicate count .use } ∧
      (yes = true → (closure.postProcessor = true ↔ request.Posts)) := by
  simp only [handleReqpest, closed] at called
  split_ifs at called with post
  · cases called
    exact ⟨_, _, rfl, fun supported => iff_of_true supported ((createClosure_isPost_iff ..).mp post)⟩
  · cases called
    exact ⟨_, _, rfl, fun _ => iff_of_false (by simp) ((createClosure_isPost_iff ..).not.mp post)⟩

/-- A call with a part of the body. -/
theorem handleReqpest_upload {closure : Closure} (opened : state.conClosure = some closure)
    {pieces : List Piece} {answer yes : Bool}
    (called : handleReqpest statics env request state (some pieces) answer = some (yes, next)) :
    ∃ handler count, next = { state with
      conClosure := some { closure with handler }
      history := state.history ++ .replicate count .use
      posted := state.posted ++ [closure.postProcessor] } := by
  simp only [handleReqpest, opened] at called
  cases called
  exact ⟨_, _, rfl⟩

/-- The last call. -/
theorem handleReqpest_last {closure : Closure} (opened : state.conClosure = some closure) {answer yes : Bool}
    (called : handleReqpest statics env request state none answer = some (yes, next)) :
    ∃ server, next = { state with
      conClosure := none
      history := state.history ++ [.use, .destroy]
      processed := state.processed + 1
      server } := by
  simp only [handleReqpest, opened] at called
  split at called
  · cases called
    exact ⟨_, rfl⟩
  · cases called

theorem Consistent.of_waiting (consistent : Consistent request state) (stage : state.stage = .waiting) :
    state.conClosure = none ∧ Lifetime.after state.history = some .unborn ∧ state.processed = 0 := by
  rcases consistent with ⟨_, closed, unborn, processed⟩ | ⟨other, _⟩ | ⟨other, _⟩ |
    ⟨other | other, _⟩ | ⟨other, _⟩
  · exact ⟨closed, unborn, processed⟩
  all_goals cases stage.symm.trans other

theorem Consistent.of_receiving (consistent : Consistent request state) (stage : state.stage = .receiving) :
    ∃ closure, state.conClosure = some closure ∧ (closure.postProcessor = true ↔ request.Posts) ∧
      Lifetime.after state.history = some .live ∧ state.processed = 0 := by
  rcases consistent with ⟨other, _⟩ | ⟨_, closure, opened, posts, live, processed⟩ | ⟨other, _⟩ |
    ⟨other | other, _⟩ | ⟨other, _⟩
  · cases stage.symm.trans other
  · exact ⟨closure, opened, posts, live, processed⟩
  all_goals cases stage.symm.trans other

/-- What a callback does. -/
inductive Stepped (request : Request) (state : State) : Callback → State → Prop
  | first (stage : state.stage = .waiting) (answer yes : Bool) (closure : Closure) (count : ℕ)
      (posts : yes = true → (closure.postProcessor = true ↔ request.Posts)) :
      Stepped request state (.handleReqpest none answer) { state with
        stage := if yes then .receiving else .refused
        conClosure := some closure
        history := state.history ++ .create :: .replicate count .use }
  | upload (stage : state.stage = .receiving) (pieces : List Piece) (answer yes : Bool) (closure : Closure)
      (handler : Routed) (count : ℕ) (posts : closure.postProcessor = true ↔ request.Posts) :
      Stepped request state (.handleReqpest (some pieces) answer) { state with
        stage := if yes then .receiving else .refused
        conClosure := some { closure with handler }
        history := state.history ++ .replicate count .use
        posted := state.posted ++ [closure.postProcessor] }
  | last (stage : state.stage = .receiving) (answer yes : Bool) (server : Server) :
      Stepped request state (.handleReqpest none answer) { state with
        stage := if yes then .answered else .refused
        conClosure := none
        history := state.history ++ [.use, .destroy]
        processed := state.processed + 1
        server }
  | completed (inside : ¬(state.stage = .waiting ∨ state.stage = .completed)) :
      Stepped request state .onRequestCompleted (onRequestCompleted state)

theorem Consistent.stepped {callback : Callback} (consistent : Consistent request state)
    (taken : step statics env request state callback = some next) : Stepped request state callback next := by
  cases callback with
  | handleReqpest upload answer =>
    cases stage : state.stage with
    | waiting =>
      simp only [Manager.step, stage] at taken
      split_ifs at taken with part
      obtain rfl : upload = none := by simpa using part
      obtain ⟨⟨yes, answered⟩, called, rfl⟩ := Option.map_eq_some_iff.mp taken
      obtain ⟨closure, count, rfl, posts⟩ := handleReqpest_first (consistent.of_waiting stage).1 called
      exact .first stage answer yes closure count posts
    | receiving =>
      simp only [Manager.step, stage] at taken
      obtain ⟨⟨yes, answered⟩, called, rfl⟩ := Option.map_eq_some_iff.mp taken
      obtain ⟨closure, opened, posts, _⟩ := consistent.of_receiving stage
      cases upload with
      | some pieces =>
        obtain ⟨handler, count, rfl⟩ := handleReqpest_upload opened called
        have received : Stepped request state (.handleReqpest (some pieces) answer) _ :=
          .upload stage pieces answer yes closure handler count posts
        cases yes <;> exact received
      | none =>
        obtain ⟨server, rfl⟩ := handleReqpest_last opened called
        have answered : Stepped request state (.handleReqpest none answer) _ :=
          .last stage answer yes server
        cases yes <;> exact answered
    | refused | answered | completed => simp [Manager.step, stage] at taken
  | onRequestCompleted =>
    simp only [Manager.step] at taken
    split_ifs at taken with outside
    cases taken
    exact .completed outside

theorem Consistent.of_stepped {callback : Callback} (consistent : Consistent request state)
    (stepped : Stepped request state callback next) : Consistent request next := by
  cases stepped with
  | first stage answer yes closure count posts =>
    obtain ⟨-, unborn, processed⟩ := consistent.of_waiting stage
    have live : Lifetime.after (state.history ++ .create :: .replicate count .use) = some .live := by
      rw [Lifetime.after_append, unborn]
      exact Lifetime.run_uses count
    cases yes with
    | true => exact .receiving rfl closure rfl (posts rfl) live processed
    | false => exact .refused rfl closure rfl live processed
  | upload stage pieces answer yes closure handler count posts =>
    obtain ⟨-, -, -, live, processed⟩ := consistent.of_receiving stage
    have live : Lifetime.after (state.history ++ .replicate count .use) = some .live := by
      rw [Lifetime.after_append, live]
      exact Lifetime.run_uses count
    cases yes with
    | true => exact .receiving rfl _ rfl posts live processed
    | false => exact .refused rfl _ rfl live processed
  | last stage answer yes server =>
    obtain ⟨-, -, -, live, processed⟩ := consistent.of_receiving stage
    have dead : Lifetime.after (state.history ++ [.use, .destroy]) = some .dead := by
      rw [Lifetime.after_append, live]
      rfl
    refine .closed ?_ rfl dead (congrArg (· + 1) processed)
    cases yes <;> simp
  | completed inside =>
    have destroyed : Lifetime.after state.history = some .live →
        Lifetime.after (state.history ++ [.destroy]) = some .dead := by
      intro live
      rw [Lifetime.after_append, live]
      rfl
    rcases consistent with ⟨stage, _⟩ | ⟨stage, closure, opened, _, live, processed⟩ |
      ⟨stage, closure, opened, live, processed⟩ | ⟨stage, closed, dead, processed⟩ | ⟨stage, _⟩
    · exact absurd (Or.inl stage) inside
    · refine .completed rfl ?_ (processed.trans_le (Nat.zero_le 1))
      simpa [onRequestCompleted, opened] using destroyed live
    · refine .completed rfl ?_ (processed.trans_le (Nat.zero_le 1))
      simpa [onRequestCompleted, opened] using destroyed live
    · refine .completed rfl ?_ processed.le
      simpa [onRequestCompleted, closed] using dead
    · exact absurd (Or.inr stage) inside

theorem Consistent.step {callback : Callback} (consistent : Consistent request state)
    (taken : step statics env request state callback = some next) : Consistent request next :=
  consistent.of_stepped (consistent.stepped taken)

/-- The closure is live at each use and destroyed once in the end, the request is processed once at
most, and every post processor that is called is one. -/
structure LifeCycle (state : State) : Prop where
  live : ∀ before op rest, state.history = before ++ op :: rest → op ≠ .create →
    Lifetime.after before = some .live
  destroyed : state.stage = .completed → state.history.count .destroy = 1
  processed : state.processed ≤ 1
  posted : ∀ called ∈ state.posted, called = true

/-- What holds of the closure in any case: the first call makes it, it is live at each use, and the end
destroys it. -/
structure Lives (state : State) : Prop where
  live : ∀ before op rest, state.history = before ++ op :: rest → op ≠ .create →
    Lifetime.after before = some .live
  created : state.history.count .create = if state.stage = .waiting then 0 else 1
  destroyed : state.history.count .destroy ≤ 1
  completed : state.stage = .completed → state.history.count .destroy = 1

theorem Consistent.lives (consistent : Consistent request state) : Lives state := by
  have lawful : ∀ phase, Lifetime.after state.history = some phase →
      (phase = .unborn ↔ state.stage = .waiting) → (state.stage = .completed → phase = .dead) →
        Lives state := by
    intro phase after waiting dead
    refine ⟨fun before op rest split later => ?_, ?_, ?_, fun completed => ?_⟩
    · rw [split] at after
      exact Lifetime.live_of_lawful (by rw [after, Option.isSome_some]) later
    · rw [Lifetime.count_create after]
      simp only [waiting]
    · rw [Lifetime.count_destroy after]
      split_ifs <;> simp
    · rw [Lifetime.count_destroy after, if_pos (dead completed)]
  cases consistent with
  | waiting stage _ unborn => exact lawful _ unborn (by simp [stage]) (by simp [stage])
  | receiving stage _ _ _ live | refused stage _ _ live =>
      exact lawful _ live (by simp [stage]) (by simp [stage])
  | closed stage _ dead =>
      exact lawful _ dead (by rcases stage with stage | stage <;> simp [stage]) fun _ => rfl
  | completed stage dead => exact lawful _ dead (by simp [stage]) fun _ => rfl

theorem Consistent.processed_le (consistent : Consistent request state) : state.processed ≤ 1 := by
  cases consistent <;> omega

theorem Consistent.lifeCycle_iff (consistent : Consistent request state) :
    LifeCycle state ↔ ∀ called ∈ state.posted, called = true :=
  ⟨LifeCycle.posted, fun posted =>
    ⟨consistent.lives.live, consistent.lives.completed, consistent.processed_le, posted⟩⟩

/-- The calls of a post processor find one exactly if the request posts. -/
theorem Stepped.posted {callback : Callback} (stepped : Stepped request state callback next)
    (posted : ∀ called ∈ state.posted, (called = true ↔ request.Posts)) :
    ∀ called ∈ next.posted, (called = true ↔ request.Posts) := by
  cases stepped with
  | upload stage pieces answer yes closure handler count posts =>
    intro called member
    rcases List.mem_append.mp member with earlier | last
    · exact posted called earlier
    · exact List.mem_singleton.mp last ▸ posts
  | first | last | completed => exact posted

/-- A part of a body is posted. -/
def Posted (request : Request) : Callback → Prop
  | .handleReqpest (some _) _ => request.Posts
  | _ => True

/-- A step calls a post processor only for a part of a body, and that is one if the request posts. -/
theorem posted_step_iff {callback : Callback} (consistent : Consistent request state)
    (taken : step statics env request state callback = some next)
    (posted : ∀ called ∈ state.posted, called = true) :
    (∀ called ∈ next.posted, called = true) ↔ Posted request callback := by
  cases consistent.stepped taken with
  | upload stage pieces answer yes closure handler count posts =>
    rw [Posted, ← posts]
    constructor
    · exact fun all => all _ (List.mem_append_right _ (List.mem_singleton_self _))
    · intro own called member
      rcases List.mem_append.mp member with earlier | last
      · exact posted called earlier
      · exact (List.mem_singleton.mp last).trans own
  | first | last | completed => exact iff_of_true posted trivial

/-- The life cycle holds along a run of callbacks exactly if every part of a body belongs to a request
that is posted to a route. -/
theorem lifeCycle_throughout_iff {statics : StaticReplys} {env : Environment} {request : Request}
    {server : Server}
    {callbacks : List Callback} {state : State}
    (ran : run (step statics env request) (initial server) callbacks = some state) :
    Throughout (step statics env request) (initial server) callbacks LifeCycle ↔
      EachStep (step statics env request) (initial server) callbacks fun _ => Posted request := by
  apply throughout_iff ran
  · exact (consistent_initial request server).lifeCycle_iff.mpr (by simp [initial])
  · intro before state callback next ranBefore lifeCycle stepped
    have consistent : Consistent request state :=
      run_invariant (fun _ _ _ consistent stepped => consistent.step stepped)
        (consistent_initial request server) ranBefore
    rw [(consistent.step stepped).lifeCycle_iff]
    exact posted_step_iff consistent stepped lifeCycle.posted

/-- A body of one part, and what comes before and after it. -/
def onePart : List Callback :=
  [.handleReqpest none true, .handleReqpest (some [(ascii "item", ascii "1", 0)]) true,
    .handleReqpest none true, .onRequestCompleted]

def postAttach : Request := ⟨ascii "POST", ascii "/manage/attach", []⟩

theorem lifeCycle_postAttach : ∃ state,
    run (step (Router.initialized default) Router.unsignedEnvironment postAttach) (initial Router.emptyServer)
      onePart = some state ∧
    (Throughout (step (Router.initialized default) Router.unsignedEnvironment postAttach)
        (initial Router.emptyServer) onePart LifeCycle ↔
      EachStep (step (Router.initialized default) Router.unsignedEnvironment postAttach)
        (initial Router.emptyServer) onePart fun _ => Posted postAttach) :=
  ⟨_, rfl, @lifeCycle_throughout_iff (Router.initialized default) Router.unsignedEnvironment postAttach
    Router.emptyServer onePart _ rfl⟩

def postNowhere : Request := ⟨ascii "POST", ascii "/", []⟩

def putAttach : Request := ⟨ascii "PUT", ascii "/manage/attach", []⟩

/-- A body without a route, and one that is put: the null pointer is called for both. -/
theorem nullPosted :
    (∃ state, run (step (Router.initialized default) Router.unsignedEnvironment postNowhere)
      (initial Router.emptyServer) onePart = some state ∧ state.posted = [false] ∧ ¬LifeCycle state) ∧
    ∃ state, run (step (Router.initialized default) Router.unsignedEnvironment putAttach)
      (initial Router.emptyServer) onePart = some state ∧ state.posted = [false] ∧ ¬LifeCycle state := by
  constructor
  · refine ⟨_, rfl, rfl, fun lifeCycle => ?_⟩
    have called := lifeCycle.posted false List.mem_cons_self
    cases called
  · refine ⟨_, rfl, rfl, fun lifeCycle => ?_⟩
    have called := lifeCycle.posted false List.mem_cons_self
    cases called

end Manager

end Taboo
