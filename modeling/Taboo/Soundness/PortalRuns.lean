import Taboo.Soundness.AttachedPrefixes
import Taboo.Soundness.ErrorReplies
import Taboo.Soundness.SeekCompleteness
import Taboo.Soundness.Serving

/-! # What the clients of the server can rely on

The store holds what the answered attach requests asked for and nothing else, and that is what queries are
answered with. A token that was sent opens a session of the identity it was asked for, so equal replies
were for equal identities. The answers are those of the same requests made one after the other, up to the
first insertion that comes too late.
-/

namespace Taboo

open Machine

/-! ### The token in a reply -/

theorem quote_ne_quotation (text rest : Bytes) : quote text ≠ 34 :: rest := by
  obtain rfl | ⟨others, rfl⟩ | ⟨byte, others, notQuotation, rfl, shape⟩ := quote_cases text
  · simp
  · simp
  · rw [shape]
    intro same
    exact notQuotation (List.cons.inj same).1

/-- A backslash that `quote` has put there is followed by a quotation mark, one of the text is not. -/
theorem quote_injective : Function.Injective quote := by
  intro first
  induction first with
  | nil =>
    intro second same
    obtain rfl | ⟨others, rfl⟩ | ⟨byte, others, -, rfl, shape⟩ := quote_cases second
    · rfl
    · simp at same
    · simp [shape] at same
  | cons byte rest ih =>
    intro second same
    obtain rfl | ⟨others, rfl⟩ | ⟨byte', others, -, rfl, shape'⟩ := quote_cases second <;>
      by_cases quotation : byte = 34
    · simp [quotation] at same
    · simp [quote_cons quotation] at same
    · rw [quotation, quote_quotation, quote_quotation] at same
      rw [quotation, ih (List.cons.inj (List.cons.inj same).2).2]
    · rw [quote_cons quotation, quote_quotation] at same
      exact absurd (List.cons.inj same).2 (quote_ne_quotation _ _)
    · rw [quotation, quote_quotation, shape'] at same
      exact absurd (List.cons.inj same).2.symm (quote_ne_quotation _ _)
    · rw [quote_cons quotation, shape'] at same
      rw [(List.cons.inj same).1, ih (List.cons.inj same).2]

theorem genReply_injective (config : Config) (errCode : Ec) :
    Function.Injective (genReply config errCode) := by
  intro first second same
  have content := congrArg Reply.content same
  rw [content_eq, content_eq, codePart, codePart] at content
  simp only [List.cons.injEq, true_and, List.append_cancel_left_eq] at content
  split_ifs at content with empty empty'
  · exact empty.trans empty'.symm
  · simp at content
  · simp at content
  · simp only [descPart, List.cons.injEq, true_and, List.append_cancel_left_eq,
      List.append_cancel_right_eq] at content
    exact quote_injective content

/-! ### The log of attach calls -/

namespace Keeper

/-- The call that an attach request makes. -/
def attachCall (request : AttachHandler.Request) : Call :=
  .attach request.keys request.item request.upsert

def attachEvent (request : AttachHandler.Request) : Event :=
  .attach request.keys request.item request.upsert

/-- The keeper makes these calls one after the other. -/
theorem attached_run (requests : List AttachHandler.Request) (source : State) : ∃ state,
    run step source (requests.map attachEvent) = some state ∧
      state.store = requests.foldl (fun store request =>
        (attach store request.keys request.item request.upsert).2) source.store ∧
      state.log.map Prod.fst = (requests.map attachCall).reverse ++ source.log.map Prod.fst := by
  induction requests generalizing source with
  | nil => exact ⟨source, rfl, rfl, rfl⟩
  | cons request requests ih =>
    let answer := attach source.store request.keys request.item request.upsert
    obtain ⟨state, ran, store, calls⟩ :=
      ih ⟨answer.2, source.pending, (attachCall request, answer.1) :: source.log⟩
    refine ⟨state, ran, store, ?_⟩
    rw [calls]
    simp

variable {requests : List AttachHandler.Request} {log : Log}

theorem logged_iff (calls : log.map Prod.fst = (requests.map attachCall).reverse) (call : Call) :
    (∃ answer, (call, answer) ∈ log) ↔ ∃ request ∈ requests, attachCall request = call := by
  have same : call ∈ log.map Prod.fst ↔ call ∈ (requests.map attachCall).reverse := by rw [calls]
  simpa using same

theorem listed_attached_iff (calls : log.map Prod.fst = (requests.map attachCall).reverse) (key : Key) :
    key ∈ listedKeys log ↔ ∃ request ∈ requests, key ∈ request.keys := by
  rw [mem_listedKeys_iff]
  constructor
  · rintro ⟨keys, item, upsertItem, answer, logged, listed⟩
    obtain ⟨request, member, same⟩ := (logged_iff calls _).mp ⟨answer, logged⟩
    cases same
    exact ⟨request, member, listed⟩
  · rintro ⟨request, member, listed⟩
    obtain ⟨answer, logged⟩ := (logged_iff calls (attachCall request)).mpr ⟨request, member, rfl⟩
    exact ⟨_, _, _, answer, logged, listed⟩

theorem related_attached_iff (calls : log.map Prod.fst = (requests.map attachCall).reverse)
    (key : Key) (id : IdT) :
    Related log key id ↔ ∃ request ∈ requests, key ∈ request.keys ∧ request.item.id = id := by
  constructor
  · rintro (⟨keys, item, upsertItem, answer, logged, listed, own⟩ | ⟨item, logged, -⟩)
    · obtain ⟨request, member, same⟩ := (logged_iff calls _).mp ⟨answer, logged⟩
      cases same
      exact ⟨request, member, listed, own⟩
    · obtain ⟨request, -, same⟩ := (logged_iff calls _).mp ⟨true, logged⟩
      cases same
  · rintro ⟨request, member, listed, own⟩
    obtain ⟨answer, logged⟩ := (logged_iff calls (attachCall request)).mpr ⟨request, member, rfl⟩
    exact .inl ⟨_, _, _, answer, logged, listed, own⟩

end Keeper

namespace Portal

variable {statics : StaticReplys} {env : Environment} {state : State} {events : List Event}

/-- The words they listed. -/
def attachedKeys (env : Environment) (answers : List Answer) : Finset Bytes :=
  ((attachRequests env answers).flatMap AttachHandler.RequestOf.keys).toFinset

/-- Without zero bytes in their words, these calls are calls with keys. -/
theorem requests_spelled {answers : List Answer}
    (zeroFree : ∀ request ∈ attachRequests env answers, ∀ word ∈ request.keys, 0 ∉ word) :
    ∃ requests : List AttachHandler.Request, attachRequests env answers = requests.map fun request =>
      ⟨request.keys.map Key.bytes, request.item, request.upsert⟩ := by
  have spelled : ∀ request ∈ attachRequests env answers, ∃ sent : AttachHandler.Request,
      ⟨sent.keys.map Key.bytes, sent.item, sent.upsert⟩ = request := by
    intro request member
    have nonempty : ∀ word ∈ request.keys, word ≠ [] := by
      obtain ⟨answer, -, reaches⟩ := List.mem_filterMap.mp member
      cases work : answer.work with
      | message payload => simp [work, Work.attachRequest] at reaches
      | request index handler =>
        cases handler <;> simp only [work, Work.attachRequest, Routed.attachRequest, reduceCtorEq] at reaches
        exact AttachHandler.requested_nonempty reaches
    obtain ⟨keys, same⟩ := Key.exists_spelling nonempty (zeroFree request member)
    exact ⟨⟨keys, request.item, request.upsert⟩, by rw [same]⟩
  obtain ⟨requests, same⟩ := (Set.ext_iff.mp (Set.range_list_map _) (attachRequests env answers)).mpr spelled
  exact ⟨requests, same.symm⟩

/-- The keeper behind a run has made the calls of the answered attach requests, and its store is the
server's. -/
theorem keeper_behind (ran : run (step statics env) (initial Router.emptyServer) events = some state)
    (zeroFree : ∀ request ∈ attachRequests env state.answers, ∀ word ∈ request.keys, 0 ∉ word)
    (fits : (attachedKeys env state.answers).card ≤ capacity) :
    ∃ (requests : List AttachHandler.Request) (keeper : Keeper.State),
      (attachRequests env state.answers = requests.map fun request =>
        ⟨request.keys.map Key.bytes, request.item, request.upsert⟩) ∧
      state.server.store = keeper.store ∧ Represents keeper.store (Keeper.catalogue keeper.log) ∧
        keeper.log.map Prod.fst = (requests.map Keeper.attachCall).reverse := by
  obtain ⟨requests, spelled⟩ := requests_spelled zeroFree
  obtain ⟨keeper, kept, store, calls⟩ := Keeper.attached_run requests Keeper.initial
  rw [Keeper.initial, List.map_nil, List.append_nil] at calls
  have listed : (Keeper.listedKeys keeper.log).image Key.bytes = attachedKeys env state.answers := by
    ext word
    simp only [Finset.mem_image, Keeper.listed_attached_iff calls, attachedKeys, spelled, List.mem_toFinset,
      List.mem_flatMap, List.mem_map, exists_exists_and_eq_and]
    constructor
    · rintro ⟨key, ⟨request, member, listed⟩, same⟩
      exact ⟨request, member, key, listed, same⟩
    · rintro ⟨request, member, key, listed, same⟩
      exact ⟨key, ⟨request, member, listed⟩, same⟩
  rw [← listed, Finset.card_image_of_injective _ Key.bytes_injective] at fits
  refine ⟨requests, keeper, spelled, ?_, (Keeper.consistent_initial.run kept fits).1.represents, calls⟩
  rw [store, (behind_run ran).2.1, spelled, storeAfter, List.foldl_map]
  simp only [AttachHandler.attachWords, AttachHandler.toKeys_ok]
  rfl

/-- Nothing has to be signed, every field is visible, and the parser knows a few texts. -/
def servedEnvironment : Environment :=
  { Router.unsignedEnvironment with
    service :=
      { around := ⟨AttachHandler.openConfig, default, .insertion _⟩
        aside := Aside.ofConfig AttachHandler.openConfig
        parse := AttachHandler.parseAB
        fieldSet := .insertion _ } }

/-- The replies that its router has set up. -/
def servedStatics : StaticReplys := Router.initialized AttachHandler.openConfig

def postToken : Manager.Request := ⟨ascii "POST", ascii "/manage/get_access_token", []⟩

/-- Item 1 is attached to `ab` while two clients ask for a token of identity 7. Both find none. -/
def racingClients : List Event :=
  [.arrive Manager.postAttach, .arrive postToken, .callback 1 (.handleReqpest none true) 0,
    .callback 0 (.handleReqpest none true) 0, .arrive postToken,
    .callback 0 (.handleReqpest
      (some [(ascii "key", ascii "k", 0), (ascii "prefixes", AttachHandler.arrayAB, 0)]) true) 0,
    .callback 1 (.handleReqpest (some [(ascii "tid", ascii "7", 0)]) true) 1,
    .callback 2 (.handleReqpest none true) 1,
    .callback 0 (.handleReqpest (some [(ascii "item", AttachHandler.itemOne, 0)]) true) 1,
    .callback 2 (.handleReqpest (some [(ascii "tid", ascii "7", 0)]) true) 2,
    .callback 2 (.handleReqpest none true) 3, .callback 1 (.handleReqpest none true) 4,
    .callback 0 (.handleReqpest none true) 4, .insert 1 [ascii "t"] true,
    .insert 2 [ascii "t", ascii "u"] true, .message AttachHandler.wantsAB 5]

/-- What the items of an answer owe to the attach requests that were answered before. -/
structure Served (env : Environment) (state : State) (query : Query) (items : List Item) : Prop where
  bounded : items.length ≤ query.num
  distinct : (items.map Item.id).Nodup
  passing : ∀ item ∈ items,
    (Seeker.rebuildChain env.service.around .empty query).apply env.service.around.hashing item = true
  attached : ∀ item ∈ items, ∃ request ∈ attachRequests env state.answers, ∃ word ∈ request.keys,
    query.queryPrefix <+: word ∧ request.item.id = item.id
  /-- unless there were items enough or callbacks too many on the way -/
  complete : ¬Seeker.CutOff env.service.around query.num
      (Seeker.walked env.service.around state.server.store query) →
    ∀ request ∈ attachRequests env state.answers, ∀ word ∈ request.keys, query.queryPrefix <+: word →
      ∃ item, state.server.store.farm.item request.item.id = some item ∧ item.id = request.item.id ∧
        ((Seeker.rebuildChain env.service.around .empty query).apply env.service.around.hashing item =
          true → item ∈ items)

/-- A predicter that is new finds what a fresh seeker does. -/
theorem items_of_answer {service : Predicter.Service} {store : Store} {payload : Bytes}
    {items : List Item} {fields : List Bytes} {fieldsAll : Bool} {reply : Value} {after : Predicter}
    (answered : Predicter.answer service store .create payload =
      .ok (.predicted items fields fieldsAll reply, after)) :
    items = (Seeker.seek service.around store .fresh after.query).items := by
  unfold Predicter.answer at answered
  split_ifs at answered
  · cases answered
  · obtain ⟨rebuilt, _, same⟩ := ok_of_map answered
    split_ifs at same
    · cases same
      rfl
    · cases same

/-- Whatever has been going on, but for words with a zero byte, a query is answered with items that answered
requests have attached below its prefix, and with all of them that pass its filters, unless it was cut
off. -/
theorem queries_served (ran : run (step statics env) (initial Router.emptyServer) events = some state)
    (zeroFree : ∀ request ∈ attachRequests env state.answers, ∀ word ∈ request.keys, 0 ∉ word)
    (fits : (attachedKeys env state.answers).card ≤ capacity) {payload : Bytes} {items : List Item}
    {fields : List Bytes} {fieldsAll : Bool} {reply : Value} {after : Predicter}
    (answered : Predicter.answer env.service state.server.store .create payload =
      .ok (.predicted items fields fieldsAll reply, after)) : Served env state after.query items := by
  obtain ⟨requests, keeper, spelled, store, rep, calls⟩ := keeper_behind ran zeroFree fits
  obtain rfl := items_of_answer answered
  have sound := Seeker.Sound.of_represents rep env.service.around after.query
  rw [← store] at sound
  refine ⟨sound.bounded, sound.distinct, fun item member => ?_, fun item member => ?_, ?_⟩
  · simp [FilterChain.apply, sound.unexcluded item member, sound.matched item member]
  · obtain ⟨key, below, related⟩ := sound.attached item member
    obtain ⟨request, member', listed, own⟩ := (Keeper.related_attached_iff calls key item.id).mp related
    rw [spelled]
    exact ⟨_, List.mem_map_of_mem member', key.bytes, List.mem_map_of_mem listed, below, own⟩
  · rw [spelled, List.forall_mem_map]
    simp only [List.forall_mem_map]
    intro uncut request member key listed below
    rw [store] at uncut ⊢
    have related := (Keeper.related_attached_iff calls key request.item.id).mpr
      ⟨request, member, listed, rfl⟩
    obtain ⟨funnelId, there⟩ := rep.known key (rep.listed_of_held related)
    have held := (rep.held key funnelId there request.item.id).mpr related
    obtain ⟨item, found, own⟩ := rep.valid.item_of_mem held
    refine ⟨item, found, own, fun passes => (Seeker.mem_seek_iff rep uncut item).mpr ?_⟩
    exact ⟨⟨key, below, own ▸ related⟩, own ▸ found, passes⟩

theorem queries_served_racingClients : ∃ state items fields fieldsAll reply after,
    run (step servedStatics servedEnvironment) (initial Router.emptyServer) racingClients = some state ∧
    Predicter.answer servedEnvironment.service state.server.store .create AttachHandler.wantsAB =
      .ok (.predicted items fields fieldsAll reply, after) ∧
    items.map Item.id = [1] ∧ Served servedEnvironment state after.query items := by
  refine ⟨_, _, _, _, _, _, rfl, rfl, rfl, ?_⟩
  exact @queries_served servedStatics servedEnvironment _ racingClients rfl
    (by decide) (by decide) AttachHandler.wantsAB _ _ _ _ _ rfl

/-! ### Tokens -/

theorem Serves.granted_done {sessions : SessionManager.State} (serves : Serves env state sessions)
    {answer : Answer} (member : answer ∈ state.answers) {call : Ensure}
    (own : answer.work.ensureCall env answer.now = some call) :
    ∃ token, (call, token) ∈ sessions.done ∧
      answer.reply = genReply env.service.around.config BaseHandler.errOk token := by
  have granted : (call, answer.reply) ∈ grants env state.answers :=
    List.mem_filterMap.mpr ⟨answer, member, by rw [own, Option.map_some]⟩
  rw [serves.granted] at granted
  obtain ⟨⟨call', token⟩, done, same⟩ := List.mem_map.mp granted
  obtain ⟨rfl, replied⟩ := Prod.mk.inj same
  exact ⟨token, List.mem_reverse.mp done, replied.symm⟩

/-- The reply to a token request carries a token that still opens, when the run ends, a session of the
identity that the request was for. So no two identities are ever sent the same reply. -/
theorem tokens_served (ran : run (step statics env) (initial Router.emptyServer) events = some state) :
    (∀ answer ∈ state.answers, ∀ call, answer.work.ensureCall env answer.now = some call →
      ∃ token, ∃ session : Session,
        answer.reply = genReply env.service.around.config BaseHandler.errOk token ∧
          state.server.sessions.sessions[token]? = some session ∧ session.identy = call.identy) ∧
    ∀ first ∈ state.answers, ∀ second ∈ state.answers, ∀ call call',
      first.work.ensureCall env first.now = some call →
        second.work.ensureCall env second.now = some call' →
        first.reply = second.reply → call.identy = call'.identy := by
  obtain ⟨-, -, calls, sessions, called, serves⟩ := behind_run ran
  have issued := SessionManager.issued_run called
  constructor
  · intro answer member call own
    obtain ⟨token, done, replied⟩ := serves.granted_done member own
    obtain ⟨session, there, same⟩ := issued.owned _ done
    exact ⟨token, session, replied, serves.manager ▸ there, same⟩
  · intro first member second member' call call' own own' same
    obtain ⟨token, done, replied⟩ := serves.granted_done member own
    obtain ⟨token', done', replied'⟩ := serves.granted_done member' own'
    rw [replied, replied'] at same
    exact issued.separate.apart _ done _ done' (genReply_injective _ _ same)

theorem tokens_served_racingClients : ∃ state,
    run (step servedStatics servedEnvironment) (initial Router.emptyServer) racingClients = some state ∧
    ∀ first ∈ state.answers, ∀ second ∈ state.answers, ∀ call call',
      first.work.ensureCall servedEnvironment first.now = some call →
        second.work.ensureCall servedEnvironment second.now = some call' →
          first.reply = second.reply → call.identy = call'.identy :=
  ⟨_, rfl, (@tokens_served servedStatics servedEnvironment _ racingClients rfl).2⟩

/-! ### One after the other -/

/-- The same work once more, on another server, at the same time and with the same candidates for a
token. -/
def replay (statics : StaticReplys) (env : Environment) (server : Server) (answer : Answer) :
    Option Server :=
  (perform statics env answer.work answer.now answer.candidates server).bind fun done =>
    if done.1.reply = answer.reply then some done.2 else none

/-- An insertion finds that its identity still has no token. -/
def Undisturbed (state : State) : Event → Prop
  | .insert index _ _ => ∀ exchange missed, state.exchanges[index]? = some exchange →
      exchange.ensuring = some missed → state.server.sessions.lookup missed.call.identy = none
  | _ => True

theorem replay_performed {work : Work} {now : ℤ} {candidates : List Bytes} {server after : Server}
    {sent : Answer} (done : perform statics env work now candidates server = some (sent, after)) :
    replay statics env server sent = some after := by
  obtain ⟨rfl, rfl, rfl⟩ := perform_work done
  rw [replay, done, Option.bind_some, if_pos rfl]

/-- In one piece, a token request does what `ensure` does. -/
theorem perform_ensure {index : ℕ} {handler : Routed} {now : ℤ} {call : Ensure}
    (own : ensureCall env now handler = some call) (candidates : List Bytes) (server : Server) :
    perform statics env (.request index handler) now candidates server =
      (server.sessions.ensure call candidates).map fun ensured =>
        (⟨.request index handler, now, candidates,
          genReply env.service.around.config BaseHandler.errOk ensured.1⟩,
          { server with sessions := ensured.2 }) := by
  unfold ensureCall at own
  split at own
  · next handler =>
    split_ifs at own with valid
    split at own
    · next requested =>
      cases own
      simp only [perform, Work.process, Routed.process, TokenHandler.process, ManageHandler.process,
        valid, if_pos, TokenHandler.deal, requested, Except.map]
      cases server.sessions.ensure call candidates <;> rfl
    · cases own
  · cases own

theorem replay_inserted_iff {index : ℕ} {handler : Routed} {now : ℤ} {call : Ensure}
    (own : ensureCall env now handler = some call) {candidates : List Bytes} {server : Server}
    {token : Bytes} {sessions : SessionManager} (inserted : server.sessions.insert call candidates =
      some (token, sessions)) :
    replay statics env server ⟨.request index handler, now, candidates,
        genReply env.service.around.config BaseHandler.errOk token⟩ = some { server with sessions } ↔
      server.sessions.lookup call.identy = none := by
  rw [replay, perform_ensure own, SessionManager.ensure]
  cases found : server.sessions.lookup call.identy with
  | none => simp [inserted]
  | some held =>
    refine iff_of_false ?_ (Option.some_ne_none held)
    obtain ⟨fresh, entered, -⟩ := SessionManager.insert_spec inserted
    intro replayed
    simp only [Option.map_some, Option.bind_some] at replayed
    split_ifs at replayed
    -- the late insertion has made a session all the same
    have same : server.sessions = sessions := congrArg Server.sessions (Option.some.inj replayed)
    have made := entered token
    rw [if_pos rfl, ← same, fresh] at made
    cases made

/-- Along a run the answers are those of a server that takes the same requests and messages one after the
other, and both reach the same state, exactly if no insertion comes after another one for its identity. -/
theorem replayed_throughout_iff {server : Server}
    (ran : run (step statics env) (initial server) events = some state) :
    Throughout (step statics env) (initial server) events
        (fun state => run (replay statics env) server state.answers = some state.server) ↔
      EachStep (step statics env) (initial server) events Undisturbed := by
  apply throughout_iff ran
  · rfl
  intro before state event next ranBefore replayed taken
  have settled : Settled env state :=
    run_invariant (fun _ _ _ settled taken => settled.step taken) (settled_initial server) ranBefore
  cases stepped_of_step taken with
  | arrived | called | missed => exact iff_of_true replayed trivial
  | performed index exchange callback now handler answer sent after there free last found done =>
    refine iff_of_true ?_ trivial
    rw [run_concat, replayed, Option.bind_some, replay_performed done]
  | messaged payload now sent after done =>
    refine iff_of_true ?_ trivial
    rw [run_concat, replayed, Option.bind_some, replay_performed done]
  | inserted index exchange missed closure candidates answer token sessions there waits opened inserted =>
    obtain ⟨-, closure', opened', own⟩ := (settled.sane index exchange there).waits missed waits
    obtain rfl := Option.some.inj (opened.symm.trans opened')
    rw [run_concat, replayed, Option.bind_some, replay_inserted_iff own inserted]
    constructor
    · rintro absent exchange' missed' there' waits'
      obtain rfl := Option.some.inj (there.symm.trans there')
      obtain rfl := Option.some.inj (waits.symm.trans waits')
      exact absent
    · intro undisturbed
      exact undisturbed exchange missed there waits

/-- The client whose insertion comes second is sent a token of its own, which a server that takes one
request after the other never sends. -/
theorem replayed_racingClients : ∃ state,
    run (step servedStatics servedEnvironment) (initial Router.emptyServer) racingClients = some state ∧
    run (replay servedStatics servedEnvironment) Router.emptyServer state.answers = none ∧
    (Throughout (step servedStatics servedEnvironment) (initial Router.emptyServer) racingClients
        (fun state => run (replay servedStatics servedEnvironment) Router.emptyServer state.answers =
          some state.server) ↔
      EachStep (step servedStatics servedEnvironment) (initial Router.emptyServer) racingClients
        Undisturbed) :=
  ⟨_, rfl, rfl,
    @replayed_throughout_iff servedStatics servedEnvironment _ racingClients Router.emptyServer rfl⟩

end Portal

end Taboo
