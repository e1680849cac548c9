import Taboo.Model.Router

/-! # Requests that get no reply

The codes with a reply are those that the called `initReplys` register. A null result counts as
unknown, and the code of unknown errors is not among them.
-/

namespace Taboo

open BaseHandler ManageHandler

namespace Router

/-- What `Router::initialize` leaves. -/
def initialized (config : Config) : StaticReplys := initHandlerRelyMap config .start

/-- The codes that have a reply. -/
theorem mem_initialized_iff (config : Config) (code : Ec) : code ∈ (initialized config).replys ↔
    code ∈ [AttachHandler.errAttachItem, AttachHandler.errAttachKeys, AttachHandler.errAlreadyExists,
      AttachHandler.errCreateItem, AttachHandler.errNoKeys, errBadParam, errBadSign, errBadRequest,
      errBadRequestMethod] := by
  simp only [initialized, initHandlerRelyMap, NoRouteHandler.initReplys, StatusHandler.initReplys,
    DetachHandler.initReplys, Predicter.initReplys, StaticReplys.start, ManageHandler.initReplys,
    AttachHandler.initReplys, mem_fillReply, Std.ExtTreeMap.not_mem_empty, List.mem_cons, List.not_mem_nil]

/-- Codes without a reply of their own get the null pointer. -/
theorem replied_iff (config : Config) (result : Result) :
    (resultReply (initialized config).replys (initialized config).errUnknownReply (some result)).isSome = true ↔
      result.reply.isSome = true ∨ result.code ∈ (initialized config).replys :=
  resultReply_isSome_iff _ result

theorem code_replied (config : Config) {code : Ec} (registered : code ∈ (initialized config).replys) :
    (resultReply (initialized config).replys (initialized config).errUnknownReply
      (some ⟨none, code⟩)).isSome = true :=
  (replied_iff config _).mpr (Or.inr registered)

theorem refused_replied (config : Config) {code : Ec} (refused : code = errBadParam ∨ code = errBadSign) :
    (resultReply (initialized config).replys (initialized config).errUnknownReply
      (some ⟨none, code⟩)).isSome = true := by
  refine code_replied config ((mem_initialized_iff config code).mpr ?_)
  rcases refused with rfl | rfl <;> decide

/-- Of all codes that a handler ends with, these two have no reply. -/
theorem silent (config : Config) {code : Ec} (lost : code = errUnknown ∨ code = DetachHandler.errDetach) :
    (resultReply (initialized config).replys (initialized config).errUnknownReply
      (some ⟨none, code⟩)).isSome = false := by
  rw [← Bool.not_eq_true, replied_iff, mem_initialized_iff]
  rcases lost with rfl | rfl <;> decide

/-- A handler that receives these parameters. -/
def received (config : Config) (parse : Parser) (method uri : Bytes) (params : List (Bytes × Bytes)) : Routed :=
  params.foldl (fun routed entry => routed.addParam config parse entry.1 entry.2) (route method uri)

/-- The routes whose `deal` ends without a reply. -/
def unanswered : List Bytes := [ascii "/manage/status", ascii "/manage/detach", ascii "/manage/erase"]

/-- The handler of such a route. -/
def receivedManage (config : Config) (method uri : Bytes) (params : List (Bytes × Bytes)) :
    Handler (Manage Unit) :=
  params.foldl (fun handler entry => addParam (reviewParam config _reviewParam) handler entry.1 entry.2)
    (setMeta (create ⟨[], ()⟩) method uri).2

/-- Each handler by the route that it is made for. -/
theorem received_cases (config : Config) (parse : Parser) (method uri : Bytes) (params : List (Bytes × Bytes)) :
    (∃ handler, received config parse method uri params = .noRoute handler ∧ uri ∉ unanswered) ∨
    (received config parse method uri params = .status (receivedManage config method uri params) ∧
      uri ∈ unanswered) ∨
    (∃ handler, received config parse method uri params = .attach handler ∧ uri ∉ unanswered) ∨
    (received config parse method uri params = .detach (receivedManage config method uri params) ∧
      uri ∈ unanswered) ∨
    (∃ handler, received config parse method uri params = .token handler ∧ uri ∉ unanswered) ∨
    ∃ handler, received config parse method uri params = .predict handler ∧ uri ∉ unanswered := by
  have noRoute : ∀ handler : Handler Unit, params.foldl (fun routed entry =>
      Routed.addParam config parse entry.1 entry.2 routed) (.noRoute handler) = .noRoute handler := by
    intro handler
    induction params with
    | nil => rfl
    | cons entry rest ih => exact ih
  unfold received route
  split_ifs with empty
  · subst empty
    exact Or.inl ⟨_, noRoute _, by decide⟩
  · cases found : creators.find? fun entry => entry.1 == uri with
    | none =>
      have unlisted := List.find?_eq_none.mp found
      refine Or.inl ⟨_, noRoute _, fun member => ?_⟩
      have known : ∀ name ∈ unanswered, name ∈ creators.map Prod.fst := by decide
      obtain ⟨entry, listed, same⟩ := List.mem_map.mp (known uri member)
      exact unlisted entry listed (beq_iff_eq.mpr same)
    | some entry =>
      have listed := List.mem_of_find?_eq_some found
      obtain rfl : entry.1 = uri := by simpa using List.find?_some found
      simp only [creators, List.mem_cons, List.not_mem_nil, or_false] at listed
      rcases listed with rfl | rfl | rfl | rfl | rfl | rfl
      · exact Or.inr (Or.inl ⟨List.foldl_hom Routed.status fun _ _ => rfl, by decide⟩)
      · exact Or.inr (Or.inr (Or.inl ⟨_, List.foldl_hom Routed.attach fun _ _ => rfl, by decide⟩))
      · exact Or.inr (Or.inr (Or.inr (Or.inl ⟨List.foldl_hom Routed.detach fun _ _ => rfl, by decide⟩)))
      · exact Or.inr (Or.inr (Or.inr (Or.inl ⟨List.foldl_hom Routed.detach fun _ _ => rfl, by decide⟩)))
      · exact Or.inr (Or.inr (Or.inr (Or.inr (Or.inl 
          ⟨_, List.foldl_hom Routed.token fun _ _ => rfl, by decide⟩))))
      · exact Or.inr (Or.inr (Or.inr (Or.inr (Or.inr 
          ⟨_, List.foldl_hom Routed.predict fun _ _ => rfl, by decide⟩))))

theorem manage_replied_iff (config : Config) (digest : Bytes → Bytes) (handler : Handler (Manage Unit))
    {deal : Handler (Manage Unit) → Option Result} (lost : deal handler = none ∨
      deal handler = some ⟨none, DetachHandler.errDetach⟩) :
    (resultReply (initialized config).replys (initialized config).errUnknownReply
        (ManageHandler.process config digest (checkParams config) deal id handler)).isSome = true ↔
      ¬validate config digest (checkParams config) handler = errOk := by
  rcases process_cases config (checkParams_cases config handler) deal id with
    ⟨valid, dealt⟩ | ⟨invalid, code, refused, answer⟩
  · rw [dealt, ← Bool.not_eq_false, not_iff_not]
    refine iff_of_true ?_ valid
    rcases lost with nothing | detach
    · rw [nothing, resultReply_none]
      exact silent config (Or.inl rfl)
    · rw [detach]
      exact silent config (Or.inr rfl)
  · rw [answer]
    exact iff_of_true (refused_replied config refused) invalid

/-- Every code that an attach request ends with is registered. -/
theorem attach_replied {env : Environment} {server after : Server} {handler : AttachHandler}
    {reply : Option Reply} (ended : (Routed.attach handler).process (initialized env.service.around.config) env
      server = .ok (some (reply, after))) : reply.isSome = true := by
  have replied : ∀ code,
      code = AttachHandler.errNoKeys ∨ code = errBadParam ∨ code = AttachHandler.errCreateItem →
      code ∈ (initialized env.service.around.config).replys := by
    rintro code (rfl | rfl | rfl) <;> rw [mem_initialized_iff] <;> decide
  simp only [Routed.process] at ended
  obtain ⟨answer, answered, same⟩ := ok_of_map ended
  cases same
  rcases process_cases env.service.around.config (AttachHandler.checkParams_cases _ handler)
      (AttachHandler.dealOf env.service.around.config env.service.parse AttachHandler.toWord
        (AttachHandler.attachWords env.astray) · server.store)
      (fun result => .ok (result, server.store)) with ⟨_, dealt⟩ | ⟨_, code, refused, answer⟩
  · rcases AttachHandler.dealOf_cases (dealt.symm.trans answered) with
      ⟨code, sent, same, _⟩ | ⟨arguments, _, _, same⟩
    · rw [same]
      exact code_replied _ (replied code (AttachHandler.code_of_request sent))
    · rw [same]
      split_ifs
      · rfl
      · exact code_replied _ ((mem_initialized_iff ..).mpr (by decide))
  · cases answer.symm.trans answered
    exact refused_replied _ refused

/-- A token is a reply of its own. -/
theorem token_replied {env : Environment} {server after : Server} {handler : TokenHandler}
    {reply : Option Reply} (ended : (Routed.token handler).process (initialized env.service.around.config) env
      server = .ok (some (reply, after))) : reply.isSome = true := by
  simp only [Routed.process, TokenHandler.process] at ended
  rcases process_cases env.service.around.config (checkParams_cases _ handler)
      (TokenHandler.deal env.service.around.config env.now server.sessions env.candidates)
      (fun result => .ok (some (result, server.sessions))) with ⟨_, dealt⟩ | ⟨_, code, refused, answer⟩
  · rw [dealt, TokenHandler.deal] at ended
    obtain ⟨outcome, answered, same⟩ := ok_of_map ended
    obtain ⟨sent, requested, rfl⟩ := ok_of_map answered
    obtain ⟨result, ensured, same⟩ := Option.map_eq_some_iff.mp same
    rw [← (Prod.mk.inj same).1]
    cases sent with
    | inl code =>
      cases ensured
      rw [TokenHandler.code_of_request requested]
      exact refused_replied _ (Or.inl rfl)
    | inr call =>
      obtain ⟨token, _, rfl⟩ := Option.map_eq_some_iff.mp ensured
      rfl
  · rw [answer] at ended
    simp only [Except.map, Option.map_some, Except.ok.injEq, Option.some.injEq, Prod.mk.injEq] at ended
    rw [← ended.1]
    exact refused_replied _ refused

/-- Exactly the valid requests for the status or a detachment get no reply. -/
theorem process_replied_iff {env : Environment} {server after : Server} {method uri : Bytes}
    {params : List (Bytes × Bytes)} {reply : Option Reply}
    (ended : (received env.service.around.config env.service.parse method uri params).process
      (initialized env.service.around.config) env server = .ok (some (reply, after))) :
    reply.isSome = true ↔ ¬(uri ∈ unanswered ∧ validate env.service.around.config env.digest
      (checkParams env.service.around.config)
      (receivedManage env.service.around.config method uri params) = errOk) := by
  rcases received_cases env.service.around.config env.service.parse method uri params with
    ⟨handler, made, other⟩ | ⟨made, there⟩ | ⟨handler, made, other⟩ | ⟨made, there⟩ | ⟨handler, made, other⟩ |
      ⟨handler, made, other⟩ <;> rw [made] at ended
  · cases ended
    exact iff_of_true rfl fun silent => other silent.1
  · cases ended
    rw [and_iff_right there]
    exact manage_replied_iff _ _ _ (Or.inl rfl)
  · exact iff_of_true (attach_replied ended) fun silent => other silent.1
  · cases ended
    rw [and_iff_right there]
    exact manage_replied_iff _ _ _ (Or.inr rfl)
  · exact iff_of_true (token_replied ended) fun silent => other silent.1
  · refine iff_of_true ?_ fun silent => other silent.1
    simp only [Routed.process] at ended
    obtain ⟨answer, _, same⟩ := ok_of_map ended
    cases same
    cases answer.1 <;> rfl

/-- No signature is required, and nothing parses. -/
def unsignedEnvironment : Environment where
  service :=
    { around := ⟨{ (default : Config) with checkSign := false }, default, .insertion _⟩
      aside := Aside.ofConfig default
      parse := fun _ => none
      fieldSet := .insertion _ }
  digest := id
  write := fun _ => []
  now := 0
  candidates := []
  astray := fun store _ _ _ => (true, store)

def emptyServer : Server := ⟨.empty, .empty⟩

/-- An attach request without parameters gets the reply of a bad one. -/
theorem replied_attach : ∃ reply after,
    (received unsignedEnvironment.service.around.config unsignedEnvironment.service.parse (ascii "POST")
      (ascii "/manage/attach") []).process (initialized unsignedEnvironment.service.around.config)
        unsignedEnvironment emptyServer = .ok (some (reply, after)) ∧
    (reply.isSome = true ↔ ¬(ascii "/manage/attach" ∈ unanswered ∧
      validate unsignedEnvironment.service.around.config unsignedEnvironment.digest
        (checkParams unsignedEnvironment.service.around.config)
        (receivedManage unsignedEnvironment.service.around.config (ascii "POST") (ascii "/manage/attach") []) =
          errOk)) :=
  ⟨_, _, rfl,
    @process_replied_iff unsignedEnvironment emptyServer _ (ascii "POST") (ascii "/manage/attach") [] _ rfl⟩

/-- The status, and a detachment, are answered with the null pointer. -/
theorem status_unreplied :
    (received unsignedEnvironment.service.around.config unsignedEnvironment.service.parse (ascii "GET")
      (ascii "/manage/status") []).process (initialized unsignedEnvironment.service.around.config)
        unsignedEnvironment emptyServer = .ok (some (none, emptyServer)) ∧
    (received unsignedEnvironment.service.around.config unsignedEnvironment.service.parse (ascii "GET")
      (ascii "/manage/detach") []).process (initialized unsignedEnvironment.service.around.config)
        unsignedEnvironment emptyServer = .ok (some (none, emptyServer)) :=
  ⟨rfl, rfl⟩

end Router

end Taboo
