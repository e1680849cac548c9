import Taboo.Model.Session

/-! # Tokens of different identities

However the sections of concurrent calls interleave and whatever strings the generator yields, every
session is the one that some returned call was granted, every returned token leads to a session of the
caller's identity, and neither map ever changes an entry. So no token opens the session of another
identity.
-/

namespace Taboo.SessionManager

open Machine

/-- Sessions come from returned calls, and tokens lead to sessions of their identity. -/
structure Issued (state : State) : Prop where
  traced : ∀ token session, state.manager.sessions[token]? = some session →
    ∃ call, (call, token) ∈ state.done ∧ session = call.session
  owned : ∀ answer ∈ state.done, ∃ session : Session,
    state.manager.sessions[answer.2]? = some session ∧ session.identy = answer.1.identy
  bound : ∀ identy token, state.manager.tokens[identy]? = some token →
    ∃ session : Session, state.manager.sessions[token]? = some session ∧ session.identy = identy

/-- What the first manager has bound is bound alike in the second. -/
structure Extends (before after : SessionManager) : Prop where
  sessions : ∀ (token : Bytes) (session : Session), before.sessions[token]? = some session →
    after.sessions[token]? = some session
  tokens : ∀ (identy : Identy) (token : Bytes), before.tokens[identy]? = some token →
    after.tokens[identy]? = some token

theorem Extends.refl (manager : SessionManager) : Extends manager manager :=
  ⟨fun _ _ there => there, fun _ _ there => there⟩

theorem Extends.trans {first second third : SessionManager} (before : Extends first second)
    (after : Extends second third) : Extends first third where
  sessions token session there := after.sessions token session (before.sessions token session there)
  tokens identy token there := after.tokens identy token (before.tokens identy token there)

/-- Neither insertion overwrites. -/
theorem insert_extends {manager next : SessionManager} {call : Ensure} {candidates : List Bytes}
    {token : Bytes} (inserted : manager.insert call candidates = some (token, next)) :
    Extends manager next := by
  obtain ⟨fresh, sessions, tokens⟩ := insert_spec inserted
  constructor
  · intro other session there
    rw [sessions, if_neg, there]
    rintro rfl
    cases fresh.symm.trans there
  · intro identy other there
    rw [tokens, if_neg, there]
    rintro ⟨_, free⟩
    cases free.symm.trans there

theorem extends_step {state next : State} {event : Event} (stepped : step state event = some next) :
    Extends state.manager next.manager ∧ state.done ⊆ next.done := by
  cases event with
  | lookup call =>
    simp only [step] at stepped
    split at stepped <;> cases stepped
    · exact ⟨.refl _, List.subset_cons_self _ _⟩
    · exact ⟨.refl _, List.Subset.refl _⟩
  | insert index candidates =>
    obtain ⟨call, token, manager, _, inserted, rfl⟩ := step_insert stepped
    exact ⟨insert_extends inserted, List.subset_cons_self _ _⟩

theorem extends_run {state target : State} {events : List Event}
    (ran : run step state events = some target) :
    Extends state.manager target.manager ∧ state.done ⊆ target.done := by
  refine run_invariant (P := fun next : State => Extends state.manager next.manager ∧ state.done ⊆ next.done)
    ?_ ⟨.refl _, List.Subset.refl _⟩ ran
  rintro middle event next ⟨manager, done⟩ stepped
  obtain ⟨manager', done'⟩ := extends_step stepped
  exact ⟨manager.trans manager', fun answer member => done' (done member)⟩

theorem issued_initial : Issued initial where
  traced := by simp [initial, empty]
  owned := by simp [initial]
  bound := by simp [initial, empty]

/-- Each section of a call, a racing insertion for an identity that has a token included. -/
theorem Issued.step {state next : State} (issued : Issued state) {event : Event}
    (stepped : SessionManager.step state event = some next) : Issued next := by
  cases event with
  | lookup call =>
    simp only [SessionManager.step] at stepped
    split at stepped
    · next token found =>
      cases stepped
      refine ⟨?_, ?_, issued.bound⟩
      · intro other session there
        obtain ⟨granted, member, same⟩ := issued.traced other session there
        exact ⟨granted, List.mem_cons_of_mem _ member, same⟩
      · exact List.forall_mem_cons.mpr ⟨issued.bound call.identy token found, issued.owned⟩
    · cases stepped
      exact ⟨issued.traced, issued.owned, issued.bound⟩
  | insert index candidates =>
    obtain ⟨call, token, manager, _, inserted, rfl⟩ := step_insert stepped
    obtain ⟨_, sessions, tokens⟩ := insert_spec inserted
    have kept := (insert_extends inserted).sessions
    have own : manager.sessions[token]? = some call.session := by rw [sessions, if_pos rfl]
    refine ⟨?_, ?_, ?_⟩
    · intro other session there
      rw [sessions] at there
      split_ifs at there with here
      · subst here
        exact ⟨call, List.mem_cons_self, (Option.some.inj there).symm⟩
      · obtain ⟨granted, member, same⟩ := issued.traced other session there
        exact ⟨granted, List.mem_cons_of_mem _ member, same⟩
    · refine List.forall_mem_cons.mpr ⟨⟨call.session, own, rfl⟩, fun answer member => ?_⟩
      obtain ⟨session, there, same⟩ := issued.owned answer member
      exact ⟨session, kept _ _ there, same⟩
    · intro identy other there
      rw [tokens] at there
      split_ifs at there with free
      · obtain rfl := Option.some.inj there
        exact ⟨call.session, own, free.1.symm⟩
      · obtain ⟨session, there, same⟩ := issued.bound identy other there
        exact ⟨session, kept _ _ there, same⟩

theorem issued_run {events : List Event} {state : State} (ran : run step initial events = some state) :
    Issued state :=
  run_invariant (P := Issued) (fun _ _ _ issued stepped => issued.step stepped) issued_initial ran

/-- A present session is the one behind its token. -/
theorem auth_present {manager : SessionManager} {token : Bytes} {now : ℤ}
    (present : (manager.auth token now).isPresent = true) :
    manager.sessions[token]? = some (manager.auth token now) := by
  unfold auth at present ⊢
  split at present
  · next session there =>
    split_ifs at present ⊢ with lasts
    · exact there
    · simp [Session.isPresent, absentSession] at present
  · simp [Session.isPresent, absentSession] at present

/-- What holds of the tokens that the calls of a run have returned. -/
structure Separate (state : State) : Prop where
  /-- calls for different identities return different tokens -/
  apart : ∀ first ∈ state.done, ∀ second ∈ state.done, first.2 = second.2 →
    first.1.identy = second.1.identy
  /-- a token opens the session that was made for a call of the identity it was issued to -/
  opens : ∀ token now, (state.manager.auth token now).isPresent = true →
    ∃ call, (call, token) ∈ state.done ∧ state.manager.auth token now = call.session ∧
      ∀ answer ∈ state.done, answer.2 = token → answer.1.identy = call.identy

theorem Issued.separate {state : State} (issued : Issued state) : Separate state := by
  have apart : ∀ first ∈ state.done, ∀ second ∈ state.done, first.2 = second.2 →
      first.1.identy = second.1.identy := by
    intro first member second member' same
    obtain ⟨session, there, own⟩ := issued.owned first member
    obtain ⟨session', there', own'⟩ := issued.owned second member'
    rw [same] at there
    obtain rfl := Option.some.inj (there.symm.trans there')
    exact own.symm.trans own'
  refine ⟨apart, fun token now present => ?_⟩
  obtain ⟨call, member, same⟩ := issued.traced token _ (auth_present present)
  exact ⟨call, member, same, fun answer member' own => apart answer member' (call, token) member own⟩

/-- Any interleaving, any candidates: tokens separate the identities, and what a token is bound to at
some point of a run, it is bound to from then on. -/
theorem tokens_separate {events : List Event} {state : State} (ran : run step initial events = some state) :
    Separate state ∧ ∀ before after middle, events = before ++ after →
      run step initial before = some middle →
      (∀ answer ∈ middle.done, ∃ session : Session, session.identy = answer.1.identy ∧
        middle.manager.sessions[answer.2]? = some session ∧
        state.manager.sessions[answer.2]? = some session) ∧
      ∀ (identy : Identy) (token : Bytes), middle.manager.tokens[identy]? = some token →
        state.manager.tokens[identy]? = some token := by
  refine ⟨(issued_run ran).separate, ?_⟩
  rintro before after middle rfl ranBefore
  obtain ⟨middle', ranBefore', ranAfter⟩ := run_cut ran
  obtain rfl := Option.some.inj (ranBefore.symm.trans ranBefore')
  have kept := (extends_run ranAfter).1
  refine ⟨fun answer member => ?_, kept.tokens⟩
  obtain ⟨session, there, own⟩ := (issued_run ranBefore).owned answer member
  exact ⟨session, own, there, kept.sessions answer.2 session there⟩

/-- Two racing calls for one identity and one for another, with a generator that repeats itself. -/
def repeatedCandidates : List Event :=
  [.lookup ⟨7, .null, 100⟩, .lookup ⟨7, .null, 50⟩, .lookup ⟨8, .null, 100⟩, .insert 0 [ascii "t"],
    .insert 1 [ascii "t", ascii "t", ascii "u"], .insert 0 [ascii "u", ascii "v"]]

theorem tokens_separate_repeatedCandidates : ∃ state, run step initial repeatedCandidates = some state ∧
    state.done.map Prod.snd = [ascii "v", ascii "u", ascii "t"] ∧ Separate state :=
  ⟨_, rfl, by decide, (@tokens_separate repeatedCandidates _ rfl).1⟩

end Taboo.SessionManager
