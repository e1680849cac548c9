import Taboo.Model.Session

/-! # One session for an identity

Tokens and sessions stay inverse to each other along a run exactly if no call inserts for an identity
that has received a token since the call looked it up.
-/

namespace Taboo.SessionManager

open Machine

/-- Tokens name the sessions of their identities, and every session is named. -/
def Inverse (manager : SessionManager) : Prop :=
  ∀ identy token, manager.tokens[identy]? = some token ↔
    ∃ session : Session, manager.sessions[token]? = some session ∧ session.identy = identy

/-- A call that inserts finds no token for its identity. -/
def Unclaimed (state : State) : Event → Prop
  | .lookup _ => True
  | .insert index _ => ∀ call, state.pending[index]? = some call → state.manager.tokens[call.identy]? = none

theorem inverse_empty : Inverse empty := by
  intro identy token
  simp [empty]

/-- An insertion keeps the two maps inverse exactly if the identity had no token. -/
theorem insert_inverse_iff {manager next : SessionManager} (inverse : Inverse manager) {call : Ensure}
    {candidates : List Bytes} {token : Bytes} (inserted : manager.insert call candidates = some (token, next)) :
    Inverse next ↔ manager.tokens[call.identy]? = none := by
  obtain ⟨fresh, sessions, tokens⟩ := insert_spec inserted
  constructor
  · intro after
    have bound := (after call.identy token).mpr ⟨call.session, by rw [sessions, if_pos rfl], rfl⟩
    by_contra claimed
    rw [tokens, if_neg fun free => claimed free.2] at bound
    obtain ⟨session, there, _⟩ := (inverse call.identy token).mp bound
    cases fresh.symm.trans there
  · intro unclaimed identy other
    rw [sessions, tokens]
    by_cases own : other = token
    · subst own
      rw [if_pos rfl]
      simp only [Option.some.injEq, exists_eq_left']
      split_ifs with free
      · exact iff_of_true rfl free.1.symm
      · refine iff_of_false (fun before => ?_) fun same => free ⟨same.symm, same ▸ unclaimed⟩
        obtain ⟨session, there, _⟩ := (inverse identy other).mp before
        cases fresh.symm.trans there
    · rw [if_neg own, ← inverse]
      split_ifs with free
      · rw [free.2]
        exact iff_of_false (fun same => own (Option.some.inj same).symm) (by simp)
      · exact Iff.rfl

theorem inverse_step_iff {state next : State} (inverse : Inverse state.manager) {event : Event}
    (stepped : step state event = some next) : Inverse next.manager ↔ Unclaimed state event := by
  cases event with
  | lookup call =>
    simp only [step] at stepped
    split at stepped <;> cases stepped <;> exact iff_of_true inverse trivial
  | insert index candidates =>
    obtain ⟨call, token, manager, waiting, inserted, rfl⟩ := step_insert stepped
    rw [insert_inverse_iff inverse inserted]
    simp [Unclaimed, waiting]

/-- Every token that a call has returned is the one of its identity. -/
def Granted (state : State) : Prop :=
  ∀ answer ∈ state.done, state.manager.tokens[answer.1.identy]? = some answer.2

theorem granted_step {state next : State} (granted : Granted state) {event : Event}
    (unclaimed : Unclaimed state event) (stepped : step state event = some next) : Granted next := by
  cases event with
  | lookup call =>
    simp only [step] at stepped
    split at stepped
    · next token found =>
      cases stepped
      exact List.forall_mem_cons.mpr ⟨found, granted⟩
    · cases stepped
      exact granted
  | insert index candidates =>
    obtain ⟨call, token, manager, waiting, inserted, rfl⟩ := step_insert stepped
    obtain ⟨_, _, tokens⟩ := insert_spec inserted
    intro answer member
    rcases List.mem_cons.mp member with rfl | member
    · rw [tokens, if_pos ⟨rfl, unclaimed call waiting⟩]
    · have before := granted answer member
      rw [tokens, if_neg fun free => Option.some_ne_none _ (before.symm.trans free.2)]
      exact before

/-- No identity has two sessions, and all its calls return the same token. -/
structure OneSession (state : State) : Prop where
  inverse : ∀ identy token, state.manager.tokens[identy]? = some token ↔
    ∃ session : Session, state.manager.sessions[token]? = some session ∧ session.identy = identy
  same : ∀ first ∈ state.done, ∀ second ∈ state.done, first.1.identy = second.1.identy → first.2 = second.2

/-- Along a run there is one session for each identity exactly if every insertion comes before any
other one for its identity. -/
theorem one_session_iff {events : List Event} {state : State} (ran : run step initial events = some state) :
    Throughout step initial events OneSession ↔ EachStep step initial events Unclaimed := by
  constructor
  · intro holds
    refine (throughout_iff ran (P := fun state => Inverse state.manager) inverse_empty ?_).mp ?_
    · exact fun _ state _ next _ inverse stepped => inverse_step_iff inverse stepped
    · exact fun before after state split ranBefore => (holds before after state split ranBefore).inverse
  · intro unclaimed
    have kept : Throughout step initial events fun state => Inverse state.manager ∧ Granted state := by
      refine (throughout_iff ran ⟨inverse_empty, by simp [Granted, initial]⟩ ?_).mpr unclaimed
      intro _ state event next _ holds stepped
      rw [inverse_step_iff holds.1 stepped]
      exact and_iff_left_of_imp fun free => granted_step holds.2 free stepped
    intro before after state split ranBefore
    obtain ⟨inverse, granted⟩ := kept before after state split ranBefore
    refine ⟨inverse, fun first member second member' same => ?_⟩
    have token := granted first member
    rw [same, granted second member'] at token
    exact (Option.some.inj token).symm

/-- A call for identity 7. -/
def callSeven : Ensure := ⟨7, .null, 100⟩

/-- The second call for identity 7 comes late enough. -/
def oneAfterTheOther : List Event :=
  [.lookup callSeven, .insert 0 [ascii "t"], .lookup callSeven]

theorem one_session_oneAfterTheOther : Throughout step initial oneAfterTheOther OneSession ↔
    EachStep step initial oneAfterTheOther Unclaimed :=
  @one_session_iff oneAfterTheOther _ rfl

/-- Both calls for identity 7 look it up before either inserts. -/
def bothMissed : List Event :=
  [.lookup callSeven, .lookup callSeven, .insert 0 [ascii "t"], .insert 0 [ascii "u"]]

theorem bothMissed_two_sessions : ∃ state, run step initial bothMissed = some state ∧
    state.done.map Prod.snd = [ascii "u", ascii "t"] ∧
    (state.manager.sessions.toList.map fun entry => (entry.1, entry.2.identy)) =
      [(ascii "t", 7), (ascii "u", 7)] ∧ ¬OneSession state := by
  refine ⟨_, rfl, by decide, by decide, fun one => ?_⟩
  have same := one.same (callSeven, ascii "u") List.mem_cons_self (callSeven, ascii "t")
    (List.mem_cons_of_mem _ List.mem_cons_self) rfl
  revert same
  decide

end Taboo.SessionManager
