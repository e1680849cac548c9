import Taboo.Soundness.IssuedTokens
import Taboo.Soundness.SessionRuns

/-! # What a granted token is good for

A token leads to its session until that expires, whatever else is ensured. But `ensure` hands out the
token of an identity without looking at the session behind it, so a later call gets the filters and the
expiry of the first.
-/

namespace Taboo.SessionManager

open Machine

/-- A sequential `ensure` keeps tokens and sessions inverse. -/
theorem ensure_inverse {manager next : SessionManager} (inverse : Inverse manager) {call : Ensure}
    {candidates : List Bytes} {token : Bytes} (ensured : manager.ensure call candidates = some (token, next)) :
    Inverse next := by
  unfold ensure at ensured
  split at ensured
  · cases ensured
    exact inverse
  · next missed => exact (insert_inverse_iff inverse ensured).mpr missed

/-- No session is ever replaced. -/
theorem ensure_keeps {manager next : SessionManager} {call : Ensure} {candidates : List Bytes} {token : Bytes}
    (ensured : manager.ensure call candidates = some (token, next)) {other : Bytes} {session : Session}
    (stored : manager.sessions[other]? = some session) : next.sessions[other]? = some session := by
  unfold ensure at ensured
  split at ensured
  · cases ensured
    exact stored
  · exact (insert_extends ensured).sessions other session stored

namespace Sequential

theorem step_cases {state next : Sequential} {event : Timed} (stepped : step state event = some next) :
    state.clock ≤ next.clock ∧ (next.manager = state.manager ∨ ∃ call candidates token,
      state.manager.ensure call candidates = some (token, next.manager)) := by
  cases event with
  | ensure call candidates now =>
    simp only [step] at stepped
    split_ifs at stepped with late
    obtain ⟨⟨token, manager⟩, ensured, rfl⟩ := Option.map_eq_some_iff.mp stepped
    exact ⟨late, Or.inr ⟨call, candidates, token, ensured⟩⟩
  | auth token now =>
    simp only [step] at stepped
    split_ifs at stepped with late
    cases stepped
    exact ⟨late, Or.inl rfl⟩

theorem run_inverse {state target : Sequential} {events : List Timed} (inverse : Inverse state.manager)
    (ran : run step state events = some target) : Inverse target.manager := by
  refine run_invariant (P := fun state => Inverse state.manager) ?_ inverse ran
  intro state event next inverse stepped
  rcases (step_cases stepped).2 with same | ⟨call, candidates, token, ensured⟩
  · rw [same]
    exact inverse
  · exact ensure_inverse inverse ensured

/-- Time does not go back, and a token keeps its session. -/
theorem run_keeps {state target : Sequential} {events : List Timed}
    (ran : run step state events = some target) {token : Bytes} {session : Session}
    (stored : state.manager.sessions[token]? = some session) :
    state.clock ≤ target.clock ∧ target.manager.sessions[token]? = some session := by
  refine run_invariant (P := fun next : Sequential => state.clock ≤ next.clock ∧
    next.manager.sessions[token]? = some session) ?_ ⟨le_refl _, stored⟩ ran
  rintro middle event next ⟨later, stored⟩ stepped
  obtain ⟨later', kept⟩ := step_cases stepped
  refine ⟨le_trans later later', ?_⟩
  rcases kept with same | ⟨call, candidates, token, ensured⟩
  · rw [same]
    exact stored
  · exact ensure_keeps ensured stored

end Sequential

/-- The event is no `ensure` for the identity. -/
def Timed.Spares (identy : Identy) : Timed → Prop
  | .ensure call _ _ => call.identy ≠ identy
  | .auth _ _ => True

/-- As long as no other `ensure` for the identity follows, an `auth` before the expiry asked for finds a
session as asked for. -/
def Honoured (granted : Sequential) (token : Bytes) (call : Ensure) : Prop :=
  ∀ events later, (∀ event ∈ events, Timed.Spares call.identy event) →
    run Sequential.step granted events = some later →
    ∀ now, later.clock ≤ now → now < call.expireTill →
      (later.manager.auth token now).isPresent = true ∧
        (later.manager.auth token now).identy = call.identy ∧
        (later.manager.auth token now).filters = call.filters

/-- The call asks for nothing any more, or for a proper identity whose session, if there is one already,
has the filters asked for and lasts long enough. -/
def Grantable (manager : SessionManager) (call : Ensure) (now : ℤ) : Prop :=
  call.expireTill ≤ now ∨ call.identy ≠ 0 ∧ ∀ token session, manager.tokens[call.identy]? = some token →
    manager.sessions[token]? = some session →
    session.filters = call.filters ∧ call.expireTill ≤ session.expire

/-- Whether a token is honoured depends on the session behind it only. -/
theorem honoured_iff (granted : Sequential) {token : Bytes} {session : Session} {call : Ensure}
    (stored : granted.manager.sessions[token]? = some session) (own : session.identy = call.identy) :
    Honoured granted token call ↔ call.expireTill ≤ granted.clock ∨
      call.identy ≠ 0 ∧ session.filters = call.filters ∧ call.expireTill ≤ session.expire := by
  constructor
  · intro honoured
    by_contra unfit
    simp only [not_or, not_le] at unfit
    obtain ⟨still, unfit⟩ := unfit
    -- the latest moment between the grant and the expiry asked for
    have valid := honoured [] granted (by simp) rfl (call.expireTill - 1) (by omega) (by omega)
    simp only [auth, stored] at valid
    split_ifs at valid with lasts
    · refine unfit ⟨?_, valid.2.2, by omega⟩
      rintro zero
      simp [Session.isPresent, own, zero] at valid
    · simp [absentSession, Session.isPresent] at valid
  · rintro (closed | ⟨proper, filters, lasts⟩) events later _ ran now after before
    · have kept := Sequential.run_keeps ran stored
      omega
    · have kept := Sequential.run_keeps ran stored
      have current : now < session.expire := by omega
      simp only [auth, kept.2, current, if_true]
      exact ⟨by simpa [Session.isPresent, own] using proper, own, filters⟩

/-- In every reachable state, a token is honoured as it was asked for exactly if the call was
grantable. -/
theorem ensure_honoured_iff {start : ℤ} {before : List Timed} {state : Sequential}
    (ran : run Sequential.step ⟨.empty, start⟩ before = some state) {call : Ensure} {candidates : List Bytes}
    {now : ℤ} {token : Bytes} {manager : SessionManager}
    (ensured : state.manager.ensure call candidates = some (token, manager)) :
    Honoured ⟨manager, now⟩ token call ↔ Grantable state.manager call now := by
  have inverse := @Sequential.run_inverse ⟨.empty, start⟩ _ _ inverse_empty ran
  unfold ensure at ensured
  split at ensured
  · next found =>
    cases ensured
    obtain ⟨session, stored, own⟩ := (inverse call.identy token).mp found
    rw [honoured_iff ⟨state.manager, now⟩ stored own]
    refine or_congr_right (and_congr_right fun _ => ?_)
    constructor
    · intro good other session' found' stored'
      cases found.symm.trans found'
      cases stored.symm.trans stored'
      exact good
    · exact fun good => good token session found stored
  · next missed =>
    obtain ⟨_, sessions, _⟩ := insert_spec ensured
    have stored : manager.sessions[token]? = some call.session := by rw [sessions, if_pos rfl]
    rw [honoured_iff ⟨manager, now⟩ stored rfl]
    unfold lookup at missed
    simp [Grantable, missed, Ensure.session]

/-- A session for identity 7 that lasts until 10, and the time 20. -/
def expired : List Timed := [.ensure ⟨7, .null, 10⟩ [ascii "t"] 0, .auth (ascii "t") 20]

theorem ensure_honoured_first : ∃ manager,
    empty.ensure callSeven [ascii "t"] = some (ascii "t", manager) ∧
      (Honoured ⟨manager, 20⟩ (ascii "t") callSeven ↔ Grantable empty callSeven 20) :=
  ⟨_, rfl, @ensure_honoured_iff 0 [] _ rfl callSeven [ascii "t"] 20 _ _ rfl⟩

/-- A renewal until 100 returns the token of the expired session. -/
theorem expired_not_renewed : ∃ state manager,
    run Sequential.step ⟨.empty, 0⟩ expired = some state ∧
    state.manager.ensure callSeven [ascii "u"] = some (ascii "t", manager) ∧
    (manager.auth (ascii "t") 20).isPresent = false ∧ ¬Honoured ⟨manager, 20⟩ (ascii "t") callSeven := by
  refine ⟨_, _, rfl, rfl, by decide, fun honoured => ?_⟩
  have valid := (honoured [] _ (by simp) rfl 20 (by decide) (by decide)).1
  revert valid
  decide

end Taboo.SessionManager
