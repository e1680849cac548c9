import Taboo.Model.TokenHandler

/-! # Token requests for every parameter text

The casts of the identity and of the expiry throw, and nothing on the way up catches; the cast of the
identity wraps a minus besides. So a request is handled exactly if its texts spell numbers in range.
-/

namespace Taboo.TokenHandler

open BaseHandler ManageHandler

/-- The integer that a text spells: decimal digits, with a sign or without one. -/
def denotes (text : Bytes) : Option ℤ :=
  (digits (splitSign text).2).map fun value : ℕ => if (splitSign text).1 then -(value : ℤ) else value

def SpellsIdenty (text : Bytes) : Prop := ∃ num : ℤ, denotes text = some num ∧ 0 ≤ num ∧ num < 2 ^ 64

def SpellsTime (text : Bytes) : Prop := ∃ num : ℤ, denotes text = some num ∧ -2 ^ 63 ≤ num ∧ num < 2 ^ 63

/-- There is no identity, or it is spelled in range, and so is the expiry if there is one. -/
def Regular (config : Config) (handler : TokenHandler) : Prop :=
  ∀ text, handler.params[config.keyMUIdenty]? = some text →
    SpellsIdenty text ∧ ∀ expire, handler.params[config.keyMUExpire]? = some expire → SpellsTime expire

/-- The call is for the identity and the expiry that the parameters spell. -/
structure Asked (config : Config) (handler : TokenHandler) (call : Ensure) : Prop where
  identy : ∃ text, handler.params[config.keyMUIdenty]? = some text ∧
    denotes text = some (call.identy.toNat : ℤ)
  expire : ∀ text, handler.params[config.keyMUExpire]? = some text →
    denotes text = some call.expireTill ∧ -2 ^ 63 ≤ call.expireTill ∧ call.expireTill < 2 ^ 63

/-- Whatever sessions there are, and as soon as the generator yields a token that is free, the request is
answered: with an error, or with the token of what it asks for. -/
def Handled (config : Config) (now : ℤ) (handler : TokenHandler) : Prop :=
  ∀ (manager : SessionManager) (candidates : List Bytes), (manager.createToken candidates).isSome = true →
    ∃ result next, deal config now manager candidates handler = .ok (some (some result, next)) ∧
      ((result = ⟨none, errBadParam⟩ ∧ next = manager) ∨
        ∃ call token, Asked config handler call ∧ manager.ensure call candidates = some (token, next) ∧
          result = ⟨some (genReply config errOk token), errUnknown⟩)

/-- Requests for one identity spell the same number. -/
def Apart (config : Config) (now : ℤ) (first second : TokenHandler) : Prop :=
  ∀ call call' text text', request config now first = .ok (.inr call) →
    request config now second = .ok (.inr call') → call.identy = call'.identy →
    first.params[config.keyMUIdenty]? = some text → second.params[config.keyMUIdenty]? = some text' →
    denotes text = denotes text'

theorem spellsIdenty_iff {text : Bytes} : SpellsIdenty text ↔
    ∃ identy, identyCast text = some identy ∧ denotes text = some (identy.toNat : ℤ) := by
  constructor
  · rintro ⟨num, spelled, positive, bound⟩
    obtain ⟨value, read, signed⟩ := Option.map_eq_some_iff.mp spelled
    simp only [identyCast, denotes, read, Option.map_some]
    cases minus : (splitSign text).1 with
    | false =>
      simp only [minus, Bool.false_eq_true, if_false] at signed ⊢
      have small : value < 2 ^ 64 := by omega
      refine ⟨UInt64.ofNat value, if_pos small, ?_⟩
      rw [UInt64.toNat_ofNat_of_lt' small]
    | true =>
      -- only zero has a minus and is in range
      simp only [minus, if_true] at signed ⊢
      obtain rfl : value = 0 := by omega
      exact ⟨0, rfl, rfl⟩
  · rintro ⟨identy, _, spelled⟩
    exact ⟨identy.toNat, spelled, Int.natCast_nonneg _, by exact_mod_cast identy.toNat_lt⟩

theorem timeCast_eq_some_iff {text : Bytes} {num : ℤ} :
    timeCast text = some num ↔ denotes text = some num ∧ -2 ^ 63 ≤ num ∧ num < 2 ^ 63 := by
  unfold timeCast denotes
  cases digits (splitSign text).2 with
  | none => simp
  | some value =>
    simp only [Option.map_some, Option.some.injEq]
    generalize (if (splitSign text).1 then -(value : ℤ) else value) = signed
    constructor
    · intro cast
      split_ifs at cast with range
      obtain rfl := Option.some.inj cast
      exact ⟨rfl, range⟩
    · rintro ⟨rfl, range⟩
      exact if_pos range

/-- A regular request is an error for lack of an identity, or a call for what it asks for. -/
theorem Regular.request {config : Config} {handler : TokenHandler} (regular : Regular config handler)
    (now : ℤ) :
    TokenHandler.request config now handler = .ok (.inl errBadParam) ∨
      ∃ call, TokenHandler.request config now handler = .ok (.inr call) ∧ Asked config handler call := by
  rcases request_cases config now handler with ⟨_, sent⟩ | ⟨text, there, ⟨failed, _⟩ | ⟨call, sent, cast, till⟩⟩
  · exact Or.inl sent
  · obtain ⟨spelled, inTime⟩ := regular text there
    rcases failed with failed | ⟨expire, expires, failed⟩
    · obtain ⟨identy, cast, _⟩ := spellsIdenty_iff.mp spelled
      cases cast.symm.trans failed
    · obtain ⟨num, spells⟩ := inTime expire expires
      cases (timeCast_eq_some_iff.mpr spells).symm.trans failed
  · obtain ⟨identy, cast', denoted⟩ := spellsIdenty_iff.mp (regular text there).1
    obtain rfl := Option.some.inj (cast'.symm.trans cast)
    refine Or.inr ⟨call, sent, ⟨text, there, denoted⟩, fun expire expires => ?_⟩
    exact timeCast_eq_some_iff.mp (till expire expires)

theorem ensure_isSome {manager : SessionManager} {candidates : List Bytes}
    (free : (manager.createToken candidates).isSome = true) (call : Ensure) :
    ∃ answer, manager.ensure call candidates = some answer := by
  unfold SessionManager.ensure SessionManager.insert
  obtain ⟨token, created⟩ := Option.isSome_iff_exists.mp free
  split
  · exact ⟨_, rfl⟩
  · rw [created]
    exact ⟨_, rfl⟩

theorem handled_iff_regular (config : Config) (now : ℤ) (handler : TokenHandler) :
    Handled config now handler ↔ Regular config handler := by
  constructor
  · intro handled text there
    obtain ⟨result, next, done, answered⟩ := handled .empty [[]] (by decide)
    rcases answered with ⟨rfl, _⟩ | ⟨call, token, asked, _, _⟩
    · -- with an identity there is no error but the exception
      rcases request_cases config now handler with ⟨absent, _⟩ | ⟨_, _, ⟨_, sent⟩ | ⟨call, sent, _⟩⟩
      · cases there.symm.trans absent
      · simp [deal, sent, Except.map] at done
      · simp [deal, sent, Except.map] at done
    · obtain ⟨text', there', denoted⟩ := asked.identy
      cases there.symm.trans there'
      refine ⟨?_, fun expire expires => ⟨call.expireTill, asked.expire expire expires⟩⟩
      exact ⟨call.identy.toNat, denoted, Int.natCast_nonneg _, by exact_mod_cast call.identy.toNat_lt⟩
  · intro regular manager candidates free
    rcases regular.request now with sent | ⟨call, sent, asked⟩
    · refine ⟨⟨none, errBadParam⟩, manager, ?_, Or.inl ⟨rfl, rfl⟩⟩
      rw [deal, sent]
      rfl
    · obtain ⟨⟨token, next⟩, ensured⟩ := ensure_isSome free call
      refine ⟨⟨some (genReply config errOk token), errUnknown⟩, next, ?_, Or.inr ?_⟩
      · simp [deal, sent, Except.map, ensured]
      · exact ⟨call, token, asked, ensured, rfl⟩

/-- Two requests are handled, and identities kept apart, exactly if both are regular. -/
theorem handled_iff (config : Config) (now : ℤ) (first second : TokenHandler) :
    (Handled config now first ∧ Handled config now second ∧ Apart config now first second) ↔
      Regular config first ∧ Regular config second := by
  rw [handled_iff_regular, handled_iff_regular]
  refine ⟨fun both => ⟨both.1, both.2.1⟩, fun both => ⟨both.1, both.2, ?_⟩⟩
  intro call call' text text' sent sent' same there there'
  -- the texts of regular requests denote what they are cast to
  have denoted : ∀ {handler : TokenHandler} {call : Ensure} {text : Bytes}, Regular config handler →
      request config now handler = .ok (.inr call) → handler.params[config.keyMUIdenty]? = some text →
      denotes text = some (call.identy.toNat : ℤ) := by
    intro handler call text regular sent there
    rcases regular.request now with sent' | ⟨_, sent', asked⟩
    · cases sent.symm.trans sent'
    · cases sent.symm.trans sent'
      obtain ⟨_, there', denoted⟩ := asked.identy
      cases there.symm.trans there'
      exact denoted
  rw [denoted both.1 sent there, denoted both.2 sent' there', same]

/-- A request with nothing but an identity. -/
def identyRequest (text : Bytes) : TokenHandler :=
  { create with params := (∅ : ParamMap).insertIfNew (ascii "tid") text }

/-- A text without digits ends the process, and a minus wraps to the identity of another number. -/
theorem unspelled_unhandled :
    (∀ manager candidates, deal default 0 manager candidates (identyRequest (ascii "x")) = .error .badCast) ∧
    ¬Handled default 0 (identyRequest (ascii "x")) ∧
    ¬Apart default 0 (identyRequest (ascii "-1")) (identyRequest (ascii "18446744073709551615")) := by
  have thrown : ∀ manager candidates,
      deal default 0 manager candidates (identyRequest (ascii "x")) = .error .badCast := fun _ _ => rfl
  refine ⟨thrown, fun handled => ?_, fun apart => ?_⟩
  · obtain ⟨result, next, done, _⟩ := handled .empty [[]] (by decide)
    cases (thrown _ _).symm.trans done
  · have alike := apart ⟨18446744073709551615, .null, 0⟩ ⟨18446744073709551615, .null, 0⟩ (ascii "-1")
      (ascii "18446744073709551615") rfl rfl rfl rfl rfl
    revert alike
    decide

end Taboo.TokenHandler
