import Taboo.Container.FiniteMap
import Taboo.Machine.Run
import Taboo.Model.Json

/-! # Sessions and their tokens

`ensure` looks an identity up under the read lock and, on a miss, inserts under the write lock; other
calls may run in between. `State` and `step` are about that; `Sequential` runs one call at a time, with
a clock.
-/

namespace Taboo

open Std

/-- `identy_t`, a 64-bit `std::size_t`. -/
abbrev Identy := UInt64

structure Session where
  filters : Value
  identy : Identy
  expire : ℤ

def absentSession : Session := ⟨.null, 0, 0⟩

/-- `operator bool` -/
def Session.isPresent (session : Session) : Bool := session.identy != 0

/-- The arguments of an `ensure` call. -/
structure Ensure where
  identy : Identy
  filters : Value
  expireTill : ℤ

def Ensure.session (call : Ensure) : Session := ⟨call.filters, call.identy, call.expireTill⟩

structure SessionManager where
  sessions : ExtTreeMap Bytes Session
  tokens : ExtTreeMap Identy Bytes

namespace SessionManager

def empty : SessionManager := ⟨∅, ∅⟩

/-- The read-locked section of `ensure`; a hit is returned as it is. -/
def lookup (manager : SessionManager) (identy : Identy) : Option Bytes := manager.tokens[identy]?

/-- The first candidate of `_createToken` that names no session; `none` as long as all of them do. -/
def createToken (manager : SessionManager) (candidates : List Bytes) : Option Bytes :=
  candidates.find? fun token => decide (token ∉ manager.sessions)

/-- The write-locked section of `ensure`. -/
def insert (manager : SessionManager) (call : Ensure) (candidates : List Bytes) :
    Option (Bytes × SessionManager) :=
  (manager.createToken candidates).map fun token =>
    (token, ⟨manager.sessions.insertIfNew token call.session, manager.tokens.insertIfNew call.identy token⟩)

def auth (manager : SessionManager) (token : Bytes) (now : ℤ) : Session :=
  match manager.sessions[token]? with
  | some session => if now < session.expire then session else absentSession
  | none => absentSession

/-- The new token is fresh, and is bound to the identity unless that has one. -/
theorem insert_spec {manager next : SessionManager} {call : Ensure} {candidates : List Bytes} {token : Bytes}
    (inserted : manager.insert call candidates = some (token, next)) :
    manager.sessions[token]? = none ∧
      (∀ other, next.sessions[other]? = if other = token then some call.session else manager.sessions[other]?) ∧
      ∀ identy, next.tokens[identy]? =
        if identy = call.identy ∧ manager.tokens[identy]? = none then some token else manager.tokens[identy]? := by
  obtain ⟨created, fresh, same⟩ := Option.map_eq_some_iff.mp inserted
  cases same
  have absent : manager.sessions[token]? = none :=
    (FiniteMap.not_mem_iff ..).mp (by simpa using List.find?_some fresh)
  refine ⟨absent, fun other => ?_, fun identy => FiniteMap.getElem?_insertIfNew ..⟩
  rw [FiniteMap.getElem?_insertIfNew]
  apply if_congr (and_iff_left_of_imp ?_) rfl rfl
  rintro rfl
  exact absent

/-! ### Concurrent calls -/

/-- `pending` calls have missed and not yet inserted, `done` ones have returned their token. -/
structure State where
  manager : SessionManager
  pending : List Ensure
  done : List (Ensure × Bytes)

inductive Event
  | lookup (call : Ensure)
  | insert (index : ℕ) (candidates : List Bytes)

def initial : State := ⟨.empty, [], []⟩

def step (state : State) : Event → Option State
  | .lookup call =>
      match state.manager.lookup call.identy with
      | some token => some { state with done := (call, token) :: state.done }
      | none => some { state with pending := state.pending ++ [call] }
  | .insert index candidates => do
      let call ← state.pending[index]?
      let (token, manager) ← state.manager.insert call candidates
      return ⟨manager, state.pending.eraseIdx index, (call, token) :: state.done⟩

theorem step_insert {state next : State} {index : ℕ} {candidates : List Bytes}
    (stepped : step state (.insert index candidates) = some next) :
    ∃ call token manager, state.pending[index]? = some call ∧
      state.manager.insert call candidates = some (token, manager) ∧
      next = ⟨manager, state.pending.eraseIdx index, (call, token) :: state.done⟩ := by
  obtain ⟨call, waiting, inserting⟩ := Option.bind_eq_some_iff.mp stepped
  obtain ⟨⟨token, manager⟩, inserted, same⟩ := Option.bind_eq_some_iff.mp inserting
  exact ⟨call, token, manager, waiting, inserted, (Option.some.inj same).symm⟩

/-! ### One call at a time -/

def ensure (manager : SessionManager) (call : Ensure) (candidates : List Bytes) :
    Option (Bytes × SessionManager) :=
  match manager.lookup call.identy with
  | some token => some (token, manager)
  | none => manager.insert call candidates

/-- The manager, and the time of the last call. -/
structure Sequential where
  manager : SessionManager
  clock : ℤ

inductive Timed
  | ensure (call : Ensure) (candidates : List Bytes) (now : ℤ)
  | auth (token : Bytes) (now : ℤ)

namespace Sequential

/-- Calls come at non-decreasing times. -/
def step (state : Sequential) : Timed → Option Sequential
  | .ensure call candidates now =>
      if state.clock ≤ now then
        (state.manager.ensure call candidates).map fun answer => ⟨answer.2, now⟩
      else none
  | .auth _ now => if state.clock ≤ now then some { state with clock := now } else none

end Sequential

end SessionManager

end Taboo
