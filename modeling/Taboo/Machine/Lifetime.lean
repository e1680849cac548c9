import Taboo.Machine.Run

/-! # The life of one object

A history lists what is done with an object. It is lawful if the object is created, then used, and then
destroyed, each as far as the history goes; so whatever is done after the creation meets a live object,
and the object is destroyed once at most.
-/

namespace Lifetime

inductive Op
  | create
  | use
  | destroy
deriving DecidableEq

inductive Phase
  | unborn
  | live
  | dead
deriving DecidableEq

def next : Phase → Op → Option Phase
  | .unborn, .create => some .live
  | .live, .use => some .live
  | .live, .destroy => some .dead
  | _, _ => none

/-- Where a lawful history leaves the object. -/
def after (history : List Op) : Option Phase := Machine.run next .unborn history

theorem after_append (history ops : List Op) :
    after (history ++ ops) = (after history).bind fun phase => Machine.run next phase ops :=
  Machine.run_append ..

/-- Using a live object leaves it alive. -/
@[simp] theorem run_uses (count : ℕ) : Machine.run next .live (List.replicate count .use) = some .live := by
  induction count with
  | zero => rfl
  | succ count ih => exact ih

/-- Whatever a lawful history does with an object but create it, it does with a live one. -/
theorem live_of_lawful {before rest : List Op} {op : Op} (lawful : (after (before ++ op :: rest)).isSome = true)
    (later : op ≠ .create) : after before = some .live := by
  obtain ⟨phase, ran⟩ := Option.isSome_iff_exists.mp lawful
  obtain ⟨middle, ranBefore, ranRest⟩ := Machine.run_cut ran
  obtain ⟨_, stepped, _⟩ := Option.bind_eq_some_iff.mp ranRest
  cases middle with
  | live => exact ranBefore
  | unborn | dead => cases op <;> simp [next] at stepped later

/-- A lawful history has created the object once unless it is still unborn. -/
theorem count_create {history : List Op} {phase : Phase} (lawful : after history = some phase) :
    history.count .create = if phase = .unborn then 0 else 1 := by
  refine Machine.run_induction (P := fun history phase =>
    history.count .create = if phase = .unborn then 0 else 1) rfl ?_ lawful
  intro history op phase target _ counted stepped
  rw [List.count_append, counted]
  cases phase <;> cases op <;> simp [next] at stepped <;> subst stepped <;> rfl

/-- A lawful history has destroyed the object once if it is dead, and not at all otherwise. -/
theorem count_destroy {history : List Op} {phase : Phase} (lawful : after history = some phase) :
    history.count .destroy = if phase = .dead then 1 else 0 := by
  refine Machine.run_induction (P := fun history phase =>
    history.count .destroy = if phase = .dead then 1 else 0) rfl ?_ lawful
  intro history op phase target _ counted stepped
  rw [List.count_append, counted]
  cases phase <;> cases op <;> simp [next] at stepped <;> subst stepped <;> rfl

end Lifetime
