import Mathlib.Data.List.Induction

/-! # Runs of a partial step function

`run step source events` performs the events in order and fails as soon as one of them cannot
happen. Everything a verification needs of it is here: runs compose and can be cut anywhere, and a
property that may mention the history holds of a whole run once it holds of the empty one and every
event that can happen preserves it.
-/

namespace Machine

variable {State Event : Type*}

/-- Perform the events from left to right. -/
def run (step : State → Event → Option State) (source : State) : List Event → Option State
  | [] => some source
  | event :: rest => (step source event).bind fun next => run step next rest

variable {step : State → Event → Option State}

@[simp] theorem run_nil (source : State) : run step source [] = some source := rfl

theorem run_cons (source : State) (event : Event) (rest : List Event) :
    run step source (event :: rest) = (step source event).bind fun next => run step next rest := rfl

theorem run_append (source : State) (first second : List Event) :
    run step source (first ++ second) =
      (run step source first).bind fun middle => run step middle second := by
  induction first generalizing source with
  | nil => rfl
  | cons event rest ih => simp only [List.cons_append, run_cons, ih, Option.bind_assoc]

/-- Machines whose steps keep their states related, and are possible for both or for neither, run alike. -/
theorem run_related {State' : Type*} {step' : State' → Event → Option State'} {R : State → State' → Prop}
    (steps : ∀ left right event, R left right → Option.Rel R (step left event) (step' right event)) {source : State}
    {source' : State'} (related : R source source') (events : List Event) :
    Option.Rel R (run step source events) (run step' source' events) := by
  induction events generalizing source source' with
  | nil => exact .some related
  | cons event rest ih =>
    rw [run_cons, run_cons]
    have first := steps source source' event related
    generalize step source event = left at first
    generalize step' source' event = right at first
    cases first with
    | none => exact .none
    | some related => exact ih related

/-- A step function that never fails runs on for ever. -/
theorem run_total (total : ∀ state event, ∃ next, step state event = some next) (source : State)
    (events : List Event) : ∃ target, run step source events = some target := by
  induction events generalizing source with
  | nil => exact ⟨source, rfl⟩
  | cons event rest ih =>
    obtain ⟨next, stepped⟩ := total source event
    obtain ⟨target, ran⟩ := ih next
    exact ⟨target, by rw [run_cons, stepped, Option.bind_some, ran]⟩

/-- The last event of a run starts from the state the others lead to. -/
theorem run_concat (source : State) (events : List Event) (event : Event) :
    run step source (events ++ [event]) = (run step source events).bind (step · event) := by
  simp only [run_append, run_cons, run_nil, Option.bind_fun_some]

/-- A run can be cut at any event. -/
theorem run_cut {source target : State} {first second : List Event}
    (ran : run step source (first ++ second) = some target) :
    ∃ middle, run step source first = some middle ∧ run step middle second = some target := by
  rw [run_append] at ran
  exact Option.bind_eq_some_iff.mp ran

/-- A property holds in every state along a run when every step of that run, taken at a state that
has it, keeps it. The steps that the run does not take need not. -/
theorem run_everywhere {source : State} {P : List Event → State → Prop} {events : List Event}
    (initial : P [] source)
    (preserved : ∀ before event after state next, events = before ++ event :: after →
      run step source before = some state → P before state → step state event = some next →
        P (before ++ [event]) next) :
    ∀ before after state, events = before ++ after → run step source before = some state →
      P before state := by
  intro before
  induction before using List.reverseRecOn with
  | nil =>
    intro after state _ ran
    cases ran
    exact initial
  | append_singleton before event ih =>
    intro after next split ran
    rw [List.append_assoc, List.singleton_append] at split
    rw [run_concat] at ran
    obtain ⟨state, ranBefore, stepped⟩ := Option.bind_eq_some_iff.mp ran
    exact preserved before event after state next split ranBefore
      (ih (event :: after) state split ranBefore) stepped

/-- A property of every state along a run. -/
def Throughout (step : State → Event → Option State) (source : State) (events : List Event)
    (P : State → Prop) : Prop :=
  ∀ before after state, events = before ++ after → run step source before = some state → P state

/-- A condition that every step of a run meets, at the state it is taken in. -/
def EachStep (step : State → Event → Option State) (source : State) (events : List Event)
    (C : State → Event → Prop) : Prop :=
  ∀ before event after state, events = before ++ event :: after →
    run step source before = some state → C state event

theorem eachStep_cons {source : State} {event : Event} {rest : List Event} {C : State → Event → Prop} :
    EachStep step source (event :: rest) C ↔
      C source event ∧ ∀ next, step source event = some next → EachStep step next rest C := by
  constructor
  · intro meets
    refine ⟨meets [] event rest source rfl rfl, fun next stepped => ?_⟩
    intro before other after state split ran
    apply meets (event :: before) other after state (congrArg (event :: ·) split)
    rw [run_cons, stepped]
    exact ran
  · rintro ⟨first, later⟩ before other after state split ran
    cases before with
    | nil =>
      obtain ⟨rfl, rfl⟩ := List.cons.inj split
      cases ran
      exact first
    | cons _ before =>
      obtain ⟨rfl, tail⟩ := List.cons.inj split
      obtain ⟨next, stepped, ran⟩ := Option.bind_eq_some_iff.mp ran
      exact later next stepped before other after state tail ran

/-- If a step keeps the property exactly under the condition, so does the run. -/
theorem throughout_iff {source target : State} {events : List Event}
    (ran : run step source events = some target) {P : State → Prop} {C : State → Event → Prop}
    (initial : P source)
    (kept : ∀ before state event next, run step source before = some state → P state →
      step state event = some next → (P next ↔ C state event)) :
    Throughout step source events P ↔ EachStep step source events C := by
  constructor
  · intro holds before event after state split ranBefore
    rw [split] at ran
    obtain ⟨state', ranBefore', ranAfter⟩ := run_cut ran
    obtain rfl := Option.some.inj (ranBefore.symm.trans ranBefore')
    obtain ⟨next, stepped, _⟩ := Option.bind_eq_some_iff.mp ranAfter
    apply (kept before state event next ranBefore ?_ stepped).mp
    · apply holds (before ++ [event]) after next
      · rw [split, List.append_assoc, List.singleton_append]
      · rw [run_concat, ranBefore]
        exact stepped
    · exact holds before (event :: after) state split ranBefore
  · intro meets before after state split ranBefore
    refine run_everywhere (P := fun _ state => P state) initial ?_ before after state split ranBefore
    intro before event after state next split ranBefore holds stepped
    exact (kept before state event next ranBefore holds stepped).mpr
      (meets before event after state split ranBefore)

/-- The run rule for a property that may mention the events performed so far. -/
theorem run_induction {source : State} {P : List Event → State → Prop}
    (initial : P [] source)
    (preserved : ∀ events event state next, run step source events = some state →
      P events state → step state event = some next → P (events ++ [event]) next)
    {events : List Event} {target : State} (ran : run step source events = some target) :
    P events target :=
  run_everywhere initial
    (fun before event _ state next _ => preserved before event state next)
    events [] target (List.append_nil _).symm ran

/-- The run rule for a property of the state alone, from any source that has it. -/
theorem run_invariant {P : State → Prop}
    (preserved : ∀ state event next, P state → step state event = some next → P next)
    {source target : State} {events : List Event} (initial : P source)
    (ran : run step source events = some target) : P target :=
  run_induction (P := fun _ state => P state) initial
    (fun _ event state next _ holds stepped => preserved state event next holds stepped) ran

end Machine
