import Mathlib.Logic.Function.Basic
import Mathlib.Data.List.Nodup

/-! # Trees laid out in cells

A tree lies in a store of addressed cells. Every cell but the origin's knows its parent; where a child
lies is computed from its parent and its label. The layout says in which cell the node at the end of a
path lies, the last label of the path first. A new leaf and a node that changes its place keep a layout.
The labels of a node's children are threaded from cell to cell, and the label zero ends the thread.
-/

namespace Container

variable {α κ : Type*}

/-- The cells that have a parent, and the origin, are those of the nodes. -/
structure Laid (origin : α) (parent : α → Option α) (spot : List κ → κ → α)
    (loc : List κ → Option α) : Prop where
  start : loc [] = some origin
  orphan : parent origin = none
  edge : ∀ label path cell, loc (label :: path) = some cell →
    cell = spot path label ∧ ∃ above, loc path = some above ∧ parent cell = some above
  reached : ∀ cell above, parent cell = some above → ∃ label path, loc (label :: path) = some cell
  injective : ∀ path other cell, loc path = some cell → loc other = some cell → path = other

namespace Laid

variable {origin : α} {parent parent' : α → Option α} {spot spot' : List κ → κ → α}
  {loc loc' : List κ → Option α} {label : κ} {path : List κ} {above old dest : α}

theorem ne_origin (laid : Laid origin parent spot loc) {cell : α}
    (there : loc (label :: path) = some cell) :
    cell ≠ origin := by
  rintro rfl
  obtain ⟨-, above, -, known⟩ := laid.edge _ _ _ there
  rw [laid.orphan] at known
  cases known

theorem notMem (laid : Laid origin parent spot loc) {cell : α} (free : parent cell = none)
    (apart : cell ≠ origin) :
    loc path ≠ some cell := by
  intro there
  cases path with
  | nil => exact apart (Option.some.inj (there.symm.trans laid.start))
  | cons label path =>
    obtain ⟨-, above, -, known⟩ := laid.edge _ _ _ there
    rw [free] at known
    cases known

/-- A path that leads nowhere leads nowhere further on. -/
theorem none_below (laid : Laid origin parent spot loc) (none : loc path = none) :
    loc (label :: path) = .none := by
  cases there : loc (label :: path) with
  | none => rfl
  | some cell =>
    obtain ⟨-, above, inside, -⟩ := laid.edge _ _ _ there
    rw [none] at inside
    cases inside

/-- Where the children lie may be told in another way. -/
theorem congr (laid : Laid origin parent spot loc) (parents : ∀ cell, parent' cell = parent cell)
    (spots : ∀ label path, loc (label :: path) ≠ none → spot' path label = spot path label) :
    Laid origin parent' spot' loc where
  start := laid.start
  orphan := by rw [parents, laid.orphan]
  edge label path cell there := by
    rw [spots label path (by simp [there]), parents]
    exact laid.edge _ _ _ there
  reached cell above linked := laid.reached cell above (parents cell ▸ linked)
  injective := laid.injective

/-- The last step has led a path to another cell, where no path led before. -/
private theorem injective_of_new (laid : Laid origin parent spot loc) (free : parent dest = none)
    (apart : dest ≠ origin) (locs : ∀ other, other ≠ label :: path → loc' other = loc other)
    (there : loc' (label :: path) = some dest)
    {one two : List κ} {cell : α} (first : loc' one = some cell) (second : loc' two = some cell) :
    one = two := by
  by_cases left : one = label :: path <;> by_cases right : two = label :: path
  · rw [left, right]
  · rw [left, there] at first
    rw [locs _ right] at second
    cases first
    exact absurd second (laid.notMem free apart)
  · rw [locs _ left] at first
    rw [right, there] at second
    cases second
    exact absurd first (laid.notMem free apart)
  · rw [locs _ left] at first
    rw [locs _ right] at second
    exact laid.injective _ _ _ first second

/-- A free cell becomes a new leaf. -/
theorem insert (laid : Laid origin parent spot loc) (inside : loc path = some above)
    (new : loc (label :: path) = none) (free : parent dest = none) (apart : dest ≠ origin)
    (parents : ∀ cell, cell ≠ dest → parent' cell = parent cell) (own : parent' dest = some above)
    (locs : ∀ other, other ≠ label :: path → loc' other = loc other)
    (there : loc' (label :: path) = some dest) (placed : dest = spot' path label)
    (spots : ∀ other route, other :: route ≠ label :: path → loc (other :: route) ≠ none →
      spot' route other = spot route other) : Laid origin parent' spot' loc' where
  start := by rw [locs _ (by simp), laid.start]
  orphan := by rw [parents _ apart.symm, laid.orphan]
  edge other route cell here := by
    by_cases same : other :: route = label :: path
    · obtain ⟨rfl, rfl⟩ := List.cons.inj same
      rw [there] at here
      cases here
      exact ⟨placed, above, by rw [locs _ (by simp), inside], own⟩
    · rw [locs _ same] at here
      obtain ⟨spotted, upper, known, linked⟩ := laid.edge _ _ _ here
      have old : route ≠ label :: path := by
        rintro rfl
        rw [new] at known
        cases known
      have ne : cell ≠ dest := by
        rintro rfl
        exact laid.notMem free apart here
      rw [spots _ _ same (by simp [here]), locs _ old, parents _ ne]
      exact ⟨spotted, upper, known, linked⟩
  reached cell upper linked := by
    by_cases same : cell = dest
    · exact ⟨label, path, same ▸ there⟩
    · rw [parents _ same] at linked
      obtain ⟨other, route, here⟩ := laid.reached _ _ linked
      refine ⟨other, route, ?_⟩
      rw [locs, here]
      rintro same
      rw [same, new] at here
      cases here
  injective _ _ _ first second := laid.injective_of_new free apart locs there first second

/-- A node moves to a free cell, and its children get to know. -/
theorem move (laid : Laid origin parent spot loc) (inside : loc (label :: path) = some old)
    (free : parent dest = none) (apart : dest ≠ origin)
    (parents : ∀ cell, cell ≠ dest → cell ≠ old → parent cell ≠ some old → parent' cell = parent cell)
    (children : ∀ cell, cell ≠ dest → cell ≠ old → parent cell = some old → parent' cell = some dest)
    (own : parent' dest = parent old) (left : parent' old = none)
    (locs : ∀ other, other ≠ label :: path → loc' other = loc other)
    (there : loc' (label :: path) = some dest) (placed : dest = spot' path label)
    (spots : ∀ other route, other :: route ≠ label :: path → loc (other :: route) ≠ none →
      spot' route other = spot route other) : Laid origin parent' spot' loc' where
  start := by rw [locs _ (by simp), laid.start]
  orphan := by
    rw [parents _ apart.symm (laid.ne_origin inside).symm (by rw [laid.orphan]; simp), laid.orphan]
  edge other route cell here := by
    by_cases same : other :: route = label :: path
    · obtain ⟨rfl, rfl⟩ := List.cons.inj same
      rw [there] at here
      cases here
      obtain ⟨-, above, known, linked⟩ := laid.edge _ _ _ inside
      exact ⟨placed, above, by rw [locs _ (by simp), known], own.trans linked⟩
    · rw [locs _ same] at here
      obtain ⟨spotted, upper, known, linked⟩ := laid.edge _ _ _ here
      have ne : cell ≠ dest := by
        rintro rfl
        exact laid.notMem free apart here
      have ne' : cell ≠ old := by
        rintro rfl
        exact same (laid.injective _ _ _ here inside)
      rw [spots _ _ same (by simp [here])]
      refine ⟨spotted, ?_⟩
      by_cases below : upper = old
      · subst below
        rw [laid.injective _ _ _ known inside, there]
        exact ⟨dest, rfl, children _ ne ne' linked⟩
      · have elsewhere : route ≠ label :: path := by
          rintro rfl
          exact below (Option.some.inj (known.symm.trans inside))
        rw [locs _ elsewhere, parents _ ne ne' (by rw [linked]; simpa using below)]
        exact ⟨upper, known, linked⟩
  reached cell upper linked := by
    by_cases same : cell = dest
    · exact ⟨label, path, same ▸ there⟩
    · have ne : cell ≠ old := by
        rintro rfl
        rw [left] at linked
        cases linked
      have known : ∃ before, parent cell = some before := by
        by_cases below : parent cell = some old
        · exact ⟨old, below⟩
        · exact ⟨upper, (parents _ same ne below).symm.trans linked⟩
      obtain ⟨before, known⟩ := known
      obtain ⟨other, route, here⟩ := laid.reached _ _ known
      refine ⟨other, route, ?_⟩
      rw [locs, here]
      intro same
      rw [same, inside] at here
      exact ne (Option.some.inj here).symm
  injective _ _ _ first second := laid.injective_of_new free apart locs there first second

end Laid

/-! ### Threads of labels -/

section Thread

variable [Zero κ] {sibling sibling' : α → κ} {place : κ → α} {first label : κ} {labels : List κ}

/-- The siblings from a label on; zero ends them. -/
def Chain (sibling : α → κ) (place : κ → α) : κ → List κ → Prop
  | label, [] => label = 0
  | label, next :: rest => label = next ∧ next ≠ 0 ∧ Chain sibling place (sibling (place next)) rest

/-- The labels of all children, from the first one; only the first one may be zero. -/
def Thread (first : κ) (sibling : α → κ) (place : κ → α) : List κ → Prop
  | [] => first = 0
  | next :: rest => first = next ∧ Chain sibling place (sibling (place next)) rest

theorem Chain.congr (chain : Chain sibling place label labels)
    (same : ∀ other ∈ labels, sibling' (place other) = sibling (place other)) :
    Chain sibling' place label labels := by
  induction labels generalizing label with
  | nil => exact chain
  | cons next rest ih =>
    obtain ⟨here, nonzero, others⟩ := chain
    refine ⟨here, nonzero, ?_⟩
    rw [same next List.mem_cons_self]
    exact ih others fun other member => same other (List.mem_cons_of_mem _ member)

theorem Chain.ne_zero (chain : Chain sibling place label labels) {other : κ} (member : other ∈ labels) :
    other ≠ 0 := by
  induction labels generalizing label with
  | nil => cases member
  | cons next rest ih =>
    obtain ⟨-, nonzero, others⟩ := chain
    rcases List.mem_cons.mp member with rfl | member
    · exact nonzero
    · exact ih others member

theorem Thread.congr (thread : Thread first sibling place labels)
    (same : ∀ other ∈ labels, sibling' (place other) = sibling (place other)) :
    Thread first sibling' place labels := by
  cases labels with
  | nil => exact thread
  | cons next rest =>
    obtain ⟨here, others⟩ := thread
    refine ⟨here, ?_⟩
    rw [same next List.mem_cons_self]
    exact others.congr fun other member => same other (List.mem_cons_of_mem _ member)

theorem Thread.zero_mem (thread : Thread 0 sibling place labels) (some : labels ≠ []) : 0 ∈ labels := by
  cases labels with
  | nil => exact absurd rfl some
  | cons next rest => exact thread.1 ▸ List.mem_cons_self

theorem Thread.tail_ne_zero (thread : Thread first sibling place labels) {other : κ}
    (member : other ∈ labels.tail) :
    other ≠ 0 := by
  cases labels with
  | nil => cases member
  | cons next rest => exact thread.2.ne_zero member

theorem Thread.first_eq (thread : Thread first sibling place labels) : first = labels.headD 0 := by
  cases labels with
  | nil => exact thread
  | cons next rest => exact thread.1

theorem Chain.first_eq (chain : Chain sibling place label labels) : label = labels.headD 0 := by
  cases labels with
  | nil => exact chain
  | cons next rest => exact chain.1

theorem Thread.chain (thread : Thread first sibling place labels) (nonzero : 0 ∉ labels) :
    Chain sibling place first labels := by
  cases labels with
  | nil => exact thread
  | cons next rest => exact ⟨thread.1, fun zero => nonzero (by simp [zero]), thread.2⟩

/-- The labels in order, one linked to the next and the last to `after`. -/
def Linked (sibling : α → κ) (place : κ → α) : List κ → κ → Prop
  | [], _ => True
  | label :: rest, after => sibling (place label) = rest.headD after ∧ Linked sibling place rest after

omit [Zero κ] in
theorem Linked.congr {after : κ} (linked : Linked sibling place labels after)
    (same : ∀ other ∈ labels, sibling' (place other) = sibling (place other)) :
    Linked sibling' place labels after := by
  induction labels with
  | nil => trivial
  | cons next rest ih =>
    refine ⟨(same next List.mem_cons_self).trans linked.1, ?_⟩
    exact ih linked.2 fun other member => same other (List.mem_cons_of_mem _ member)

omit [Zero κ] in
theorem Linked.snoc {after : κ} (linked : Linked sibling place labels label)
    (last : sibling (place label) = after) :
    Linked sibling place (labels ++ [label]) after := by
  induction labels with
  | nil => exact ⟨last, trivial⟩
  | cons next rest ih =>
    refine ⟨?_, ih linked.2⟩
    rw [linked.1]
    cases rest <;> rfl

theorem Linked.chain (linked : Linked sibling place labels 0) (nonzero : ∀ other ∈ labels, other ≠ 0) :
    Chain sibling place (labels.headD 0) labels := by
  induction labels with
  | nil => rfl
  | cons next rest ih =>
    refine ⟨rfl, nonzero next List.mem_cons_self, ?_⟩
    rw [linked.1]
    exact ih linked.2 fun other member => nonzero other (List.mem_cons_of_mem _ member)

theorem Linked.thread (linked : Linked sibling place labels 0)
    (nonzero : ∀ other ∈ labels.tail, other ≠ 0) :
    Thread (labels.headD 0) sibling place labels := by
  cases labels with
  | nil => rfl
  | cons next rest =>
    refine ⟨rfl, ?_⟩
    rw [linked.1]
    exact linked.2.chain nonzero

variable [DecidableEq κ]

/-- A new label goes to the front, but behind the label zero. -/
def push (label : κ) : List κ → List κ
  | [] => [label]
  | first :: rest => if first = 0 then first :: label :: rest else label :: first :: rest

theorem mem_push {other : κ} : other ∈ push label labels ↔ other = label ∨ other ∈ labels := by
  cases labels with
  | nil => simp [push]
  | cons first rest =>
    rw [push]
    split_ifs <;> simp [or_left_comm]

theorem push_ne_nil : push label labels ≠ [] := by
  cases labels with
  | nil => simp [push]
  | cons first rest =>
    rw [push]
    split_ifs <;> simp

theorem nodup_push (nodup : labels.Nodup) (new : label ∉ labels) : (push label labels).Nodup := by
  cases labels with
  | nil => exact List.nodup_singleton label
  | cons first rest =>
    rw [push]
    split_ifs
    · rw [List.nodup_cons] at nodup ⊢
      have apart : ¬first = label := fun same => new (same ▸ List.mem_cons_self)
      refine ⟨by simp [apart, nodup.1], List.nodup_cons.mpr
        ⟨fun member => new (List.mem_cons_of_mem _ member), nodup.2⟩⟩
    · exact List.nodup_cons.mpr ⟨new, nodup⟩

theorem push_tail_ne_zero (nonzero : ∀ other ∈ labels.tail, other ≠ 0) (some : labels ≠ [])
    (new : label ∉ labels) {other : κ} (member : other ∈ (push label labels).tail) : other ≠ 0 := by
  cases labels with
  | nil => exact absurd rfl some
  | cons first rest =>
    rw [push] at member
    split_ifs at member with zero
    · rcases List.mem_cons.mp member with rfl | member
      · exact fun same => new (by simp [same, zero])
      · exact nonzero other member
    · rcases List.mem_cons.mp member with rfl | member
      · exact zero
      · exact nonzero other member

/-- The label that a push leaves in front is the new one or has been there before. -/
theorem push_head (some : labels ≠ []) (apart : (push label labels).headD 0 ≠ label) :
    (push label labels).headD 0 = labels.headD 0 := by
  cases labels with
  | nil => exact absurd rfl some
  | cons first rest =>
    rw [push] at apart ⊢
    split_ifs at apart ⊢
    · rfl
    · exact absurd rfl apart

theorem push_of_notMem (zero : (0 : κ) ∉ labels) : push label labels = label :: labels := by
  cases labels with
  | nil => rfl
  | cons first rest =>
    have apart : first ≠ 0 := fun same => zero (same ▸ List.mem_cons_self)
    rw [push, if_neg apart]

end Thread

end Container
