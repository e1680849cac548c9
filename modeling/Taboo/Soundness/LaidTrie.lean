import Mathlib.Data.UInt
import Taboo.Container.CellTree
import Taboo.Soundness.Allocation

/-! # The trie in the cells

Every cell in use lies on a path from the root: the place of a child is its parent's base with its label,
its `check` names the parent, and the labels of the children are threaded through `ninfo`. A new leaf and
the move of a node to another cell are the two ways in which `_resolve` and `_follow` change this.
-/

namespace Taboo.DoubleArray

open Container

/-- The labels from the root, the last one first. -/
abbrev Route := List UInt8

/-- The labels below each node in the order of their thread, and the values of the terminals. -/
structure Contents where
  kids : Route → List UInt8
  vals : Route → ℤ

def sibling (da : DoubleArray) (e : ℕ) : UInt8 := (da.ninfo e).sibling

def parent (da : DoubleArray) (e : ℕ) : Option ℕ :=
  if (da.array e).check < 0 then none else some (da.array e).check.toNat

/-- Cell zero stands for the terminal of the root, which it cannot have. -/
def lead : Route → List UInt8
  | [] => [0]
  | _ :: _ => []

theorem lead_of_ne_nil {path : Route} (some : path ≠ []) : lead path = [] := by
  cases path with
  | nil => exact absurd rfl some
  | cons _ _ => rfl

/-- The route to the cell that a label of a thread leads to. -/
def slot : Route → UInt8 → Route
  | [], label => if label = 0 then [] else [label]
  | last :: above, label => label :: last :: above

theorem slot_cases (path : Route) (label : UInt8) :
    path = [] ∧ label = 0 ∧ slot path label = [] ∨ slot path label = label :: path := by
  cases path with
  | nil =>
    by_cases zero : label = 0
    · exact Or.inl ⟨rfl, zero, by simp [slot, zero]⟩
    · exact Or.inr (by simp [slot, zero])
  | cons last above => exact Or.inr rfl

theorem slot_injective {path other : Route} {label next : UInt8}
    (same : slot path label = slot other next) :
    path = other ∧ label = next := by
  rcases slot_cases path label with ⟨rfl, rfl, here⟩ | here <;>
    rcases slot_cases other next with ⟨rfl, rfl, there⟩ | there
  · exact ⟨rfl, rfl⟩
  · cases here.symm.trans (same.trans there)
  · cases here.symm.trans (same.trans there)
  · have conses := List.cons.inj (here.symm.trans (same.trans there))
    exact ⟨conses.2, conses.1⟩

/-- The node at the end of a route lies in cell `e`. -/
structure NodeAt (da : DoubleArray) (loc : Route → Option ℕ) (contents : Contents) (path : Route)
    (e : ℕ) : Prop where
  member : ∀ label, label ∈ contents.kids path ↔ loc (label :: path) ≠ none
  nodup : (contents.kids path).Nodup
  thread : Thread (da.ninfo e).child da.sibling (place (da.array e).base)
    (lead path ++ contents.kids path)
  terminal : ∀ above, path = 0 :: above → contents.kids path = [] ∧
    (da.array e).base = contents.vals above
  inner : path ≠ [] → contents.kids path ≠ [] → 256 ≤ (da.array e).base
  leaf : ∀ label above, path = label :: above → label ≠ 0 → contents.kids path = [] →
    (da.array e).base = -1

/-- Where a child lies after its parent's base. -/
def spotOf (da : DoubleArray) (loc : Route → Option ℕ) (path : Route) (label : UInt8) : ℕ :=
  match loc path with
  | some e => place (da.array e).base label
  | none => 0

/-- The trie lies in the cells; the children of one node may be on the move, each at its own spot. -/
structure Trunk (da : DoubleArray) (loc : Route → Option ℕ) (contents : Contents) (moving : Option Route)
    (spot : UInt8 → ℕ) : Prop where
  root : da.array 0 = ⟨0, -1⟩
  laid : Laid 0 da.parent (fun path label => if moving = some path then spot label else spotOf da
    loc path label) loc
  node : ∀ path e, moving ≠ some path → loc path = some e → NodeAt da loc contents path e
  absent : ∀ path, loc path = none → contents.kids path = []

variable {da da' : DoubleArray} {loc : Route → Option ℕ} {contents : Contents} {moving : Option Route}
  {spot spot' : UInt8 → ℕ} {path : Route} {label : UInt8} {e : ℕ}

theorem parent_eq_none_iff : da.parent e = none ↔ (da.array e).check < 0 := by
  simp [parent]

theorem parent_eq_some_iff {above : ℕ} : da.parent e = some above ↔ (da.array e).check = above := by
  rw [parent]
  split_ifs <;> simp <;> omega

theorem parent_congr {e' : ℕ} (same : (da'.array e').check = (da.array e).check) :
    da'.parent e' = da.parent e := by
  rw [parent, parent, same]

theorem parent_of_free (unused : ¬da.Used e) : da.parent e = none :=
  parent_eq_none_iff.mpr (not_used_iff.mp unused).2

namespace Trunk

theorem used (trunk : Trunk da loc contents moving spot) (there : loc path = some e) : da.Used e := by
  cases path with
  | nil =>
    rw [trunk.laid.start] at there
    cases there
    exact Or.inl rfl
  | cons label path =>
    obtain ⟨-, above, -, known⟩ := trunk.laid.edge _ _ _ there
    rw [parent_eq_some_iff] at known
    exact Or.inr (by omega)

theorem exists_loc (trunk : Trunk da loc contents moving spot) (used : da.Used e) :
    ∃ path, loc path = some e := by
  by_cases origin : e = 0
  · exact ⟨[], origin ▸ trunk.laid.start⟩
  · have known : da.parent e = some (da.array e).check.toNat := by
      rw [parent_eq_some_iff]
      have := used.resolve_left origin
      omega
    obtain ⟨label, path, there⟩ := trunk.laid.reached _ _ known
    exact ⟨_, there⟩

theorem place_eq (trunk : Trunk da loc contents moving spot) (apart : moving ≠ some path) {child : ℕ}
    (there : loc path = some e) (below : loc (label :: path) = some child) :
    child = place (da.array e).base label ∧ (da.array child).check = e := by
  obtain ⟨spotted, above, known, linked⟩ := trunk.laid.edge _ _ _ below
  rw [there] at known
  cases known
  rw [if_neg apart, spotOf, there] at spotted
  exact ⟨spotted, parent_eq_some_iff.mp linked⟩

/-- The labels of a node lie where its thread looks for them. -/
theorem loc_of_mem (trunk : Trunk da loc contents moving spot) (apart : moving ≠ some path)
    (there : loc path = some e) (member : label ∈ contents.kids path) :
    loc (label :: path) = some (place (da.array e).base label) := by
  have below := ((trunk.node path e apart there).member label).mp member
  obtain ⟨child, below⟩ := Option.ne_none_iff_exists'.mp below
  rw [below, (trunk.place_eq apart there below).1]

/-- The cells along the thread of a node. -/
theorem address (trunk : Trunk da loc contents moving spot) (apart : moving ≠ some path)
    (there : loc path = some e) (member : label ∈ lead path ++ contents.kids path) :
    loc (slot path label) = some (place (da.array e).base label) := by
  rcases List.mem_append.mp member with first | member
  · cases path with
    | nil =>
      obtain rfl := List.mem_singleton.mp first
      rw [trunk.laid.start] at there
      cases there
      simp only [slot, if_true, trunk.laid.start, trunk.root]
      rfl
    | cons _ _ => cases first
  · have below := trunk.loc_of_mem apart there member
    rcases slot_cases path label with ⟨rfl, rfl, -⟩ | shape
    · rw [trunk.laid.start] at there
      cases there
      rw [trunk.root] at below
      exact absurd rfl (trunk.laid.ne_origin below)
    · rw [shape, below]

end Trunk

/-- What a node needs from the arrays, besides the places of its children. -/
theorem NodeAt.transfer (node : NodeAt da loc contents path e) {loc' : Route → Option ℕ}
    {contents' : Contents} {e' : ℕ}
    (base : (da'.array e').base = (da.array e).base) (child : (da'.ninfo e').child = (da.ninfo e).child)
    (siblings : ∀ label ∈ lead path ++ contents.kids path,
      da'.sibling (place (da.array e).base label) = da.sibling (place (da.array e).base label))
    (kids : contents'.kids path = contents.kids path)
    (vals : ∀ above, path = 0 :: above → contents'.vals above = contents.vals above)
    (member : ∀ label, loc' (label :: path) ≠ none ↔ loc (label :: path) ≠ none) :
    NodeAt da' loc' contents' path e' where
  member label := by rw [kids, node.member, member]
  nodup := kids ▸ node.nodup
  thread := by
    rw [kids, base, child]
    exact node.thread.congr siblings
  terminal above shape := by
    rw [kids, base, vals above shape]
    exact node.terminal above shape
  inner := by
    rw [kids, base]
    exact node.inner
  leaf := by
    rw [kids, base]
    exact node.leaf

/-! ### A node moves -/

/-- The node in cell `old` has moved to the free cell `dest`. -/
structure Moved (da da' : DoubleArray) (old dest : ℕ) : Prop where
  used : ∀ e, da'.Used e ↔ (da.Used e ∧ e ≠ old) ∨ e = dest
  base : (da'.array dest).base = (da.array old).base
  check : (da'.array dest).check = (da.array old).check
  child : (da'.ninfo dest).child = (da.ninfo old).child
  bases : ∀ e, da.Used e → e ≠ old → (da'.array e).base = (da.array e).base
  checks : ∀ e, da.Used e → e ≠ old →
    (da'.array e).check = if (da.array e).check = old then (dest : ℤ) else (da.array e).check
  ninfo : ∀ e, da.Used e → e ≠ old → da'.ninfo e = da.ninfo e

namespace Trunk

variable {old dest : ℕ}

theorem base_of_ne (trunk : Trunk da loc contents moving spot) (moved : Moved da da' old dest)
    {above : Route}
    (inside : loc (label :: above) = some old) {route : Route} (there : loc route = some e) :
    (da'.array (if route = label :: above then dest else e)).base = (da.array e).base := by
  split_ifs with same
  · rw [same, inside] at there
    cases there
    exact moved.base
  · exact moved.bases e (trunk.used there) fun here =>
      same (trunk.laid.injective _ _ _ (here ▸ there) inside)

theorem moved {above : Route} (trunk : Trunk da loc contents (some above) spot)
    (moved : Moved da da' old dest)
    (inside : loc (label :: above) = some old) (unused : ¬da.Used dest) (placed : spot' label = dest)
    (spots : ∀ other, other ≠ label → loc (other :: above) ≠ none → spot' other = spot other) :
    Trunk da' (Function.update loc (label :: above) (some dest)) contents (some above) spot' := by
  have apart : dest ≠ 0 := (not_used_iff.mp unused).1
  have fresh : ∀ e, da.Used e → e ≠ dest := fun e used same => unused (same ▸ used)
  have distinct : ∀ route e, route ≠ label :: above → loc route = some e → e ≠ old :=
    fun route e ne there same =>
    ne (trunk.laid.injective _ _ _ there (same ▸ inside))
  have stale : ∀ e, ¬da.Used e → e ≠ dest → ¬da'.Used e := by
    intro e notUsed ne
    rw [moved.used]
    tauto
  have locate : ∀ route e, Function.update loc (label :: above) (some dest) route = some e →
      ∃ e', loc route = some e' ∧ e = if route = label :: above then dest else e' := by
    intro route e there
    rw [Function.update_apply] at there
    split_ifs at there ⊢ with same
    · exact ⟨old, same ▸ inside, (Option.some.inj there).symm⟩
    · exact ⟨e, there, rfl⟩
  have zero := trunk.laid.ne_origin inside
  refine ⟨?_, ?_, ?_, ?_⟩
  · have base := moved.bases 0 (Or.inl rfl) zero.symm
    have check := moved.checks 0 (Or.inl rfl) zero.symm
    rw [trunk.root] at base check
    rw [if_neg (by simp only; omega)] at check
    exact Node.ext base check
  · refine trunk.laid.move inside (parent_of_free unused) apart (fun cell ne ne' other => ?_)
      (fun cell ne ne' below => ?_) (parent_congr moved.check) (parent_of_free ?_)
        (fun other ne => Function.update_of_ne ne _ _)
      (Function.update_self ..) ?_ (fun other route ne there => ?_)
    · by_cases used : da.Used cell
      · refine parent_congr ?_
        rw [moved.checks cell used ne', if_neg fun same => other (parent_eq_some_iff.mpr same)]
      · rw [parent_of_free used, parent_of_free (stale cell used ne)]
    · have check := parent_eq_some_iff.mp below
      have used : da.Used cell := Or.inr (by omega)
      rw [parent_eq_some_iff, moved.checks cell used ne', if_pos check]
    · rw [moved.used]
      have ne := fresh old (trunk.used inside)
      tauto
    · rw [if_pos rfl, placed]
    · split_ifs with same
      · cases same
        exact spots other (fun here => ne (here ▸ rfl)) there
      · obtain ⟨child, there⟩ := Option.ne_none_iff_exists'.mp there
        obtain ⟨-, upper, known, -⟩ := trunk.laid.edge _ _ _ there
        have base := trunk.base_of_ne moved inside known
        have located : Function.update loc (label :: above) (some dest) route =
            some (if route = label :: above then dest else upper) := by
          rw [Function.update_apply]
          split_ifs <;> simp [known]
        simp only [spotOf, located, known, base]
  · intro route e ne there
    obtain ⟨e', known, rfl⟩ := locate route e there
    have node := trunk.node route e' ne known
    refine node.transfer (trunk.base_of_ne moved inside known) ?_ (fun other member => ?_) rfl
      (fun _ _ => rfl)
      fun other => ?_
    · split_ifs with same
      · rw [same, inside] at known
        cases known
        exact moved.child
      · rw [moved.ninfo _ (trunk.used known) (distinct route _ same known)]
    · have placed := trunk.address ne known member
      have elsewhere : slot route other ≠ label :: above := by
        rcases slot_cases route other with ⟨-, -, shape⟩ | shape <;> rw [shape]
        · simp
        · intro same
          exact ne (congrArg some (List.cons.inj same).2).symm
      rw [sibling, moved.ninfo _ (trunk.used placed) (distinct _ _ elsewhere placed), sibling]
    · rw [Function.update_of_ne]
      rintro same
      exact ne (congrArg some (List.cons.inj same).2).symm
  · intro route none
    rw [Function.update_apply] at none
    split_ifs at none
    exact trunk.absent route none

end Trunk

/-! ### Threads under `_push_sibling` -/

section Push

variable {n : ℕ} {base : ℤ} {flag : Bool} {links : List UInt8}

/-- Behind the terminal, if there is one. -/
private theorem pushSibling_behind (base : ℤ) (first : (da.ninfo n).child = 0) (ne : label ≠ 0) (x : ℕ) :
    ((da.pushSibling n base label true).ninfo x).child = (da.ninfo x).child ∧
      (da.pushSibling n base label true).sibling x =
        if x = place base 0 then label
        else if x = place base label then da.sibling (place base 0) else da.sibling x := by
  have apart : place base 0 ≠ place base label := fun same => ne (place_injective base same).symm
  simp [sibling, pushSibling, first]

/-- In front otherwise. -/
private theorem pushSibling_front (da : DoubleArray) (n : ℕ) (base : ℤ) (label : UInt8)
    {flag : Bool} (front : ¬(flag = true ∧ (da.ninfo n).child = 0)) (x : ℕ) :
    ((da.pushSibling n base label flag).ninfo x).child = (if x = n then label else (da.ninfo x).child) ∧
      (da.pushSibling n base label flag).sibling x =
        if x = place base label then (da.ninfo n).child else da.sibling x := by
  simp [sibling, pushSibling, front]

/-- The new label is threaded in. -/
theorem thread_pushSibling (thread : Thread (da.ninfo n).child da.sibling (place base) links)
    (some : flag = true ↔ links ≠ []) (new : label ∉ links) :
    Thread ((da.pushSibling n base label flag).ninfo n).child
      (da.pushSibling n base label flag).sibling (place base) (push label links) := by
  have apart : ∀ other ∈ links, place base other ≠ place base label := fun other member same =>
    new (place_injective base same ▸ member)
  cases links with
  | nil =>
    obtain rfl : flag = false := by simpa using some
    have front := fun x => pushSibling_front da n base label
      (show ¬(false = true ∧ (da.ninfo n).child = 0) by simp) x
    refine ⟨by simp [(front n).1], ?_⟩
    rw [(front _).2, if_pos rfl]
    exact thread
  | cons first rest =>
    obtain rfl : flag = true := some.mpr (List.cons_ne_nil _ _)
    obtain ⟨child, chain⟩ := thread
    by_cases zero : first = 0
    · subst zero
      have ne : label ≠ 0 := fun same => new (same ▸ List.mem_cons_self)
      have behind := fun x => pushSibling_behind base child ne x
      rw [push, if_pos rfl]
      refine ⟨(behind n).1.trans child, by rw [(behind _).2, if_pos rfl], ne, ?_⟩
      rw [(behind _).2, if_neg (apart 0 List.mem_cons_self).symm, if_pos rfl]
      refine chain.congr fun other member => ?_
      have nonzero : place base other ≠ place base 0 := fun same =>
        chain.ne_zero member (place_injective base same)
      rw [(behind _).2, if_neg nonzero, if_neg (apart other (List.mem_cons_of_mem _ member))]
    · have notZero : ¬(true = true ∧ (da.ninfo n).child = 0) := fun both => zero (child.symm.trans both.2)
      have front := fun x => pushSibling_front da n base label notZero x
      rw [push, if_neg zero]
      refine ⟨by simp [(front n).1], ?_⟩
      rw [(front _).2, if_pos rfl]
      refine ⟨child, zero, ?_⟩
      rw [(front _).2, if_neg (apart first List.mem_cons_self)]
      refine chain.congr fun other member => ?_
      rw [(front _).2, if_neg (apart other (List.mem_cons_of_mem _ member))]

theorem child_pushSibling (x : ℕ) (ne : x ≠ n) :
    ((da.pushSibling n base label flag).ninfo x).child = (da.ninfo x).child := by
  simp only [pushSibling]
  split_ifs <;> simp [ne]

theorem sibling_pushSibling (x : ℕ) (ne : x ≠ place base label)
    (behind : flag = true → (da.ninfo n).child = 0 → x ≠ place base 0) :
    (da.pushSibling n base label flag).sibling x = da.sibling x := by
  simp only [pushSibling]
  split_ifs with first
  · have := behind first.1 first.2
    simp [sibling, ne, first.2, this]
  · simp [sibling, ne]

theorem pushSibling_array (da : DoubleArray) (n : ℕ) (base : ℤ) (label : UInt8) (flag : Bool) :
    (da.pushSibling n base label flag).array = da.array := by
  simp only [pushSibling]
  split_ifs <;> rfl

theorem pushSibling_size (da : DoubleArray) (n : ℕ) (base : ℤ) (label : UInt8) (flag : Bool) :
    (da.pushSibling n base label flag).size = da.size := by
  simp only [pushSibling]
  split_ifs <;> rfl

theorem pushSibling_congr (same : da'.ninfo = da.ninfo) (n : ℕ) (base : ℤ) (label : UInt8) (flag : Bool) :
    (da'.pushSibling n base label flag).ninfo = (da.pushSibling n base label flag).ninfo := by
  simp only [pushSibling, same]
  split_ifs <;> simp [same]

theorem Managed.pushSibling (managed : da.Managed) (node : da.Used n) (leaf : da.Used (place base label))
    (terminal : flag = true → (da.ninfo n).child = 0 → da.Used (place base 0)) :
    (da.pushSibling n base label flag).Managed := by
  have fields : (da.pushSibling n base label flag).block = da.block ∧
      (da.pushSibling n base label flag).bhead = da.bhead := by
    simp only [DoubleArray.pushSibling]
    split_ifs <;> exact ⟨rfl, rfl⟩
  have array := pushSibling_array da n base label flag
  refine managed.frame fields.1 fields.2 (pushSibling_size ..) (fun x => by rw [Used, Used, array])
    (fun x _ => by rw [array])
    fun x free => ?_
  have apart : ∀ y, da.Used y → x ≠ y := fun y used same => free (same ▸ used)
  simp only [DoubleArray.pushSibling]
  split_ifs with first
  · have behind := apart _ (terminal first.1 first.2)
    simp [apart _ leaf, first.2, behind]
  · simp [apart _ leaf, apart _ node]

end Push

/-! ### A new leaf -/

/-- A free cell `e` has become a leaf below the node in cell `n`. -/
structure Inserted (da da' : DoubleArray) (n e : ℕ) (label : UInt8) : Prop where
  used : ∀ x, da'.Used x ↔ da.Used x ∨ x = e
  here : da'.array e = newNode label n
  child : (da'.ninfo e).child = 0
  checks : ∀ x, da.Used x → (da'.array x).check = (da.array x).check
  bases : ∀ x, da.Used x → x ≠ n → (da'.array x).base = (da.array x).base

/-- What a new leaf adds. -/
def Contents.add (contents : Contents) (path : Route) (label : UInt8) : Contents where
  kids := Function.update contents.kids path (push label (contents.kids path))
  vals := if label = 0 then Function.update contents.vals path (asInt 0) else contents.vals

/-- What `_follow` makes of the contents. -/
def Contents.follow (contents : Contents) (path : Route) (label : UInt8) : Contents :=
  if label ∈ contents.kids path then contents else contents.add path label

namespace Trunk

variable {n : ℕ}

private theorem grow (trunk : Trunk da loc contents moving spot) (inside : loc path = some n)
    (new : loc (label :: path) = none) (unused : ¬da.Used e) (inserted : Inserted da da' n e label)
    (bases : ∀ route r, loc route = some r → (∃ other, loc (other :: route) ≠ none) →
      (da'.array r).base = (da.array r).base)
    (placed : e = if moving = some path then spot' label else place (da'.array n).base label)
    (spots : ∀ route other, moving = some route → other :: route ≠ label :: path →
      loc (other :: route) ≠ none →
      spot' other = spot other) :
    Laid 0 da'.parent (fun route other => if moving = some route then spot' other
      else spotOf da' (Function.update loc (label :: path) (some e)) route other)
      (Function.update loc (label :: path) (some e)) := by
  have located : ∀ route, route ≠ label :: path →
      Function.update loc (label :: path) (some e) route = loc route := fun route ne =>
        Function.update_of_ne ne _ _
  have outside : path ≠ label :: path := fun same => by
    have := congrArg List.length same
    simp at this
  refine trunk.laid.insert inside new (parent_of_free unused)
    (not_used_iff.mp unused).1 (fun cell ne => ?_) ?_ located
    (Function.update_self ..) ?_ fun other route ne there => ?_
  · by_cases used : da.Used cell
    · exact parent_congr (inserted.checks cell used)
    · rw [parent_of_free used, parent_of_free]
      rw [inserted.used]
      tauto
  · rw [parent_eq_some_iff, inserted.here]
    rfl
  · rw [spotOf, located path outside, inside]
    exact placed
  · split_ifs with here
    · exact spots route other here ne there
    · obtain ⟨child, below⟩ := Option.ne_none_iff_exists'.mp there
      obtain ⟨-, upper, known, -⟩ := trunk.laid.edge _ _ _ below
      have old : route ≠ label :: path := by
        rintro rfl
        rw [new] at known
        cases known
      simp only [spotOf, located route old, known, bases route upper known ⟨other, there⟩]

/-- The new leaf itself. -/
private theorem leafAt (trunk : Trunk da loc contents moving spot) (new : loc (label :: path) = none)
    (inserted : Inserted da da' n e label) {contents' : Contents}
    (kids : contents'.kids (label :: path) = contents.kids (label :: path))
    (vals : label = 0 → contents'.vals path = asInt 0) :
    NodeAt da' (Function.update loc (label :: path) (some e)) contents' (label :: path) e := by
  have none := trunk.absent _ new
  rw [← kids] at none
  refine ⟨fun other => ?_, by simp [none], ?_, fun above shape => ?_, fun _ some => absurd none some, fun last above shape nonzero _ => ?_⟩
  · rw [none, Function.update_of_ne (by simp), trunk.laid.none_below new]
    simp
  · rw [none]
    exact inserted.child
  · obtain ⟨rfl, rfl⟩ := List.cons.inj shape
    rw [inserted.here, vals rfl]
    exact ⟨none, rfl⟩
  · obtain ⟨rfl, rfl⟩ := List.cons.inj shape
    rw [inserted.here, newNode, if_pos nonzero]

/-- The nodes that have nothing to do with the new leaf. -/
private theorem bystander (trunk : Trunk da loc contents moving spot) (contents' : Contents)
    (inside : loc path = some n)
    (new : loc (label :: path) = none) (inserted : Inserted da da' n e label)
    (kids : ∀ route, route ≠ path → contents'.kids route = contents.kids route)
    (vals : ∀ route, route ≠ path ∨ label ≠ 0 → contents'.vals route = contents.vals route)
    {route : Route} {r : ℕ} (apart : moving ≠ some route) (there : loc route = some r) (ne : route ≠ path)
    (child : (da'.ninfo r).child = (da.ninfo r).child)
    (siblings : ∀ other target, other ∈ lead route ++ contents.kids route →
      loc (slot route other) = some target →
      da'.sibling target = da.sibling target) :
    NodeAt da' (Function.update loc (label :: path) (some e)) contents' route r := by
  have elsewhere : r ≠ n := fun same => ne (trunk.laid.injective _ _ _ there (same ▸ inside))
  refine (trunk.node route r apart there).transfer (inserted.bases r (trunk.used there) elsewhere) child
    (fun other member => siblings other _ member (trunk.address apart there member)) (kids route ne)
      (fun above shape => ?_)
    fun other => ?_
  · subst shape
    refine vals above (or_iff_not_imp_left.mpr fun same zero => ?_)
    rw [not_not.mp same, ← zero, new] at there
    cases there
  · rw [Function.update_of_ne]
    exact fun same => ne (List.cons.inj same).2

/-- A leaf comes in below the node whose children are on the move. -/
theorem newcomer (trunk : Trunk da loc contents (some path) spot) (inside : loc path = some n)
    (new : loc (label :: path) = none) (unused : ¬da.Used e) (inserted : Inserted da da' n e label)
    (base : (da'.array n).base = (da.array n).base) (infos : ∀ x, da.Used x → da'.ninfo x = da.ninfo x)
    (placed : spot' label = e) (spots : ∀ other, other ≠ label → loc (other :: path) ≠ none →
      spot' other = spot other) :
    Trunk da' (Function.update loc (label :: path) (some e))
      ⟨contents.kids, (contents.add path label).vals⟩
      (some path) spot' := by
  have bases : ∀ x, da.Used x → (da'.array x).base = (da.array x).base := by
    intro x used
    by_cases same : x = n
    · exact same ▸ base
    · exact inserted.bases x used same
  have zero : da.Used 0 := Or.inl rfl
  refine ⟨?_, ?_, ?_, ?_⟩
  · exact Node.ext (by rw [bases 0 zero, trunk.root]) (by rw [inserted.checks 0 zero, trunk.root])
  · refine trunk.grow inside new unused inserted (fun route r there _ => bases r (trunk.used there)) ?_ ?_
    · rw [if_pos rfl, placed]
    · rintro route other ⟨⟩ ne there
      exact spots other (fun same => ne (same ▸ rfl)) there
  · intro route r apart there
    by_cases same : route = label :: path
    · subst same
      rw [Function.update_self] at there
      cases there
      exact trunk.leafAt new inserted rfl fun zero => by simp [Contents.add, zero]
    · rw [Function.update_of_ne same] at there
      have ne : route ≠ path := fun same => apart (same ▸ rfl)
      refine trunk.bystander ⟨contents.kids, (contents.add path label).vals⟩ inside new inserted
        (fun _ _ => rfl)
        (fun other differs => ?_) apart there ne (by rw [infos r (trunk.used there)]) fun other
          target _ placed => by rw [sibling, infos target (trunk.used placed), sibling]
      simp only [Contents.add]
      split_ifs with zero
      · exact Function.update_of_ne (differs.resolve_right (not_not.mpr zero)) _ _
      · rfl
  · intro route none
    rw [Function.update_apply] at none
    split_ifs at none
    exact trunk.absent route none

theorem lead_push {links : List UInt8} (zero : path = [] → 0 ∉ links) :
    push label (lead path ++ links) = lead path ++ push label links := by
  cases path with
  | nil =>
    rw [push_of_notMem (zero rfl)]
    simp [lead, push]
  | cons _ _ => rfl

theorem zero_notMem (trunk : Trunk da loc contents moving spot) (apart : moving ≠ some []) :
    0 ∉ contents.kids [] := by
  have node := trunk.node [] 0 apart trunk.laid.start
  intro member
  exact node.thread.2.ne_zero member rfl

/-- A leaf comes in below a node, and is threaded in with its siblings. -/
theorem sprout (trunk : Trunk da loc contents moving spot) (apart : moving ≠ some path)
    (inside : loc path = some n)
    (new : loc (label :: path) = none) (unused : ¬da.Used e) (inserted : Inserted da da' n e label)
    (notTerminal : ∀ above, path ≠ 0 :: above) (notRoot : label = 0 → path ≠ [])
    (steady : lead path ++ contents.kids path ≠ [] → (da'.array n).base = (da.array n).base)
    (based : path ≠ [] → 256 ≤ (da'.array n).base) (placed : e = place (da'.array n).base label)
    {flag : Bool} (some' : flag = true ↔ lead path ++ contents.kids path ≠ [])
    (child : ∀ x, x ≠ e →
      (da'.ninfo x).child = ((da.pushSibling n (da'.array n).base label flag).ninfo x).child)
    (siblings : da'.sibling = (da.pushSibling n (da'.array n).base label flag).sibling) :
    Trunk da' (Function.update loc (label :: path) (some e)) (contents.add path label) moving spot := by
  have node := trunk.node path n apart inside
  have fresh : ∀ route x, loc route = some x → x ≠ e := fun route x there same =>
    unused (same ▸ trunk.used there)
  have absent : label ∉ contents.kids path := fun member => (node.member label).mp member new
  have outside : label ∉ lead path ++ contents.kids path := by
    rw [List.mem_append, not_or]
    refine ⟨fun first => ?_, absent⟩
    cases path with
    | nil => exact notRoot (List.mem_singleton.mp first) rfl
    | cons _ _ => cases first
  have thread : Thread (da.ninfo n).child da.sibling (place (da'.array n).base)
      (lead path ++ contents.kids path) := by
    by_cases empty : lead path ++ contents.kids path = []
    · have thread := node.thread
      rw [empty] at thread ⊢
      exact thread
    · exact steady empty ▸ node.thread
  have bases : ∀ x, da.Used x → (x = n → lead path ++ contents.kids path ≠ []) →
      (da'.array x).base = (da.array x).base := by
    intro x used linked
    by_cases same : x = n
    · exact same ▸ steady (linked same)
    · exact inserted.bases x used same
  -- the only sibling link that changes besides the leaf's own is that of the terminal
  have elsewhere : ∀ route other target, route ≠ path → loc (slot route other) = some target →
      da'.sibling target = da.sibling target := by
    intro route other target ne placed'
    rw [siblings]
    refine sibling_pushSibling target (placed ▸ fresh _ target placed') fun flagged first => ?_
    have linked := some'.mp flagged
    rintro rfl
    have terminal := trunk.address apart inside ((first ▸ thread).zero_mem linked)
    rw [steady linked] at placed'
    exact ne (slot_injective (trunk.laid.injective _ _ _ placed' terminal)).1
  have root : (0 : ℕ) = n → lead path ++ contents.kids path ≠ [] := by
    rintro rfl
    rw [trunk.laid.injective _ _ _ inside trunk.laid.start]
    simp [lead]
  refine ⟨?_, ?_, ?_, ?_⟩
  · have zero : da.Used 0 := Or.inl rfl
    exact Node.ext (by rw [bases 0 zero root, trunk.root]) (by rw [inserted.checks 0 zero, trunk.root])
  · refine trunk.grow inside new unused inserted (fun route r there below => ?_)
      (by rw [if_neg apart]; exact placed)
      fun _ _ _ _ _ => rfl
    refine bases r (trunk.used there) fun same => ?_
    subst same
    rw [trunk.laid.injective _ _ _ there inside] at below
    obtain ⟨other, below⟩ := below
    exact List.append_ne_nil_of_right_ne_nil _ (List.ne_nil_of_mem ((node.member other).mpr below))
  · intro route r ne there
    by_cases leaf : route = label :: path
    · subst leaf
      rw [Function.update_self] at there
      cases there
      refine trunk.leafAt new inserted (Function.update_of_ne (by simp) _ _) fun zero => by
        simp [Contents.add, zero]
    · rw [Function.update_of_ne leaf] at there
      by_cases same : route = path
      · subst same
        rw [inside] at there
        cases there
        have kids : (contents.add route label).kids route = push label (contents.kids route) :=
          Function.update_self ..
        refine ⟨fun other => ?_, ?_, ?_, fun above shape => absurd shape (notTerminal above),
          fun inner _ => based inner, fun _ _ _ _ empty => absurd (kids ▸ empty) push_ne_nil⟩
        · rw [kids, mem_push, node.member]
          rcases eq_or_ne other label with rfl | own
          · simp
          · rw [Function.update_of_ne (fun same => own (List.cons.inj same).1)]
            simp [own]
        · rw [kids]
          exact nodup_push node.nodup absent
        · have zero : route = [] → 0 ∉ contents.kids route := fun root => by
            subst root
            exact trunk.zero_notMem ne
          rw [kids, ← lead_push zero, siblings, child n (fresh _ n inside)]
          refine thread_pushSibling thread some' outside
      · refine trunk.bystander (contents.add path label) inside new inserted
          (fun other differs => Function.update_of_ne differs _ _)
          (fun other differs => ?_) ne there same ?_ fun other target _ placed' => elsewhere route
            other target same placed'
        · simp only [Contents.add]
          split_ifs with zero
          · exact Function.update_of_ne (differs.resolve_right (not_not.mpr zero)) _ _
          · rfl
        · have apart' : r ≠ n := fun here => same (trunk.laid.injective _ _ _ there (here ▸ inside))
          rw [child r (fresh _ r there), child_pushSibling r apart']
  · intro route none
    rw [Function.update_apply] at none
    split_ifs at none
    have ne : route ≠ path := by
      rintro rfl
      rw [inside] at none
      cases none
    exact (Function.update_of_ne ne _ _).trans (trunk.absent route none)

end Trunk

end Taboo.DoubleArray
