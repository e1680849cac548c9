import Taboo.Soundness.Conflicts

/-! # New edges

`_follow` makes the edge that is missing, wherever its cell has to come from: the place its parent's base
gives it, a new base for a parent without children, or the place that `_resolve` clears.
-/

namespace Taboo.DoubleArray

open Container

variable {da da' : DoubleArray} {loc : Route → Option ℕ} {contents : Contents} {moving : Option Route}
  {spot : UInt8 → ℕ} {path : Route} {label : UInt8} {n : ℕ}

theorem place_ge {base : ℤ} (label : UInt8) : 256 ≤ place base label ↔ 256 ≤ base := by
  have block := place_div base label
  omega

namespace Trunk

theorem kept (trunk : Trunk da loc contents moving spot) (kept : Kept da da') :
    Trunk da' loc contents moving spot := by
  have array : ∀ path e, loc path = some e → da'.array e = da.array e := fun path e there =>
    kept.array e (trunk.used there)
  refine ⟨by rw [array [] 0 trunk.laid.start, trunk.root], ?_, fun path e apart there => ?_, trunk.absent⟩
  · refine trunk.laid.congr (fun x => ?_) fun label path there => ?_
    · by_cases used : da.Used x
      · exact parent_congr (by rw [kept.array x used])
      · rw [parent_of_free used, parent_of_free ((kept.used x).not.mpr used)]
    · obtain ⟨child, there⟩ := Option.ne_none_iff_exists'.mp there
      obtain ⟨-, upper, known, -⟩ := trunk.laid.edge _ _ _ there
      simp only [spotOf, known, array path upper known]
  · exact (trunk.node path e apart there).transfer (by rw [array path e there]) (by rw [kept.ninfo])
      (fun _ _ => by rw [sibling, kept.ninfo, sibling]) rfl (fun _ _ => rfl) fun _ => Iff.rfl

/-- A base that is no value belongs to a node with children. -/
theorem inner_of_base (trunk : Trunk da loc contents moving spot) (apart : moving ≠ some path)
    (inside : loc path = some n)
    (notRoot : path ≠ []) (notTerminal : ∀ upper, path ≠ 0 :: upper) (based : 0 ≤ (da.array n).base) :
    contents.kids path ≠ [] ∧ 256 ≤ (da.array n).base := by
  have node := trunk.node path n apart inside
  have some' : contents.kids path ≠ [] := by
    intro none
    obtain ⟨label, upper, rfl⟩ := List.exists_cons_of_ne_nil notRoot
    have nonzero : label ≠ 0 := by
      rintro rfl
      exact notTerminal upper rfl
    have := node.leaf label upper rfl nonzero none
    omega
  exact ⟨some', node.inner notRoot some'⟩

/-- The cell that a missing edge should have is taken: by a child of another node, and neither of the two
nodes is the root. -/
theorem occupant (trunk : Trunk da loc contents none spot) (inside : loc path = some n)
    (new : loc (label :: path) = none)
    (notTerminal : ∀ upper, path ≠ 0 :: upper) (notRoot : label = 0 → path ≠ [])
    (based : 0 ≤ (da.array n).base) (taken : 0 ≤ (da.array (place (da.array n).base label)).check) :
    path ≠ [] ∧ ∃ other above node, other ∈ contents.kids above ∧ loc above = some node ∧
      above ≠ [] ∧ above ≠ path ∧
      (da.array (place (da.array n).base label)).check = node ∧
      place (da.array n).base label = place (da.array node).base other := by
  have low : ∀ label, place (da.array 0).base label < 256 := fun label => by
    rw [trunk.root]
    simpa [place] using label.toNat_lt
  have high : path ≠ [] → 256 ≤ place (da.array n).base label := fun inner =>
    (place_ge _).mpr (trunk.inner_of_base (by simp) inside inner notTerminal based).2
  have origin : path = [] → n = 0 := by
    rintro rfl
    exact Option.some.inj (inside.symm.trans trunk.laid.start)
  obtain ⟨route, there⟩ := trunk.exists_loc (Or.inr taken)
  cases route with
  | nil =>
    have zero := Option.some.inj (there.symm.trans trunk.laid.start)
    have inner : path ≠ [] := by
      intro root
      rw [origin root, trunk.root] at zero
      refine notRoot (UInt8.toNat_inj.mp ?_) root
      simpa [place] using zero
    have := high inner
    omega
  | cons other above =>
    obtain ⟨-, node, known, linked⟩ := trunk.laid.edge _ _ _ there
    obtain ⟨placed, check⟩ := trunk.place_eq (by simp) known there
    have leaf := trunk.node above node (by simp) known
    have member := (leaf.member other).mpr (by simp [there])
    have apart : above ≠ path := by
      rintro rfl
      rw [inside] at known
      cases known
      rw [place_injective _ placed, there] at new
      cases new
    have inner : path ≠ [] := by
      intro root
      have inner : above ≠ [] := fun top => apart (top.trans root.symm)
      have far := (place_ge other).mpr (leaf.inner inner (List.ne_nil_of_mem member))
      rw [← placed, origin root] at far
      have := low label
      omega
    refine ⟨inner, other, above, node, member, known, ?_, apart, check, placed⟩
    rintro rfl
    rw [trunk.laid.start] at known
    cases known
    have := high inner
    have := low other
    omega

end Trunk

/-- A free place for a missing edge, by the base that the node has. -/
private theorem Trunk.vacant (trunk : Trunk da loc contents none spot) (managed : da.Managed)
    (inside : loc path = some n)
    (notTerminal : ∀ upper, path ≠ 0 :: upper) (notRoot : label = 0 → path ≠ [])
    (based : 0 ≤ (da.array n).base) (free : (da.array (place (da.array n).base label)).check < 0) :
    ¬da.Used (place (da.array n).base label) ∧ place (da.array n).base label < da.size := by
  rcases eq_or_ne path [] with rfl | inner
  · rw [trunk.laid.start] at inside
    cases inside
    refine ⟨not_used_iff.mpr ⟨fun zero => notRoot (UInt8.toNat_inj.mp ?_) rfl, free⟩, ?_⟩
    · simpa [place, trunk.root] using zero
    · refine managed.block_bound (managed.bound (Or.inl rfl)) ?_
      rw [place_div, trunk.root]
      rfl
  · obtain ⟨some', low⟩ := trunk.inner_of_base (by simp) inside inner notTerminal based
    refine ⟨not_used_iff.mpr ⟨fun zero => ?_, free⟩, ?_⟩
    · have := (place_ge label).mpr low
      omega
    · obtain ⟨kid, rest, shape⟩ := List.exists_cons_of_ne_nil some'
      have there := trunk.loc_of_mem (by simp) inside
        (shape ▸ List.mem_cons_self : kid ∈ contents.kids path)
      exact managed.block_bound (managed.bound (trunk.used there)) (by rw [place_div, place_div])

/-- Whichever of the two searches `_resolve` makes. -/
private theorem found_spec (managed : da.Managed) (labels : List UInt8) :
    ∃ found, (if labels.length = 1 then da.findPlace else da.findPlaceFor labels) = found ∧
      found.1.Managed ∧
      Kept da found.1 ∧ Fits found.1 labels found.2 ∧ (256 : ℤ) ≤ place found.2 (labels.headD 0) := by
  have spec : ∀ found : DoubleArray × ℕ, found =
    (if labels.length = 1 then da.findPlace else da.findPlaceFor labels) →
      found.1.Managed ∧ Kept da found.1 ∧ Fits found.1 labels found.2 := by
    rintro _ rfl
    split_ifs with single
    · obtain ⟨label, rfl⟩ := List.length_eq_one_iff.mp single
      exact findPlace_spec managed label
    · exact findPlaceFor_spec managed labels
  obtain ⟨managed', kept, fits⟩ := spec _ rfl
  refine ⟨_, rfl, managed', kept, fits, ?_⟩
  exact_mod_cast (place_ge _).mpr (by exact_mod_cast fits.inner)

private theorem putChild_self {c : UInt8} (own : (da.ninfo n).child = c) : da.putChild n c = da := by
  have same : (fun i => if i = n then { da.ninfo i with child := c } else da.ninfo i) = da.ninfo := by
    funext i
    split_ifs with here
    · rw [here, ← own]
    · rfl
  simp only [putChild, modifyNInfo, same]

/-- Whichever node `_resolve` moves, the newcomer gets its cell and everything else is as it was. -/
theorem resolve_spec (trunk : Trunk da loc contents none fun _ => 0) (managed : da.Managed)
    (inside : loc path = some n)
    (new : loc (label :: path) = none) (notTerminal : ∀ upper, path ≠ 0 :: upper)
    (notRoot : label = 0 → path ≠ [])
    (based : 0 ≤ (da.array n).base) (taken : 0 ≤ (da.array (place (da.array n).base label)).check) :
    ∃ da' dest from_n loc', da.resolve n (da.array n).base label = (da', dest, from_n) ∧ da'.Managed ∧
      Trunk da' loc' (contents.add path label) none (fun _ => 0) ∧ loc' (label :: path) = some dest ∧
      loc' path = some from_n := by
  obtain ⟨inner, other, above, nodeP, member, known, innerP, apart, check, placed⟩ :=
    trunk.occupant inside new notTerminal notRoot based taken
  obtain ⟨some', low⟩ := trunk.inner_of_base (by simp) inside inner notTerminal based
  have node := trunk.node path n (by simp) inside
  have nodeP' := trunk.node above nodeP (by simp) known
  have someP := List.ne_nil_of_mem member
  have lowP := nodeP'.inner innerP someP
  have terminalP : ∀ upper, above ≠ 0 :: upper := fun upper shape => someP (nodeP'.terminal upper shape).1
  have thread := node.thread
  have threadP := nodeP'.thread
  rw [lead_of_ne_nil inner, List.nil_append] at thread
  rw [lead_of_ne_nil innerP, List.nil_append] at threadP
  simp only [resolve]
  rw [check, Int.toNat_natCast]
  generalize da.consult _ _ _ _ _ = flag
  cases flag with
  | true =>
    have absent : label ∉ contents.kids path := fun member => (node.member label).mp member new
    have own : label ∈ push label (contents.kids path) := mem_push.mpr (Or.inl rfl)
    obtain ⟨found, search, managed₁, kept, fits, high⟩ :=
      found_spec managed (push label (contents.kids path))
    obtain ⟨front, head⟩ : ∃ front, (push label (contents.kids path)).headD 0 = front := ⟨_, rfl⟩
    have written : (if front = label then found.1.putChild n label else found.1) =
        found.1.putChild n front := by
      split_ifs with first
      · rw [first]
      · refine (putChild_self ?_).symm
        rw [kept.ninfo, thread.first_eq, ← head, push_head some' (head ▸ first)]
    simp only [if_true, (setChild_eq thread node.nodup some').2 label, search, true_and, head, written]
    let conflict : Conflict := ⟨true, place found.2 front, (da.array n).base, n,
      place (da.array n).base label, label⟩
    obtain ⟨managed₂, round⟩ : _ ∧ Round _ conflict path loc contents []
      (push label (contents.kids path)) :=
      Round.start (trunk.kept kept) managed₁ inside inner (by rw [kept.array n (trunk.used inside)])
        fits (by rw [head])
        (nodup_push node.nodup absent) fun other member => mem_push.mpr (Or.inr member)
    rw [head] at managed₂ round
    obtain ⟨da', loc', ran, managed', round'⟩ := round.run_own managed₂ n rfl rfl (by simp [conflict])
      low (fun _ => new) fun other member ne =>
        (node.member other).mp ((mem_push.mp member).resolve_left ne)
    rw [ran]
    refine ⟨da', _, n, loc', rfl, managed', round'.settle ?_ notTerminal inner push_ne_nil ?_ rfl
      ?_, ?_, round'.inside⟩
    · rwa [head] at high
    · exact fun other => push_tail_ne_zero (fun _ => thread.tail_ne_zero) some' absent
    · simp [conflict, own, Contents.add]
    · rw [round'.loc_of_done (by simpa using own)]
  | false =>
    obtain ⟨found, search, managed₁, kept, fits, high⟩ := found_spec managed (contents.kids above)
    have head : (contents.kids above).headD 0 = (da.ninfo nodeP).child := threadP.first_eq.symm
    simp only [Bool.false_eq_true, if_false, false_and, (setChild_eq threadP nodeP'.nodup someP).1,
      search]
    let conflict : Conflict := ⟨false, place found.2 ((contents.kids above).headD 0),
      (da.array nodeP).base, nodeP, place (da.array n).base label, label⟩
    obtain ⟨managed₂, round⟩ : _ ∧ Round _ conflict above loc contents [] (contents.kids above) :=
      Round.start (trunk.kept kept) managed₁ known innerP
        (by rw [kept.array nodeP (trunk.used known)]) fits rfl
        nodeP'.nodup fun _ member => member
    rw [putChild_self (by rw [kept.ninfo, head])] at managed₂ round
    have ne : n ≠ nodeP := fun same => apart (trunk.laid.injective _ _ _ known (same ▸ inside))
    have base : ((found.1.putBase nodeP conflict.base).array n).base = (da.array n).base := by
      simp [ne, kept.array n (trunk.used inside)]
    obtain ⟨da', loc', from_n, ran, managed', round', inside', newcomer⟩ :=
      round.run_other other managed₂ rfl placed
      (by simp [conflict]) lowP apart.symm inside
        (fun label member => (nodeP'.member label).mp member) fun _ =>
        ⟨new, low.trans base.ge, some', by rw [base]⟩
    rw [if_pos member] at round' newcomer
    have kids : (contents.add path label).kids above = contents.kids above :=
      Function.update_of_ne apart _ _
    rw [ran]
    refine ⟨da', _, from_n, loc', rfl, managed', round'.settle high terminalP innerP someP
      (fun _ => threadP.tail_ne_zero) ?_ rfl, newcomer, inside'⟩
    rw [List.nil_append, ← kids, Function.update_eq_self]

/-- A free cell becomes the cell of the new edge; a parent that had no children gets its first base. -/
private theorem Trunk.graft {da₁ : DoubleArray} {e : ℕ} {base : ℤ} {flag : Bool}
    (trunk : Trunk da loc contents none fun _ => 0)
    (managed : da.Managed) (inside : loc path = some n) (new : loc (label :: path) = none)
    (notTerminal : ∀ upper, path ≠ 0 :: upper) (notRoot : label = 0 → path ≠ []) (unused : ¬da.Used e)
    (popped : Popped da da₁ e (newNode label n)) (placed : e = place base label)
    (steady : lead path ++ contents.kids path ≠ [] → base = (da.array n).base)
    (based : path ≠ [] → 256 ≤ base) (some' : flag = true ↔ lead path ++ contents.kids path ≠ []) :
    ((da₁.putBase n base).pushSibling n base label flag).Managed ∧
      Trunk ((da₁.putBase n base).pushSibling n base label flag)
      (Function.update loc (label :: path) (some e))
        (contents.add path label) none fun _ => 0 := by
  have used := trunk.used inside
  have fresh : ∀ x, da.Used x → x ≠ e := fun x busy same => unused (same ▸ busy)
  have node := trunk.node path n (by simp) inside
  have array : ∀ x, ((da₁.putBase n base).pushSibling n base label flag).array x =
      if x = n then { da₁.array x with base := base } else da₁.array x := fun x => by
    rw [pushSibling_array]
    simp
  have check : ∀ x, (((da₁.putBase n base).pushSibling n base label flag).array x).check =
    (da₁.array x).check := fun x => by
    rw [array]
    split_ifs <;> rfl
  have alike : ((da₁.putBase n base).pushSibling n base label flag).ninfo =
    (da.pushSibling n base label flag).ninfo :=
    pushSibling_congr (show (da₁.putBase n base).ninfo = da.ninfo from popped.ninfo) ..
  have written : (((da₁.putBase n base).pushSibling n base label flag).array n).base = base := by
    rw [array, if_pos rfl]
  have popUsed : ∀ x, da.Used x → da₁.Used x := fun x busy => (popped.used x).mpr (Or.inl busy)
  have usedIff : ∀ x, (da₁.putBase n base).Used x ↔ da₁.Used x := fun x => by
    by_cases here : x = n <;> simp [Used, here]
  constructor
  · refine (popped.managed.putBase (popUsed n used) base).pushSibling
      ((usedIff n).mpr (popUsed n used)) ?_ fun flagged first => ?_
    · rw [← placed, usedIff, popped.used]
      exact Or.inr rfl
    · have linked := some'.mp flagged
      rw [putBase, modifyNode, popped.ninfo] at first
      have thread := node.thread
      rw [first] at thread
      have terminal := trunk.address (by simp) inside (thread.zero_mem linked)
      refine (usedIff _).mpr (popUsed _ ?_)
      rw [steady linked]
      exact trunk.used terminal
  · refine trunk.sprout (by simp) inside new unused ?_ notTerminal notRoot (fun linked => ?_)
      (fun inner => ?_) ?_ some'
      (fun x _ => ?_) ?_
    · refine ⟨fun x => ?_, ?_, ?_, fun x busy => ?_, fun x busy ne => ?_⟩
      · rw [Used, check, ← popped.used, Used]
      · rw [array, if_neg (fresh n used).symm, popped.here]
      · rw [alike, child_pushSibling _ (fresh n used).symm, managed.blank unused]
        rfl
      · rw [check, popped.array x busy (fresh x busy)]
      · rw [array, if_neg ne, popped.array x busy (fresh x busy)]
    · rw [written, steady linked]
    · rw [written]
      exact based inner
    · rw [written, placed]
    · rw [written, alike]
    · funext x
      rw [written, sibling, sibling, alike]

private theorem putBase_self {da : DoubleArray} {n : ℕ} {base : ℤ}
    (own : (da.array n).base = base) : da.putBase n base = da := by
  have same : (fun i => if i = n then { da.array i with base := base } else da.array i) = da.array := by
    funext i
    split_ifs with here
    · rw [here, ← own]
    · rfl
  simp only [putBase, modifyNode, same]

/-- `_follow` goes along the edge, which it has made if it was missing. -/
theorem follow_spec (trunk : Trunk da loc contents none fun _ => 0) (managed : da.Managed)
    (inside : loc path = some n)
    (notTerminal : ∀ upper, path ≠ 0 :: upper) (notRoot : label = 0 → path ≠ []) :
    ∃ da' dest from_n loc', da.follow n label = (da', dest, from_n) ∧ da'.Managed ∧
      Trunk da' loc' (contents.follow path label) none (fun _ => 0) ∧ loc' (label :: path) = some dest ∧
      loc' path = some from_n := by
  have node := trunk.node path n (by simp) inside
  by_cases new : loc (label :: path) = none
  case neg =>
    have member := (node.member label).mpr new
    have there := trunk.loc_of_mem (by simp) inside member
    obtain ⟨-, check⟩ := trunk.place_eq (by simp) inside there
    have based : ¬(da.array n).base < 0 := by
      rcases eq_or_ne path [] with rfl | inner
      · rw [trunk.laid.start] at inside
        cases inside
        rw [trunk.root]
        simp
      · have := node.inner inner (List.ne_nil_of_mem member)
        omega
    refine ⟨da, _, n, loc, ?_, managed, ?_, there, inside⟩
    · simp [follow, check, based]
    · rwa [Contents.follow, if_pos member]
  case pos =>
    have absent : label ∉ contents.kids path := fun member => (node.member label).mp member new
    have outside : path ≠ label :: path := fun same => by simpa using congrArg List.length same
    rw [Contents.follow, if_neg absent]
    by_cases based : 0 ≤ (da.array n).base
    case pos =>
      by_cases taken : 0 ≤ (da.array (place (da.array n).base label)).check
      case pos =>
        have other : (da.array (place (da.array n).base label)).check ≠ n := by
          intro own
          obtain ⟨kid, member, same⟩ := List.mem_map.mp
            ((trunk.check_eq_iff (by simp) inside (Or.inr taken)).mp own)
          exact absent (place_injective _ same ▸ member)
        obtain ⟨da', dest, from_n, loc', resolved, spec⟩ :=
          resolve_spec trunk managed inside new notTerminal notRoot based taken
        refine ⟨da', dest, from_n, loc', ?_, spec⟩
        simp only [follow, not_lt.mpr based, not_lt.mpr taken, or_false, if_false, if_pos other, resolved]
      case neg =>
        obtain ⟨unused, bound⟩ := trunk.vacant managed inside notTerminal notRoot based (not_le.mp taken)
        obtain ⟨position, popped⟩ := popEnode_placed managed label n based bound unused
        have used := trunk.used inside
        have kept : ((da.popEnode (da.array n).base label n).1.array n).base = (da.array n).base := by
          rw [popped.array n used fun same => unused (same ▸ used)]
        have linked : lead path ++ contents.kids path ≠ [] := by
          rcases eq_or_ne path [] with rfl | inner
          · simp [lead]
          · simp [(trunk.inner_of_base (by simp) inside inner notTerminal based).1]
        obtain ⟨managed', trunk'⟩ := trunk.graft managed inside new notTerminal notRoot unused
          popped rfl (fun _ => rfl)
          (fun inner => (trunk.inner_of_base (by simp) inside inner notTerminal based).2)
          (show true = true ↔ _ from iff_of_true rfl linked)
        rw [putBase_self kept] at managed' trunk'
        refine ⟨_, _, n, _, ?_, managed', trunk', Function.update_self .., ?_⟩
        · simp only [follow, not_le.mp taken, or_true, if_true, position, place_back based, based,
            decide_true]
        · rw [Function.update_of_ne outside, inside]
    case neg =>
      have inner : path ≠ [] := by
        rintro rfl
        rw [trunk.laid.start] at inside
        cases inside
        simp [trunk.root] at based
      have leaf : contents.kids path = [] := by
        by_contra some'
        have := node.inner inner some'
        omega
      obtain ⟨managed₁, kept, fits⟩ := findPlace_spec managed label
      obtain ⟨e, cell⟩ : ∃ e, da.findPlace.2 = e := ⟨_, rfl⟩
      rw [cell] at fits
      have unused : ¬da.findPlace.1.Used e := by
        have free := fits.free label List.mem_cons_self
        rwa [List.headD_cons, place_place] at free
      have taken : Popped da.findPlace.1 ((da.findPlace.1.unlinkEnode e).putNode e
        (newNode label n)) e (newNode label n) :=
        popped managed₁ fits.bound unused (by simp [newNode])
      have high : (256 : ℤ) ≤ place e label := by
        exact_mod_cast (place_ge _).mpr (by exact_mod_cast fits.inner)
      obtain ⟨managed', trunk'⟩ := (trunk.kept kept).graft managed₁ inside new notTerminal notRoot
        unused taken
        (place_place e label).symm (by simp [leaf, lead_of_ne_nil inner]) (fun _ => high)
        (show false = true ↔ _ by simp [leaf, lead_of_ne_nil inner])
      refine ⟨_, _, n, _, ?_, managed', trunk', Function.update_self .., ?_⟩
      · simp only [follow, popEnode, not_le.mp based, true_or, if_true, cell, based, decide_false]
      · rw [Function.update_of_ne outside, inside]

end Taboo.DoubleArray
