import Taboo.Soundness.LaidTrie

/-! # One round of the loop that settles a conflict

A child is copied to its new cell, its own children get to know, and its old cell is given back or taken
by the newcomer at once.
-/

namespace Taboo.DoubleArray

open Container

variable {da : DoubleArray} {loc : Route → Option ℕ} {contents : Contents} {moving : Option Route}
  {spot : UInt8 → ℕ} {path : Route} {label c : UInt8} {base : ℤ} {e fuel : ℕ} {labels : List UInt8}

/-! ### Reading a thread -/

theorem siblings_eq (chain : Chain da.sibling (place base) c labels) (enough : labels.length ≤ fuel) :
    da.siblings base fuel c = labels := by
  induction labels generalizing c fuel with
  | nil =>
    obtain rfl : c = 0 := chain
    cases fuel <;> simp [siblings]
  | cons next rest ih =>
    obtain ⟨rfl, nonzero, others⟩ := chain
    cases fuel with
    | zero => simp at enough
    | succ fuel =>
      rw [siblings, if_neg nonzero]
      exact congrArg (c :: ·) (ih others (by simpa using enough))

theorem length_le_of_nodup (nodup : labels.Nodup) : labels.length ≤ 256 := by
  have inside : labels.map UInt8.toNat ⊆ List.range 256 := by
    intro value member
    obtain ⟨label, -, rfl⟩ := List.mem_map.mp member
    exact List.mem_range.mpr label.toNat_lt
  have distinct : (labels.map UInt8.toNat).Nodup := nodup.map fun _ _ same => UInt8.toNat_inj.mp same
  simpa using List.Nodup.length_le_of_subset distinct inside

/-- `_set_child` lists the labels of the thread, with the new one where `_push_sibling` puts it. -/
theorem setChild_eq (thread : Thread c da.sibling (place base) labels) (nodup : labels.Nodup)
    (some : labels ≠ []) :
    da.setChild base c none = labels ∧ ∀ label, da.setChild base c (.some label) = push label labels := by
  cases labels with
  | nil => exact absurd rfl some
  | cons first rest =>
    obtain ⟨rfl, chain⟩ := thread
    have length := length_le_of_nodup nodup
    rw [List.length_cons] at length
    have others : da.siblings base 256 (da.ninfo (place base c)).sibling = rest :=
      siblings_eq chain (by omega)
    by_cases zero : c = 0
    · subst zero
      simp [setChild, others, push]
    · have whole : da.siblings base 256 c = c :: rest :=
        siblings_eq ⟨rfl, zero, chain⟩ (by rw [List.length_cons]; omega)
      simp [setChild, zero, whole, push]

/-- The grandchildren all get the new parent, and nothing else changes. -/
theorem adopt_eq {dest : ℕ} (chain : Chain da.sibling (place base) (da.sibling (place base c)) labels)
    (enough : labels.length < fuel) : da.adopt base dest fuel c = { da with
      array := fun x => if x ∈ (c :: labels).map (place base) then
        { da.array x with check := dest } else da.array x } := by
  induction labels generalizing da c fuel with
  | nil =>
    obtain ⟨fuel, rfl⟩ : ∃ rounds, fuel = rounds + 1 := Nat.exists_eq_succ_of_ne_zero (by omega)
    have last : (da.ninfo (place base c)).sibling = 0 := chain
    simp [adopt, last]
  | cons next rest ih =>
    obtain ⟨fuel, rfl⟩ : ∃ rounds, fuel = rounds + 1 := Nat.exists_eq_succ_of_ne_zero (by omega)
    obtain ⟨here, nonzero, others⟩ := chain
    have onward : (da.ninfo (place base c)).sibling = next := here
    have later := @ih (da.putCheck (place base c) dest) next fuel others (by simpa using enough)
    simp only [adopt, putCheck, modifyNode, onward, if_neg nonzero] at later ⊢
    rw [later]
    congr 1
    funext x
    by_cases first : x = place base c <;> by_cases member : x ∈ (next :: rest).map (place base) <;>
      simp_all

/-! ### A child and its copy -/

/-- The node in cell `old` has been copied to cell `dest`, with the grandchildren. -/
structure Copied (da da' : DoubleArray) (old dest : ℕ) (next : UInt8) : Prop where
  managed : da'.Managed
  used : ∀ x, da'.Used x ↔ da.Used x ∨ x = dest
  base : (da'.array dest).base = (da.array old).base
  check : (da'.array dest).check = (da.array old).check
  child : (da'.ninfo dest).child = (da.ninfo old).child
  sibling : da'.sibling dest = next
  bases : ∀ x, da.Used x → (da'.array x).base = (da.array x).base
  checks : ∀ x, da.Used x → (da'.array x).check = if (da.array x).check = old then (dest : ℤ) else
    (da.array x).check
  ninfo : ∀ x, da.Used x → da'.ninfo x = da.ninfo x
  size : da'.size = da.size

namespace Trunk

variable {old dest : ℕ}

/-- The cells whose `check` names a node are those of its labels. -/
theorem check_eq_iff (trunk : Trunk da loc contents moving spot) (apart : moving ≠ some path)
    (there : loc path = some old) (used : da.Used e) : (da.array e).check = old ↔
      e ∈ (contents.kids path).map (place (da.array old).base) := by
  have node := trunk.node path old apart there
  constructor
  · intro check
    obtain ⟨label, route, inside⟩ := trunk.laid.reached e old (parent_eq_some_iff.mpr check)
    obtain ⟨-, above, known, linked⟩ := trunk.laid.edge _ _ _ inside
    rw [parent_eq_some_iff, check] at linked
    obtain rfl : old = above := by exact_mod_cast linked
    obtain rfl := trunk.laid.injective _ _ _ known there
    refine List.mem_map.mpr ⟨label, (node.member label).mpr (by simp [inside]), ?_⟩
    exact (trunk.place_eq apart there inside).1.symm
  · intro member
    obtain ⟨label, listed, rfl⟩ := List.mem_map.mp member
    exact (trunk.place_eq apart there (trunk.loc_of_mem apart there listed)).2

/-- `copyNode` fills the new cell and renames the parent of the grandchildren. -/
private theorem copyNode_eq {da₁ : DoubleArray} {n : Node} {next : UInt8}
    (trunk : Trunk da loc contents moving spot)
    (apart : moving ≠ some (label :: path)) (there : loc (label :: path) = some old)
    (unused : ¬da.Used dest) (popped : Popped da da₁ dest n) (blank : (da.ninfo dest).child = 0) :
    (da₁.putSibling dest next).copyNode label old dest = { da₁ with
      array := fun x =>
        if x = dest then ⟨(da.array old).base, n.check⟩
        else if x ∈ (contents.kids (label :: path)).map (place (da.array old).base) then
          { da₁.array x with check := dest }
        else da₁.array x
      ninfo := fun x => if x = dest then ⟨next, (da.ninfo old).child⟩ else da₁.ninfo x } := by
  have usedOld := trunk.used there
  have ne : old ≠ dest := fun same => unused (same ▸ usedOld)
  have node := trunk.node _ old apart there
  have base : (da₁.array old).base = (da.array old).base := by rw [popped.array old usedOld ne]
  have blank' : (da₁.ninfo dest).child = 0 := by rw [popped.ninfo, blank]
  have thread := node.thread
  rw [lead, List.nil_append] at thread
  cases kids : contents.kids (label :: path) with
  | nil =>
    rw [kids] at thread
    have leaf : ¬(0 < (da.array old).base ∧ label ≠ 0) := by
      rintro ⟨positive, nonzero⟩
      have := node.leaf label path rfl nonzero kids
      omega
    have first : (da.ninfo old).child = 0 := thread
    have left : ((da₁.putSibling dest next).copyNode label old dest) =
        (da₁.putSibling dest next).putBase dest (da.array old).base := by
      simp only [copyNode, putSibling, modifyNInfo, base, if_neg leaf]
    rw [left]
    simp only [putBase, putSibling, modifyNode, modifyNInfo, first, List.map_nil, List.not_mem_nil,
      if_false]
    congr 1
    · funext x
      split_ifs with here
      · rw [here, popped.here]
      · rfl
    · funext x
      split_ifs with here
      · rw [here, blank']
      · rfl
  | cons first rest =>
    have inner : 0 < (da.array old).base ∧ label ≠ 0 := by
      refine ⟨?_, ?_⟩
      · have := node.inner (by simp) (by simp [kids])
        omega
      · rintro rfl
        have := (node.terminal path rfl).1
        simp [kids] at this
    rw [kids] at thread
    obtain ⟨child, chain⟩ := thread
    have apart' : ∀ other ∈ first :: rest, place (da.array old).base other ≠ dest :=
      fun other member same =>
      unused (same ▸ trunk.used (trunk.loc_of_mem apart there (kids ▸ member)))
    let filled := ((da₁.putSibling dest next).putBase dest (da.array old).base).putChild dest first
    have same : ∀ other ∈ first :: rest,
        filled.sibling (place (da.array old).base other) = da.sibling
          (place (da.array old).base other) := by
      intro other member
      simp [filled, sibling, apart' other member, popped.ninfo]
    have chain' : Chain filled.sibling (place (da.array old).base)
        (filled.sibling (place (da.array old).base first)) rest := by
      rw [same first List.mem_cons_self]
      exact chain.congr fun other member => same other (List.mem_cons_of_mem _ member)
    have length := length_le_of_nodup node.nodup
    rw [kids, List.length_cons] at length
    have copied : ((da₁.putSibling dest next).copyNode label old dest) = filled.adopt
        (da.array old).base dest 256 first := by
      have unchanged : ((da₁.putSibling dest next).ninfo old).child = first := by
        simp [ne, popped.ninfo, child]
      simp only [copyNode, unchanged]
      simp only [putSibling, modifyNInfo, base, if_pos inner, filled]
    rw [copied, adopt_eq chain' (by omega)]
    simp only [filled, putChild, putBase, putSibling, modifyNode, modifyNInfo, child]
    congr 1
    · funext x
      by_cases here : x = dest
      · have outside : x ∉ (first :: rest).map (place (da.array old).base) := by
          rintro member
          obtain ⟨other, listed, placed⟩ := List.mem_map.mp member
          exact apart' other listed (placed.trans here)
        rw [if_neg outside, if_pos here, if_pos here, here, popped.here]
      · simp only [if_neg here]
    · funext x
      split_ifs <;> rfl

/-- One round of the loop up to the old place. -/
theorem copied {node : ℕ} {base : ℤ} (trunk : Trunk da loc contents moving spot) (managed : da.Managed)
    (apart : moving ≠ some (label :: path)) (there : loc (label :: path) = some old)
    (above : (da.array old).check = node)
    (based : 0 ≤ base) (bound : place base label < da.size) (unused : ¬da.Used (place base label))
    (next : UInt8) :
    (da.popEnode base label node).2 = place base label ∧
      Copied da (((da.popEnode base label node).1.putSibling (place base label) next).copyNode label old
        (place base label)) old (place base label) next := by
  obtain ⟨position, popped⟩ := popEnode_placed managed label node based bound unused
  refine ⟨position, ?_⟩
  rw [trunk.copyNode_eq apart there unused popped (by rw [managed.blank unused]; rfl)]
  generalize (da.popEnode base label node).1 = da₁ at popped
  generalize place base label = dest at *
  have usedOld := trunk.used there
  have fresh : ∀ x, da.Used x → x ≠ dest := fun x used same => unused (same ▸ used)
  have kids : ∀ x ∈ (contents.kids (label :: path)).map (place (da.array old).base), da.Used x := by
    intro x member
    obtain ⟨other, listed, rfl⟩ := List.mem_map.mp member
    exact trunk.used (trunk.loc_of_mem apart there listed)
  have mine : da₁.Used dest := (popped.used dest).mpr (Or.inr rfl)
  have usedIff : ∀ x, Used { da₁ with
      array := fun x =>
        if x = dest then ⟨(da.array old).base, (newNode label node).check⟩
        else if x ∈ (contents.kids (label :: path)).map (place (da.array old).base) then
          { da₁.array x with check := dest }
        else da₁.array x
      ninfo := fun x => if x = dest then ⟨next, (da.ninfo old).child⟩ else da₁.ninfo x } x ↔
        da₁.Used x := by
    intro x
    rw [Used]
    dsimp only
    split_ifs with here below
    · exact iff_of_true (Or.inr (by simp [newNode])) (here ▸ mine)
    · exact iff_of_true (Or.inr (by simp)) ((popped.used x).mpr (Or.inl (kids x below)))
    · rfl
  refine ⟨popped.managed.frame rfl rfl rfl usedIff (fun x free => ?_) (fun x free => ?_),
    fun x => ?_, by simp, ?_,
    by simp, by simp [sibling], fun x used => ?_, fun x used => ?_, fun x used => ?_, popped.size⟩
  · have ne : x ≠ dest := fun same => free (same ▸ mine)
    have outside := fun below => free ((popped.used x).mpr (Or.inl (kids x below)))
    simp only [if_neg ne, if_neg outside]
  · have ne : x ≠ dest := fun same => free (same ▸ mine)
    simp only [if_neg ne]
  · rw [usedIff, popped.used]
  · simp only [if_true, above]
    rfl
  · have same := popped.array x used (fresh x used)
    simp only [if_neg (fresh x used)]
    split_ifs <;> simp [same]
  · have same := popped.array x used (fresh x used)
    have named := trunk.check_eq_iff apart there used
    simp only [if_neg (fresh x used), named]
    split_ifs <;> simp [same]
  · simp only [if_neg (fresh x used), popped.ninfo]

end Trunk

/-- Once the old cell is free, the node has moved. -/
theorem Copied.moved {da₁ da₂ : DoubleArray} {old dest : ℕ} {next : UInt8}
    (copied : Copied da da₁ old dest next)
    (used : da.Used old) (unused : ¬da.Used dest) (used' : ∀ x, da₂.Used x ↔ da₁.Used x ∧ x ≠ old)
    (array : ∀ x, da₁.Used x → x ≠ old → da₂.array x = da₁.array x)
    (ninfo : ∀ x, x ≠ old → da₂.ninfo x = da₁.ninfo x) : Moved da da₂ old dest := by
  have ne : dest ≠ old := fun same => unused (same ▸ used)
  have mine : da₁.Used dest := (copied.used dest).mpr (Or.inr rfl)
  have also : ∀ x, da.Used x → da₁.Used x := fun x here => (copied.used x).mpr (Or.inl here)
  refine ⟨fun x => ?_, ?_, ?_, ?_, fun x here apart => ?_, fun x here apart => ?_, fun x here apart => ?_⟩
  · rw [used', copied.used]
    rcases eq_or_ne x dest with rfl | other
    · simp [ne]
    · simp [other]
  · rw [array dest mine ne, copied.base]
  · rw [array dest mine ne, copied.check]
  · rw [ninfo dest ne, copied.child]
  · rw [array x (also x here) apart, copied.bases x here]
  · rw [array x (also x here) apart, copied.checks x here]
  · rw [ninfo x apart, copied.ninfo x here]

end Taboo.DoubleArray
