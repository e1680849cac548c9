import Taboo.Soundness.Relocation

/-! # Settled conflicts

`_resolve` moves the children of one of two nodes to a new base, child by child, so that the trie is whole
again at the end of its loop only. The newcomer gets its cell on the way: among the children that move, or
in the cell that the conflicting child has left.
-/

namespace Taboo.DoubleArray

open Container

variable {da da' : DoubleArray} {loc : Route → Option ℕ} {contents : Contents} {conflict : Conflict}
  {above : Route} {label : UInt8} {done todo rest : List UInt8}

/-- The trie between two rounds of the loop: the children with the labels `done` lie below the new base, the
others still below the old one. -/
structure Round (da : DoubleArray) (conflict : Conflict) (above : Route) (loc : Route → Option ℕ)
    (contents : Contents) (done todo : List UInt8) : Prop where
  trunk : Trunk da loc contents (some above) fun label =>
    if label ∈ done then place conflict.base label else place conflict.base_ label
  inside : loc above = some conflict.node
  base : (da.array conflict.node).base = conflict.base
  child : (da.ninfo conflict.node).child = (done ++ todo).headD 0
  linked : Linked da.sibling (place conflict.base) done (todo.headD 0)
  free : ∀ label ∈ todo, place conflict.base label < da.size ∧ ¬da.Used (place conflict.base label)
  nodup : (done ++ todo).Nodup
  moved : ∀ label ∈ done, loc (label :: above) ≠ none
  listed : ∀ label, loc (label :: above) ≠ none → label ∈ done ++ todo

namespace Round

theorem loc_of_done (round : Round da conflict above loc contents done todo) (member : label ∈ done) :
    loc (label :: above) = some (place conflict.base label) := by
  obtain ⟨cell, there⟩ := Option.ne_none_iff_exists'.mp (round.moved label member)
  have spotted := (round.trunk.laid.edge _ _ _ there).1
  rw [if_pos rfl, if_pos member] at spotted
  rw [there, spotted]

theorem loc_of_todo (round : Round da conflict above loc contents done (label :: rest))
    (there : loc (label :: above) ≠ none) : loc (label :: above) = some (place conflict.base_ label) ∧
      (da.array (place conflict.base_ label)).check = conflict.node := by
  have new : label ∉ done := fun member =>
    List.disjoint_of_nodup_append round.nodup member List.mem_cons_self
  obtain ⟨cell, there⟩ := Option.ne_none_iff_exists'.mp there
  obtain ⟨spotted, upper, known, linked⟩ := round.trunk.laid.edge _ _ _ there
  rw [if_pos rfl, if_neg new] at spotted
  rw [round.inside] at known
  cases known
  exact ⟨spotted ▸ there, spotted ▸ parent_eq_some_iff.mp linked⟩

private theorem outside_of_ne {rest : List UInt8} (nodup : (done ++ label :: rest).Nodup) {other : UInt8}
    (member : other ∈ rest) : other ≠ label := by
  rintro rfl
  exact (List.nodup_cons.mp (List.nodup_append.mp nodup).2.1).1 member

/-- The next round, once the trie is known to be as it should. -/
private theorem next {contents' : Contents}
    (round : Round da conflict above loc contents done (label :: rest))
    (trunk : Trunk da' (Function.update loc (label :: above) (some (place conflict.base label)))
      contents' (some above)
      fun other => if other ∈ done ++ [label] then place conflict.base other else place
        conflict.base_ other)
    (base : (da'.array conflict.node).base = (da.array conflict.node).base)
    (child : (da'.ninfo conflict.node).child = (da.ninfo conflict.node).child)
    (siblings : ∀ other ∈ done, da'.sibling (place conflict.base other) = da.sibling
      (place conflict.base other))
    (own : da'.sibling (place conflict.base label) = rest.headD 0)
    (used : ∀ cell, cell ≠ place conflict.base label → da'.Used cell → da.Used cell)
    (size : da'.size = da.size) :
    Round da' conflict above (Function.update loc (label :: above)
      (some (place conflict.base label))) contents'
      (done ++ [label]) rest := by
  have assoc : (done ++ [label]) ++ rest = done ++ label :: rest := by simp
  have distinct : (done ++ [label]) ++ rest |>.Nodup := assoc ▸ round.nodup
  have outside : ∀ route, route ≠ label :: above →
      Function.update loc (label :: above) (some (place conflict.base label)) route = loc route :=
    fun route ne => Function.update_of_ne ne _ _
  have self : above ≠ label :: above := fun same => by simpa using congrArg List.length same
  refine ⟨trunk, ?_, ?_, ?_, ?_, fun other member => ?_, distinct, fun other member => ?_,
    fun other located => ?_⟩
  · rw [outside above self, round.inside]
  · rw [base, round.base]
  · rw [child, assoc, round.child]
  · exact Linked.snoc (round.linked.congr siblings) own
  · obtain ⟨bound, free⟩ := round.free other (List.mem_cons_of_mem _ member)
    refine ⟨size ▸ bound, fun busy => free (used _ (fun same => ?_) busy)⟩
    rw [place_injective _ same] at member
    have tail := (List.nodup_append.mp round.nodup).2.1
    exact (List.nodup_cons.mp tail).1 member
  · by_cases same : other = label
    · simp [same]
    · rw [outside _ (by simpa using same)]
      exact round.moved other (by simpa [same] using member)
  · rw [assoc]
    by_cases same : other = label
    · simp [same]
    · rw [outside _ (by simpa using same)] at located
      exact round.listed other located

/-- A child has moved: the next round. -/
theorem advance (round : Round da conflict above loc contents done (label :: rest))
    (there : loc (label :: above) ≠ none)
    (moved : Moved da da' (place conflict.base_ label) (place conflict.base label))
    (sibling : da'.sibling (place conflict.base label) = rest.headD 0) (size : da'.size = da.size) :
    Round da' conflict above (Function.update loc (label :: above)
      (some (place conflict.base label))) contents
      (done ++ [label]) rest := by
  obtain ⟨here, -⟩ := round.loc_of_todo there
  have apart : ∀ route cell, route ≠ label :: above → loc route = some cell →
    cell ≠ place conflict.base_ label :=
    fun route cell ne known same => ne (round.trunk.laid.injective _ _ _ known (same ▸ here))
  have self : above ≠ label :: above := fun same => by simpa using congrArg List.length same
  have usedNode := round.trunk.used round.inside
  have nodeApart := apart above _ self round.inside
  refine round.next ?_ (moved.bases _ usedNode nodeApart) (by rw [moved.ninfo _ usedNode nodeApart])
    (fun other member => ?_) sibling (fun cell ne busy => ?_) size
  · refine round.trunk.moved moved here (round.free label List.mem_cons_self).2
      (by simp) fun other ne _ => ?_
    simp [ne]
  · have known := round.loc_of_done member
    have ne : other :: above ≠ label :: above := by
      intro same
      rw [(List.cons.inj same).1] at member
      exact List.disjoint_of_nodup_append round.nodup member List.mem_cons_self
    rw [DoubleArray.sibling, moved.ninfo _ (round.trunk.used known) (apart _ _ ne known),
      DoubleArray.sibling]
  · rw [moved.used] at busy
    exact (busy.resolve_right ne).1

/-- The newcomer has got its cell among the children that move: the next round. -/
theorem enter (round : Round da conflict above loc contents done (label :: rest))
    (new : loc (label :: above) = none)
    (inserted : Inserted da da' conflict.node (place conflict.base label) label)
    (base : (da'.array conflict.node).base = (da.array conflict.node).base)
    (infos : ∀ x, da.Used x → da'.ninfo x = da.ninfo x)
    (sibling : da'.sibling (place conflict.base label) = rest.headD 0) (size : da'.size = da.size) :
    Round da' conflict above (Function.update loc (label :: above) (some (place conflict.base label)))
      ⟨contents.kids, (contents.add above label).vals⟩ (done ++ [label]) rest := by
  refine round.next ?_ base (by rw [infos _ (round.trunk.used round.inside)])
    (fun other member => ?_) sibling
    (fun cell ne busy => ?_) size
  · refine round.trunk.newcomer round.inside new (round.free label List.mem_cons_self).2 inserted
      base infos (by simp)
      fun other ne _ => ?_
    simp [ne]
  · rw [DoubleArray.sibling, infos _ (round.trunk.used (round.loc_of_done member)), DoubleArray.sibling]
  · rw [inserted.used] at busy
    exact busy.resolve_right ne

/-- A child moves on and its old cell is given back: the next round. -/
theorem carry (round : Round da conflict above loc contents done (label :: rest)) (managed : da.Managed)
    (there : loc (label :: above) ≠ none) (based : 0 ≤ conflict.base) (inner : 256 ≤ conflict.base_) :
    ∃ da', (((da.popEnode conflict.base label conflict.node).1.putSibling
        (da.popEnode conflict.base label conflict.node).2 (rest.headD 0)).copyNode label
          (place conflict.base_ label)
        (da.popEnode conflict.base label conflict.node).2).pushEnode (place conflict.base_ label) = da' ∧
      da'.Managed ∧ Moved da da' (place conflict.base_ label) (place conflict.base label) ∧
      Round da' conflict above (Function.update loc (label :: above)
        (some (place conflict.base label))) contents
        (done ++ [label]) rest := by
  obtain ⟨here, check⟩ := round.loc_of_todo there
  obtain ⟨bound, unused⟩ := round.free label List.mem_cons_self
  obtain ⟨position, copied⟩ := round.trunk.copied managed (by simp) here check based bound unused
    (rest.headD 0)
  rw [position]
  generalize (((da.popEnode conflict.base label conflict.node).1.putSibling (place conflict.base label)
    (rest.headD 0)).copyNode label (place conflict.base_ label) (place conflict.base label)) =
      da₁ at copied
  have used := round.trunk.used here
  have outer : place conflict.base_ label / 256 ≠ 0 := by
    rw [place_div]
    omega
  have ne : place conflict.base label ≠ place conflict.base_ label := fun same => unused (same ▸ used)
  have given := pushed copied.managed ((copied.used _).mpr (Or.inl used)) outer
  have moved := copied.moved used unused given.used given.array fun x apart => by
    rw [given.ninfo, if_neg apart]
  refine ⟨_, rfl, given.managed, moved, round.advance there moved ?_ (given.size.trans copied.size)⟩
  rw [DoubleArray.sibling, given.ninfo, if_neg ne]
  exact copied.sibling

/-- The newcomer takes its cell among the children that move: the next round. -/
theorem join (round : Round da conflict above loc contents done (label :: rest)) (managed : da.Managed)
    (new : loc (label :: above) = none) (based : 0 ≤ conflict.base) :
    ∃ da', (da.popEnode conflict.base label conflict.node).1.putSibling
        (da.popEnode conflict.base label conflict.node).2 (rest.headD 0) = da' ∧ da'.Managed ∧
      Round da' conflict above (Function.update loc (label :: above) (some (place conflict.base label)))
        ⟨contents.kids, (contents.add above label).vals⟩ (done ++ [label]) rest := by
  obtain ⟨bound, unused⟩ := round.free label List.mem_cons_self
  obtain ⟨position, popped⟩ := popEnode_placed managed label conflict.node based bound unused
  rw [position]
  generalize (da.popEnode conflict.base label conflict.node).1 = da₁ at popped
  generalize dest : place conflict.base label = e at *
  have fresh : ∀ x, da.Used x → x ≠ e := fun x used same => unused (same ▸ used)
  have mine : da₁.Used e := (popped.used e).mpr (Or.inr rfl)
  have usedNode := round.trunk.used round.inside
  refine ⟨_, rfl, popped.managed.frame rfl rfl rfl (fun _ => Iff.rfl) (fun _ _ => rfl)
    (fun x free => ?_), ?_⟩
  · have ne : x ≠ e := fun same => free (same ▸ mine)
    simp [ne]
  · rw [← dest]
    refine round.enter new (dest.symm ▸ ?_) ?_ (fun x used => ?_) ?_ popped.size
    · refine ⟨popped.used, popped.here, ?_, fun x used => ?_, fun x used _ => ?_⟩
      · simp [popped.ninfo, managed.blank unused, NInfo.none]
      · exact congrArg Node.check (popped.array x used (fresh x used))
      · exact congrArg Node.base (popped.array x used (fresh x used))
    · exact congrArg Node.base (popped.array _ usedNode (fresh _ usedNode))
    · simp [dest, fresh x used, popped.ninfo]
    · simp [DoubleArray.sibling, dest]

/-- Where a node lies after a child has moved, which may be the node itself. -/
private theorem follows {below : Route} {nodeN : ℕ}
    (round : Round da conflict above loc contents done (label :: rest))
    (there : loc (label :: above) ≠ none) (inside : loc below = some nodeN)
    (moved : Moved da da' (place conflict.base_ label) (place conflict.base label)) :
    ∃ n, (if place conflict.base_ label = nodeN then place conflict.base label else nodeN) = n ∧
      Function.update loc (label :: above) (some (place conflict.base label)) below = some n ∧
      (da'.array n).base = (da.array nodeN).base := by
  obtain ⟨here, -⟩ := round.loc_of_todo there
  have same : place conflict.base_ label = nodeN ↔ below = label :: above := by
    refine ⟨fun same => round.trunk.laid.injective _ _ _ inside (same ▸ here), ?_⟩
    rintro rfl
    exact Option.some.inj (here.symm.trans inside)
  refine ⟨_, rfl, ?_, ?_⟩ <;> simp only [same]
  · rw [Function.update_apply]
    split_ifs
    · rfl
    · exact inside
  · exact round.trunk.base_of_ne moved here inside

/-- A leaf has come in below another node: the round goes on as before. -/
private theorem along {contents' : Contents} {below : Route} {nodeN cell : ℕ}
    (round : Round da conflict above loc contents done todo) (apart : below ≠ above)
    (inside : loc below = some nodeN) (new : loc (label :: below) = none) (trunk :
      Trunk da' (Function.update loc (label :: below) (some cell)) contents'
      (some above) fun other => if other ∈ done then place conflict.base other else place
        conflict.base_ other)
    (inserted : Inserted da da' nodeN cell label)
    (busy : ∀ other ∈ todo, place conflict.base other ≠ cell)
    (child : ∀ x, da.Used x → x ≠ nodeN → (da'.ninfo x).child = (da.ninfo x).child)
    (siblings : ∀ other x, loc (other :: above) = some x → da'.sibling x = da.sibling x)
    (size : da'.size = da.size) :
    Round da' conflict above (Function.update loc (label :: below) (some cell)) contents' done todo := by
  have used := round.trunk.used round.inside
  have ne : conflict.node ≠ nodeN := fun same =>
    apart (round.trunk.laid.injective _ _ _ inside (same ▸ round.inside))
  have outside : ∀ other, Function.update loc (label :: below) (some cell)
    (other :: above) = loc (other :: above) :=
    fun other => Function.update_of_ne (fun same => apart (List.cons.inj same).2.symm) _ _
  refine ⟨trunk, ?_, ?_, ?_, ?_, fun other member => ?_, round.nodup, fun other member => ?_,
    fun other there => ?_⟩
  · rw [Function.update_of_ne, round.inside]
    rintro rfl
    rw [round.inside] at new
    cases new
  · rw [inserted.bases _ used ne, round.base]
  · rw [child _ used ne, round.child]
  · exact round.linked.congr fun other member => siblings other _ (round.loc_of_done member)
  · obtain ⟨bound, free⟩ := round.free other member
    rw [inserted.used, size]
    exact ⟨bound, not_or.mpr ⟨free, busy other member⟩⟩
  · rw [outside]
    exact round.moved other member
  · rw [outside] at there
    exact round.listed other there

/-- The conflicting child moves on, and the newcomer takes its old cell: the next round. -/
theorem reuse {below : Route} {nodeN : ℕ}
    (round : Round da conflict above loc contents done (label :: rest))
    (managed : da.Managed) (there : loc (label :: above) ≠ none) (based : 0 ≤ conflict.base)
    (apart : below ≠ above)
    (inside : loc below = some nodeN) (new : loc (conflict.labelN :: below) = none)
    (inner : 256 ≤ (da.array nodeN).base)
    (some' : contents.kids below ≠ []) (flag : conflict.flag = false)
    (toPn : conflict.toPn = place conflict.base_ label)
    (placed : place (da.array nodeN).base conflict.labelN = conflict.toPn) :
    ∃ da' loc', (((da.popEnode conflict.base label conflict.node).1.putSibling
        (da.popEnode conflict.base label conflict.node).2 (rest.headD 0)).copyNode label
          (place conflict.base_ label)
        (da.popEnode conflict.base label conflict.node).2).leavePlace conflict
        (if place conflict.base_ label = nodeN then
          (da.popEnode conflict.base label conflict.node).2 else nodeN)
        (place conflict.base_ label) = da' ∧ da'.Managed ∧
      Round da' conflict above loc' (contents.add below conflict.labelN) (done ++ [label]) rest ∧
      (∀ other ∈ rest, loc' (other :: above) = loc (other :: above)) ∧
      loc' below = some (if place conflict.base_ label = nodeN then place conflict.base label else
        nodeN) ∧
      loc' (conflict.labelN :: below) = some conflict.toPn := by
  obtain ⟨here, check⟩ := round.loc_of_todo there
  obtain ⟨bound, unused⟩ := round.free label List.mem_cons_self
  obtain ⟨position, copied⟩ := round.trunk.copied managed (by simp) here check based bound unused
    (rest.headD 0)
  rw [position]
  generalize (((da.popEnode conflict.base label conflict.node).1.putSibling (place conflict.base label)
    (rest.headD 0)).copyNode label (place conflict.base_ label) (place conflict.base label)) =
      da₁ at copied
  have used := round.trunk.used here
  have ne : place conflict.base label ≠ place conflict.base_ label := fun same => unused (same ▸ used)
  -- between the copy and the new leaf, the old cell counts as free
  let da₂ := da₁.putNode (place conflict.base_ label) ⟨-1, -1⟩
  have used₂ : ∀ x, da₂.Used x ↔ da₁.Used x ∧ x ≠ place conflict.base_ label := by
    intro x
    have origin := round.trunk.laid.ne_origin here
    rcases eq_or_ne x (place conflict.base_ label) with rfl | other
    · simp [da₂, Used, origin]
    · simp [da₂, Used, other]
  have moved : Moved da da₂ (place conflict.base_ label) (place conflict.base label) :=
    copied.moved used unused used₂ (fun x _ apart => by simp [da₂, apart]) fun _ _ => rfl
  have round₂ := round.advance there moved copied.sibling copied.size
  obtain ⟨n, node, inside₂, base⟩ := round.follows there inside moved
  rw [node]
  have new₂ : Function.update loc (label :: above) (some (place conflict.base label))
      (conflict.labelN :: below) = none := by
    rw [Function.update_of_ne (fun same => apart (List.cons.inj same).2), new]
  have others : ∀ other ∈ rest,
      Function.update loc (label :: above) (some (place conflict.base label))
        (other :: above) = loc (other :: above) :=
    fun other member => Function.update_of_ne
      (fun same => outside_of_ne round.nodup member (List.cons.inj same).1) _ _
  generalize Function.update loc (label :: above) (some (place conflict.base label)) = loc₂ at *
  rw [← base] at inner placed
  have leaf := round₂.trunk.node below n (by simpa using apart.symm) inside₂
  have usedN := (used₂ n).mp (round₂.trunk.used inside₂)
  have back : ((place conflict.toPn conflict.labelN : ℕ) : ℤ) = (da₂.array n).base := by
    rw [← placed, place_back (by omega)]
  have terminal : (da₁.ninfo n).child = 0 → loc₂ (slot below 0) = some (place (da₂.array n).base 0) := by
    intro first
    have thread : Thread 0 da₂.sibling (place (da₂.array n).base)
      (lead below ++ contents.kids below) := first ▸ leaf.thread
    exact round₂.trunk.address (by simpa using apart.symm) inside₂ (thread.zero_mem (by simp [some']))
  obtain ⟨da₃, final⟩ : ∃ da₃, da₁.leavePlace conflict n (place conflict.base_ label) = da₃ := ⟨_, rfl⟩
  have left : da₃ = ((da₁.pushSibling n (da₂.array n).base conflict.labelN true).putChild
    (place conflict.base_ label) 0).putNode
      (place conflict.base_ label) (newNode conflict.labelN n) := by
    rw [← final, leavePlace, if_pos ⟨by simp [flag], toPn.symm⟩, back]
  have array : ∀ x, da₃.array x = if x = place conflict.base_ label then newNode conflict.labelN
      n else da₁.array x := by
    simp [left, pushSibling_array]
  have base₃ : (da₃.array n).base = (da₂.array n).base := by simp [array, usedN.2, da₂]
  have alike : (da₂.pushSibling n (da₂.array n).base conflict.labelN true).ninfo =
      (da₁.pushSibling n (da₂.array n).base conflict.labelN true).ninfo := 
    pushSibling_congr (show da₂.ninfo = da₁.ninfo from rfl) ..
  have siblings : da₃.sibling = (da₂.pushSibling n (da₂.array n).base conflict.labelN true).sibling := by
    funext x
    rw [DoubleArray.sibling, DoubleArray.sibling, alike, left]
    by_cases here : x = place conflict.base_ label <;> simp [here]
  have child : ∀ x, x ≠ place conflict.base_ label →
      (da₃.ninfo x).child = ((da₂.pushSibling n (da₂.array n).base conflict.labelN true).ninfo
        x).child := by
    intro x other
    rw [alike, left]
    simp [other]
  have inserted : Inserted da₂ da₃ n (place conflict.base_ label) conflict.labelN := by
    refine ⟨fun x => ?_, by simp [array], by simp [left], fun x busy => ?_, fun x busy _ => ?_⟩
    · rw [used₂, Used, array]
      rcases eq_or_ne x (place conflict.base_ label) with rfl | other
      · simp [newNode]
      · simp [other, Used]
    · have other := ((used₂ x).mp busy).2
      simp [array, other, da₂]
    · have other := ((used₂ x).mp busy).2
      simp [array, other, da₂]
  refine ⟨da₃, Function.update loc₂ (conflict.labelN :: below) (some (place conflict.base_ label)),
    final, ?_, ?_, ?_, ?_, ?_⟩
  · have busy := (copied.used (place conflict.base_ label)).mpr (Or.inl used)
    have grown : (da₁.pushSibling n (da₂.array n).base conflict.labelN true).Managed := by
      refine copied.managed.pushSibling usedN.1 (by rwa [placed, toPn]) fun _ first => ?_
      exact ((used₂ _).mp (round₂.trunk.used (terminal first))).1
    rw [left]
    refine grown.frame rfl rfl rfl (fun x => ?_) (fun x free => ?_) fun x free => ?_
    · rcases eq_or_ne x (place conflict.base_ label) with rfl | other
      · refine iff_of_true (Or.inr (by simp [newNode])) ?_
        rwa [Used, pushSibling_array]
      · simp [Used, other]
    all_goals
      have other : x ≠ place conflict.base_ label := by
        rintro rfl
        rw [Used, pushSibling_array] at free
        exact free busy
      simp [other]
  · refine round₂.along apart inside₂ new₂ ?_ inserted (fun other member same => ?_)
      (fun x busy other => ?_) (fun other x there => ?_) ?_
    · refine round₂.trunk.sprout (by simpa using apart.symm) inside₂ new₂
        (fun busy => ((used₂ _).mp busy).2 rfl) inserted
        (fun upper shape => some' (leaf.terminal upper shape).1) (fun _ root => ?_) (fun _ => base₃)
          (fun _ => base₃ ▸ inner)
        (by rw [base₃, placed, toPn]) (iff_of_true rfl (by simp [some'])) (fun x other => ?_) ?_
      · subst root
        rw [round₂.trunk.laid.start] at inside₂
        cases inside₂
        rw [round₂.trunk.root] at inner
        simp at inner
      · rw [base₃, child x other]
      · rw [base₃, siblings]
    · have busy := (round.free other (List.mem_cons_of_mem _ member)).2
      exact busy (same ▸ used)
    · rw [child x ((used₂ x).mp busy).2, child_pushSibling x other]
    · have apart' : x ≠ place (da₂.array n).base conflict.labelN := by
        rw [placed, toPn]
        exact ((used₂ x).mp (round₂.trunk.used there)).2
      rw [siblings]
      refine sibling_pushSibling x apart' fun _ first same => ?_
      have slots := round₂.trunk.laid.injective _ _ _ there (same ▸ terminal first)
      rcases slot_cases below 0 with ⟨-, -, shape⟩ | shape
      · simp [shape] at slots
      · exact apart (List.cons.inj (slots.trans shape)).2.symm
    · rw [left]
      exact pushSibling_size ..
  · intro other member
    rw [Function.update_of_ne (fun same => apart (List.cons.inj same).2.symm), others other member]
  · rw [Function.update_of_ne, inside₂]
    exact fun same => by simpa using congrArg List.length same
  · rw [Function.update_self, toPn]

/-- The loop over the children of the newcomer's own parent. -/
theorem run_own (round : Round da conflict above loc contents done todo) (managed : da.Managed)
    (nodeN : ℕ)
    (own : conflict.flag = true) (toPn : conflict.toPn = place conflict.base_ conflict.labelN)
    (based : 0 ≤ conflict.base) (inner : 256 ≤ conflict.base_)
    (new : conflict.labelN ∈ todo → loc (conflict.labelN :: above) = none)
    (others : ∀ label ∈ todo, label ≠ conflict.labelN → loc (label :: above) ≠ none) :
    ∃ da' loc', moveChildren conflict todo da nodeN = (da', nodeN) ∧ da'.Managed ∧
      Round da' conflict above loc' ⟨contents.kids,
        if conflict.labelN ∈ todo then (contents.add above conflict.labelN).vals else contents.vals⟩
          (done ++ todo) [] := by
  induction todo generalizing da loc contents done with
  | nil => exact ⟨da, loc, rfl, managed, by simpa using round⟩
  | cons label rest ih =>
    have assoc : (done ++ [label]) ++ rest = done ++ label :: rest := by simp
    have elsewhere : ∀ other ∈ rest, ∀ cell : Option ℕ,
        Function.update loc (label :: above) cell (other :: above) = loc (other :: above) :=
          fun other member cell =>
      Function.update_of_ne (fun same => outside_of_ne round.nodup member (List.cons.inj same).1) _ _
    by_cases here : label = conflict.labelN
    · subst here
      obtain ⟨da₁, joined, managed₁, round₁⟩ := round.join managed (new List.mem_cons_self) based
      have absent : conflict.labelN ∉ rest := fun member => outside_of_ne round.nodup member rfl
      obtain ⟨da', loc', ran, managed', round'⟩ := ih round₁ managed₁ (fun member => absurd member absent)
        fun other member ne => (elsewhere other member _).symm ▸ others other
          (List.mem_cons_of_mem _ member) ne
      refine ⟨da', loc', ?_, managed', ?_⟩
      · rw [moveChildren, if_pos ⟨own, toPn.symm⟩, joined, ran]
      · rw [assoc] at round'
        simpa [absent] using round'
    · obtain ⟨da₁, carried, managed₁, -, round₁⟩ :=
        round.carry managed (others label List.mem_cons_self here) based inner
      obtain ⟨da', loc', ran, managed', round'⟩ := ih round₁ managed₁
        (fun member => (elsewhere _ member _).symm ▸ new (List.mem_cons_of_mem _ member))
        fun other member ne => (elsewhere other member _).symm ▸ others other
          (List.mem_cons_of_mem _ member) ne
      refine ⟨da', loc', ?_, managed', ?_⟩
      · have apart : place conflict.base_ label ≠ conflict.toPn := fun same =>
          here (place_injective _ (same.trans toPn))
        simp only [moveChildren, own, apart, and_false, if_false, leavePlace, Bool.not_true,
          Bool.false_eq_true, false_and]
        rw [carried, ran]
      · rw [assoc] at round'
        simpa [Ne.symm here] using round'

/-- The loop over the children of the node that one of the newcomer's places belongs to. -/
theorem run_other {below : Route} {nodeN : ℕ} (child : UInt8)
    (round : Round da conflict above loc contents done todo)
    (managed : da.Managed) (flag : conflict.flag = false)
    (toPn : conflict.toPn = place conflict.base_ child)
    (based : 0 ≤ conflict.base) (inner : 256 ≤ conflict.base_) (apart : below ≠ above)
    (inside : loc below = some nodeN) (others : ∀ label ∈ todo, loc (label :: above) ≠ none)
    (ahead : child ∈ todo → loc (conflict.labelN :: below) = none ∧ 256 ≤ (da.array nodeN).base ∧
      contents.kids below ≠ [] ∧ place (da.array nodeN).base conflict.labelN = conflict.toPn) :
    ∃ da' loc' n, moveChildren conflict todo da nodeN = (da', n) ∧ da'.Managed ∧
      Round da' conflict above loc' (if child ∈ todo then contents.add below conflict.labelN else
        contents) (done ++ todo) [] ∧
      loc' below = some n ∧
      loc' (conflict.labelN :: below) = if child ∈ todo then some conflict.toPn else loc
        (conflict.labelN :: below) := by
  induction todo generalizing da loc contents done nodeN with
  | nil => exact ⟨da, loc, nodeN, rfl, managed, by simpa using round, inside, by simp⟩
  | cons label rest ih =>
    have assoc : (done ++ [label]) ++ rest = done ++ label :: rest := by simp
    have there := others label List.mem_cons_self
    have position := popEnode_position da label conflict.node based
    have elsewhere : ∀ other ∈ rest, ∀ cell : Option ℕ,
        Function.update loc (label :: above) cell (other :: above) = loc (other :: above) :=
          fun other member cell =>
      Function.update_of_ne (fun same => outside_of_ne round.nodup member (List.cons.inj same).1) _ _
    by_cases here : label = child
    · subst here
      have absent : label ∉ rest := fun member => outside_of_ne round.nodup member rfl
      obtain ⟨new, based', some', placed⟩ := ahead List.mem_cons_self
      obtain ⟨da₁, loc₁, left, managed₁, round₁, same, inside₁, newcomer⟩ :=
        round.reuse managed there based apart inside new based' some' flag toPn placed
      obtain ⟨da', loc', n, ran, managed', round', inside', newcomer'⟩ := ih round₁ managed₁ inside₁
        (fun other member => same other member ▸ others other (List.mem_cons_of_mem _ member))
        fun member => absurd member absent
      refine ⟨da', loc', n, ?_, managed', ?_, inside', ?_⟩
      · simp only [moveChildren, flag, Bool.false_eq_true, false_and, if_false, Bool.not_false, true_and]
        rw [left, position, ran]
      · rw [assoc] at round'
        simpa [absent] using round'
      · rw [newcomer', if_neg absent, newcomer, if_pos List.mem_cons_self]
    · obtain ⟨da₁, carried, managed₁, moved, round₁⟩ := round.carry managed there based inner
      obtain ⟨n₁, node, inside₁, base⟩ := round.follows there inside moved
      have newcomer : Function.update loc (label :: above) (some (place conflict.base label))
        (conflict.labelN :: below) =
          loc (conflict.labelN :: below) := Function.update_of_ne
            (fun same => apart (List.cons.inj same).2) _ _
      have ahead' : child ∈ rest → Function.update loc (label :: above) (some (place conflict.base label))
          (conflict.labelN :: below) = none ∧ 256 ≤ (da₁.array n₁).base ∧ contents.kids below ≠ [] ∧
          place (da₁.array n₁).base conflict.labelN = conflict.toPn := fun member => by
        rw [newcomer, base]
        exact ahead (List.mem_cons_of_mem _ member)
      obtain ⟨da', loc', n, ran, managed', round', inside', newcomer'⟩ := ih round₁ managed₁ inside₁
        (fun other member => (elsewhere other member _).symm ▸ others other
          (List.mem_cons_of_mem _ member)) ahead'
      refine ⟨da', loc', n, ?_, managed', ?_, inside', ?_⟩
      · have apart' : place conflict.base_ label ≠ conflict.toPn := fun same =>
          here (place_injective _ (same.trans toPn))
        simp only [moveChildren, flag, apart', Bool.false_eq_true, and_false, if_false, leavePlace,
          Bool.not_false, true_and]
        rw [carried, position, node, ran]
      · rw [assoc] at round'
        simpa [Ne.symm here] using round'
      · rw [newcomer', newcomer]
        simp [Ne.symm here]

/-- After the last round the trie is whole again. -/
theorem settle {labels : List UInt8} {contents' : Contents}
    (round : Round da conflict above loc contents labels [])
    (inner : 256 ≤ conflict.base) (notTerminal : ∀ upper, above ≠ 0 :: upper) (notRoot : above ≠ [])
    (some' : labels ≠ []) (nonzero : ∀ label ∈ labels.tail, label ≠ 0)
    (kids : contents'.kids = Function.update contents.kids above labels)
    (vals : contents'.vals = contents.vals) : Trunk da loc contents' none fun _ => 0 := by
  have own : contents'.kids above = labels := by rw [kids, Function.update_self]
  have others : ∀ path, path ≠ above → contents'.kids path = contents.kids path := fun path ne => by
    rw [kids, Function.update_of_ne ne]
  refine ⟨round.trunk.root, round.trunk.laid.congr (fun _ => rfl) fun label path there => ?_,
    fun path e _ there => ?_, fun path none => ?_⟩
  · by_cases same : path = above
    · subst same
      have listed : label ∈ labels := by simpa using round.listed label there
      simp [spotOf, round.inside, round.base, listed]
    · have apart : ¬some above = some path := fun both => same (Option.some.inj both).symm
      simp [apart]
  · by_cases same : path = above
    · subst same
      rw [round.inside] at there
      cases there
      refine ⟨fun label => ?_, ?_, ?_, fun upper shape => absurd shape (notTerminal upper),
        fun _ _ => ?_, fun _ _ _ _ none => ?_⟩
      · rw [own]
        exact ⟨round.moved label, fun there => by simpa using round.listed label there⟩
      · simpa [own] using round.nodup
      · rw [own, lead_of_ne_nil notRoot, List.nil_append, round.child, round.base, List.append_nil]
        exact round.linked.thread nonzero
      · rwa [round.base]
      · exact absurd (own ▸ none) some'
    · have apart : some above ≠ some path := fun both => same (Option.some.inj both).symm
      exact (round.trunk.node path e apart there).transfer rfl rfl (fun _ _ => rfl) (others path same)
        (fun _ _ => by rw [vals]) fun _ => Iff.rfl
  · have same : path ≠ above := by
      rintro rfl
      rw [round.inside] at none
      cases none
    exact (others path same).trans (round.trunk.absent path none)

/-- The node whose children are to move has got its new base. -/
theorem start {spot : UInt8 → ℕ} {labels : List UInt8} {e : ℕ}
    (trunk : Trunk da loc contents none spot) (managed : da.Managed)
    (inside : loc above = some conflict.node) (notRoot : above ≠ [])
    (base_ : conflict.base_ = (da.array conflict.node).base)
    (fits : Fits da labels e) (base : conflict.base = place e (labels.headD 0)) (nodup : labels.Nodup)
    (listed : ∀ label ∈ contents.kids above, label ∈ labels) :
    ((da.putChild conflict.node (labels.headD 0)).putBase conflict.node conflict.base).Managed ∧
      Round ((da.putChild conflict.node (labels.headD 0)).putBase conflict.node conflict.base)
        conflict above loc contents
        [] labels := by
  have used := trunk.used inside
  have apart : conflict.node ≠ 0 := by
    obtain ⟨label, path, rfl⟩ := List.exists_cons_of_ne_nil notRoot
    exact trunk.laid.ne_origin inside
  obtain ⟨da', result⟩ : ∃ da', (da.putChild conflict.node (labels.headD 0)).putBase conflict.node
    conflict.base = da' :=
    ⟨_, rfl⟩
  have array : ∀ x, x ≠ conflict.node → da'.array x = da.array x := fun x ne => by simp [← result, ne]
  have check : ∀ x, (da'.array x).check = (da.array x).check := fun x => by
    by_cases here : x = conflict.node <;> simp [← result, here]
  have sibling : da'.sibling = da.sibling := by
    funext x
    by_cases here : x = conflict.node <;> simp [DoubleArray.sibling, ← result, here]
  have child : ∀ x, x ≠ conflict.node → (da'.ninfo x).child = (da.ninfo x).child :=
    fun x ne => by simp [← result, ne]
  have usedIff : ∀ x, da'.Used x ↔ da.Used x := fun x => by rw [Used, Used, check]
  have lies : ∀ path e, some above ≠ some path → loc path = some e → e ≠ conflict.node :=
    fun path e ne there same =>
    ne (congrArg some (trunk.laid.injective _ _ _ inside (same ▸ there)))
  rw [result]
  have free : ∀ x, ¬da.Used x → x ≠ conflict.node := fun x unused same => unused (same ▸ used)
  have frame : da'.Managed := by
    rw [← result]
    refine managed.frame rfl rfl rfl (result ▸ usedIff) (fun x unused => ?_) fun x unused => ?_
    · simp [free x unused]
    · simp [free x unused]
  refine ⟨frame, ⟨?_, ?_, fun path e ne there => ?_, trunk.absent⟩, inside, ?_, ?_, trivial,
    fun label member => ?_, nodup, ?_, fun label there => ?_⟩
  · rw [array 0 apart.symm, trunk.root]
  · refine trunk.laid.congr (fun x => parent_congr (check x)) fun label path there => ?_
    by_cases same : some above = some path
    · cases same
      simp [spotOf, inside, base_]
    · obtain ⟨child, there⟩ := Option.ne_none_iff_exists'.mp there
      obtain ⟨-, upper, known, -⟩ := trunk.laid.edge _ _ _ there
      simp [same, spotOf, known, array upper (lies path upper same known)]
  · have ne' := lies path e ne there
    exact (trunk.node path e (by simp) there).transfer (by rw [array e ne']) (child e ne')
      (fun _ _ => by rw [sibling]) rfl
      (fun _ _ => rfl) fun _ => Iff.rfl
  · simp [← result]
  · simp [← result]
  · rw [base, show da'.size = da.size by rw [← result]; rfl, usedIff]
    exact ⟨managed.place_lt fits, fits.free label member⟩
  · simp
  · have member := ((trunk.node above _ (by simp) inside).member label).mpr there
    exact listed label member

end Round

end Taboo.DoubleArray
