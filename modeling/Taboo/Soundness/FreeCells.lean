import Taboo.Soundness.BlockLists

/-! # The free cells

The free cells of a block are linked in a ring that starts at its first free cell, and counted. Taking a
cell out of the ring and giving it back keep this of every block, and leave the cells in use alone.
-/

namespace Taboo.DoubleArray

open Container

/-- The root, and the cells that have a parent. -/
def Used (da : DoubleArray) (e : ℕ) : Prop := e = 0 ∨ 0 ≤ (da.array e).check

instance (da : DoubleArray) (e : ℕ) : Decidable (da.Used e) := inferInstanceAs (Decidable (_ ∨ _))

/-- The links of the free cells are kept negative. -/
def nextFree (da : DoubleArray) (e : ℕ) : ℕ := (-(da.array e).check).toNat
def prevFree (da : DoubleArray) (e : ℕ) : ℕ := (-(da.array e).base).toNat

/-- The free cells of every block, from its first one. -/
structure FreeCells (da : DoubleArray) (free : ℕ → List ℕ) : Prop where
  aligned : da.size % 256 = 0
  room : 0 < da.size
  outside : ∀ e, da.size ≤ e → (da.array e).check < 0
  blank : ∀ e, ¬da.Used e → da.ninfo e = .none
  ring : ∀ bi, Ring da.nextFree da.prevFree (free bi)
  member : ∀ bi e, e ∈ free bi ↔ e / 256 = bi ∧ e < da.size ∧ ¬da.Used e
  linked : ∀ bi, ∀ e ∈ free bi, (da.array e).base < 0
  ehead : ∀ bi e rest, free bi = e :: rest → (da.block bi).ehead = e
  num : ∀ bi, bi < da.size / 256 → (da.block bi).num = (free bi).length + if bi = 0 then 1 else 0
  unused : ∀ bi, da.size / 256 ≤ bi → (da.block bi).num = 256 ∧ (da.block bi).trial = 0

variable {da : DoubleArray} {free : ℕ → List ℕ} {lists : BlockList → List ℕ} {e : ℕ}

theorem not_used_iff : ¬da.Used e ↔ e ≠ 0 ∧ (da.array e).check < 0 := by simp [Used]

namespace FreeCells

/-- Cells in use may be written to, as long as they stay in use. -/
theorem frame (cells : FreeCells da free) {da' : DoubleArray} (size : da'.size = da.size)
    (used : ∀ e, da'.Used e ↔ da.Used e) (array : ∀ e, ¬da.Used e → da'.array e = da.array e)
    (ninfo : ∀ e, ¬da.Used e → da'.ninfo e = da.ninfo e)
    (num : ∀ bi, (da'.block bi).num = (da.block bi).num)
    (ehead : ∀ bi, (da'.block bi).ehead = (da.block bi).ehead)
    (trial : ∀ bi, da.size / 256 ≤ bi → (da'.block bi).trial = (da.block bi).trial) :
    FreeCells da' free := by
  have inside : ∀ bi, ∀ e ∈ free bi, da'.array e = da.array e :=
    fun bi e member => array e ((cells.member bi e).mp member).2.2
  constructor
  case aligned => exact size ▸ cells.aligned
  case room => exact size ▸ cells.room
  case outside =>
    intro e beyond
    have free := cells.outside e (size ▸ beyond)
    have notUsed : ¬da.Used e := by
      have := cells.room
      exact not_used_iff.mpr ⟨by omega, free⟩
    rw [array e notUsed]
    exact free
  case blank => exact fun e notUsed => (ninfo e ((used e).not.mp notUsed)).trans (cells.blank e
    ((used e).not.mp notUsed))
  case ring =>
    intro bi
    refine (cells.ring bi).frame (fun e member => ?_) fun e member => ?_
    · rw [nextFree, inside bi e member, nextFree]
    · rw [prevFree, inside bi e member, prevFree]
  case member => intro bi e; rw [cells.member, size, used]
  case linked => intro bi e member; rw [inside bi e member]; exact cells.linked bi e member
  case ehead => intro bi e rest first; rw [ehead]; exact cells.ehead bi e rest first
  case num => intro bi bound; rw [num]; exact cells.num bi (size ▸ bound)
  case unused => intro bi bound; rw [num, trial bi (size ▸ bound)]; exact cells.unused bi (size ▸ bound)

theorem mem_of_free (cells : FreeCells da free) (bound : e < da.size) (notUsed : ¬da.Used e) :
    e ∈ free (e / 256) := (cells.member _ e).mpr ⟨rfl, bound, notUsed⟩

end FreeCells

section Unlink

variable (da e)

private theorem releaseEnode_fields : (da.releaseEnode e).ninfo = da.ninfo ∧
      (da.releaseEnode e).size = da.size ∧
    (da.releaseEnode e).bhead = da.bhead ∧
    ∀ bi, ((da.releaseEnode e).block bi).next = (da.block bi).next ∧
      ((da.releaseEnode e).block bi).prev = (da.block bi).prev ∧
      ((da.releaseEnode e).block bi).num = (da.block bi).num ∧
      ((da.releaseEnode e).block bi).trial = (da.block bi).trial := by
  simp only [releaseEnode]
  split_ifs <;> simp

theorem unlinkEnode_size : (da.unlinkEnode e).size = da.size := by
  simp only [unlinkEnode]
  split_ifs <;> simp [releaseEnode_fields]

theorem unlinkEnode_ninfo : (da.unlinkEnode e).ninfo = da.ninfo := by
  simp only [unlinkEnode]
  split_ifs <;> simp [releaseEnode_fields]

theorem unlinkEnode_num (bi : ℕ) : ((da.unlinkEnode e).block bi).num =
    if bi = e / 256 then (da.block bi).num - 1 else (da.block bi).num := by
  rcases eq_or_ne bi (e / 256) with rfl | ne <;> simp only [unlinkEnode] <;> split_ifs <;>
    simp [releaseEnode_fields, *]

theorem unlinkEnode_trial (bi : ℕ) : ((da.unlinkEnode e).block bi).trial = (da.block bi).trial := by
  simp only [unlinkEnode]
  split_ifs <;> simp [releaseEnode_fields]

theorem unlinkEnode_ehead_of_ne {bi : ℕ} (ne : bi ≠ e / 256) :
    ((da.unlinkEnode e).block bi).ehead = (da.block bi).ehead := by
  simp only [unlinkEnode, releaseEnode]
  split_ifs <;> simp [ne]

/-- A cell that is not the last one of its block passes its links on. -/
private theorem unlinkEnode_relinked (others : (da.block (e / 256)).num ≠ 1) :
    Relinked ((da.putNum (e / 256) ((da.block (e / 256)).num - 1)).releaseEnode e)
    (da.unlinkEnode e) := by
  have left : ¬(da.block (e / 256)).num - 1 = 0 := by omega
  simp only [unlinkEnode, modifyBlock, putNum, if_true, left, if_false]
  split_ifs
  · exact relinked_transferBlock ..
  · exact .refl _

theorem unlinkEnode_ehead (others : (da.block (e / 256)).num ≠ 1) :
    ((da.unlinkEnode e).block (e / 256)).ehead =
      if (da.block (e / 256)).ehead = e then da.nextFree e else (da.block (e / 256)).ehead := by
  rw [(unlinkEnode_relinked da e others).ehead, releaseEnode]
  by_cases first : (da.block (e / 256)).ehead = e
  · simp [first, nextFree]
  · simp [first, Ne.symm first]

theorem unlinkEnode_array_last (last : (da.block (e / 256)).num = 1) :
    (da.unlinkEnode e).array = da.array := by
  simp only [unlinkEnode, modifyBlock, putNum, if_true, last, sub_self]
  split_ifs <;> simp

theorem unlinkEnode_base (others : (da.block (e / 256)).num ≠ 1) (other : ℕ) :
    ((da.unlinkEnode e).array other).base =
      if other = da.nextFree e then (da.array e).base else (da.array other).base := by
  rw [(unlinkEnode_relinked da e others).array, releaseEnode]
  by_cases here : other = da.nextFree e
  · split_ifs <;> simp [here, nextFree]
  · rw [if_neg here]
    rw [nextFree] at here
    split_ifs <;> simp [here]

theorem unlinkEnode_check (others : (da.block (e / 256)).num ≠ 1) (other : ℕ) :
    ((da.unlinkEnode e).array other).check =
      if other = da.prevFree e then (da.array e).check else (da.array other).check := by
  rw [(unlinkEnode_relinked da e others).array, releaseEnode]
  by_cases here : other = da.prevFree e
  · split_ifs <;> simp [here, prevFree]
  · rw [if_neg here]
    rw [prevFree] at here
    split_ifs <;> simp [here]

end Unlink

namespace FreeCells

variable {bi : ℕ} {n : Node}

theorem block_lt (cells : FreeCells da free) (bound : e < da.size) : e / 256 < da.size / 256 := by
  have := cells.aligned
  omega

/-- One block has got other free cells. -/
theorem replace (cells : FreeCells da free) {da' : DoubleArray} {members : List ℕ}
    (size : da'.size = da.size)
    (allocated : bi < da.size / 256) (array : ∀ e, e / 256 ≠ bi → da'.array e = da.array e)
    (others : ∀ other, other ≠ bi → (da'.block other).num = (da.block other).num ∧
      (da'.block other).ehead = (da.block other).ehead ∧ (da'.block other).trial = (da.block other).trial)
    (blank : ∀ e, ¬da'.Used e → da'.ninfo e = .none) (ring : Ring da'.nextFree da'.prevFree members)
    (member : ∀ e, e ∈ members ↔ e / 256 = bi ∧ e < da.size ∧ ¬da'.Used e)
    (linked : ∀ e ∈ members, (da'.array e).base < 0)
    (ehead : ∀ e rest, members = e :: rest → (da'.block bi).ehead = e)
    (num : (da'.block bi).num = members.length + if bi = 0 then 1 else 0) :
    FreeCells da' (Function.update free bi members) := by
  have aligned := cells.aligned
  have same : ∀ other, other ≠ bi → ∀ e ∈ free other, da'.array e = da.array e := by
    intro other ne e here
    exact array e (((cells.member other e).mp here).1 ▸ ne)
  constructor
  case aligned => exact size ▸ aligned
  case room => exact size ▸ cells.room
  case outside =>
    intro e beyond
    rw [size] at beyond
    rw [array e (by omega)]
    exact cells.outside e beyond
  case blank => exact blank
  case ring =>
    intro other
    rcases eq_or_ne other bi with rfl | ne
    · rwa [Function.update_self]
    · rw [Function.update_of_ne ne]
      refine (cells.ring other).frame (fun e here => ?_) fun e here => ?_
      · rw [nextFree, same other ne e here, nextFree]
      · rw [prevFree, same other ne e here, prevFree]
  case member =>
    intro other e
    rw [size]
    rcases eq_or_ne other bi with rfl | ne
    · rw [Function.update_self, member]
    · rw [Function.update_of_ne ne, cells.member]
      refine and_congr_right fun block => ?_
      rw [Used, Used, array e (block ▸ ne)]
  case linked =>
    intro other e here
    rcases eq_or_ne other bi with rfl | ne
    · rw [Function.update_self] at here
      exact linked e here
    · rw [Function.update_of_ne ne] at here
      rw [same other ne e here]
      exact cells.linked other e here
  case ehead =>
    intro other e rest shape
    rcases eq_or_ne other bi with rfl | ne
    · rw [Function.update_self] at shape
      exact ehead e rest shape
    · rw [Function.update_of_ne ne] at shape
      rw [(others other ne).2.1]
      exact cells.ehead other e rest shape
  case num =>
    intro other bound
    rcases eq_or_ne other bi with rfl | ne
    · rw [Function.update_self, num]
    · rw [Function.update_of_ne ne, (others other ne).1]
      exact cells.num other (size ▸ bound)
  case unused =>
    intro other bound
    rw [size] at bound
    have ne : other ≠ bi := by omega
    rw [(others other ne).1, (others other ne).2.2]
    exact cells.unused other bound

section Take

private theorem alone (cells : FreeCells da free) (there : e ∈ free (e / 256))
    (last : (da.block (e / 256)).num = 1) :
    free (e / 256) = [e] := by
  have count := cells.num _ (cells.block_lt ((cells.member _ e).mp there).2.1)
  have positive := List.length_pos_of_mem there
  obtain ⟨only, shape⟩ :=
    List.length_eq_one_iff.mp (show (free (e / 256)).length = 1 by split_ifs at count <;> omega)
  rw [shape] at there ⊢
  rw [List.mem_singleton.mp there]

/-- The neighbours of a cell that leaves are linked to each other. -/
private theorem unlinked (cells : FreeCells da free) (there : e ∈ free (e / 256)) {other : ℕ}
    (ne : other ≠ e) :
    (da.unlinkEnode e).array other =
      ⟨if other = da.nextFree e then (da.array e).base else (da.array other).base,
        if other = da.prevFree e then (da.array e).check else (da.array other).check⟩ := by
  have ring := cells.ring (e / 256)
  by_cases last : (da.block (e / 256)).num = 1
  · have next : da.nextFree e = e := (ring.next_eq_self_iff there).mpr (cells.alone there last)
    have prev : da.prevFree e = e := (next ▸ ring.prev_next there :)
    simp [unlinkEnode_array_last da e last, next, prev, ne]
  · refine Node.ext ?_ ?_
    · simp [unlinkEnode_base da e last]
    · simp [unlinkEnode_check da e last]

theorem array_unlinkEnode (cells : FreeCells da free) (there : e ∈ free (e / 256)) {other : ℕ}
    (used : da.Used other) :
    (da.unlinkEnode e).array other = da.array other := by
  have ring := cells.ring (e / 256)
  have apart : ∀ own ∈ free (e / 256), other ≠ own := by
    rintro own here rfl
    exact ((cells.member _ _).mp here).2.2 used
  rw [cells.unlinked there (apart e there), if_neg (apart _ (ring.next_mem there)),
    if_neg (apart _ (ring.prev_mem there))]

theorem used_take (cells : FreeCells da free) (there : e ∈ free (e / 256)) (used : 0 ≤ n.check)
    (other : ℕ) :
    ((da.unlinkEnode e).putNode e n).Used other ↔ da.Used other ∨ other = e := by
  have free' := fun other (here : other ∈ free (e / 256)) =>
    not_used_iff.mp ((cells.member _ other).mp here).2.2
  rcases eq_or_ne other e with rfl | ne
  · simp [Used, used]
  · have same : ((da.unlinkEnode e).putNode e n).array other = (da.unlinkEnode e).array other := by
      simp [ne]
    have check : ((da.unlinkEnode e).array other).check =
        if other = da.prevFree e then (da.array e).check else (da.array other).check := by
      rw [cells.unlinked there ne]
    rw [Used, same, check, Used]
    split_ifs with previous
    · have own := (free' e there).2
      have others := free' other (previous ▸ (cells.ring (e / 256)).prev_mem there)
      simp only [others.1, ne, false_or, or_false]
      omega
    · simp [ne]

/-- A cell leaves its ring for use. -/
theorem take (cells : FreeCells da free) (there : e ∈ free (e / 256)) (used : 0 ≤ n.check) :
    FreeCells ((da.unlinkEnode e).putNode e n)
    (Function.update free (e / 256) ((free (e / 256)).erase e)) := by
  obtain ⟨-, bound, notUsed⟩ := (cells.member _ e).mp there
  have allocated := cells.block_lt bound
  have ring := cells.ring (e / 256)
  have inside := ring.next_mem there
  have inside' := ring.prev_mem there
  have count := cells.num _ allocated
  have positive := List.length_pos_of_mem there
  have array : ∀ other, other ≠ e → ((da.unlinkEnode e).putNode e n).array other = _ := fun other ne =>
    (by simp [ne] : ((da.unlinkEnode e).putNode e n).array other = _).trans (cells.unlinked there ne)
  refine cells.replace (unlinkEnode_size da e) allocated (fun other ne => ?_) (fun bi ne => ?_)
    (fun other unused => ?_)
    ?_ (fun other => ?_) (fun other member => ?_) (fun first rest shape => ?_) ?_
  · have apart : ∀ own ∈ free (e / 256), other ≠ own := by
      rintro own here rfl
      exact ne ((cells.member _ _).mp here).1
    rw [array other (apart e there), if_neg (apart _ inside), if_neg (apart _ inside')]
  · simp [unlinkEnode_num, unlinkEnode_trial, unlinkEnode_ehead_of_ne, ne]
  · rw [cells.used_take there used, not_or] at unused
    simpa [unlinkEnode_ninfo] using cells.blank other unused.1
  · by_cases sole : free (e / 256) = [e]
    · simp [sole, Ring.nil]
    · refine ring.erase there sole (fun other _ ne => ?_) fun other _ ne => ?_
      · rw [nextFree, array other ne]
        simp only [nextFree]
        split_ifs <;> rfl
      · rw [prevFree, array other ne]
        simp only [prevFree]
        split_ifs <;> rfl
  · rw [cells.used_take there used, not_or, ring.nodup.mem_erase_iff, cells.member]
    tauto
  · obtain ⟨ne, within⟩ := ring.nodup.mem_erase_iff.mp member
    rw [array other ne]
    dsimp only
    split_ifs
    · exact cells.linked _ e there
    · exact cells.linked _ other within
  · have others : (da.block (e / 256)).num ≠ 1 := by
      intro last
      simp [cells.alone there last] at shape
    have now : (((da.unlinkEnode e).putNode e n).block (e / 256)).ehead =
        if (da.block (e / 256)).ehead = e then da.nextFree e else (da.block (e / 256)).ehead :=
      unlinkEnode_ehead da e others
    cases members : free (e / 256) with
    | nil => simp [members] at there
    | cons head more =>
      rw [now, cells.ehead _ head more members]
      rw [members] at shape ring
      by_cases here : head = e
      · subst here
        rw [List.erase_cons_head] at shape
        rw [shape] at ring
        rw [if_pos rfl, ring.next_head]
      · rw [List.erase_cons_tail (by simpa using here)] at shape
        rw [if_neg here]
        exact (List.cons.inj shape).1
  · simp only [modifyNode, putNode, unlinkEnode_num, if_true, List.length_erase_of_mem there]
    omega

end Take

end FreeCells

/-- Taking the last cell of a block makes it full, taking the last but one closes it. -/
theorem Filed.unlinkEnode (filed : Filed da lists) (allocated : e / 256 < da.size / 256)
    (num : 1 ≤ (da.block (e / 256)).num) : ∃ lists', Filed (da.unlinkEnode e) lists' := by
  have limit := filed.trials (e / 256)
  have counted : Filed.Rewritten da (da.putNum (e / 256) ((da.block (e / 256)).num - 1)) (e / 256) := by
    constructor <;> simp +contextual [limit]
  have released : Filed.Rewritten da
      ((da.putNum (e / 256) ((da.block (e / 256)).num - 1)).releaseEnode e) (e / 256) := by
    constructor <;> simp +contextual [releaseEnode_fields, limit]
  have left : (((da.putNum (e / 256) ((da.block (e / 256)).num - 1)).releaseEnode e).block
    (e / 256)).num =
      (da.block (e / 256)).num - 1 := by simp [releaseEnode_fields]
  have tried : (((da.putNum (e / 256) ((da.block (e / 256)).num - 1)).releaseEnode e).block
    (e / 256)).trial =
      (da.block (e / 256)).trial := by simp [releaseEnode_fields]
  simp only [DoubleArray.unlinkEnode, left, tried]
  split_ifs with last inner transfers
  · refine ⟨_, filed.transfer counted inner allocated ?_ ?_ (by decide)⟩
    · have one : (da.block (e / 256)).num = 1 := by
        simp only [modifyBlock, putNum, if_true] at last
        omega
      simp [belongs, inner, one]
    · simp only [belongs, last, or_true, if_true]
  · refine ⟨_, filed.keep _ counted ?_⟩
    simp [belongs, not_not.mp inner]
  · obtain ⟨inner, one, untried⟩ := transfers
    refine ⟨_, filed.transfer released inner allocated ?_ ?_ (by decide)⟩
    · have two : (da.block (e / 256)).num = 2 := by omega
      simp [belongs, inner, two, untried]
    · rw [belongs, left, one]
      simp [inner]
  · refine ⟨_, filed.keep _ released ?_⟩
    simp only [modifyBlock, putNum, if_true] at last
    rw [belongs, belongs, left, tried]
    by_cases inner : e / 256 = 0
    · simp [inner]
    · have several : (da.block (e / 256)).num ≠ 1 := by omega
      have some : (da.block (e / 256)).num ≠ 0 := by omega
      by_cases tries : (da.block (e / 256)).trial = maxTrial
      · simp [inner, last, some, tries]
      · have more : (da.block (e / 256)).num - 1 ≠ 1 := fun one => transfers ⟨inner, one, tries⟩
        simp [inner, last, some, tries, several, more]

section Push

variable (da e)

private theorem linkEnode_fields : (da.linkEnode e).ninfo = da.ninfo ∧ (da.linkEnode e).size = da.size ∧
    (da.linkEnode e).bhead = da.bhead ∧ (da.linkEnode e).block = da.block := ⟨rfl, rfl, rfl, rfl⟩

private theorem raiseReject_fields (bi : ℕ) : (da.raiseReject bi).array = da.array ∧
    (da.raiseReject bi).ninfo = da.ninfo ∧ (da.raiseReject bi).size = da.size ∧
    (da.raiseReject bi).bhead = da.bhead ∧
    ∀ other, ((da.raiseReject bi).block other).next = (da.block other).next ∧
      ((da.raiseReject bi).block other).prev = (da.block other).prev ∧
      ((da.raiseReject bi).block other).num = (da.block other).num ∧
      ((da.raiseReject bi).block other).trial = (da.block other).trial ∧
      ((da.raiseReject bi).block other).ehead = (da.block other).ehead := by
  simp only [raiseReject]
  split_ifs <;> simp

private theorem joinEnode_fields : (da.joinEnode e).ninfo = da.ninfo ∧ (da.joinEnode e).size = da.size ∧
    ∀ bi, ((da.joinEnode e).block bi).num = (da.block bi).num := by
  simp only [joinEnode]
  split_ifs <;> simp [linkEnode_fields]

theorem pushEnode_size : (da.pushEnode e).size = da.size := by
  simp [pushEnode, raiseReject_fields, joinEnode_fields]

theorem pushEnode_ninfo (other : ℕ) :
    (da.pushEnode e).ninfo other = if other = e then .none else da.ninfo other := by
  simp [pushEnode, raiseReject_fields, joinEnode_fields]

theorem pushEnode_num (bi : ℕ) : ((da.pushEnode e).block bi).num =
    if bi = e / 256 then (da.block bi).num + 1 else (da.block bi).num := by
  rcases eq_or_ne bi (e / 256) with rfl | ne
  · simp [pushEnode, raiseReject_fields, joinEnode_fields]
  · simp [pushEnode, raiseReject_fields, joinEnode_fields, ne]

theorem pushEnode_of_ne {bi : ℕ} (ne : bi ≠ e / 256) :
    ((da.pushEnode e).block bi).trial = (da.block bi).trial ∧
      ((da.pushEnode e).block bi).ehead = (da.block bi).ehead := by
  simp only [pushEnode, raiseReject_fields, putNInfo, modifyNInfo, joinEnode]
  split_ifs <;> simp [ne, linkEnode_fields]

theorem pushEnode_ehead : ((da.pushEnode e).block (e / 256)).ehead =
    if (da.block (e / 256)).num = 0 then e else (da.block (e / 256)).ehead := by
  simp only [pushEnode, raiseReject_fields, putNInfo, modifyNInfo, joinEnode, putNum, modifyBlock,
    if_true, add_eq_right]
  split_ifs <;> simp [linkEnode_fields]

theorem pushEnode_array_first (first : (da.block (e / 256)).num = 0) (other : ℕ) :
    (da.pushEnode e).array other = if other = e then ⟨-(e : ℤ), -(e : ℤ)⟩ else da.array other := by
  simp only [pushEnode, raiseReject_fields, putNInfo, modifyNInfo, joinEnode, putNum, modifyBlock,
    if_true, first, zero_add]
  split_ifs <;> simp [*]

theorem pushEnode_array (more : (da.block (e / 256)).num ≠ 0) :
    (da.pushEnode e).array = (da.linkEnode e).array := by
  simp only [pushEnode, raiseReject_fields, putNInfo, modifyNInfo, joinEnode, putNum, modifyBlock,
    if_true, add_eq_right, more, if_false]
  split_ifs <;> simp [linkEnode]

theorem pushEnode_base (more : (da.block (e / 256)).num ≠ 0) (other : ℕ) :
    ((da.pushEnode e).array other).base =
      if other = da.nextFree (da.block (e / 256)).ehead then -(e : ℤ)
      else if other = e then -((da.block (e / 256)).ehead : ℤ) else (da.array other).base := by
  rw [pushEnode_array da e more]
  simp only [linkEnode, nextFree, putBase, putCheck, putNode, modifyNode, base_ite, ite_self]
  rfl

theorem pushEnode_check (more : (da.block (e / 256)).num ≠ 0) (other : ℕ) :
    ((da.pushEnode e).array other).check =
      if other = (da.block (e / 256)).ehead then -(e : ℤ)
      else if other = e then -(da.nextFree (da.block (e / 256)).ehead : ℤ) else
        (da.array other).check := by
  rw [pushEnode_array da e more]
  simp only [linkEnode, nextFree, putBase, putCheck, putNode, modifyNode, check_ite, ite_self]

end Push

/-- The first free cell of a full block closes it, the second one, or the next one after a lost trial,
opens it. -/
theorem Filed.pushEnode (filed : Filed da lists) (allocated : e / 256 < da.size / 256)
    (inner : e / 256 ≠ 0)
    (num : 0 ≤ (da.block (e / 256)).num) : ∃ lists', Filed (da.pushEnode e) lists' := by
  have limit := filed.trials (e / 256)
  suffices joined : ∃ lists', Filed ((da.putNum (e / 256) ((da.block (e / 256)).num + 1)).joinEnode
    e) lists' by
    rw [DoubleArray.pushEnode]
    generalize (da.putNum (e / 256) ((da.block (e / 256)).num + 1)).joinEnode e = da' at joined ⊢
    obtain ⟨lists', joined⟩ := joined
    refine ⟨lists', joined.keep (e / 256) ?_ ?_⟩
    · constructor <;> simp [raiseReject_fields, joined.trials]
    · simp [raiseReject_fields, belongs]
  simp only [joinEnode, putNum, modifyBlock, if_true, linkEnode_fields]
  split_ifs with first transfers
  · refine ⟨_, filed.transfer ?_ inner allocated ?_ ?_ (by decide)⟩
    · constructor <;> simp +contextual [limit]
    · have none : (da.block (e / 256)).num = 0 := by omega
      simp [belongs, none]
    · simp [belongs, first, inner]
  · have some : (da.block (e / 256)).num ≠ 0 := by omega
    have more : (da.block (e / 256)).num + 1 ≠ 0 := by omega
    refine ⟨_, filed.transfer_between
      ((da.putNum (e / 256) ((da.block (e / 256)).num + 1)).linkEnode e) .closed .opened ?_ inner
        allocated ?_ ?_ ?_ ?_
      (by decide)⟩
    · constructor <;> simp +contextual [linkEnode_fields, limit]
    · have closes : (da.block (e / 256)).num = 1 ∨ (da.block (e / 256)).trial = maxTrial :=
        transfers.1.imp_left fun two => by omega
      simp [belongs, inner, some, closes]
    · constructor <;> simp +contextual
    · simp [linkEnode_fields]
    · simp [belongs, linkEnode_fields, inner, more, first, maxTrial]
  · have some : (da.block (e / 256)).num ≠ 0 := by omega
    have more : (da.block (e / 256)).num + 1 ≠ 0 := by omega
    have several : (da.block (e / 256)).num ≠ 1 := fun one => transfers ⟨Or.inl (by omega), inner⟩
    have untried : (da.block (e / 256)).trial ≠ maxTrial := fun tried => transfers ⟨Or.inr tried, inner⟩
    refine ⟨_, filed.keep (e / 256) ?_ ?_⟩
    · constructor <;> simp +contextual [linkEnode_fields]
    · have untried : ¬(da.block (e / 256)).trial = 1 := untried
      simp [belongs, linkEnode_fields, inner, more, first, some, several, untried, maxTrial]

namespace FreeCells

/-- The free cells of a block after it has got one back. -/
def joined (e : ℕ) : List ℕ → List ℕ
  | [] => [e]
  | head :: rest => head :: e :: rest

theorem mem_joined {members : List ℕ} {other : ℕ} : other ∈ joined e members ↔ other = e ∨
      other ∈ members := by
  cases members <;> simp [joined, or_left_comm]

/-- What the pushed cell and its neighbours hold. -/
private theorem pushed (cells : FreeCells da free) (used : da.Used e) (bound : e < da.size)
    (inner : e / 256 ≠ 0) :
    (∀ other, other ≠ e → other ∉ free (e / 256) → (da.pushEnode e).array other = da.array other) ∧
    (∀ other ∈ joined e (free (e / 256)),
      ((da.pushEnode e).array other).check < 0 ∧ ((da.pushEnode e).array other).base < 0) ∧
    Ring (da.pushEnode e).nextFree (da.pushEnode e).prevFree (joined e (free (e / 256))) ∧
    ∀ head rest, joined e (free (e / 256)) = head :: rest →
      ((da.pushEnode e).block (e / 256)).ehead = head := by
  have ring := cells.ring (e / 256)
  have count := cells.num _ (cells.block_lt bound)
  rw [if_neg inner, add_zero] at count
  have positive : (0 : ℤ) < e := by omega
  have inside := fun other (here : other ∈ free (e / 256)) => (cells.member _ other).mp here
  have linked := cells.linked (e / 256)
  cases members : free (e / 256) with
  | nil =>
    have none : (da.block (e / 256)).num = 0 := by simp [count, members]
    have array := pushEnode_array_first da e none
    refine ⟨fun other ne _ => by rw [array, if_neg ne], ?_, ?_, ?_⟩
    · intro other here
      obtain rfl := List.mem_singleton.mp here
      rw [array, if_pos rfl]
      simpa using positive
    · exact Ring.singleton (by simp [nextFree, array]) (by simp [prevFree, array])
    · intro head rest shape
      rw [pushEnode_ehead, if_pos none]
      exact (List.cons.inj shape).1
  | cons head rest =>
    have some : (da.block (e / 256)).num ≠ 0 := by
      simp only [count, members, List.length_cons]
      omega
    have first := cells.ehead _ head rest members
    have base := pushEnode_base da e some
    have check := pushEnode_check da e some
    rw [first] at base check
    rw [members] at ring inside linked
    have following := ring.next_mem List.mem_cons_self
    have apart : ∀ other ∈ head :: rest, other ≠ e ∧ (0 : ℤ) < other := by
      intro other here
      obtain ⟨-, -, free⟩ := inside other here
      have nonzero := (not_used_iff.mp free).1
      exact ⟨fun same => free (same ▸ used), by omega⟩
    refine ⟨fun other ne outside => ?_, fun other here => ?_, ?_, ?_⟩
    · refine Node.ext ?_ ?_
      · rw [base, if_neg (by rintro rfl; exact outside following), if_neg ne]
      · rw [check, if_neg (by rintro rfl; exact outside List.mem_cons_self), if_neg ne]
    · rw [base, check]
      have behind := (apart _ following).2
      have front := (apart head List.mem_cons_self).2
      rcases mem_joined.mp here with rfl | here
      · split_ifs <;> constructor <;> omega
      · have own := linked other here
        have negative := (not_used_iff.mp (inside other here).2.2).2
        split_ifs <;> constructor <;> omega
    · have rotated : Ring da.nextFree da.prevFree (rest ++ [head]) :=
        Ring.rotate (show Ring da.nextFree da.prevFree ([head] ++ rest) from ring)
      obtain ⟨second, more, shape⟩ : ∃ second more, rest ++ [head] = second :: more :=
        List.exists_cons_of_ne_nil (by simp)
      have onward : da.nextFree head = second := by
        cases rest with
        | nil =>
          rw [← (List.cons.inj shape).1]
          exact (ring.next_eq_self_iff List.mem_cons_self).mpr rfl
        | cons next rest =>
          rw [← (List.cons.inj shape).1]
          exact ring.next_head
      have back : da.prevFree second = head := onward ▸ ring.prev_next List.mem_cons_self
      have same : ∀ other, other ∈ second :: more ↔ other ∈ head :: rest := by simp [← shape, or_comm]
      rw [onward] at base check following
      have notHead := (apart head List.mem_cons_self).1.symm
      have notSecond := (apart second following).1.symm
      rw [shape] at rotated
      have entered : Ring (da.pushEnode e).nextFree (da.pushEnode e).prevFree (e :: second :: more) := by
        refine rotated.cons (fun here => (apart e ((same e).mp here)).1 rfl) ?_ ?_ (fun other here => ?_)
          fun other here => ?_
        · simp [nextFree, check, notHead]
        · rw [back]
          simp [prevFree, base, notSecond]
        · have own := (apart other ((same other).mp here)).1
          rw [nextFree, check, back, if_neg own]
          split_ifs <;> simp [nextFree]
        · have own := (apart other ((same other).mp here)).1
          rw [prevFree, base, if_neg own]
          split_ifs <;> simp [prevFree]
      rw [← shape] at entered
      exact Ring.rotate (show Ring (da.pushEnode e).nextFree (da.pushEnode e).prevFree
        ((e :: rest) ++ [head])
        from entered)
    · intro other more shape
      rw [pushEnode_ehead, if_neg some, first]
      exact (List.cons.inj shape).1

theorem array_pushEnode (cells : FreeCells da free) (used : da.Used e) (bound : e < da.size)
    (inner : e / 256 ≠ 0)
    {other : ℕ} (ne : other ≠ e) (also : da.Used other) : (da.pushEnode e).array other = da.array other :=
  (cells.pushed used bound inner).1 other ne fun inside => ((cells.member _ _).mp inside).2.2 also

theorem used_give (cells : FreeCells da free) (used : da.Used e) (bound : e < da.size)
    (inner : e / 256 ≠ 0)
    (other : ℕ) : (da.pushEnode e).Used other ↔ da.Used other ∧ other ≠ e := by
  obtain ⟨array, negative, -, -⟩ := cells.pushed used bound inner
  by_cases here : other ∈ joined e (free (e / 256))
  · have below := (negative other here).1
    rcases mem_joined.mp here with rfl | inside
    · exact iff_of_false (not_used_iff.mpr ⟨by omega, below⟩) fun both => both.2 rfl
    · obtain ⟨-, -, unused⟩ := (cells.member _ _).mp inside
      exact iff_of_false (not_used_iff.mpr ⟨(not_used_iff.mp unused).1, below⟩) fun both => unused both.1
  · obtain ⟨ne, outside⟩ := not_or.mp (mem_joined.not.mp here)
    rw [Used, array other ne outside, Used]
    simp [ne]

/-- A cell in use goes back into the ring of its block. -/
theorem give (cells : FreeCells da free) (used : da.Used e) (bound : e < da.size) (inner : e / 256 ≠ 0) :
    FreeCells (da.pushEnode e) (Function.update free (e / 256) (joined e (free (e / 256)))) := by
  have count := cells.num _ (cells.block_lt bound)
  obtain ⟨array, negative, ring, ehead⟩ := cells.pushed used bound inner
  have usedIff := cells.used_give used bound inner
  refine cells.replace (pushEnode_size da e) (cells.block_lt bound) (fun other ne => ?_) (fun bi ne => ?_)
    (fun other unused => ?_) ring (fun other => ?_)
      (fun other member => (negative other member).2) ehead ?_
  · refine array other ?_ fun inside => ne ((cells.member _ _).mp inside).1
    rintro rfl
    exact ne rfl
  · simp [pushEnode_num, pushEnode_of_ne, ne]
  · rw [pushEnode_ninfo]
    split_ifs with here
    · rfl
    · exact cells.blank other fun used => unused ((usedIff other).mpr ⟨used, here⟩)
  · rw [mem_joined, usedIff, cells.member]
    rcases eq_or_ne other e with rfl | ne
    · simp [bound]
    · simp [ne]
  · rw [pushEnode_num, if_pos rfl, count, if_neg inner]
    cases members : free (e / 256) <;> simp [joined]

end FreeCells

/-! ### New blocks -/

section Add

variable (da)

theorem addBlock_size : da.addBlock.1.size = da.size + 256 := by
  simp [addBlock, (relinked_pushBlock ..).size]

theorem addBlock_ninfo : da.addBlock.1.ninfo = da.ninfo := by
  simp [addBlock, (relinked_pushBlock ..).ninfo]

theorem addBlock_array (i : ℕ) : da.addBlock.1.array i =
    if da.size ≤ i ∧ i < da.size + 256 then freeNode da.size i else da.array i := by
  simp [addBlock, (relinked_pushBlock ..).array]

theorem addBlock_num (bi : ℕ) : (da.addBlock.1.block bi).num = (da.block bi).num := by
  simp [addBlock, (relinked_pushBlock ..).num]

theorem addBlock_trial (bi : ℕ) : (da.addBlock.1.block bi).trial = (da.block bi).trial := by
  simp [addBlock, (relinked_pushBlock ..).trial]

theorem addBlock_ehead (bi : ℕ) : (da.addBlock.1.block bi).ehead =
    if bi = da.size / 256 then da.size else (da.block bi).ehead := by
  simp [addBlock, (relinked_pushBlock ..).ehead]

theorem addBlock_place (aligned : da.size % 256 = 0) : da.addBlock.2 * 256 = da.size := by
  have position : da.addBlock.2 = (da.size + 256) / 256 - 1 := by
    simp [addBlock, (relinked_pushBlock ..).size]
  omega

end Add

theorem FreeCells.fresh (cells : FreeCells da free) {i : ℕ} (first : da.size ≤ i)
    (last : i < da.size + 256) :
    ¬da.Used i ∧ ¬da.addBlock.1.Used i := by
  have before := cells.outside i first
  have room := cells.room
  refine ⟨not_used_iff.mpr ⟨by omega, before⟩, not_used_iff.mpr ⟨by omega, ?_⟩⟩
  rw [addBlock_array, if_pos ⟨first, last⟩]
  simp only [freeNode]
  split_ifs <;> omega

theorem FreeCells.used_addBlock (cells : FreeCells da free) (i : ℕ) : da.addBlock.1.Used i ↔
      da.Used i := by
  by_cases new : da.size ≤ i ∧ i < da.size + 256
  · exact iff_of_false (cells.fresh new.1 new.2).2 (cells.fresh new.1 new.2).1
  · rw [Used, addBlock_array, if_neg new, Used]

theorem FreeCells.add (cells : FreeCells da free) : FreeCells da.addBlock.1
    (Function.update free (da.size / 256) (List.range' da.size 256)) := by
  have aligned := cells.aligned
  have room := cells.room
  have array := addBlock_array da
  have outer : da.size / 256 ≠ 0 := by omega
  have before : ∀ bi, bi ≠ da.size / 256 → ∀ e ∈ free bi, da.addBlock.1.array e = da.array e := by
    intro bi _ e here
    have bound := ((cells.member bi e).mp here).2.1
    rw [array, if_neg (by omega)]
  constructor
  case aligned =>
    rw [addBlock_size]
    omega
  case room =>
    rw [addBlock_size]
    omega
  case outside =>
    intro e beyond
    rw [addBlock_size] at beyond
    rw [array, if_neg (by omega)]
    exact cells.outside e (by omega)
  case blank =>
    intro e unused
    rw [addBlock_ninfo]
    exact cells.blank e ((cells.used_addBlock e).not.mp unused)
  case ring =>
    intro bi
    rcases eq_or_ne bi (da.size / 256) with rfl | ne
    · rw [Function.update_self]
      refine Ring.interval (fun i first last => ?_) (fun i first last => ?_) ?_ ?_
      · rw [nextFree, array, if_pos ⟨first, by omega⟩]
        simp only [freeNode, if_neg (by omega : ¬i = da.size + 255)]
        omega
      · rw [prevFree, array, if_pos ⟨by omega, by omega⟩]
        simp only [freeNode, if_neg (by omega : ¬i = da.size)]
        omega
      · rw [nextFree, array, if_pos ⟨by omega, by omega⟩]
        simp [freeNode]
      · rw [prevFree, array, if_pos ⟨by omega, by omega⟩]
        simp [freeNode]
        omega
    · rw [Function.update_of_ne ne]
      refine (cells.ring bi).frame (fun e here => ?_) fun e here => ?_
      · rw [nextFree, before bi ne e here, nextFree]
      · rw [prevFree, before bi ne e here, prevFree]
  case member =>
    intro bi e
    rw [addBlock_size, cells.used_addBlock]
    rcases eq_or_ne bi (da.size / 256) with rfl | ne
    · rw [Function.update_self, List.mem_range'_1]
      constructor
      · rintro ⟨first, last⟩
        exact ⟨by omega, last, (cells.fresh first last).1⟩
      · rintro ⟨block, last, -⟩
        omega
    · rw [Function.update_of_ne ne, cells.member]
      refine and_congr_right fun block => and_congr_left fun _ => ?_
      omega
  case linked =>
    intro bi e here
    rcases eq_or_ne bi (da.size / 256) with rfl | ne
    · rw [Function.update_self, List.mem_range'_1] at here
      rw [array, if_pos here]
      simp only [freeNode]
      split_ifs <;> omega
    · rw [Function.update_of_ne ne] at here
      rw [before bi ne e here]
      exact cells.linked bi e here
  case ehead =>
    intro bi e rest shape
    rw [addBlock_ehead]
    rcases eq_or_ne bi (da.size / 256) with rfl | ne
    · rw [Function.update_self, List.range'_succ] at shape
      rw [if_pos rfl]
      exact (List.cons.inj shape).1
    · rw [Function.update_of_ne ne] at shape
      rw [if_neg ne]
      exact cells.ehead bi e rest shape
  case num =>
    intro bi bound
    rw [addBlock_size] at bound
    rw [addBlock_num]
    rcases eq_or_ne bi (da.size / 256) with rfl | ne
    · rw [Function.update_self, if_neg outer, (cells.unused _ le_rfl).1]
      simp
    · rw [Function.update_of_ne ne]
      exact cells.num bi (by omega)
  case unused =>
    intro bi bound
    rw [addBlock_size] at bound
    rw [addBlock_num, addBlock_trial]
    exact cells.unused bi (by omega)

theorem Filed.add (filed : Filed da lists) (cells : FreeCells da free) :
    Filed da.addBlock.1 (Function.update lists .opened (da.size / 256 :: lists .opened)) := by
  have absent : ∀ list, da.size / 256 ∉ lists list := by
    intro list here
    exact absurd ((filed.member list _).mp here).1 (lt_irrefl _)
  have empty : da.bhead .opened = 0 ↔ lists .opened = [] := filed.head_eq_zero_iff (by decide)
  have framed : Threaded { da.putEhead (da.size / 256) da.size with
      array := fun i => if da.size ≤ i ∧ i < da.size + 256 then freeNode da.size i else da.array i }
        lists :=
    filed.toThreaded.frame rfl (by simp) (by simp)
  have outer : da.size / 256 ≠ 0 := by
    have := cells.aligned
    have := cells.room
    omega
  obtain ⟨num, trial⟩ := cells.unused _ le_rfl
  refine ⟨(framed.pushBlock absent (decide_eq_true_iff.trans empty)).frame rfl
    (fun _ => rfl) fun _ => rfl, fun list bi => ?_, fun bi => ?_⟩
  · have same : belongs bi (da.addBlock.1.block bi) = belongs bi (da.block bi) := by
      simp only [belongs, addBlock_num, addBlock_trial]
    rw [addBlock_size, same]
    rcases eq_or_ne bi (da.size / 256) with rfl | ne
    · have opens : belongs (da.size / 256) (da.block (da.size / 256)) = .opened := by
        simp [belongs, outer, num, trial, maxTrial]
      rw [opens]
      rcases eq_or_ne list .opened with rfl | other
      · simp
      · simp [other, other.symm, absent]
    · have bound : bi < (da.size + 256) / 256 ↔ bi < da.size / 256 := by omega
      rw [bound, ← filed.member]
      rcases eq_or_ne list .opened with rfl | other
      · simp [ne]
      · simp [other]
  · rw [addBlock_trial]
    exact filed.trials bi

end Taboo.DoubleArray
