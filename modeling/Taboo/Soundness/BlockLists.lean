import Taboo.Container.Ring
import Taboo.Model.DoubleArray

/-! # The lists of blocks

Every allocated block is on one of three circular lists, after the number of its free cells and the
trials it has lost. Taking a cell, giving it back, a lost trial and a new block keep each block where
its numbers say.
-/

namespace Taboo.DoubleArray

open Container

/-- Only the links between the blocks, and the heads of their lists, differ. -/
structure Relinked (da da' : DoubleArray) : Prop where
  array : da'.array = da.array
  ninfo : da'.ninfo = da.ninfo
  size : da'.size = da.size
  rejects : da'.reject = da.reject
  num : ∀ bi, (da'.block bi).num = (da.block bi).num
  reject : ∀ bi, (da'.block bi).reject = (da.block bi).reject
  trial : ∀ bi, (da'.block bi).trial = (da.block bi).trial
  ehead : ∀ bi, (da'.block bi).ehead = (da.block bi).ehead

theorem Relinked.refl (da : DoubleArray) : Relinked da da := by constructor <;> intros <;> rfl

theorem Relinked.trans {first second third : DoubleArray} (one : Relinked first second)
    (two : Relinked second third) : Relinked first third where
  array := two.array.trans one.array
  ninfo := two.ninfo.trans one.ninfo
  size := two.size.trans one.size
  rejects := two.rejects.trans one.rejects
  num bi := (two.num bi).trans (one.num bi)
  reject bi := (two.reject bi).trans (one.reject bi)
  trial bi := (two.trial bi).trans (one.trial bi)
  ehead bi := (two.ehead bi).trans (one.ehead bi)

variable {da : DoubleArray} {bi : ℕ}

theorem relinked_popBlock (da : DoubleArray) (bi : ℕ) (list : BlockList) (last : Bool) :
    Relinked da (da.popBlock bi list last) := by
  constructor <;> simp only [popBlock] <;> split_ifs <;> simp

theorem relinked_pushBlock (da : DoubleArray) (bi : ℕ) (list : BlockList) (empty : Bool) :
    Relinked da (da.pushBlock bi list empty) := by
  constructor <;> simp only [pushBlock] <;> split_ifs <;> simp

theorem relinked_transferBlock (da : DoubleArray) (bi : ℕ) (listIn listOut : BlockList) :
    Relinked da (da.transferBlock bi listIn listOut) :=
  (relinked_popBlock ..).trans (relinked_pushBlock ..)

section Transfer

variable (da bi) (listIn listOut : BlockList)

@[simp] theorem transferBlock_array : (da.transferBlock bi listIn listOut).array = da.array :=
  (relinked_transferBlock ..).array

@[simp] theorem transferBlock_ninfo : (da.transferBlock bi listIn listOut).ninfo = da.ninfo :=
  (relinked_transferBlock ..).ninfo

@[simp] theorem transferBlock_size : (da.transferBlock bi listIn listOut).size = da.size :=
  (relinked_transferBlock ..).size

@[simp] theorem transferBlock_rejects : (da.transferBlock bi listIn listOut).reject = da.reject :=
  (relinked_transferBlock ..).rejects

@[simp] theorem transferBlock_num (other : ℕ) :
    ((da.transferBlock bi listIn listOut).block other).num = (da.block other).num :=
  (relinked_transferBlock ..).num other

@[simp] theorem transferBlock_trial (other : ℕ) :
    ((da.transferBlock bi listIn listOut).block other).trial = (da.block other).trial :=
  (relinked_transferBlock ..).trial other

@[simp] theorem transferBlock_ehead (other : ℕ) :
    ((da.transferBlock bi listIn listOut).block other).ehead = (da.block other).ehead :=
  (relinked_transferBlock ..).ehead other

end Transfer

section Links

variable (da bi) (list : BlockList) (other : ℕ)

private theorem popBlock_next : ((da.popBlock bi list false).block other).next =
    if other = (da.block bi).prev then (da.block bi).next else (da.block other).next := by
  by_cases first : bi = da.bhead list <;> simp [popBlock, first]

private theorem popBlock_prev : ((da.popBlock bi list false).block other).prev =
    if other = (da.block bi).next then (da.block bi).prev else (da.block other).prev := by
  by_cases first : bi = da.bhead list <;> simp [popBlock, first]

private theorem pushBlock_next : ((da.pushBlock bi list false).block other).next =
    if other = (da.block (da.bhead list)).prev then bi else if other = bi then da.bhead list
      else (da.block other).next := by
  simp [pushBlock]

private theorem pushBlock_prev : ((da.pushBlock bi list false).block other).prev =
    if other = da.bhead list then bi else if other = bi then (da.block (da.bhead list)).prev
      else (da.block other).prev := by
  simp [pushBlock]

end Links

/-- The blocks on each list, from its head. -/
structure Threaded (da : DoubleArray) (lists : BlockList → List ℕ) : Prop where
  ring : ∀ list, Ring (fun bi => (da.block bi).next) (fun bi => (da.block bi).prev) (lists list)
  head : ∀ list, da.bhead list = (lists list).headD 0
  disjoint : ∀ list other bi, bi ∈ lists list → bi ∈ lists other → list = other
  zero : 0 ∈ lists .full

namespace Threaded

variable {lists : BlockList → List ℕ} {list : BlockList}

theorem zero_notMem (threaded : Threaded da lists) (apart : list ≠ .full) : 0 ∉ lists list :=
  fun there => apart (threaded.disjoint list .full 0 there threaded.zero)

theorem head_eq_zero_iff (threaded : Threaded da lists) (apart : list ≠ .full) :
    da.bhead list = 0 ↔ lists list = [] := by
  rw [threaded.head]
  have absent := threaded.zero_notMem apart
  cases blocks : lists list with
  | nil => simp
  | cons first rest =>
    rw [blocks] at absent
    simpa [eq_comm] using (not_or.mp (List.mem_cons.not.mp absent)).1

/-- The new lists after one of them has changed. -/
theorem replace (threaded : Threaded da lists) {da' : DoubleArray} {blocks : List ℕ}
    (ring : Ring (fun bi => (da'.block bi).next) (fun bi => (da'.block bi).prev) blocks)
    (head : da'.bhead = Function.update da.bhead list (blocks.headD 0))
    (others : ∀ other, other ≠ list → ∀ bi ∈ lists other,
      (da'.block bi).next = (da.block bi).next ∧ (da'.block bi).prev = (da.block bi).prev)
    (disjoint : ∀ other, other ≠ list → ∀ bi ∈ lists other, bi ∉ blocks)
    (zero : list = .full → 0 ∈ blocks) : Threaded da' (Function.update lists list blocks) where
  ring other := by
    rcases eq_or_ne other list with rfl | different
    · rwa [Function.update_self]
    · rw [Function.update_of_ne different]
      exact (threaded.ring other).frame (fun bi there => (others other different bi there).1)
        fun bi there => (others other different bi there).2
  head other := by
    rw [head]
    rcases eq_or_ne other list with rfl | different
    · simp
    · simp [different, threaded.head]
  disjoint first second bi left right := by
    rcases eq_or_ne first list with rfl | ne <;> rcases eq_or_ne second first with rfl | ne'
    · rfl
    · rw [Function.update_self] at left
      rw [Function.update_of_ne ne'] at right
      exact absurd left (disjoint second ne' bi right)
    · rfl
    · rw [Function.update_of_ne ne] at left
      rcases eq_or_ne second list with rfl | also
      · rw [Function.update_self] at right
        exact absurd right (disjoint first ne bi left)
      · rw [Function.update_of_ne also] at right
        exact threaded.disjoint first second bi left right
  zero := by
    rcases eq_or_ne BlockList.full list with rfl | different
    · simpa using zero rfl
    · rw [Function.update_of_ne different]
      exact threaded.zero

theorem popBlock (threaded : Threaded da lists) (there : bi ∈ lists list) (nonzero : bi ≠ 0) :
    Threaded (da.popBlock bi list (bi = (da.block bi).next))
      (Function.update lists list ((lists list).erase bi)) := by
  have ring := threaded.ring list
  have last := ring.next_eq_self_iff there
  have inside := ring.next_mem there
  have inside' := ring.prev_mem there
  have apart : ∀ other, other ≠ list → ∀ bi' ∈ lists other, bi' ≠ (da.block bi).next ∧
      bi' ≠ (da.block bi).prev := by
    intro other different bi' member
    constructor <;> rintro rfl
    · exact different (threaded.disjoint other list _ member inside)
    · exact different (threaded.disjoint other list _ member inside')
  have removed : ∀ other, other ≠ list → ∀ bi' ∈ lists other, bi' ∉ (lists list).erase bi :=
    fun other different bi' member gone =>
      different (threaded.disjoint other list bi' member (List.mem_of_mem_erase gone))
  have zero : list = .full → 0 ∈ (lists list).erase bi := by
    rintro rfl
    exact (List.mem_erase_of_ne nonzero.symm).mpr threaded.zero
  by_cases sole : bi = (da.block bi).next
  · have alone := last.mp sole.symm
    refine threaded.replace ?_ ?_ (fun _ _ _ _ => ?_) removed zero
    · simp [alone, Ring.nil]
    · simp [DoubleArray.popBlock, sole.symm, alone]
    · simp [DoubleArray.popBlock, sole.symm]
  · have others : lists list ≠ [bi] := fun alone => sole (last.mpr alone).symm
    rw [show decide (bi = (da.block bi).next) = false by simpa using sole]
    refine threaded.replace (ring.erase there others ?_ ?_) ?_
      (fun other different bi' member => ?_) removed zero
    · intro other _ _
      exact popBlock_next ..
    · intro other _ _
      exact popBlock_prev ..
    · cases blocks : lists list with
      | nil => simp [blocks] at there
      | cons first rest =>
        have heads : da.bhead list = first := by rw [threaded.head, blocks, List.headD_cons]
        by_cases here : bi = first
        · subst here
          rw [blocks] at ring others
          cases rest with
          | nil => exact absurd rfl others
          | cons second rest => simp [DoubleArray.popBlock, heads, ← ring.next_head]
        · have here' : ¬bi = da.bhead list := heads ▸ here
          rw [List.erase_cons_tail (by simpa using Ne.symm here), List.headD_cons, ← heads,
            Function.update_eq_self]
          simp [DoubleArray.popBlock, here']
    · rw [popBlock_next, popBlock_prev, if_neg (apart other different bi' member).2,
        if_neg (apart other different bi' member).1]
      exact ⟨rfl, rfl⟩

theorem pushBlock (threaded : Threaded da lists) (absent : ∀ other, bi ∉ lists other)
    {empty : Bool} (flag : empty = true ↔ lists list = []) :
    Threaded (da.pushBlock bi list empty) (Function.update lists list (bi :: lists list)) := by
  have ring := threaded.ring list
  have heads := threaded.head list
  have differs : ∀ other, other ≠ list → ∀ bi' ∈ lists other, bi' ≠ bi :=
    fun other _ bi' member same => absent other (same ▸ member)
  have fresh : ∀ other, other ≠ list → ∀ bi' ∈ lists other, bi' ∉ bi :: lists list := by
    intro other different bi' member there
    rcases List.mem_cons.mp there with same | there
    · exact differs other different bi' member same
    · exact different (threaded.disjoint other list bi' member there)
  have zero : list = .full → 0 ∈ bi :: lists list := by
    rintro rfl
    exact List.mem_cons_of_mem _ threaded.zero
  cases empty with
  | true =>
    have none := flag.mp rfl
    refine threaded.replace ?_ ?_ (fun other different bi' member => ?_) fresh zero
    · rw [none]
      exact Ring.singleton (by simp [DoubleArray.pushBlock]) (by simp [DoubleArray.pushBlock])
    · simp [DoubleArray.pushBlock]
    · simp [DoubleArray.pushBlock, differs other different bi' member]
  | false =>
    cases blocks : lists list with
    | nil => simp [blocks] at flag
    | cons first rest =>
      rw [blocks] at ring heads
      rw [List.headD_cons] at heads
      have tail : (da.block first).prev ∈ lists list := blocks ▸ ring.prev_mem List.mem_cons_self
      have front : first ∈ lists list := blocks ▸ List.mem_cons_self
      have apart : ∀ bi' ∈ lists list, bi' ≠ bi := fun bi' member same => absent list (same ▸ member)
      refine threaded.replace (ring.cons (blocks ▸ absent list) ?_ ?_
        (fun other member => ?_) fun other member => ?_)
        ?_ (fun other different bi' member => ?_) (blocks ▸ fresh) (blocks ▸ zero)
      · rw [pushBlock_next, if_neg (heads ▸ (apart _ tail).symm), if_pos rfl, heads]
      · rw [pushBlock_prev, if_neg (heads ▸ (apart _ front).symm), if_pos rfl, heads]
      · rw [pushBlock_next, if_neg (c := other = bi) (apart other (blocks ▸ member)), heads]
      · rw [pushBlock_prev, if_neg (c := other = bi) (apart other (blocks ▸ member)), heads]
      · simp [DoubleArray.pushBlock]
      · have notTail : bi' ≠ (da.block first).prev := fun same =>
          different (threaded.disjoint other list _ (same ▸ member) tail)
        have notFront : bi' ≠ first := fun same =>
          different (threaded.disjoint other list _ (same ▸ member) front)
        have own := differs other different bi' member
        rw [pushBlock_next, pushBlock_prev, heads, if_neg notTail, if_neg own, if_neg notFront,
          if_neg own]
        exact ⟨rfl, rfl⟩

/-- The lists after a block has gone from one to the front of another. -/
def transferred (lists : BlockList → List ℕ) (bi : ℕ) (listIn listOut : BlockList) : BlockList → List ℕ :=
  Function.update (Function.update lists listIn ((lists listIn).erase bi)) listOut (bi :: lists listOut)

theorem mem_transferred (threaded : Threaded da lists) {listIn listOut : BlockList}
    (there : bi ∈ lists listIn) (apart : listIn ≠ listOut) (other : ℕ) :
    other ∈ transferred lists bi listIn listOut list ↔
      if other = bi then list = listOut else other ∈ lists list := by
  have nodup := (threaded.ring listIn).nodup
  have sole := fun list (here : bi ∈ lists list) => threaded.disjoint list listIn bi here there
  rcases eq_or_ne other bi with rfl | different
  · rcases eq_or_ne list listOut with rfl | otherList
    · simp [transferred]
    · rcases eq_or_ne list listIn with rfl | ne
      · simp [transferred, otherList, nodup.not_mem_erase]
      · simpa [transferred, otherList, ne] using fun here => ne (sole list here)
  · rcases eq_or_ne list listOut with rfl | otherList
    · simp [transferred, different]
    · rcases eq_or_ne list listIn with rfl | ne
      · simp [transferred, otherList, different, List.mem_erase_of_ne]
      · simp [transferred, otherList, ne, different]

theorem transferBlock (threaded : Threaded da lists) {listIn listOut : BlockList}
    (there : bi ∈ lists listIn)
    (apart : listIn ≠ listOut) (nonzero : bi ≠ 0) (num : (da.block bi).num = 0 ↔ listOut = .full) :
    Threaded (da.transferBlock bi listIn listOut) (transferred lists bi listIn listOut) := by
  have popped := threaded.popBlock there nonzero
  have relinked := relinked_popBlock da bi listIn (bi = (da.block bi).next)
  have absent : ∀ other, bi ∉ Function.update lists listIn ((lists listIn).erase bi) other := by
    intro other here
    rcases eq_or_ne other listIn with rfl | ne
    · rw [Function.update_self] at here
      exact (threaded.ring other).nodup.not_mem_erase here
    · rw [Function.update_of_ne ne] at here
      exact ne (threaded.disjoint other listIn bi here there)
  have flag : ((da.popBlock bi listIn (bi = (da.block bi).next)).bhead listOut = 0 ∧
      ((da.popBlock bi listIn (bi = (da.block bi).next)).block bi).num ≠ 0) ↔
      Function.update lists listIn ((lists listIn).erase bi) listOut = [] := by
    rw [relinked.num]
    rcases eq_or_ne listOut .full with rfl | ne
    · exact iff_of_false (fun empty => empty.2 (num.mpr rfl)) (List.ne_nil_of_mem popped.zero)
    · rw [popped.head_eq_zero_iff ne]
      exact and_iff_left (num.not.mpr ne)
  have pushed := popped.pushBlock absent (decide_eq_true_iff.trans flag)
  rw [Function.update_of_ne apart.symm] at pushed
  exact pushed

/-- Writes to the blocks that leave the links as they are. -/
theorem frame (threaded : Threaded da lists) {da' : DoubleArray} (bhead : da'.bhead = da.bhead)
    (next : ∀ bi, (da'.block bi).next = (da.block bi).next)
    (prev : ∀ bi, (da'.block bi).prev = (da.block bi).prev) : Threaded da' lists where
  ring list := (threaded.ring list).frame (fun bi _ => next bi) fun bi _ => prev bi
  head list := by rw [bhead, threaded.head]
  disjoint := threaded.disjoint
  zero := threaded.zero

end Threaded

/-- The list that a block belongs on; the block of the root's children stays among the full ones. -/
def belongs (bi : ℕ) (b : Block) : BlockList :=
  if bi = 0 ∨ b.num = 0 then .full else if b.num = 1 ∨ b.trial = maxTrial then .closed else .opened

/-- Every allocated block is on the list that it belongs on. -/
structure Filed (da : DoubleArray) (lists : BlockList → List ℕ) : Prop extends Threaded da lists where
  member : ∀ list bi, bi ∈ lists list ↔ bi < da.size / 256 ∧ belongs bi (da.block bi) = list
  trials : ∀ bi, (da.block bi).trial ≤ maxTrial

namespace Filed

variable {lists : BlockList → List ℕ} {list : BlockList}

/-- After writes to one block it may have to change its list. -/
structure Rewritten (da da' : DoubleArray) (bi : ℕ) : Prop where
  bhead : da'.bhead = da.bhead
  size : da'.size = da.size
  next : ∀ other, (da'.block other).next = (da.block other).next
  prev : ∀ other, (da'.block other).prev = (da.block other).prev
  num : ∀ other, other ≠ bi → (da'.block other).num = (da.block other).num
  trial : ∀ other, other ≠ bi → (da'.block other).trial = (da.block other).trial
  limit : (da'.block bi).trial ≤ maxTrial

theorem Rewritten.belongs_eq {da' : DoubleArray} (written : Rewritten da da' bi) {other : ℕ}
    (ne : other ≠ bi) :
    belongs other (da'.block other) = belongs other (da.block other) := by
  simp only [belongs, written.num other ne, written.trial other ne]

theorem Rewritten.trials {da' : DoubleArray} (written : Rewritten da da' bi)
    (filed : Filed da lists) (other : ℕ) :
    (da'.block other).trial ≤ maxTrial := by
  rcases eq_or_ne other bi with rfl | ne
  · exact written.limit
  · exact written.trial other ne ▸ filed.trials other

theorem keep (filed : Filed da lists) {da' : DoubleArray} (bi : ℕ) (written : Rewritten da da' bi)
    (same : belongs bi (da'.block bi) = belongs bi (da.block bi)) : Filed da' lists where
  toThreaded := filed.toThreaded.frame written.bhead written.next written.prev
  member list other := by
    rw [written.size, filed.member]
    rcases eq_or_ne other bi with rfl | ne
    · rw [same]
    · rw [written.belongs_eq ne]
  trials := written.trials filed

/-- A block changes its list between writes to it. -/
theorem transfer_between (filed : Filed da lists) (da' : DoubleArray) {da'' : DoubleArray}
    (listIn listOut : BlockList) (written : Rewritten da da' bi) (nonzero : bi ≠ 0)
    (allocated : bi < da.size / 256) (before : belongs bi (da.block bi) = listIn)
    (then' : Rewritten (da'.transferBlock bi listIn listOut) da'' bi)
    (num : (da''.block bi).num = (da'.block bi).num) (after : belongs bi (da''.block bi) = listOut)
    (apart : listIn ≠ listOut) : Filed da'' (Threaded.transferred lists bi listIn listOut) := by
  have there : bi ∈ lists listIn := (filed.member listIn bi).mpr ⟨allocated, before⟩
  have threaded := filed.toThreaded.frame written.bhead written.next written.prev
  have empty : (da'.block bi).num = 0 ↔ listOut = .full := by
    rw [← num, ← after, belongs]
    split_ifs <;> simp_all
  have moved := (threaded.transferBlock there apart nonzero empty).frame then'.bhead then'.next then'.prev
  refine ⟨moved, fun list other => ?_, fun other => ?_⟩
  · rw [threaded.mem_transferred there apart, then'.size, transferBlock_size, written.size]
    split_ifs with same
    · subst same
      simp [allocated, after, eq_comm]
    · rw [filed.member, then'.belongs_eq same, ← written.belongs_eq same]
      simp only [belongs, transferBlock_num, transferBlock_trial]
  · rcases eq_or_ne other bi with rfl | ne
    · exact then'.limit
    · rw [then'.trial other ne, transferBlock_trial]
      exact written.trials filed other

theorem transfer (filed : Filed da lists) {da' : DoubleArray} (written : Rewritten da da' bi)
    (nonzero : bi ≠ 0) (allocated : bi < da.size / 256) {listIn listOut : BlockList}
    (before : belongs bi (da.block bi) = listIn)
    (after : belongs bi (da'.block bi) = listOut) (apart : listIn ≠ listOut) :
    Filed (da'.transferBlock bi listIn listOut) (Threaded.transferred lists bi listIn listOut) := by
  refine filed.transfer_between da' listIn listOut written nonzero allocated before ?_
    (transferBlock_num ..) ?_ apart
  · constructor <;> intros <;> first | rfl | exact (transferBlock_trial ..).symm ▸ written.limit
  · simpa only [belongs, transferBlock_num, transferBlock_trial] using after

end Filed

end Taboo.DoubleArray
