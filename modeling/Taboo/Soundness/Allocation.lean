import Taboo.Soundness.FreeCells

/-! # Taking and giving back cells

The search for a place goes round the free cells of the open blocks and adds a block when none of them
has room. Whatever it finds is free, and nothing in use is touched on the way.
-/

namespace Taboo.DoubleArray

open Container

/-- Blocks and free cells are in order. -/
def Managed (da : DoubleArray) : Prop := ∃ free lists, FreeCells da free ∧ Filed da lists

/-- Cells may have been added, but the ones in use are as before. -/
structure Kept (da da' : DoubleArray) : Prop where
  used : ∀ e, da'.Used e ↔ da.Used e
  array : ∀ e, da.Used e → da'.array e = da.array e
  ninfo : da'.ninfo = da.ninfo
  size : da.size ≤ da'.size

/-- The labels find their cells free, the first of them at `e`; the block of the root's children is not
touched. -/
structure Fits (da : DoubleArray) (labels : List UInt8) (e : ℕ) : Prop where
  inner : 256 ≤ e
  bound : e < da.size
  free : ∀ label ∈ labels, ¬da.Used (place (place e (labels.headD 0)) label)

namespace Kept

variable {da da' da'' : DoubleArray}

theorem refl (da : DoubleArray) : Kept da da := ⟨fun _ => Iff.rfl, fun _ _ => rfl, rfl, le_rfl⟩

theorem trans (first : Kept da da') (second : Kept da' da'') : Kept da da'' where
  used e := (second.used e).trans (first.used e)
  array e used := (second.array e ((first.used e).mpr used)).trans (first.array e used)
  ninfo := second.ninfo.trans first.ninfo
  size := first.size.trans second.size

theorem of_array (array : da'.array = da.array) (ninfo : da'.ninfo = da.ninfo)
    (size : da'.size = da.size) :
    Kept da da' := ⟨fun e => by rw [Used, Used, array], fun e _ => by rw [array], ninfo, size.ge⟩

theorem addBlock {free : ℕ → List ℕ} (cells : FreeCells da free) : Kept da da.addBlock.1 := by
  have inside : ∀ e, da.Used e → da.addBlock.1.array e = da.array e := by
    intro e used
    rw [addBlock_array, if_neg]
    rintro ⟨beyond, -⟩
    have := cells.room
    exact not_used_iff.mpr ⟨by omega, cells.outside e beyond⟩ used
  exact ⟨cells.used_addBlock, inside, addBlock_ninfo da, by rw [addBlock_size]; omega⟩

end Kept

section Ring

variable {da : DoubleArray} {labels : List UInt8}

/-- The search round a ring takes the first free cell that fits, and never runs out of rounds. -/
theorem searchRing_eq_find? {front back : List ℕ} {e ehead fuel : ℕ}
    (ring : Ring da.nextFree da.prevFree (front ++ e :: back)) (first : (front ++ [e]).head? = some ehead)
    (enough : back.length < fuel) :
    da.searchRing labels ehead fuel e = (e :: back).find? (da.fits labels) := by
  induction back generalizing front e fuel with
  | nil =>
    obtain ⟨fuel, rfl⟩ : ∃ rounds, fuel = rounds + 1 := Nat.exists_eq_succ_of_ne_zero (by omega)
    have around : da.nextFree e = ehead := by
      have entered := ring.rotate
      cases front with
      | nil =>
        obtain rfl : e = ehead := by simpa using first
        exact (entered.next_eq_self_iff List.mem_cons_self).mpr rfl
      | cons head front =>
        obtain rfl : head = ehead := by simpa using first
        exact entered.next_head
    rw [nextFree] at around
    cases fits : da.fits labels e <;> simp [searchRing, fits, around]
  | cons next back ih =>
    obtain ⟨fuel, rfl⟩ : ∃ rounds, fuel = rounds + 1 := Nat.exists_eq_succ_of_ne_zero (by omega)
    have entered := ring.rotate
    rw [List.cons_append, List.cons_append] at entered
    have onward : (-(da.array e).check).toNat = next := entered.next_head
    rw [show front ++ e :: next :: back = (front ++ [e]) ++ next :: back by simp] at ring
    have apart : next ≠ ehead := by
      rintro rfl
      have inside : next ∈ front ++ [e] := List.mem_of_mem_head? first
      exact List.disjoint_of_nodup_append ring.nodup inside List.mem_cons_self
    have later := ih ring (by simpa using first) (by simpa using enough)
    cases fits : da.fits labels e <;> simp [searchRing, fits, onward, apart, later]

end Ring

section Find

variable {da : DoubleArray} {free : ℕ → List ℕ} {lists : BlockList → List ℕ} {labels : List UInt8}
  {e bi : ℕ}

theorem FreeCells.length_le (cells : FreeCells da free) (bi : ℕ) : (free bi).length ≤ 256 := by
  have inside : free bi ⊆ List.range' (256 * bi) 256 := by
    intro e here
    have block := ((cells.member bi e).mp here).1
    rw [List.mem_range'_1]
    omega
  simpa using List.Nodup.length_le_of_subset (cells.ring bi).nodup inside

theorem FreeCells.fits (cells : FreeCells da free) (here : e ∈ free bi) (inner : bi ≠ 0)
    (fits : da.fits labels e = true) : Fits da labels e := by
  obtain ⟨block, bound, unused⟩ := (cells.member bi e).mp here
  refine ⟨by omega, bound, fun label member => ?_⟩
  have together : place (place e (labels.headD 0)) label / 256 = bi := by
    simp only [place_div, Int.toNat_natCast, block]
  cases labels with
  | nil => cases member
  | cons first rest =>
    rcases List.mem_cons.mp member with rfl | member
    · rw [List.headD_cons, place_place]
      exact unused
    · have open' := List.all_eq_true.mp fits label member
      exact not_used_iff.mpr ⟨by omega, of_decide_eq_true open'⟩

/-- The first free cell of a block that is not full. -/
theorem Filed.ehead_fits (filed : Filed da lists) (cells : FreeCells da free) {list : BlockList}
    (apart : list ≠ .full) (here : bi ∈ lists list) (label : UInt8) :
    Fits da [label] (da.block bi).ehead := by
  obtain ⟨allocated, belongs'⟩ := (filed.member list bi).mp here
  have inner : bi ≠ 0 := fun zero => filed.zero_notMem apart (zero ▸ here)
  have some : (da.block bi).num ≠ 0 := by
    intro none
    rw [belongs, if_pos (Or.inr none)] at belongs'
    exact apart belongs'.symm
  have count := cells.num bi allocated
  cases members : free bi with
  | nil => simp [members, inner, some] at count
  | cons head rest =>
    have first := cells.ehead bi head rest members
    have inside : (da.block bi).ehead ∈ free bi := by
      rw [members, first]
      exact List.mem_cons_self
    exact cells.fits inside inner rfl

/-- A new block has room for everything. -/
theorem FreeCells.fits_addBlock (cells : FreeCells da free) (labels : List UInt8) :
    Fits da.addBlock.1 labels (da.addBlock.2 * 256) := by
  have aligned := cells.aligned
  have room := cells.room
  rw [addBlock_place da aligned]
  refine ⟨by omega, by rw [addBlock_size]; omega, fun label _ => ?_⟩
  have block : place (place da.size (labels.headD 0)) label / 256 = da.size / 256 := by simp [place_div]
  exact (cells.fresh (by omega) (by omega)).2

theorem findPlace_spec (managed : da.Managed) (label : UInt8) : da.findPlace.1.Managed ∧
    Kept da da.findPlace.1 ∧ Fits da.findPlace.1 [label] da.findPlace.2 := by
  obtain ⟨free, lists, cells, filed⟩ := managed
  have first : ∀ list, list ≠ .full → da.bhead list ≠ 0 → da.bhead list ∈ lists list := by
    intro list apart nonzero
    rw [filed.head]
    have some := (filed.head_eq_zero_iff apart).not.mp nonzero
    obtain ⟨head, rest, shape⟩ := List.exists_cons_of_ne_nil some
    simp [shape]
  simp only [findPlace]
  split_ifs with closed opened
  · exact ⟨⟨free, lists, cells, filed⟩, .refl da, filed.ehead_fits cells (by decide)
      (first _ (by decide) closed) label⟩
  · exact ⟨⟨free, lists, cells, filed⟩, .refl da, filed.ehead_fits cells (by decide)
      (first _ (by decide) opened) label⟩
  · exact ⟨⟨_, _, cells.add, filed.add cells⟩, .addBlock cells, cells.fits_addBlock [label]⟩

private theorem rejectBlock_fields (da : DoubleArray) (bi : ℕ) (nc : ℤ) :
    (da.rejectBlock bi nc).array = da.array ∧
    (da.rejectBlock bi nc).ninfo = da.ninfo ∧ (da.rejectBlock bi nc).size = da.size ∧
    ∀ other, ((da.rejectBlock bi nc).block other).num = (da.block other).num ∧
      ((da.rejectBlock bi nc).block other).ehead = (da.block other).ehead ∧
      (other ≠ bi → ((da.rejectBlock bi nc).block other).trial = (da.block other).trial) := by
  simp only [rejectBlock]
  split_ifs <;> simp +contextual

/-- An open block closes with its first lost trial. -/
theorem Filed.reject (filed : Filed da lists) (here : bi ∈ lists .opened) (nc : ℤ) :
    Filed (da.rejectBlock bi nc) (Threaded.transferred lists bi .opened .closed) := by
  obtain ⟨allocated, opened⟩ := (filed.member .opened bi).mp here
  have inner : bi ≠ 0 := fun zero => filed.zero_notMem (by decide) (zero ▸ here)
  have untried : (da.block bi).trial = 0 := by
    have limit := filed.trials bi
    simp only [maxTrial] at limit
    by_contra tried
    have last : (da.block bi).trial = maxTrial := by simp only [maxTrial]; omega
    simp only [belongs, last, or_true, if_true] at opened
    split_ifs at opened
  have some : (da.block bi).num ≠ 0 := by
    intro none
    simp [belongs, none] at opened
  simp only [rejectBlock, untried, maxTrial, zero_add, if_true]
  refine filed.transfer ?_ inner allocated opened ?_ (by decide)
  · split_ifs <;> constructor <;> simp +contextual [maxTrial]
  · split_ifs <;> simp [belongs, inner, some, maxTrial]

theorem FreeCells.reject (cells : FreeCells da free) (allocated : bi < da.size / 256) (nc : ℤ) :
    FreeCells (da.rejectBlock bi nc) free := by
  obtain ⟨array, ninfo, size, block⟩ := rejectBlock_fields da bi nc
  refine cells.frame size (fun e => by rw [Used, Used, array]) (fun e _ => by rw [array])
    (fun e _ => by rw [ninfo])
    (fun other => (block other).1) (fun other => (block other).2.1) fun other beyond =>
      (block other).2.2 ?_
  omega

/-- The search in a block may begin at another of its free cells. -/
theorem FreeCells.enter (cells : FreeCells da free) (here : e ∈ free bi) :
    ∃ free', FreeCells (da.putEhead bi e) free' := by
  obtain ⟨others, ring, same⟩ := (cells.ring bi).enter here
  have allocated : bi < da.size / 256 := by
    obtain ⟨rfl, bound, -⟩ := (cells.member bi e).mp here
    exact cells.block_lt bound
  have length : (e :: others).length = (free bi).length :=
    ((List.perm_ext_iff_of_nodup ring.nodup (cells.ring bi).nodup).mpr same).length_eq
  refine ⟨_, cells.replace rfl allocated (fun _ _ => rfl) (fun other ne => by simp [ne]) cells.blank ring
    (fun other => (same other).trans (cells.member bi other))
      (fun other member => cells.linked bi other ((same other).mp member))
    (fun first rest shape => ?_) ?_⟩
  · simpa using (List.cons.inj shape).1
  · rw [length]
    simpa using cells.num bi allocated

/-- The search over the open blocks ends with a place, or with no block open. -/
theorem searchBlocks_spec {rest : List ℕ} {last fuel : ℕ} (cells : FreeCells da free)
    (filed : Filed da lists) (opened : lists .opened = bi :: rest)
    (ends : (bi :: rest).getLast? = Option.some last) (enough : rest.length < fuel) :
    (da.searchBlocks labels last fuel bi).1.Managed ∧ Kept da (da.searchBlocks labels last fuel bi).1 ∧
      ∀ e, (da.searchBlocks labels last fuel bi).2 = Option.some e →
        Fits (da.searchBlocks labels last fuel bi).1 labels e := by
  induction fuel generalizing da free lists bi rest with
  | zero => simp at enough
  | succ fuel ih =>
    have here : bi ∈ lists .opened := opened ▸ List.mem_cons_self
    obtain ⟨allocated, belongs'⟩ := (filed.member .opened bi).mp here
    have inner : bi ≠ 0 := fun zero => filed.zero_notMem (by decide) (zero ▸ here)
    have ring := filed.ring .opened
    obtain ⟨array, ninfo, size, -⟩ := rejectBlock_fields da bi labels.length
    have rejected := filed.reject here labels.length
    have cells' := cells.reject allocated labels.length
    have kept : Kept da (da.rejectBlock bi labels.length) := .of_array array ninfo size
    simp only [searchBlocks]
    split
    case h_1 e found =>
      split_ifs at found
      obtain ⟨inside, fits⟩ : e ∈ free bi ∧ da.fits labels e = true := by
        obtain ⟨head, more, members⟩ : ∃ head more, free bi = head :: more := by
          refine List.exists_cons_of_ne_nil fun none => ?_
          have count := cells.num bi allocated
          simp [none, inner] at count
          simp [belongs, count] at belongs'
        have ring' := cells.ring bi
        have length := cells.length_le bi
        rw [cells.ehead bi head more members] at found
        rw [members] at ring' length ⊢
        rw [searchRing_eq_find? (show Ring da.nextFree da.prevFree ([] ++ head :: more) from ring') rfl
          (by rw [List.length_cons] at length; omega)] at found
        exact ⟨List.mem_of_find?_eq_some found, List.find?_some found⟩
      obtain ⟨free', entered⟩ := cells.enter inside
      refine ⟨⟨free', lists, entered, filed.keep bi ?_ ?_⟩, .of_array rfl rfl rfl, ?_⟩
      · constructor <;> simp [filed.trials]
      · simp [belongs]
      · rintro e' ⟨⟩
        obtain ⟨outer, bound, free⟩ := cells.fits inside inner fits
        exact ⟨outer, bound, free⟩
    case h_2 =>
      split_ifs with done
      · exact ⟨⟨_, _, cells', rejected⟩, kept, by rintro e ⟨⟩⟩
      · cases rest with
        | nil =>
          obtain rfl : bi = last := by simpa using ends
          exact absurd rfl done
        | cons next rest =>
          rw [opened] at ring
          have onward : (da.block bi).next = next := ring.next_head
          have remaining : Threaded.transferred lists bi .opened .closed .opened = next :: rest := by
            simp [Threaded.transferred, opened]
          rw [onward]
          obtain ⟨managed, kept', fits⟩ := ih cells' rejected remaining (by simpa using ends)
            (by simpa using enough)
          exact ⟨managed, kept.trans kept', fits⟩

theorem findPlaceFor_spec (managed : da.Managed) (labels : List UInt8) :
    (da.findPlaceFor labels).1.Managed ∧
    Kept da (da.findPlaceFor labels).1 ∧ Fits (da.findPlaceFor labels).1 labels
      (da.findPlaceFor labels).2 := by
  obtain ⟨free, lists, cells, filed⟩ := managed
  have opened : da.bhead .opened = 0 ↔ lists .opened = [] := filed.head_eq_zero_iff (by decide)
  have searched : ∀ result : DoubleArray × Option ℕ, result =
      (if da.bhead .opened ≠ 0 then
        da.searchBlocks labels (da.block (da.bhead .opened)).prev (da.size / 256) (da.bhead .opened)
      else (da, none)) → result.1.Managed ∧ Kept da result.1 ∧
        ∀ e, result.2 = Option.some e → Fits result.1 labels e := by
    rintro _ rfl
    split_ifs with nonempty
    · obtain ⟨head, rest, shape⟩ := List.exists_cons_of_ne_nil (opened.not.mp nonempty)
      have ring := filed.ring .opened
      have front : da.bhead .opened = head := by rw [filed.head, shape, List.headD_cons]
      have inside : lists .opened ⊆ List.range (da.size / 256) := fun bi here =>
        List.mem_range.mpr ((filed.member .opened bi).mp here).1
      have length := List.Nodup.length_le_of_subset ring.nodup inside
      rw [shape, List.length_range, List.length_cons] at length
      rw [shape] at ring
      obtain ⟨last, ends⟩ : ∃ last, (head :: rest).getLast? = some last :=
        ⟨_, List.getLast?_eq_getLast_of_ne_nil (by simp)⟩
      have tail : (da.block head).prev = last := ring.prev_head ends
      rw [front, tail]
      exact searchBlocks_spec cells filed shape ends (by omega)
    · exact ⟨⟨free, lists, cells, filed⟩, .refl da, by rintro e ⟨⟩⟩
  obtain ⟨managed, kept, fits⟩ := searched _ rfl
  simp only [findPlaceFor]
  split
  case h_1 e found => exact ⟨managed, kept, fits e found⟩
  case h_2 none =>
    obtain ⟨free', lists', cells', filed'⟩ := managed
    exact ⟨⟨_, _, cells'.add, filed'.add cells'⟩, kept.trans (.addBlock cells'),
      cells'.fits_addBlock labels⟩

end Find

/-! ### Cells change hands -/

/-- A free cell has been taken, and filled. -/
structure Popped (da da' : DoubleArray) (e : ℕ) (n : Node) : Prop where
  managed : da'.Managed
  used : ∀ other, da'.Used other ↔ da.Used other ∨ other = e
  here : da'.array e = n
  array : ∀ other, da.Used other → other ≠ e → da'.array other = da.array other
  ninfo : da'.ninfo = da.ninfo
  size : da'.size = da.size

/-- A cell in use has been given back. -/
structure Pushed (da da' : DoubleArray) (e : ℕ) : Prop where
  managed : da'.Managed
  used : ∀ other, da'.Used other ↔ da.Used other ∧ other ≠ e
  array : ∀ other, da.Used other → other ≠ e → da'.array other = da.array other
  ninfo : ∀ other, da'.ninfo other = if other = e then .none else da.ninfo other
  size : da'.size = da.size

section Change

variable {da : DoubleArray} {e : ℕ}

theorem Managed.blank (managed : da.Managed) (unused : ¬da.Used e) : da.ninfo e = .none := by
  obtain ⟨free, lists, cells, -⟩ := managed
  exact cells.blank e unused

theorem Managed.bound (managed : da.Managed) (used : da.Used e) : e < da.size := by
  obtain ⟨free, lists, cells, -⟩ := managed
  by_contra beyond
  have room := cells.room
  exact not_used_iff.mpr ⟨by omega, cells.outside e (by omega)⟩ used

/-- The cells of a block have been allocated together. -/
theorem Managed.block_bound (managed : da.Managed) (bound : e < da.size) {other : ℕ}
    (together : other / 256 = e / 256) :
    other < da.size := by
  obtain ⟨free, lists, cells, -⟩ := managed
  have aligned := cells.aligned
  omega

theorem Managed.place_lt (managed : da.Managed) {labels : List UInt8} (fits : Fits da labels e)
    {label : UInt8} :
    place (place e (labels.headD 0)) label < da.size :=
  managed.block_bound fits.bound (by simp only [place_div, Int.toNat_natCast])

/-- Writes to cells in use that leave the blocks alone. -/
theorem Managed.frame (managed : da.Managed) {da' : DoubleArray} (block : da'.block = da.block)
    (bhead : da'.bhead = da.bhead) (size : da'.size = da.size) (used : ∀ e, da'.Used e ↔ da.Used e)
    (array : ∀ e, ¬da.Used e → da'.array e = da.array e)
    (ninfo : ∀ e, ¬da.Used e → da'.ninfo e = da.ninfo e) :
    da'.Managed := by
  obtain ⟨free, lists, cells, filed⟩ := managed
  refine ⟨free, lists, cells.frame size used array ninfo ?_ ?_ ?_, filed.keep 0 ?_ ?_⟩
  · simp [block]
  · simp [block]
  · simp [block]
  · constructor <;> simp [block, bhead, size, filed.trials]
  · simp [block]

theorem Managed.putBase (managed : da.Managed) (used : da.Used e) (base : ℤ) :
    (da.putBase e base).Managed := by
  have check : ∀ x, ((da.putBase e base).array x).check = (da.array x).check := fun x => by
    by_cases here : x = e <;> simp [here]
  refine managed.frame rfl rfl rfl (fun x => by rw [Used, Used, check]) (fun x free => ?_) fun _ _ => rfl
  have ne : x ≠ e := fun same => free (same ▸ used)
  simp [ne]

theorem popped (managed : da.Managed) (bound : e < da.size) (unused : ¬da.Used e) {n : Node}
    (used : 0 ≤ n.check) :
    Popped da ((da.unlinkEnode e).putNode e n) e n := by
  obtain ⟨free, lists, cells, filed⟩ := managed
  have there := cells.mem_of_free bound unused
  have allocated := cells.block_lt bound
  have count := cells.num _ allocated
  have positive := List.length_pos_of_mem there
  obtain ⟨lists', filed'⟩ := filed.unlinkEnode allocated (by split_ifs at count <;> omega)
  refine ⟨⟨_, lists', cells.take there used, filed'.keep 0 ?_ rfl⟩,
    cells.used_take there used, by simp, ?_, ?_, ?_⟩
  · constructor <;> simp [filed'.trials]
  · intro other also ne
    simp [ne, cells.array_unlinkEnode there also]
  · exact unlinkEnode_ninfo da e
  · exact unlinkEnode_size da e

theorem pushed (managed : da.Managed) (used : da.Used e) (inner : e / 256 ≠ 0) :
    Pushed da (da.pushEnode e) e := by
  have bound := managed.bound used
  obtain ⟨free, lists, cells, filed⟩ := managed
  have allocated := cells.block_lt bound
  have count := cells.num _ allocated
  obtain ⟨lists', filed'⟩ := filed.pushEnode allocated inner (by rw [if_neg inner] at count; omega)
  exact ⟨⟨_, lists', cells.give used bound inner, filed'⟩, cells.used_give used bound inner,
    fun other also ne => cells.array_pushEnode used bound inner ne also, pushEnode_ninfo da e,
      pushEnode_size da e⟩

theorem popEnode_position (da : DoubleArray) {base : ℤ} (label : UInt8) (node : ℕ) (based : 0 ≤ base) :
    (da.popEnode base label node).2 = place base label := by
  simp only [popEnode, if_neg (by omega : ¬base < 0)]

/-- Taking the cell that a base gives to a label. -/
theorem popEnode_placed (managed : da.Managed) {base : ℤ} (label : UInt8) (node : ℕ) (based : 0 ≤ base)
    (bound : place base label < da.size) (unused : ¬da.Used (place base label)) :
    (da.popEnode base label node).2 = place base label ∧
      Popped da (da.popEnode base label node).1 (place base label) (newNode label node) := by
  have taken : Popped da ((da.unlinkEnode (place base label)).putNode (place base label)
    (newNode label node))
      (place base label) (newNode label node) := popped managed bound unused (by simp [newNode])
  have found : da.popEnode base label node =
      ((da.unlinkEnode (place base label)).putNode (place base label) (newNode label node),
        place base label) := by
    simp only [popEnode, if_neg (by omega : ¬base < 0)]
  rw [found]
  exact ⟨rfl, taken⟩

end Change

end Taboo.DoubleArray
