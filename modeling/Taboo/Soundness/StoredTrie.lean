import Taboo.Soundness.Insertions
import Taboo.Soundness.TrieContents

/-! # cedar's arrays store the trie

The cells of the arrays hold the trie at every moment between two calls: `update` changes the one as it
changes the other, and a lookup finds in the cells what is stored in the trie.
-/

namespace Taboo.DoubleArray

open Container

variable {da : DoubleArray} {d : Da} {loc : Route → Option ℕ} {contents : Contents} {path : Route} {n : ℕ}

/-- The cells hold the trie. -/
structure Stores (da : DoubleArray) (d : Da) (loc : Route → Option ℕ) (contents : Contents) : Prop where
  managed : da.Managed
  trunk : Trunk da loc contents none fun _ => 0
  shows : Shows contents [] d.root
  rootless : d.root.value = none
  full : d.root.children.Full

private theorem unused_initial (e : ℕ) : (initial.array e).check < 0 := by
  simp only [initial]
  split_ifs <;> simp [Node.unallocated] <;> omega

theorem managed_initial : initial.Managed := by
  have free : ∀ e, ¬initial.Used e ↔ e ≠ 0 := fun e => by
    rw [not_used_iff, and_iff_left (unused_initial e)]
  have base : ∀ e, e ≠ 0 → e < 256 → (initial.array e).base = if e = 1 then -255 else -(e - 1 : ℤ) := by
    intro e nonzero bound
    simp [initial, nonzero, bound]
  have check : ∀ e, e ≠ 0 → e < 256 → (initial.array e).check = if e = 255 then -1 else -(e + 1 : ℤ) := by
    intro e nonzero bound
    simp [initial, nonzero, bound]
  refine ⟨fun bi => if bi = 0 then List.range' 1 255 else [],
    fun list => if list = .full then [0] else [], ?_, ?_⟩
  · constructor
    case aligned => rfl
    case room => simp [initial]
    case outside => exact fun e _ => unused_initial e
    case blank => exact fun _ _ => rfl
    case ring =>
      intro bi
      split_ifs
      · refine Ring.interval (fun i first last => ?_) (fun i first last => ?_) ?_ ?_
        · rw [nextFree, check i (by omega) (by omega), if_neg (by omega)]
          omega
        · rw [prevFree, base i (by omega) (by omega), if_neg (by omega)]
          omega
        · rw [nextFree, check _ (by omega) (by omega)]
          rfl
        · rw [prevFree, base _ (by omega) (by omega)]
          rfl
      · exact .nil
    case member =>
      intro bi e
      rw [free]
      split_ifs with zero
      · rw [List.mem_range'_1, zero]
        simp only [initial]
        omega
      · simp only [List.not_mem_nil, initial, false_iff]
        omega
    case linked =>
      intro bi e here
      split_ifs at here
      · rw [List.mem_range'_1] at here
        rw [base e (by omega) (by omega)]
        split_ifs <;> omega
      · cases here
    case ehead =>
      intro bi e rest shape
      split_ifs at shape with zero
      · rw [List.range'_succ] at shape
        simp [initial, zero, (List.cons.inj shape).1]
    case num =>
      intro bi bound
      obtain rfl : bi = 0 := by
        simp only [initial] at bound
        omega
      simp [initial, Block.fresh]
    case unused =>
      intro bi bound
      have nonzero : bi ≠ 0 := by
        simp only [initial] at bound
        omega
      simp [initial, nonzero, Block.fresh]
  · refine ⟨⟨fun list => ?_, fun list => ?_, fun list other bi here there => ?_, by simp⟩,
      fun list bi => ?_, fun bi => ?_⟩
    · split_ifs
      · exact .singleton rfl rfl
      · exact .nil
    · simp only [initial]
      split_ifs <;> rfl
    · split_ifs at here there with first second
      · rw [first, second]
      · cases there
      · cases here
      · cases here
    · have bound : bi < initial.size / 256 ↔ bi = 0 := Nat.lt_one_iff
      rw [bound]
      constructor
      · intro here
        split_ifs at here with first
        · obtain rfl := List.mem_singleton.mp here
          exact ⟨rfl, by simp [belongs, first]⟩
        · cases here
      · rintro ⟨rfl, here⟩
        rw [if_pos (by simpa [belongs] using here.symm)]
        exact List.mem_singleton_self 0
    · simp only [initial]
      split_ifs <;> simp [Block.fresh]

theorem stores_initial :
    Stores initial .empty (fun path => if path = [] then some 0 else none) ⟨fun _ => [], fun _ => 0⟩ := by
  refine ⟨managed_initial, ⟨rfl, ⟨rfl, rfl, ?_, ?_, ?_⟩, ?_, fun _ _ => rfl⟩, .of_empty fun _ =>
    rfl, rfl, trivial⟩
  · rintro label path cell ⟨⟩
  · intro cell above linked
    have unused := unused_initial cell
    rw [parent_eq_some_iff] at linked
    omega
  · intro path other cell here there
    split_ifs at here there with first second
    rw [first, second]
  · intro path e _ there
    split_ifs at there with root
    cases there
    subst root
    exact ⟨by simp, List.nodup_nil, ⟨rfl, rfl⟩, by simp, by simp, by simp⟩

/-- The loop of `update`, and the nodes on its way. -/
theorem followKey_spec {key : Bytes} (managed : da.Managed)
    (trunk : Trunk da loc contents none fun _ => 0)
    (inside : loc path = some n) (notTerminal : ∀ upper, path ≠ 0 :: upper) (nonzero : 0 ∉ key) :
    ∃ da' n' loc', da.followKey n key = (da', n') ∧ da'.Managed ∧
      Trunk da' loc' (contents.followKey path key) none (fun _ => 0) ∧
        loc' (key.reverse ++ path) = some n' := by
  induction key generalizing da n loc contents path with
  | nil => exact ⟨da, n, loc, rfl, managed, trunk, inside⟩
  | cons label rest ih =>
    rw [List.mem_cons, not_or] at nonzero
    obtain ⟨da₁, dest, from_n, loc₁, followed, managed₁, trunk₁, there, -⟩ :=
      follow_spec trunk managed inside notTerminal fun zero => absurd zero (Ne.symm nonzero.1)
    have further : ∀ upper, label :: path ≠ 0 :: upper := fun upper same =>
      nonzero.1 (List.cons.inj same).1.symm
    obtain ⟨da', n', loc', ran, managed', trunk', inside'⟩ := ih managed₁ trunk₁ there further nonzero.2
    refine ⟨da', n', loc', ?_, managed', trunk', by simpa using inside'⟩
    rw [followKey, followed, ran]

/-- A value is written to a terminal. -/
theorem Trunk.store {e : ℕ} {val : ℤ} (trunk : Trunk da loc contents none fun _ => 0)
    (there : loc (0 :: path) = some e) :
    Trunk (da.putBase e val) loc (contents.store path val) none fun _ => 0 := by
  have base : ∀ route x, route ≠ 0 :: path → loc route = some x →
      ((da.putBase e val).array x).base = (da.array x).base := by
    intro route x ne here
    have apart : x ≠ e := fun same => ne (trunk.laid.injective _ _ _ here (same ▸ there))
    simp [apart]
  have check : ∀ x, ((da.putBase e val).array x).check = (da.array x).check := fun x => by
    by_cases here : x = e <;> simp [here]
  have leaf := trunk.node _ e (by simp) there
  obtain ⟨none, -⟩ := leaf.terminal path rfl
  refine ⟨?_, ?_, fun route x _ here => ?_, trunk.absent⟩
  · have apart : (0 : ℕ) ≠ e := fun same => (trunk.laid.ne_origin there) same.symm
    simp [apart, trunk.root]
  · refine trunk.laid.congr (fun x => parent_congr (check x)) fun label route below => ?_
    obtain ⟨child, below⟩ := Option.ne_none_iff_exists'.mp below
    obtain ⟨-, upper, known, -⟩ := trunk.laid.edge _ _ _ below
    have ne : route ≠ 0 :: path := by
      rintro rfl
      have member := (leaf.member label).mpr (by simp [below])
      rw [none] at member
      cases member
    simp only [spotOf, known, base route upper ne known]
  · have node := trunk.node route x (by simp) here
    by_cases same : route = 0 :: path
    · subst same
      rw [there] at here
      cases here
      refine ⟨leaf.member, leaf.nodup, ?_, fun above shape => ⟨none, ?_⟩,
        fun _ some' => absurd none some', fun label above shape nonzero => ?_⟩
      · have thread := leaf.thread
        rw [none] at thread
        change Thread _ _ _ (lead _ ++ contents.kids _)
        rw [none]
        exact thread
      · cases shape
        simp [Contents.store]
      · cases shape
        exact absurd rfl nonzero
    · refine node.transfer (base route x same here) rfl (fun _ _ => rfl) rfl
        (fun above shape => ?_) fun _ => Iff.rfl
      refine Function.update_of_ne ?_ _ _
      rintro rfl
      exact same shape

/-- `update` writes to the arrays what it writes to the trie. -/
theorem Stores.update (stores : Stores da d loc contents) (key : Key) (val : IdT) :
    ∃ loc' contents', Stores (da.update key.bytes val) (d.update key val) loc' contents' := by
  have path : ∀ upper, key.bytes.reverse ≠ 0 :: upper := fun upper same =>
    key.noZero (List.mem_reverse.mp (same ▸ List.mem_cons_self))
  obtain ⟨da₁, n, loc₁, ran, managed₁, trunk₁, inside₁⟩ :=
    followKey_spec stores.managed stores.trunk stores.trunk.laid.start (by simp) key.noZero
  rw [List.append_nil] at inside₁
  obtain ⟨da₂, dest, from_n, loc₂, followed, managed₂, trunk₂, inside₂, -⟩ :=
    follow_spec trunk₁ managed₁ inside₁ path fun _ => by simpa using key.nonempty
  have reached : (contents.followKey [] key.bytes).follow key.bytes.reverse 0 = contents.reach
      [] key.bytes := by
    simp [Contents.reach]
  rw [reached] at trunk₂
  obtain ⟨-, base⟩ := (trunk₂.node _ dest (by simp) inside₂).terminal _ rfl
  have held := stores.shows.stored key.noZero
  rw [List.append_nil, ← base] at held
  obtain ⟨stored, found⟩ : ∃ stored, (d.root.find? key.bytes).getD 0 = stored := ⟨_, rfl⟩
  rw [found] at held
  have shown : ∀ next, Shows ((contents.reach [] key.bytes).store key.bytes.reverse (asInt next)) []
      (d.root.insert key.bytes next) := fun next => by
    simpa [Contents.insert] using stores.shows.insert key.noZero next
  have rootless : ∀ next, (d.root.insert key.bytes next).value = none := fun next => by
    obtain ⟨label, rest, shape⟩ := List.exists_cons_of_ne_nil key.nonempty
    rw [shape, TrieNode.insert_cons_value, stores.rootless]
  have arrays : da.update key.bytes val = if stored = 0 ∨
      val < stored then da₂.putBase dest (asInt val) else da₂ := by
    simp only [DoubleArray.update, ran, followed, held, asValue_asInt]
  have trie : (d.update key val).root = d.root.insert key.bytes
      (if stored = 0 ∨ val < stored then val else stored) := by
    rw [← found]
    rfl
  rw [arrays]
  split_ifs at trie ⊢ with smaller
  · exact ⟨loc₂, _, managed₂.putBase (trunk₂.used inside₂) _, trunk₂.store inside₂,
      trie ▸ shown val, trie ▸ rootless val, trie ▸ (TrieNode.insert_full stores.full _ _).2⟩
  · refine ⟨loc₂, _, managed₂, trunk₂, ?_, trie ▸ rootless stored,
      trie ▸ (TrieNode.insert_full stores.full _ _).2⟩
    have unchanged : (contents.reach [] key.bytes).store key.bytes.reverse
        (asInt stored) = contents.reach [] key.bytes := by
      rw [← held, base, Contents.store, Function.update_eq_self]
    have shown := shown stored
    rwa [unchanged, ← trie] at shown

/-! ### Runs of `update` -/

/-- One `update` after another. -/
def updates (da : DoubleArray) (writes : List (Key × IdT)) : DoubleArray :=
  writes.foldl (fun da write => da.update write.1.bytes write.2) da

theorem Stores.updates (stores : Stores da d loc contents) (writes : List (Key × IdT)) :
    ∃ loc' contents', Stores (da.updates writes)
    (writes.foldl (fun d write => d.update write.1 write.2) d) loc' contents' := by
  induction writes generalizing da d loc contents with
  | nil => exact ⟨loc, contents, stores⟩
  | cons write rest ih =>
    obtain ⟨_, _, first⟩ := stores.update write.1 write.2
    exact ih first

/-- After any run every allocated cell is in use or waits on the ring of its block, which counts it, and every
block is on the list that its count and its trials call for. -/
theorem managed_updates (writes : List (Key × IdT)) : (initial.updates writes).Managed := by
  obtain ⟨_, _, stores⟩ := stores_initial.updates writes
  exact stores.managed

/-- After any run the thread of siblings below a node lists each of the cells that name it as their parent. -/
theorem mem_setChild_iff (writes : List (Key × IdT)) {n e : ℕ} (inner : n ≠ 0)
    (parent : ((initial.updates writes).array e).check = n) :
    let da := initial.updates writes
    let labels := da.setChild (da.array n).base (da.ninfo n).child none
    labels.Nodup ∧ ∀ x, (da.array x).check = n ↔ x ∈ labels.map (place (da.array n).base) := by
  obtain ⟨loc, contents, stores⟩ := stores_initial.updates writes
  generalize initial.updates writes = da at *
  have trunk := stores.trunk
  obtain ⟨label, path, there⟩ := trunk.laid.reached e n (parent_eq_some_iff.mpr parent)
  obtain ⟨-, above, known, linked⟩ := trunk.laid.edge _ _ _ there
  rw [parent_eq_some_iff, parent] at linked
  obtain rfl : n = above := by exact_mod_cast linked
  have notRoot : path ≠ [] := by
    rintro rfl
    rw [trunk.laid.start] at known
    cases known
    exact inner rfl
  have node := trunk.node path n (by simp) known
  have some' := List.ne_nil_of_mem ((node.member label).mpr (by simp [there]))
  have thread := node.thread
  rw [lead_of_ne_nil notRoot, List.nil_append] at thread
  dsimp only
  rw [(setChild_eq thread node.nodup some').1]
  refine ⟨node.nodup, fun x => ?_⟩
  by_cases used : da.Used x
  · exact trunk.check_eq_iff (by simp) known used
  · have negative := (not_used_iff.mp used).2
    refine iff_of_false (by omega) fun member => ?_
    obtain ⟨other, listed, rfl⟩ := List.mem_map.mp member
    exact used (trunk.used (trunk.loc_of_mem (by simp) known listed))

/-- A key, one that it extends, and the first once more. -/
def threeWrites : List (Key × IdT) :=
  [(⟨ascii "to", by decide, by decide⟩, 5), (⟨ascii "t", by decide, by decide⟩, 3),
    (⟨ascii "to", by decide, by decide⟩, 2)]

theorem mem_setChild_threeWrites :
    let da := initial.updates threeWrites
    let labels := da.setChild (da.array 116).base (da.ninfo 116).child none
    labels.Nodup ∧ ∀ x, (da.array x).check = 116 ↔ x ∈ labels.map (place (da.array 116).base) :=
  mem_setChild_iff threeWrites (show 116 ≠ 0 by decide)
    (show ((initial.updates threeWrites).array 367).check = 116 by decide)

/-! ### Lookups -/

variable {node target : TrieNode UInt8 IdT} {label : UInt8} {word : Bytes}

theorem Trunk.check_place_iff (trunk : Trunk da loc contents none fun _ => 0) (inside : loc path = some n)
    (label : UInt8) : (da.array (place (da.array n).base label)).check = n ↔
      label ∈ contents.kids path := by
  constructor
  · intro check
    have used : da.Used (place (da.array n).base label) := Or.inr (by omega)
    obtain ⟨other, member, same⟩ := List.mem_map.mp ((trunk.check_eq_iff (by simp) inside used).mp check)
    exact place_injective _ same ▸ member
  · intro member
    exact (trunk.place_eq (by simp) inside (trunk.loc_of_mem (by simp) inside member)).2

/-- `_find` comes to the node that the trie has at the end of a word, and goes on from there. -/
theorem find_through (trunk : Trunk da loc contents none fun _ => 0) (inside : loc path = some n)
    (shows : Shows contents path node) (nonzero : 0 ∉ word)
    (reached : node.descend word = some target) (pos : ℕ) :
    Shows contents (word.reverse ++ path) target ∧ ∃ e, loc (word.reverse ++ path) = some e ∧
      ∀ rest, da.find n pos (word ++ rest) = da.find e (pos + word.length) rest := by
  induction word generalizing path n node pos with
  | nil =>
    cases reached
    exact ⟨shows, n, inside, fun _ => rfl⟩
  | cons label word ih =>
    rw [List.mem_cons, not_or] at nonzero
    obtain ⟨child, found, reached⟩ := Option.bind_eq_some_iff.mp reached
    have member := (shows.mem_kids_iff (Ne.symm nonzero.1)).mpr (by simp [found])
    obtain ⟨located, e, there, onward⟩ := ih (trunk.loc_of_mem (by simp) inside member)
      (shows.below found) nonzero.2 reached (pos + 1)
    refine ⟨by simpa using located, e, by simpa using there, fun rest => ?_⟩
    rw [List.cons_append, find]
    simp only [(trunk.check_place_iff inside _).mpr member, ne_eq, not_true_eq_false, if_false,
      onward, List.length_cons, Nat.add_assoc, Nat.add_comm 1]

/-- What `_find` answers at a node. -/
theorem find_here (trunk : Trunk da loc contents none fun _ => 0) (inside : loc path = some n)
    (shows : Shows contents path node) (pos : ℕ) :
    da.find n pos [] = (asInt (node.value.getD noValue), n, pos) := by
  have terminal := (trunk.check_place_iff inside 0).trans shows.terminal_mem_iff
  cases own : node.value with
  | none => simp [find, terminal, own]
  | some val =>
    have there := trunk.loc_of_mem (by simp) inside (shows.terminal_mem_iff.mpr (by simp [own]))
    obtain ⟨-, base⟩ := (trunk.node _ _ (by simp) there).terminal _ rfl
    simp [find, terminal, own, base, show contents.vals path = asInt val from shows.vals [] val own]

theorem find_of_reached (trunk : Trunk da loc contents none fun _ => 0) (inside : loc path = some n)
    (shows : Shows contents path node) (nonzero : 0 ∉ word)
    (reached : node.descend word = some target) (pos : ℕ) :
    ∃ e, loc (word.reverse ++ path) = some e ∧
      da.find n pos word = (asInt (target.value.getD noValue), e, pos + word.length) := by
  obtain ⟨located, e, there, onward⟩ := find_through trunk inside shows nonzero reached pos
  refine ⟨e, there, ?_⟩
  rw [← List.append_nil word, onward, List.append_nil]
  exact find_here trunk there located _

/-- `_find` takes a zero byte behind a stored word for the label of its terminal, and ends in there. -/
theorem find_zero {val : IdT} (trunk : Trunk da loc contents none fun _ => 0) (inside : loc path = some n)
    (shows : Shows contents path node) (own : node.value = some val) (pos : ℕ) :
    ∃ e, loc (0 :: path) = some e ∧ (da.array e).base = asInt val ∧
      da.find n pos [0] = (asInt noValue, e, pos + 1) := by
  have member := shows.terminal_mem_iff.mpr (by simp [own])
  have there := trunk.loc_of_mem (by simp) inside member
  obtain ⟨none, base⟩ := (trunk.node _ _ (by simp) there).terminal _ rfl
  refine ⟨_, there, base.trans (shows.vals [] val own), ?_⟩
  have edge := (trunk.check_place_iff inside _).mpr member
  have stop := (trunk.check_place_iff there 0).not.mpr (by simp [none])
  simp only [find, edge, stop, ne_eq, not_true_eq_false, not_false_eq_true, if_true, if_false]

/-- `_find` stops where the trie has no edge, whatever comes behind. -/
theorem find_of_missing_append (trunk : Trunk da loc contents none fun _ => 0) (inside : loc path = some n)
    (shows : Shows contents path node) (nonzero : 0 ∉ word) (missing : node.descend word = none)
    (behind : Bytes) (pos : ℕ) : (da.find n pos (word ++ behind)).1 = asInt noPath := by
  induction word generalizing path n node pos with
  | nil => cases missing
  | cons label rest ih =>
    rw [List.mem_cons, not_or] at nonzero
    have edge := (trunk.check_place_iff inside label).trans (shows.mem_kids_iff (Ne.symm nonzero.1))
    rw [List.cons_append, find]
    cases found : node.children.follow label with
    | none => simp [edge, found]
    | some child =>
      have member := (shows.mem_kids_iff (Ne.symm nonzero.1)).mpr (by simp [found])
      have below : child.descend rest = none := by simpa [TrieNode.descend, found] using missing
      simpa [edge, found] using ih (trunk.loc_of_mem (by simp) inside member)
        (shows.below found) nonzero.2 below (pos + 1)

theorem find_of_missing (trunk : Trunk da loc contents none fun _ => 0) (inside : loc path = some n)
    (shows : Shows contents path node) (nonzero : 0 ∉ word) (missing : node.descend word = none)
    (pos : ℕ) : (da.find n pos word).1 = asInt noPath := by
  rw [← find_of_missing_append trunk inside shows nonzero missing [] pos, List.append_nil]

/-- `suffix` reads the way to a cell back from the cells. -/
theorem suffix_eq {e : ℕ} (trunk : Trunk da loc contents none fun _ => 0)
    (there : loc path = some e) (key : Bytes) :
    da.suffix path.length e key = path.reverse ++ key := by
  induction path generalizing e key with
  | nil => rfl
  | cons label path ih =>
    obtain ⟨-, above, known, linked⟩ := trunk.laid.edge _ _ _ there
    obtain ⟨placed, check⟩ := trunk.place_eq (by simp) known there
    have read : (da.array above).base.toNat ^^^ e = label.toNat := by
      rw [placed, place, ← Nat.xor_assoc, Nat.xor_self, Nat.zero_xor]
    rw [List.length_cons, suffix]
    simp only [check, Int.toNat_natCast, read, UInt8.ofNat_toNat]
    rw [ih known]
    simp

/-- What `_find` reads: the bases that it adds a label to, with the label. -/
def probes (da : DoubleArray) (node : ℕ) : Bytes → List (ℤ × UInt8)
  | [] => [((da.array node).base, 0)]
  | label :: rest =>
      let base := (da.array node).base
      let dest := place base label
      (base, label) :: if (da.array dest).check ≠ node then [] else probes da dest rest

/-- Besides the base that it starts from, nothing else decides what `_find` returns. -/
theorem find_congr {other : DoubleArray} {node : ℕ} (start : (other.array node).base = (da.array node).base)
    (agree : ∀ probe ∈ da.probes node word,
      other.array (place probe.1 probe.2) = da.array (place probe.1 probe.2)) (pos : ℕ) :
    other.find node pos word = da.find node pos word := by
  induction word generalizing node pos with
  | nil =>
    have here := agree _ List.mem_cons_self
    simp only [find, start, here]
  | cons label rest ih =>
    rw [probes, List.forall_mem_cons] at agree
    obtain ⟨here, onward⟩ := agree
    rw [find, find, start]
    simp only [here]
    split_ifs with other'
    · rfl
    · rw [if_neg other'] at onward
      exact ih (congrArg Node.base here) onward (pos + 1)

private theorem probe_bounded (managed : da.Managed) (trunk : Trunk da loc contents none fun _ => 0)
    (inside : loc path = some n) (live : path ≠ [] → contents.kids path ≠ []) (label : UInt8) :
    0 ≤ (da.array n).base ∧ place (da.array n).base label < da.size := by
  rcases eq_or_ne path [] with rfl | inner
  · rw [trunk.laid.start] at inside
    cases inside
    have block : place (da.array 0).base label / 256 = 0 / 256 := by
      rw [place_div, trunk.root]
      rfl
    exact ⟨by simp [trunk.root], managed.block_bound (managed.bound (Or.inl rfl)) block⟩
  · have low := (trunk.node path n (by simp) inside).inner inner (live inner)
    obtain ⟨kid, rest, shape⟩ := List.exists_cons_of_ne_nil (live inner)
    have there := trunk.loc_of_mem (by simp) inside
      (shape ▸ List.mem_cons_self : kid ∈ contents.kids path)
    exact ⟨by omega, managed.block_bound (managed.bound (trunk.used there))
      (by rw [place_div, place_div])⟩

/-- `_find` stays within the arrays as long as it does behind the word. -/
theorem probes_bounded (behind : Bytes) (managed : da.Managed)
    (trunk : Trunk da loc contents none fun _ => 0)
    (inside : loc path = some n) (shows : Shows contents path node) (full : node.children.Full)
    (live : path ≠ [] → contents.kids path ≠ []) (nonzero : 0 ∉ word)
    (onward : ∀ e, loc (word.reverse ++ path) = some e →
      (word.reverse ++ path ≠ [] → contents.kids (word.reverse ++ path) ≠ []) →
      ∀ probe ∈ da.probes e behind, 0 ≤ probe.1 ∧ place probe.1 probe.2 < da.size) :
    ∀ probe ∈ da.probes n (word ++ behind), 0 ≤ probe.1 ∧ place probe.1 probe.2 < da.size := by
  induction word generalizing path n node with
  | nil => exact onward n inside live
  | cons label rest ih =>
    rw [List.mem_cons, not_or] at nonzero
    intro probe member
    rw [List.cons_append, probes] at member
    rcases List.mem_cons.mp member with rfl | member
    · exact probe_bounded managed trunk inside live label
    · split_ifs at member with other
      · cases member
      · have listed := (trunk.check_place_iff inside _).mp (not_not.mp other)
        obtain ⟨child, found⟩ := Option.ne_none_iff_exists'.mp
          ((shows.mem_kids_iff (Ne.symm nonzero.1)).mp listed)
        have below := shows.below found
        obtain ⟨live', full'⟩ := full.follow found
        refine ih (trunk.loc_of_mem (by simp) inside listed) below full'
          (fun _ => ?_) nonzero.2 (by simpa using onward) probe member
        rw [below.kids_self]
        exact labelsOf_ne_nil live'

/-- A zero byte leads to the terminal, and from there to the cell whose number is the value. -/
theorem probes_zero {val : IdT} (managed : da.Managed) (trunk : Trunk da loc contents none fun _ => 0)
    (inside : loc path = some n) (live : path ≠ [] → contents.kids path ≠ [])
    (base : ∀ e, loc (0 :: path) = some e → (da.array e).base = asInt val)
    (small : val.toNat < 2 ^ 31) (room : val.toNat < da.size) :
    ∀ probe ∈ da.probes n [0], 0 ≤ probe.1 ∧ place probe.1 probe.2 < da.size := by
  rw [probes, List.forall_mem_cons]
  refine ⟨probe_bounded managed trunk inside live 0, ?_⟩
  split_ifs with other
  · simp
  · have there := trunk.loc_of_mem (by simp) inside ((trunk.check_place_iff inside _).mp (not_not.mp other))
    rw [probes, List.forall_mem_singleton, base _ there, asInt_eq small, place_zero]
    exact ⟨Int.natCast_nonneg _, room⟩

end Taboo.DoubleArray
