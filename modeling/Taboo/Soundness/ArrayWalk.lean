import Taboo.Model.ArrayTrie
import Taboo.Soundness.StoredTrie

/-! # The walk through the cells

`begin` goes down along first children and `next` climbs to the next sibling; together they visit the
values below a node in the order of the trie and come to an end.
-/

namespace Taboo.DoubleArray

open Container

variable {da : DoubleArray} {loc : Route → Option ℕ} {contents : Contents} {top above path : Route}
  {label c : UInt8} {root n e len fuel fuel' : ℕ}

/-- A walk that goes on behind its last value. -/
def walkThen {σ : Type} (cb : IdT → σ → Bool × σ) : List IdT → (σ → σ) → σ → σ
  | [], next, state => next state
  | funnelId :: rest, next, state =>
      if funnelId = noPath then state
      else
        let answer := cb funnelId state
        if answer.1 then walkThen cb rest next answer.2 else answer.2

section Walk

variable {σ : Type} {cb : IdT → σ → Bool × σ}

theorem walkThen_id (ids : List IdT) (state : σ) : walkThen cb ids id state = Trie.walk cb ids state := by
  induction ids generalizing state with
  | nil => rfl
  | cons funnelId rest ih => simp only [walkThen, Trie.walk, ih]

theorem walkThen_append (first second : List IdT) (next : σ → σ) (state : σ) :
    walkThen cb (first ++ second) next state = walkThen cb first (walkThen cb second next) state := by
  induction first generalizing state with
  | nil => rfl
  | cons funnelId rest ih => simp only [List.cons_append, walkThen, ih]

end Walk

/-! ### How deep a node can lie -/

theorem Trunk.exists_above (trunk : Trunk da loc contents none fun _ => 0)
    (inside : loc (label :: path) = some e) :
    ∃ above, loc path = some above ∧ (da.array e).check = above := by
  obtain ⟨-, above, known, linked⟩ := trunk.laid.edge _ _ _ inside
  exact ⟨above, known, parent_eq_some_iff.mp linked⟩

/-- There are more cells than labels on the way to one of them. -/
theorem Trunk.depth_lt (trunk : Trunk da loc contents none fun _ => 0) (managed : da.Managed)
    (inside : loc path = some e) :
    path.length < da.size := by
  have along : ∀ i, ∃ cell, loc (path.drop i) = some cell := by
    intro i
    induction i with
    | zero => exact ⟨e, inside⟩
    | succ i ih =>
      obtain ⟨cell, there⟩ := ih
      rw [← List.tail_drop]
      cases shape : path.drop i with
      | nil => exact ⟨0, trunk.laid.start⟩
      | cons label rest =>
        rw [shape] at there
        obtain ⟨above, known, -⟩ := trunk.exists_above there
        exact ⟨above, known⟩
  choose cell there using along
  have distinct : ((List.range (path.length + 1)).map cell).Nodup := by
    refine List.Nodup.map_on (fun i first j second same => ?_) List.nodup_range
    have routes := trunk.laid.injective _ _ _ (there i) (same ▸ there j)
    have lengths := congrArg List.length routes
    rw [List.length_drop, List.length_drop] at lengths
    rw [List.mem_range] at first second
    omega
  have bounded : (List.range (path.length + 1)).map cell ⊆ List.range da.size := by
    intro x member
    obtain ⟨i, -, rfl⟩ := List.mem_map.mp member
    exact List.mem_range.mpr (managed.bound (trunk.used (there i)))
  have fits := List.Nodup.length_le_of_subset distinct bounded
  rw [List.length_map, List.length_range, List.length_range] at fits
  omega

/-! ### Rounds enough -/

theorem climb_fuel (trunk : Trunk da loc contents none fun _ => 0) (inside : loc above = some n)
    (start : loc top = some root)
    (suffix : top <:+ above) (enough : above.length < fuel) (enough' : above.length < fuel')
    (c : UInt8) (len : ℕ) : da.climb root fuel c n len = da.climb root fuel' c n len := by
  induction above generalizing n c len fuel fuel' with
  | nil =>
    obtain rfl : top = [] := List.suffix_nil.mp suffix
    rw [inside] at start
    cases start
    cases fuel <;> cases fuel' <;> simp_all [climb]
  | cons label above ih =>
    obtain ⟨fuel, rfl⟩ : ∃ rounds, fuel = rounds + 1 := Nat.exists_eq_succ_of_ne_zero (by omega)
    obtain ⟨fuel', rfl⟩ : ∃ rounds, fuel' = rounds + 1 := Nat.exists_eq_succ_of_ne_zero (by omega)
    rw [climb, climb]
    split_ifs with up
    · obtain ⟨parent, known, check⟩ := trunk.exists_above inside
      have further : top <:+ above := by
        rcases List.suffix_cons_iff.mp suffix with rfl | further
        · rw [inside] at start
          exact absurd (Option.some.inj start) up.2
        · exact further
      rw [check, Int.toNat_natCast]
      exact ih known further (by simpa using enough) (by simpa using enough') _ _
    · rfl

theorem Trunk.child_listed (trunk : Trunk da loc contents none fun _ => 0)
    (inside : loc (label :: path) = some e)
    (nonzero : (da.ninfo e).child ≠ 0) : (da.ninfo e).child ∈ contents.kids (label :: path) := by
  have thread := (trunk.node _ _ (by simp) inside).thread
  rw [lead, List.nil_append] at thread
  cases kids : contents.kids (label :: path) with
  | nil =>
    rw [kids] at thread
    exact absurd thread nonzero
  | cons first rest =>
    rw [kids] at thread
    rw [thread.1]
    exact List.mem_cons_self

theorem descend_fuel (trunk : Trunk da loc contents none fun _ => 0) (managed : da.Managed)
    (inside : loc path = some n)
    (listed : c ≠ 0 → c ∈ contents.kids path) (enough : da.size ≤ fuel + path.length)
    (enough' : da.size ≤ fuel' + path.length) :
    da.descend fuel n c len = da.descend fuel' n c len := by
  have depth := trunk.depth_lt managed inside
  induction fuel generalizing path n c len fuel' with
  | zero => omega
  | succ fuel ih =>
    obtain ⟨fuel', rfl⟩ : ∃ rounds, fuel' = rounds + 1 := Nat.exists_eq_succ_of_ne_zero (by omega)
    rw [descend, descend]
    split_ifs with zero
    · rfl
    · have there := trunk.loc_of_mem (by simp) inside (listed zero)
      refine ih there (trunk.child_listed there) ?_ ?_ (trunk.depth_lt managed there) <;>
        rw [List.length_cons] <;> omega

/-! ### One step of the walk -/

/-- What `next` does once it has read a sibling's label. -/
def resume (da : DoubleArray) (root : ℕ) (c : UInt8) (node len : ℕ) : ℤ × ℕ × ℕ :=
  let climbed := da.climb root da.size c node len
  if climbed.1 ≠ 0 then da.begin (place (da.array climbed.2.1).base climbed.1) (climbed.2.2 + 1)
  else (asInt noPath, climbed.2.1, climbed.2.2)

theorem next_eq (node len root : ℕ) :
    da.next node len root = da.resume root (da.sibling (place (da.array node).base 0)) node len := rfl

theorem resume_edge (room : 0 < da.size) (edge : c ≠ 0) :
    da.resume root c n len = da.begin (place (da.array n).base c) (len + 1) := by
  obtain ⟨size, shape⟩ : ∃ size, da.size = size + 1 := Nat.exists_eq_succ_of_ne_zero (by omega)
  have still : da.climb root da.size c n len = (c, n, len) := by
    rw [shape, climb, if_neg fun both => edge both.1]
  rw [resume, still]
  simp [edge]

theorem resume_root : da.resume root 0 root len = (asInt noPath, root, len) := by
  cases shape : da.size <;> simp [resume, shape, climb]

/-- From a node without further edges the walk goes on behind its own edge. -/
theorem resume_up (trunk : Trunk da loc contents none fun _ => 0) (managed : da.Managed)
    (inside : loc above = some n)
    (below : loc (label :: above) = some e) (start : loc top = some root) (suffix : top <:+ above) :
    da.resume root 0 e (len + 1) = da.resume root (da.sibling e) n len := by
  have ne : e ≠ root := by
    rintro rfl
    have same := trunk.laid.injective _ _ _ below start
    have := suffix.length_le
    rw [← same, List.length_cons] at this
    omega
  have depth := trunk.depth_lt managed below
  rw [List.length_cons] at depth
  obtain ⟨size, shape⟩ : ∃ size, da.size = size + 1 := Nat.exists_eq_succ_of_ne_zero (by omega)
  obtain ⟨parent, known, check⟩ := trunk.exists_above below
  rw [inside] at known
  cases known
  have fuel := climb_fuel trunk inside start suffix (by omega : above.length < size)
    (by omega : above.length < size + 1) (da.sibling e) len
  have step : da.climb root (size + 1) 0 e (len + 1) = da.climb root size (da.sibling e) n len := by
    rw [climb, if_pos ⟨rfl, ne⟩, check]
    rfl
  rw [resume, resume, shape, step, fuel]

/-! ### The walk over a subtree -/

/-- The edges from one on below the node in cell `n`. -/
structure Forest (da : DoubleArray) (contents : Contents) (above : Route) (n : ℕ)
    (edges : SiblingTrie UInt8 IdT) : Prop where
  chain : Chain da.sibling (place (da.array n).base) (edges.labels.headD 0) edges.labels
  distinct : edges.Distinct
  full : edges.Full
  listed : ∀ label ∈ edges.labels, label ∈ contents.kids above
  shows : ∀ label child, edges.follow label = some child → Shows contents (label :: above) child

variable {node : TrieNode UInt8 IdT}

/-- All edges of a node, and where the walk comes from to them: the terminal, or the node itself. -/
theorem Shows.forest (trunk : Trunk da loc contents none fun _ => 0) (shows : Shows contents path node)
    (inside : loc path = some n) (distinct : node.children.Distinct) (full : node.children.Full)
    (rootless : path = [] → node.value = none) :
    Forest da contents path n node.children ∧
      (path = [] ∨ node.value ≠ none → da.sibling (place (da.array n).base 0) =
        node.children.labels.headD 0) ∧
      (path ≠ [] → (da.ninfo n).child = if node.value = none then node.children.labels.headD 0 else
        0) := by
  have thread := (trunk.node path n (by simp) inside).thread
  rw [shows.kids_self, labelsOf] at thread
  have zero := shows.nonzero_self
  have edges : ∀ c, Chain da.sibling (place (da.array n).base) c node.children.labels →
      Forest da contents path n node.children ∧ c = node.children.labels.headD 0 := fun c chain =>
    ⟨⟨chain.first_eq ▸ chain, distinct, full,
      fun label member => by simp [shows.kids_self, labelsOf, member],
      fun _ _ => shows.below⟩, chain.first_eq⟩
  by_cases behind : path = [] ∨ node.value ≠ none
  · have order : lead path ++ ((if node.value = none then [] else [0]) ++ node.children.labels) =
        0 :: node.children.labels := by
      rcases eq_or_ne path [] with root | inner
      · simp [root, lead, rootless root]
      · simp [lead_of_ne_nil inner, behind.resolve_left inner]
    rw [order] at thread
    obtain ⟨forest, first⟩ := edges _ thread.2
    refine ⟨forest, fun _ => first, fun inner => ?_⟩
    rw [if_neg (behind.resolve_left inner), thread.1]
  · obtain ⟨inner, none⟩ := not_or.mp behind
    rw [not_not] at none
    rw [lead_of_ne_nil inner, if_pos none, List.nil_append, List.nil_append] at thread
    obtain ⟨forest, first⟩ := edges _ (thread.chain zero)
    exact ⟨forest, fun both => absurd both behind, fun _ => by rw [if_pos none, first]⟩

variable {σ : Type} {cb : IdT → σ → Bool × σ}

theorem begin_of_ne_zero (ne : n ≠ 0) : da.begin n len = da.descend da.size n (da.ninfo n).child len := by
  rw [begin, if_neg ne]

/-- The way down along a first edge is a step of the walk. -/
theorem descend_edge (trunk : Trunk da loc contents none fun _ => 0) (managed : da.Managed)
    (inside : loc path = some n)
    (listed : c ∈ contents.kids path) (nonzero : c ≠ 0) (root len : ℕ) :
    da.descend da.size n c len = da.resume root c n len := by
  have below := trunk.loc_of_mem (by simp) inside listed
  have depth := trunk.depth_lt managed below
  rw [List.length_cons] at depth
  obtain ⟨size, shape⟩ : ∃ size, da.size = size + 1 := Nat.exists_eq_succ_of_ne_zero (by omega)
  rw [resume_edge (by omega) nonzero, begin_of_ne_zero (trunk.laid.ne_origin below), shape, descend,
    if_neg nonzero]
  refine descend_fuel trunk managed below (trunk.child_listed below) ?_ ?_ <;>
    rw [List.length_cons] <;> omega

/-- A node with a value is where the way down ends. -/
theorem begin_terminal (trunk : Trunk da loc contents none fun _ => 0) (managed : da.Managed)
    (inside : loc (label :: path) = some e) (first : (da.ninfo e).child = 0)
    (shows : Shows contents (label :: path) node) {val : IdT}
    (own : node.value = some val) : da.begin e len = (asInt val, e, len) := by
  have there := trunk.loc_of_mem (by simp) inside (shows.terminal_mem_iff.mpr (by simp [own]))
  obtain ⟨-, base⟩ := (trunk.node _ _ (by simp) there).terminal _ rfl
  have depth := trunk.depth_lt managed inside
  obtain ⟨size, shape⟩ : ∃ size, da.size = size + 1 := Nat.exists_eq_succ_of_ne_zero (by omega)
  rw [begin_of_ne_zero (trunk.laid.ne_origin inside), first, shape, descend, if_pos rfl, base]
  rw [show contents.vals (label :: path) = asInt val from shows.vals [] val own]

/-- The value of a node, then its edges. -/
theorem visit_node (trunk : Trunk da loc contents none fun _ => 0) (managed : da.Managed)
    (inside : loc (label :: path) = some e)
    (shows : Shows contents (label :: path) node) (distinct : node.children.Distinct)
    (full : node.children.Full) (live : node.value ≠ none ∨ node.children ≠ .nil)
    (edges : ∀ fuel state, ArrayTrie.visit cb da root (fuel + node.children.entries.length)
      (da.resume root (node.children.labels.headD 0) e len) state =
        walkThen cb (node.children.entries.map Prod.snd)
        (ArrayTrie.visit cb da root fuel (da.resume root 0 e len)) state)
    (fuel : ℕ) (state : σ) : ArrayTrie.visit cb da root (fuel + node.entries.length)
    (da.begin e len) state =
      walkThen cb (node.entries.map Prod.snd) (ArrayTrie.visit cb da root fuel
        (da.resume root 0 e len)) state := by
  obtain ⟨-, behind, child⟩ := shows.forest trunk inside distinct full (by simp)
  have first := child (by simp)
  cases own : node.value with
  | none =>
    have nonzero : node.children.labels.headD 0 ≠ 0 := by
      intro zero
      cases shape : node.children with
      | nil => exact (live.resolve_left (not_not.mpr own)) shape
      | cons label value children siblings =>
        rw [shape] at zero
        exact shows.nonzero_self (by simp [shape, SiblingTrie.labels, show label = 0 from zero])
    have order : node.entries = node.children.entries := by simp [TrieNode.entries, own]
    rw [own, if_pos rfl] at first
    have down := descend_edge trunk managed inside
      (first ▸ trunk.child_listed inside (first ▸ nonzero)) nonzero root len
    rw [begin_of_ne_zero (trunk.laid.ne_origin inside), first, down, order, edges]
  | some val =>
    rw [own, if_neg (by simp)] at first
    have onward := behind (Or.inr (by simp [own]))
    have order : node.entries = ([], val) :: node.children.entries := by simp [TrieNode.entries, own]
    rw [begin_terminal trunk managed inside first shows own, order, List.length_cons,
      ← Nat.add_assoc, ArrayTrie.visit, asValue_asInt, next_eq, onward]
    simp only [List.map_cons, walkThen, edges]

theorem visit_forest (cb : IdT → σ → Bool × σ) {edges : SiblingTrie UInt8 IdT}
    (trunk : Trunk da loc contents none fun _ => 0) (managed : da.Managed)
    (start : loc top = some root) (suffix : top <:+ above) (inside : loc above = some n)
    (forest : Forest da contents above n edges) (len fuel : ℕ) (state : σ) :
    ArrayTrie.visit cb da root (fuel + edges.entries.length)
    (da.resume root (edges.labels.headD 0) n len) state =
      walkThen cb (edges.entries.map Prod.snd)
      (ArrayTrie.visit cb da root fuel (da.resume root 0 n len)) state := by
  induction edges generalizing above n len fuel state with
  | nil => rfl
  | cons label value children siblings ihChildren ihSiblings =>
    obtain ⟨-, nonzero, chain⟩ := forest.chain
    obtain ⟨fresh, ofChildren, ofSiblings⟩ := forest.distinct
    obtain ⟨live, fullChildren, fullSiblings⟩ := forest.full
    have there := trunk.loc_of_mem (by simp) inside (forest.listed label List.mem_cons_self)
    have shows := forest.shows label ⟨value, children⟩ (by simp [SiblingTrie.follow])
    have others : Forest da contents above n siblings := by
      refine ⟨chain.first_eq ▸ chain, ofSiblings, fullSiblings,
        fun other member => forest.listed other (List.mem_cons_of_mem _ member),
          fun other child found => forest.shows other child ?_⟩
      have ne : label ≠ other := by
        rintro rfl
        rw [fresh] at found
        cases found
      rw [SiblingTrie.follow, if_neg ne, found]
    have below := (shows.forest trunk there ofChildren fullChildren (by simp)).1
    have order : (SiblingTrie.cons label value children siblings).entries.map Prod.snd =
        (TrieNode.mk value children).entries.map Prod.snd ++ siblings.entries.map Prod.snd := by
      simp [SiblingTrie.entries, TrieNode.entries, Function.comp_def]
    have length : (SiblingTrie.cons label value children siblings).entries.length =
        siblings.entries.length + (TrieNode.mk value children).entries.length := by
      have lengths := congrArg List.length order
      simp at lengths
      omega
    have further : top <:+ label :: above := suffix.trans (List.suffix_cons label above)
    have depth := trunk.depth_lt managed there
    rw [SiblingTrie.labels, List.headD_cons, resume_edge (by omega) nonzero, length,
      ← Nat.add_assoc, order, walkThen_append,
      visit_node trunk managed there shows ofChildren fullChildren live
        (fun fuel state => ihChildren further there below (len + 1) fuel state)]
    have behind : ArrayTrie.visit cb da root (fuel + siblings.entries.length)
        (da.resume root 0 (place (da.array n).base label) (len + 1)) =
        walkThen cb (siblings.entries.map Prod.snd)
          (ArrayTrie.visit cb da root fuel (da.resume root 0 n len)) := by
      funext state
      rw [resume_up trunk managed inside there start suffix, chain.first_eq]
      exact ihSiblings suffix inside others len fuel state
    rw [behind]

/-! ### The walk of `traverse` -/

variable {d : Da} {word : Bytes}

/-- Every node of the trie has its cell. -/
theorem Shows.located (trunk : Trunk da loc contents none fun _ => 0) (shows : Shows contents path node)
    (inside : loc path = some n) {target : TrieNode UInt8 IdT}
    (reached : node.descend word = some target) :
    Shows contents (word.reverse ++ path) target ∧ ∃ cell, loc (word.reverse ++ path) = some cell := by
  induction word generalizing path n node with
  | nil =>
    cases reached
    exact ⟨shows, n, inside⟩
  | cons label rest ih =>
    obtain ⟨child, found, reached⟩ := Option.bind_eq_some_iff.mp reached
    have nonzero : label ≠ 0 := by
      rintro rfl
      exact shows.nonzero_self (SiblingTrie.mem_labels_iff.mpr (by simp [found]))
    have member := (shows.mem_kids_iff nonzero).mpr (by simp [found])
    simpa using ih (shows.below found) (trunk.loc_of_mem (by simp) inside member) reached

/-- Every value has a cell of its own. -/
theorem Stores.entries_le (stores : Stores da d loc contents)
    (reached : d.root.descend word = some node) :
    node.entries.length ≤ da.size := by
  have distinct := TrieNode.descend_distinct d.distinct reached
  obtain ⟨shows, n, inside⟩ := stores.shows.located stores.trunk stores.trunk.laid.start reached
  have terminal : ∀ rest ∈ node.entries.map Prod.fst, ∃ cell, loc
      (0 :: (rest.reverse ++ (word.reverse ++ []))) = some cell := by
    intro rest member
    obtain ⟨⟨_, val⟩, entry, rfl⟩ := List.mem_map.mp member
    obtain ⟨target, below, own⟩ := Option.bind_eq_some_iff.mp
      ((TrieNode.mem_entries_iff distinct _ _).mp entry)
    obtain ⟨shows', cell, there⟩ := shows.located stores.trunk inside below
    exact ⟨_, stores.trunk.loc_of_mem (by simp) there (shows'.terminal_mem_iff.mpr (by simp [own]))⟩
  choose! cell there using terminal
  have apart : ((node.entries.map Prod.fst).map cell).Nodup := by
    refine List.Nodup.map_on (fun one first two second same => ?_) (TrieNode.entries_nodup distinct)
    have routes := stores.trunk.laid.injective _ _ _ (there one first) (same ▸ there two second)
    exact List.reverse_injective (List.append_cancel_right (List.cons.inj routes).2)
  have bounded : (node.entries.map Prod.fst).map cell ⊆ List.range da.size := by
    intro x member
    obtain ⟨rest, listed, rfl⟩ := List.mem_map.mp member
    exact List.mem_range.mpr (stores.managed.bound (stores.trunk.used (there rest listed)))
  simpa using List.Nodup.length_le_of_subset apart bounded

/-- The loop over a subtree visits its values in their order, and needs no more rounds than there are
cells. -/
theorem Stores.visit (stores : Stores da d loc contents) (reached : d.root.descend word = some node)
    (inside : loc word.reverse = some e) (enough : da.size ≤ fuel) (cb : IdT → σ → Bool × σ)
    (len : ℕ) (state : σ) :
    ArrayTrie.visit cb da e fuel (da.begin e len) state = Trie.walk cb
      (node.entries.map Prod.snd) state := by
  have distinct := TrieNode.descend_distinct d.distinct reached
  have trunk := stores.trunk
  obtain ⟨rounds, rfl⟩ : ∃ rounds, fuel = rounds + node.entries.length :=
    Nat.exists_eq_add_of_le' ((stores.entries_le reached).trans enough)
  have located := (stores.shows.located trunk trunk.laid.start reached).1
  rw [List.append_nil] at located
  have ended : ArrayTrie.visit cb da e rounds (da.resume e 0 e len) = id := by
    funext state
    rw [resume_root]
    cases rounds <;> simp [ArrayTrie.visit, asValue_asInt]
  have rootless : word.reverse = [] → node.value = none := by
    intro root
    rw [List.reverse_eq_nil_iff.mp root] at reached
    cases reached
    exact stores.rootless
  have full : node.children.Full := by
    cases word with
    | nil =>
      cases reached
      exact stores.full
    | cons label rest => exact (TrieNode.descend_full stores.full reached).2
  obtain ⟨forest, behind, -⟩ := located.forest trunk inside distinct full rootless
  have edges := visit_forest cb trunk stores.managed inside List.suffix_rfl inside forest len
  rw [← walkThen_id, ← ended]
  cases path : word.reverse with
  | nil =>
    rw [path] at inside behind
    rw [trunk.laid.start] at inside
    cases inside
    have order : node.entries = node.children.entries := by simp [TrieNode.entries, rootless path]
    have first : (da.ninfo 0).child = 0 := (trunk.node [] 0 (by simp) trunk.laid.start).thread.1
    have onward : (da.ninfo (place (da.array 0).base 0)).sibling = node.children.labels.headD 0 :=
      behind (Or.inl rfl)
    have down : da.begin 0 len = da.resume 0 (node.children.labels.headD 0) 0 len := by
      rw [begin, if_pos rfl, first, onward]
      dsimp only
      split_ifs with empty
      · rw [empty, resume_root]
      · have listed : node.children.labels.headD 0 ∈ node.children.labels := by
          cases shape : node.children.labels with
          | nil => exact absurd (by simp [shape]) empty
          | cons label rest => exact List.mem_cons_self
        exact descend_edge trunk stores.managed trunk.laid.start
          (path ▸ forest.listed _ listed) empty 0 len
    rw [order, down, edges]
  | cons label above =>
    rw [path] at inside located
    have live : node.value ≠ none ∨ node.children ≠ .nil := by
      obtain ⟨first, rest, rfl⟩ := List.exists_cons_of_ne_nil (show word ≠ [] by rintro rfl; cases path)
      exact (TrieNode.descend_full stores.full reached).1
    exact visit_node trunk stores.managed inside located distinct full live edges rounds state

end Taboo.DoubleArray
