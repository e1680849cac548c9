import Taboo.Soundness.ArrayWalk
import Taboo.Soundness.Numbering

/-! # The trie on the arrays and the trie

Whatever `attach` does to the arrays and calls back with, `traverse` visits and `operator[]` finds is what
the trie says. The only words that a lookup in the arrays takes elsewhere are those with a byte zero.
-/

namespace Taboo

open Container DoubleArray

/-- The arrays hold the trie. -/
structure Refines (arrays : ArrayTrie) (trie : Trie) : Prop where
  cursor : arrays.funnelIdCursor = trie.funnelIdCursor
  stores : ∃ loc contents, Stores arrays.da trie.da loc contents

namespace Refines

variable {arrays : ArrayTrie} {trie : Trie} {word : Bytes}

theorem empty : Refines .empty .empty := ⟨rfl, _, _, stores_initial⟩

private theorem find_fst (refines : Refines arrays trie) (nonzero : 0 ∉ word) :
    (arrays.da.find 0 0 word).1 = asInt (trie.da.traverse word).1 := by
  obtain ⟨-, loc, contents, stores⟩ := refines
  have start := stores.trunk.laid.start
  cases reached : trie.da.root.descend word with
  | none =>
    rw [find_of_missing stores.trunk start stores.shows nonzero reached 0]
    simp [Da.traverse, reached]
  | some node =>
    obtain ⟨e, -, found⟩ := find_of_reached stores.trunk start stores.shows nonzero reached 0
    simp [Da.traverse, found, reached]

theorem traverse_fst (refines : Refines arrays trie) (nonzero : 0 ∉ word) :
    (arrays.da.traverse word).1 = (trie.da.traverse word).1 := by
  simp only [DoubleArray.traverse, refines.find_fst nonzero, asValue_asInt]

theorem exactMatchSearch_eq (refines : Refines arrays trie) (nonzero : 0 ∉ word) :
    arrays.da.exactMatchSearch word = trie.da.exactMatchSearch word := by
  have marker : ∀ val, asInt val = asInt noPath ↔ val = noPath := fun val =>
    ⟨fun same => by rw [← asValue_asInt val, same, asValue_asInt], fun same => same ▸ rfl⟩
  simp only [DoubleArray.exactMatchSearch, Da.exactMatchSearch, refines.find_fst nonzero, marker]
  split_ifs <;> exact asValue_asInt _

theorem get_eq (refines : Refines arrays trie) (nonzero : 0 ∉ word) :
    arrays.get word = trie.get word := by
  simp only [ArrayTrie.get, Trie.get, refines.exactMatchSearch_eq nonzero]

theorem attachKey (refines : Refines arrays trie) {σ : Type} (cb : IdT → σ → σ) (state : σ) (key : Key) :
    (arrays.attachKey cb state key.bytes).1 = (trie.attachKey cb state key).1 ∧
      Refines (arrays.attachKey cb state key.bytes).2.1 (trie.attachKey cb state key).2.1 ∧
      (arrays.attachKey cb state key.bytes).2.2 = (trie.attachKey cb state key).2.2 := by
  simp only [ArrayTrie.attachKey, Trie.attachKey, refines.traverse_fst key.noZero, refines.cursor]
  split_ifs
  · obtain ⟨-, loc, contents, stores⟩ := refines
    exact ⟨rfl, ⟨rfl, stores.update key _⟩, rfl⟩
  · exact ⟨rfl, refines, rfl⟩

theorem attach (refines : Refines arrays trie) {σ : Type} (cb : IdT → σ → σ) (state : σ)
    (keys : KeyList) :
    (arrays.attach cb state (keys.map Key.bytes)).1 = (trie.attach cb state keys).1 ∧
      Refines (arrays.attach cb state (keys.map Key.bytes)).2.1 (trie.attach cb state keys).2.1 ∧
      (arrays.attach cb state (keys.map Key.bytes)).2.2 = (trie.attach cb state keys).2.2 := by
  induction keys generalizing arrays trie state with
  | nil => exact ⟨rfl, refines, rfl⟩
  | cons key rest ih =>
    obtain ⟨flag, next, called⟩ := refines.attachKey cb state key
    obtain ⟨flag', next', called'⟩ := ih next (arrays.attachKey cb state key.bytes).2.2
    rw [called] at flag' next' called'
    simp only [List.map_cons, ArrayTrie.attach, Trie.attach, flag, called, flag', called']
    exact ⟨trivial, next', trivial⟩

/-- `traverse` visits the funnels that the trie has below a word, in the same order. -/
theorem traverse (refines : Refines arrays trie) {σ : Type} (cb : IdT → σ → Bool × σ) (state : σ)
    (nonzero : 0 ∉ word) (value : trie.funnelId? word ≠ some noPath) :
    arrays.traverse word cb state = trie.traverse word cb state := by
  obtain ⟨-, loc, contents, stores⟩ := refines
  have start := stores.trunk.laid.start
  cases reached : trie.da.root.descend word with
  | none =>
    have missing := find_of_missing stores.trunk start stores.shows nonzero reached 0
    simp [ArrayTrie.traverse, DoubleArray.traverse, Trie.traverse, Da.traverse, missing, reached,
      asValue_asInt]
  | some node =>
    obtain ⟨e, there, found⟩ := find_of_reached stores.trunk start stores.shows nonzero reached 0
    rw [List.append_nil] at there
    have loop := fun state => stores.visit reached there le_rfl cb (0 + word.length) state
    have own : node.value.getD noValue ≠ noPath := by
      cases stored : node.value with
      | none => simp [noValue, noPath]
      | some id =>
        rintro rfl
        exact value (by simp [Trie.funnelId?, TrieNode.find?, reached, stored])
    simp only [ArrayTrie.traverse, DoubleArray.traverse, Trie.traverse, Da.traverse, found, reached,
      asValue_asInt, loop, ne_eq, own, not_false_eq_true, if_true]

end Refines

namespace DoubleArray

/-- The values that a run has written to a word. -/
def valuesOf (writes : List (Key × IdT)) (word : Bytes) : List IdT :=
  (writes.filter fun write => write.1.bytes = word).map Prod.snd

/-- A value that is not zero gives way to smaller ones only. -/
private theorem find?_updates {d : Da} {word : Bytes} (writes : List (Key × IdT))
    (values : ∀ val ∈ valuesOf writes word, val ≠ 0) (held : d.root.find? word ≠ some 0) :
    (writes.foldl (fun d write => d.update write.1 write.2) d).root.find? word =
      ((d.root.find? word).toList ++ valuesOf writes word).min? := by
  induction writes generalizing d with
  | nil =>
    rw [List.foldl_nil]
    cases d.root.find? word <;> rfl
  | cons write rest ih =>
    obtain ⟨key, val⟩ := write
    rw [List.foldl_cons]
    have found : (d.update key val).root.find? word = if key.bytes = word then
        some (if (d.root.find? key.bytes).getD 0 = 0 ∨ val < (d.root.find? key.bytes).getD 0 then val
          else (d.root.find? key.bytes).getD 0) else d.root.find? word := TrieNode.find?_insert ..
    by_cases same : key.bytes = word
    · subst same
      have listed : valuesOf ((key, val) :: rest) key.bytes = val :: valuesOf rest key.bytes := by
        simp [valuesOf]
      rw [listed] at values ⊢
      have later : ∀ val ∈ valuesOf rest key.bytes, val ≠ 0 := fun other member =>
        values other (List.mem_cons_of_mem _ member)
      rw [if_pos rfl] at found
      cases stored : d.root.find? key.bytes with
      | none =>
        rw [stored, Option.getD_none, if_pos (Or.inl rfl)] at found
        rw [ih later (by simpa [found] using values val List.mem_cons_self), found]
        rfl
      | some before =>
        have positive : before ≠ 0 := by simpa [stored] using held
        have least : (if before = 0 ∨ val < before then val else before) = min before val := by
          simp only [positive, false_or, UInt32.min_def, UInt32.le_iff_toNat_le, UInt32.lt_iff_toNat_lt]
          split_ifs <;> first | rfl | omega
        rw [stored, Option.getD_some, least] at found
        rw [ih later ?_, found]
        · rfl
        · rw [found, ← least]
          split_ifs
          · simpa using values val List.mem_cons_self
          · simpa using positive
    · rw [if_neg same] at found
      have listed : valuesOf ((key, val) :: rest) word = valuesOf rest word := by simp [valuesOf, same]
      rw [listed] at values ⊢
      rw [ih values (found ▸ held), found]

private theorem find?_run (writes : List (Key × IdT)) (word : Bytes)
    (values : ∀ val ∈ valuesOf writes word, val ≠ 0) :
    (writes.foldl (fun d write => d.update write.1 write.2) Da.empty).root.find? word =
      (valuesOf writes word).min? := by
  rw [find?_updates writes values (by simp [Da.empty])]
  simp [Da.empty]

/-- `exactMatchSearch` answers with the least value ever written to the word. -/
theorem exactMatchSearch_least (writes : List (Key × IdT)) (word : Bytes) (nonzero : 0 ∉ word)
    (values : ∀ val ∈ valuesOf writes word, val ≠ 0 ∧ val ≠ noPath) :
    (initial.updates writes).exactMatchSearch word = (valuesOf writes word).min?.getD noValue := by
  obtain ⟨_, _, stores⟩ := stores_initial.updates writes
  have found := find?_run writes word fun val member => (values val member).1
  have refines : Refines ⟨initial.updates writes, 0⟩
    ⟨writes.foldl (fun d write => d.update write.1 write.2) Da.empty, 0⟩ :=
    ⟨rfl, _, _, stores⟩
  rw [refines.exactMatchSearch_eq nonzero, ← found]
  cases reached : (writes.foldl (fun d write => d.update write.1 write.2) Da.empty).root.descend word with
  | none => simp [Da.exactMatchSearch, Da.traverse, TrieNode.find?, reached]
  | some node =>
    cases own : node.value with
    | none => simp [Da.exactMatchSearch, Da.traverse, TrieNode.find?, reached, own, noValue, noPath]
    | some val =>
      have least : (valuesOf writes word).min? = some val := by
        simp [← found, TrieNode.find?, reached, own]
      have path := (values val (List.min?_mem least)).2
      simp [Da.exactMatchSearch, Da.traverse, TrieNode.find?, reached, own, path]

theorem exactMatchSearch_threeWrites :
    (initial.updates threeWrites).exactMatchSearch
      (ascii "to") = (valuesOf threeWrites (ascii "to")).min?.getD noValue :=
  exactMatchSearch_least threeWrites (ascii "to") (by decide)
    (List.forall_mem_cons.mpr ⟨by decide, List.forall_mem_singleton.mpr (by decide)⟩)

/-- `begin` and `next` visit every key that begins with the word once, with its value, and come to an end. -/
theorem visit_extensions (writes : List (Key × IdT)) (word : Bytes) (nonzero : 0 ∉ word)
    (values : ∀ write ∈ writes, write.2 ≠ 0 ∧ write.2 ≠ noPath) :
    let da := initial.updates writes
    let found := da.traverse word
    ∃ entries : List (Bytes × IdT), (entries.map Prod.fst).Nodup ∧
      (∀ extension val, (extension, val) ∈ entries ↔
        (valuesOf writes (word ++ extension)).min? = some val) ∧
      (found.1 = noPath → entries = []) ∧
      (found.1 ≠ noPath → ∀ (σ : Type) (cb : IdT → σ → Bool × σ) (state : σ) (fuel : ℕ), da.size ≤ fuel →
        ArrayTrie.visit cb da found.2.1 fuel (da.begin found.2.1 found.2.2) state =
          Trie.walk cb (entries.map Prod.snd) state) := by
  obtain ⟨loc, contents, stores⟩ := stores_initial.updates writes
  have stored := fun word => find?_run writes word fun val member => by
    obtain ⟨write, listed, rfl⟩ := List.mem_map.mp member
    exact (values write (List.mem_of_mem_filter listed)).1
  have start := stores.trunk.laid.start
  generalize writes.foldl (fun d write => d.update write.1 write.2) Da.empty = d at *
  dsimp only
  cases reached : d.root.descend word with
  | none =>
    have missing := find_of_missing stores.trunk start stores.shows nonzero reached 0
    refine ⟨[], List.nodup_nil, fun extension val => ?_, fun _ => rfl, fun other => absurd ?_ other⟩
    · simp [← stored, TrieNode.find?_append, reached]
    · simp [DoubleArray.traverse, missing, asValue_asInt]
  | some node =>
    obtain ⟨e, there, found⟩ := find_of_reached stores.trunk start stores.shows nonzero reached 0
    rw [List.append_nil] at there
    have distinct := TrieNode.descend_distinct d.distinct reached
    refine ⟨node.entries, TrieNode.entries_nodup distinct, fun extension val => ?_, fun path => ?_, ?_⟩
    · rw [TrieNode.mem_entries_iff distinct, ← stored, TrieNode.find?_append, reached, Option.bind_some]
    · simp only [DoubleArray.traverse, found, asValue_asInt] at path
      cases own : node.value with
      | none =>
        rw [own] at path
        simp [noValue, noPath] at path
      | some val =>
        rw [own] at path
        have least : (valuesOf writes word).min? = some val := by
          rw [← stored, TrieNode.find?, reached, Option.bind_some, own]
        obtain ⟨write, listed, same⟩ := List.mem_map.mp (List.min?_mem least)
        exact absurd (same.trans path) (values write (List.mem_of_mem_filter listed)).2
    · intro _ σ cb state fuel enough
      simp only [DoubleArray.traverse, found]
      exact stores.visit reached there enough cb _ state

theorem visit_threeWrites :
    let da := initial.updates threeWrites
    let found := da.traverse (ascii "t")
    ∃ entries : List (Bytes × IdT), (entries.map Prod.fst).Nodup ∧
      (∀ extension val, (extension, val) ∈ entries ↔
        (valuesOf threeWrites (ascii "t" ++ extension)).min? = some val) ∧
      (found.1 = noPath → entries = []) ∧
      (found.1 ≠ noPath → ∀ (σ : Type) (cb : IdT → σ → Bool × σ) (state : σ) (fuel : ℕ), da.size ≤ fuel →
        ArrayTrie.visit cb da found.2.1 fuel (da.begin found.2.1 found.2.2) state =
          Trie.walk cb (entries.map Prod.snd) state) :=
  visit_extensions threeWrites (ascii "t") (by decide)
    (List.forall_mem_cons.mpr ⟨by decide, List.forall_mem_cons.mpr
      ⟨by decide, List.forall_mem_singleton.mpr (by decide)⟩⟩)

/-- `suffix` undoes `traverse`. -/
theorem suffix_traverse (writes : List (Key × IdT)) (word : Bytes) (nonzero : 0 ∉ word) :
    let da := initial.updates writes
    (da.traverse word).1 ≠ noPath → da.suffix word.length (da.traverse word).2.1 [] = word := by
  obtain ⟨loc, contents, stores⟩ := stores_initial.updates writes
  have start := stores.trunk.laid.start
  intro da path
  cases reached : (writes.foldl (fun d write => d.update write.1 write.2) Da.empty).root.descend word with
  | none =>
    have missing := find_of_missing stores.trunk start stores.shows nonzero reached 0
    exact absurd (by simp [da, DoubleArray.traverse, missing, asValue_asInt]) path
  | some node =>
    obtain ⟨e, there, found⟩ := find_of_reached stores.trunk start stores.shows nonzero reached 0
    rw [List.append_nil] at there
    have back := suffix_eq stores.trunk there []
    simpa [da, DoubleArray.traverse, found] using back

theorem suffix_threeWrites :
    let da := initial.updates threeWrites
    da.suffix 2 (da.traverse (ascii "to")).2.1 [] = ascii "to" :=
  suffix_traverse threeWrites (ascii "to") (by decide) (by decide)

theorem find?_updates_ne_none_iff {d : Da} (writes : List (Key × IdT)) (word : Bytes) :
    (writes.foldl (fun d write => d.update write.1 write.2) d).root.find? word ≠ none ↔
      d.root.find? word ≠ none ∨ ∃ key ∈ (writes.map Prod.fst).toFinset, key.bytes = word := by
  induction writes generalizing d with
  | nil => simp
  | cons write rest ih =>
    have found : (d.update write.1 write.2).root.find? word ≠ none ↔ d.root.find? word ≠ none ∨
        write.1.bytes = word := by
      rw [Da.update, TrieNode.find?_insert]
      split_ifs with same <;> simp [same]
    rw [List.foldl_cons, ih, found]
    simp [or_assoc]

/-- The cells that `num_keys` counts are the terminals of the stored words. -/
private theorem terminal_iff {da : DoubleArray} {d : Da} {loc : Route → Option ℕ} {contents : Contents}
    (stores : Stores da d loc contents) (e : ℕ) :
    (0 ≤ (da.array e).check ∧ (da.array (da.array e).check.toNat).base = e) ↔
      ∃ word, d.root.find? word ≠ none ∧ loc (0 :: word.reverse) = some e := by
  have trunk := stores.trunk
  constructor
  · rintro ⟨used, placed⟩
    have linked : da.parent e = some (da.array e).check.toNat := parent_eq_some_iff.mpr (by omega)
    obtain ⟨label, path, there⟩ := trunk.laid.reached _ _ linked
    obtain ⟨-, n, known, linked'⟩ := trunk.laid.edge _ _ _ there
    obtain rfl := Option.some.inj (linked.symm.trans linked')
    have spotted := (trunk.place_eq (by simp) known there).1
    have zero : label = 0 := by
      refine place_injective (da.array (da.array e).check.toNat).base (spotted.symm.trans ?_)
      rw [placed]
      simp [place]
    subst zero
    have member := ((trunk.node path _ (by simp) known).member 0).mpr (by simp [there])
    have shown := stores.shows.kids path.reverse
    rw [List.reverse_reverse, List.append_nil] at shown
    rw [shown] at member
    cases reached : d.root.descend path.reverse with
    | none => simp [reached] at member
    | some node =>
      have located := (stores.shows.located trunk trunk.laid.start reached).1
      rw [List.reverse_reverse, List.append_nil] at located
      have own : node.value ≠ none := located.terminal_mem_iff.mp (by simpa [shown, reached] using member)
      exact ⟨path.reverse, by simpa [TrieNode.find?, reached] using own, by simpa using there⟩
  · rintro ⟨word, stored, there⟩
    obtain ⟨-, n, known, -⟩ := trunk.laid.edge _ _ _ there
    obtain ⟨placed, check⟩ := trunk.place_eq (by simp) known there
    have inner : word.reverse ≠ [] := by
      intro root
      rw [List.reverse_eq_nil_iff.mp root] at stored
      exact stored stores.rootless
    have node := trunk.node word.reverse n (by simp) known
    have low := node.inner inner (List.ne_nil_of_mem ((node.member 0).mpr (by simp [there])))
    rw [check, Int.toNat_natCast, placed]
    simp [place]
    omega

/-- `num_keys` counts the keys that have been written, each once. -/
theorem numKeys_updates (writes : List (Key × IdT)) :
    (initial.updates writes).numKeys = (writes.map Prod.fst).toFinset.card := by
  obtain ⟨loc, contents, stores⟩ := stores_initial.updates writes
  have known := find?_updates_ne_none_iff (d := .empty) writes
  generalize writes.foldl (fun d write => d.update write.1 write.2) Da.empty = d at *
  generalize initial.updates writes = da at *
  have trunk := stores.trunk
  have stored : ∀ word, d.root.find? word ≠ none ↔
    ∃ key ∈ (writes.map Prod.fst).toFinset, key.bytes = word := fun word => by
    rw [known]
    simp [Da.empty]
  have terminal : ∀ key ∈ (writes.map Prod.fst).toFinset, ∃ e, loc (0 :: key.bytes.reverse) = some e := by
    intro key member
    obtain ⟨val, found⟩ := Option.ne_none_iff_exists'.mp ((stored key.bytes).mpr ⟨key, member, rfl⟩)
    obtain ⟨node, reached, own⟩ := Option.bind_eq_some_iff.mp found
    obtain ⟨located, e, inside⟩ := stores.shows.located trunk trunk.laid.start reached
    rw [List.append_nil] at located inside
    exact ⟨_, trunk.loc_of_mem (by simp) inside (located.terminal_mem_iff.mpr (by simp [own]))⟩
  choose! cell there using terminal
  have count : da.numKeys = ((Finset.range da.size).filter fun e =>
      0 ≤ (da.array e).check ∧ (da.array (da.array e).check.toNat).base = e).card := by
    rw [numKeys, List.countP_eq_length_filter]
    rfl
  rw [count]
  refine (Finset.card_bij (fun key _ => cell key) (fun key member => ?_)
    (fun one first two second same => ?_) fun e counted => ?_).symm
  · rw [Finset.mem_filter, Finset.mem_range]
    exact ⟨stores.managed.bound (trunk.used (there key member)), (terminal_iff stores _).mpr
      ⟨key.bytes, (stored key.bytes).mpr ⟨key, member, rfl⟩, there key member⟩⟩
  · have routes := trunk.laid.injective _ _ _ (there one first) (same ▸ there two second)
    exact Key.ext (List.reverse_injective (List.cons.inj routes).2)
  · obtain ⟨word, found, lies⟩ := (terminal_iff stores e).mp (Finset.mem_filter.mp counted).2
    obtain ⟨key, member, rfl⟩ := (stored word).mp found
    exact ⟨key, member, Option.some.inj ((there key member).symm.trans lies)⟩

/-- A zero byte behind a stored word leads out of the trie: the walk begins with the base of the cell whose
number is the value, as long as there is such a cell. -/
theorem begin_behindZero (writes : List (Key × IdT)) (key : Key) (val : IdT)
    (values : ∀ val ∈ valuesOf writes key.bytes, val ≠ 0)
    (least : (valuesOf writes key.bytes).min? = some val)
    (small : val.toNat < 2 ^ 31) (room : val.toNat < (initial.updates writes).size) :
    let da := initial.updates writes
    let found := da.traverse (key.bytes ++ [0])
    (∀ probe ∈ da.probes 0 (key.bytes ++ [0]), 0 ≤ probe.1 ∧ place probe.1 probe.2 < da.size) ∧
      found.1 = noValue ∧ found.2.2 = key.bytes.length + 1 ∧
        da.begin found.2.1 found.2.2 = ((da.array val.toNat).base, found.2.1, found.2.2) := by
  obtain ⟨loc, contents, stores⟩ := stores_initial.updates writes
  have trunk := stores.trunk
  have stored := find?_run writes key.bytes values
  rw [least] at stored
  obtain ⟨node, reached, own⟩ := Option.bind_eq_some_iff.mp stored
  obtain ⟨located, n, inside, onward⟩ := find_through trunk trunk.laid.start stores.shows key.noZero
    reached 0
  obtain ⟨e, there, base, stray⟩ := find_zero trunk inside located own (0 + key.bytes.length)
  rw [← onward, Nat.zero_add] at stray
  have leaf := trunk.node _ e (by simp) there
  have first : ((initial.updates writes).ninfo e).child = 0 := by
    have thread := leaf.thread
    rw [lead, List.nil_append, (leaf.terminal _ rfl).1] at thread
    exact thread
  refine ⟨probes_bounded [0] stores.managed trunk trunk.laid.start stores.shows stores.full
    (fun root => absurd rfl root) key.noZero fun n' inside' live => ?_, ?_⟩
  · refine probes_zero stores.managed trunk inside' live (fun e' there' => ?_) small room
    obtain rfl := Option.some.inj (there.symm.trans there')
    exact base
  · obtain ⟨size, shape⟩ : ∃ size, (initial.updates writes).size = size + 1 :=
      Nat.exists_eq_succ_of_ne_zero (by omega)
    simp only [DoubleArray.traverse, stray, asValue_asInt, true_and]
    rw [begin_of_ne_zero (trunk.laid.ne_origin there), first, shape, descend, if_pos rfl, base,
      asInt_eq small, place_zero]

theorem begin_threeWrites :
    let da := initial.updates threeWrites
    let found := da.traverse (ascii "t" ++ [0])
    (∀ probe ∈ da.probes 0 (ascii "t" ++ [0]), 0 ≤ probe.1 ∧ place probe.1 probe.2 < da.size) ∧
      found.1 = noValue ∧ found.2.2 = 2 ∧
        da.begin found.2.1 found.2.2 = ((da.array 3).base, found.2.1, found.2.2) :=
  begin_behindZero threeWrites ⟨ascii "t", by decide, by decide⟩ 3
    (List.forall_mem_singleton.mpr (by decide)) (by decide) (by decide) (by decide)

end DoubleArray

end Taboo
