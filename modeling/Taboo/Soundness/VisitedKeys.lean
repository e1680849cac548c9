import Mathlib.Data.Set.List
import Taboo.Soundness.SeekSoundness

/-! # The keys that a walk visits

`traverse` calls back with the funnel of the word itself, and then walks the subtree of its node, whose
first value is that funnel again. So the keys below a word are visited once each, unless the word is one
of them: then it is visited twice.
-/

namespace Taboo.Trie

open Container Machine

section Calls

variable {σ : Type}

/-- The callback, with a note of the funnels that it was called with. -/
def noting (cb : IdT → σ → Bool × σ) (funnelId : IdT) (noted : σ × List IdT) : Bool × σ × List IdT :=
  let answer := cb funnelId noted.1
  (answer.1, answer.2, noted.2 ++ [funnelId])

/-- The funnels that `traverse` calls back with, in their order. -/
def calls (trie : Trie) (word : Bytes) (cb : IdT → σ → Bool × σ) (state : σ) : List IdT :=
  (trie.traverse word (noting cb) (state, [])).2

/-- The state after these calls. -/
def called (cb : IdT → σ → Bool × σ) (state : σ) (funnelIds : List IdT) : σ :=
  funnelIds.foldl (fun state funnelId => (cb funnelId state).2) state

/-- What a walk over these ids calls back with. -/
private def walkCalls (cb : IdT → σ → Bool × σ) : List IdT → σ → List IdT
  | [], _ => []
  | id :: rest, state =>
      if id = noPath then []
      else id :: if (cb id state).1 then walkCalls cb rest (cb id state).2 else []

private theorem walk_noting (cb : IdT → σ → Bool × σ) (ids : List IdT) (state : σ) (noted : List IdT) :
    walk (noting cb) ids (state, noted) = (walk cb ids state, noted ++ walkCalls cb ids state) := by
  induction ids generalizing state noted with
  | nil => simp [walk, walkCalls]
  | cons id rest ih =>
    have once : noting cb id (state, noted) = ((cb id state).1, (cb id state).2, noted ++ [id]) := rfl
    simp only [walk, walkCalls, once]
    split_ifs
    · simp
    · rw [ih, List.append_assoc, List.singleton_append]
    · rfl

private theorem walkCalls_prefix (cb : IdT → σ → Bool × σ) (ids : List IdT) (state : σ) :
    walkCalls cb ids state <+: ids := by
  induction ids generalizing state with
  | nil => exact List.prefix_refl []
  | cons id rest ih =>
    simp only [walkCalls]
    split_ifs
    · exact List.nil_prefix
    · exact List.prefix_cons_inj id |>.mpr (ih _)
    · exact List.prefix_cons_inj id |>.mpr List.nil_prefix

private theorem walkCalls_all {cb : IdT → σ → Bool × σ} (always : ∀ id state, (cb id state).1 = true)
    {ids : List IdT} (values : ∀ id ∈ ids, id ≠ noPath) (state : σ) : walkCalls cb ids state = ids := by
  induction ids generalizing state with
  | nil => rfl
  | cons id rest ih =>
    simp only [walkCalls, if_neg (values id List.mem_cons_self), always, if_true]
    rw [ih fun other member => values other (List.mem_cons_of_mem id member)]

/-- A call that another one follows was answered with true. -/
private theorem walkCalls_answered {cb : IdT → σ → Bool × σ} {ids : List IdT} {state : σ}
    {first rest : List IdT} {id : IdT} (split : walkCalls cb ids state = first ++ id :: rest)
    (more : rest ≠ []) : (cb id (called cb state first)).1 = true := by
  induction ids generalizing state first with
  | nil => simp [walkCalls] at split
  | cons head tail ih =>
    simp only [walkCalls] at split
    split_ifs at split with ends goes
    · simp at split
    · cases first with
      | nil =>
        obtain ⟨rfl, _⟩ := List.cons.inj split
        exact goes
      | cons other others =>
        obtain ⟨rfl, tails⟩ := List.cons.inj split
        exact @ih (cb head state).2 others tails
    · cases first with
      | nil => exact absurd (List.cons.inj split).2.symm more
      | cons other others => simp at split

private theorem called_walkCalls (cb : IdT → σ → Bool × σ) (ids : List IdT) (state : σ) :
    called cb state (walkCalls cb ids state) = walk cb ids state := by
  induction ids generalizing state with
  | nil => rfl
  | cons id rest ih =>
    simp only [walk, walkCalls]
    split_ifs
    · rfl
    · exact ih _
    · rfl

theorem calls_eq {trie : Trie} (values : ∀ word id, trie.funnelId? word = some id → IsValue id)
    (word : Bytes) (cb : IdT → σ → Bool × σ) (state : σ) :
    trie.calls word cb state = walkCalls cb (trie.visits word) state := by
  rw [calls, traverse_eq_walk values, walk_noting, List.nil_append]

/-- What `traverse` does is to make its calls. -/
theorem traverse_eq_called {trie : Trie} (values : ∀ word id, trie.funnelId? word = some id → IsValue id)
    (word : Bytes) (cb : IdT → σ → Bool × σ) (state : σ) :
    trie.traverse word cb state = called cb state (trie.calls word cb state) := by
  rw [traverse_eq_walk values, calls_eq values, called_walkCalls]

end Calls

/-- A walk below a word visits the keys below it once each, first the word itself, and ends where a
callback returns false. So every key below the word costs one iteration. -/
structure VisitsOnce (trie : Trie) (keys : Finset Key) (word : Bytes) : Prop where
  visited : ∃ visited : List Key, visited.Nodup ∧ (∀ key, key ∈ visited ↔ key ∈ keys ∧ word <+: key.bytes) ∧
    (∀ key ∈ keys, key.bytes = word → visited.head? = some key) ∧
    ∀ (σ : Type) (cb : IdT → σ → Bool × σ) (state : σ), (∀ id state, (cb id state).1 = true) →
      trie.calls word cb state = visited.map fun key => trie.get key.bytes
  ended : ∀ (σ : Type) (cb : IdT → σ → Bool × σ) (state : σ) (first : List IdT) (id : IdT) (rest : List IdT),
    trie.calls word cb state = first ++ id :: rest → rest ≠ [] → (cb id (called cb state first)).1 = true
  charged : ∀ around farm chain maxMatch, ∃ charged : List Key, charged.Nodup ∧
    (∀ key ∈ charged, key ∈ keys ∧ word <+: key.bytes) ∧
    (trie.traverse word (Seeker.callback around farm chain maxMatch) ⟨∅, [], 0⟩).iterated = charged.length

section Visits

variable {trie : Trie} {keys : Finset Key}

theorem funnelId?_below {word : Bytes} {node : TrieNode UInt8 IdT}
    (reached : trie.da.root.descend word = some node) (extension : Bytes) :
    trie.funnelId? (word ++ extension) = node.find? extension := by
  simp [funnelId?, TrieNode.find?_append, reached]

/-- Stored words are the bytes of keys. -/
theorem exists_keys (numbered : Numbered trie keys) {words : List Bytes}
    (stored : ∀ word ∈ words, ∃ id, trie.funnelId? word = some id) :
    ∃ visited : List Key, visited.map Key.bytes = words := by
  have spelled : words ∈ Set.range (List.map Key.bytes) := by
    rw [Set.range_list_map]
    intro word member
    obtain ⟨id, found⟩ := stored word member
    obtain ⟨key, _, same⟩ := numbered.stored word id found
    exact ⟨key, same⟩
  exact spelled

/-- The ids that a walk meets below a word, told by the keys that they belong to. -/
theorem exists_visited (numbered : Numbered trie keys) {word : Bytes}
    (unlisted : ∀ key ∈ keys, key.bytes ≠ word) :
    ∃ visited : List Key, visited.Nodup ∧ (∀ key, key ∈ visited ↔ key ∈ keys ∧ word <+: key.bytes) ∧
      trie.visits word = visited.map fun key => trie.get key.bytes := by
  cases reached : trie.da.root.descend word with
  | none =>
    refine ⟨[], List.nodup_nil, fun key => iff_of_false List.not_mem_nil ?_, by simp [visits, reached]⟩
    rintro ⟨listed, extension, bytes⟩
    obtain ⟨id, found⟩ := numbered.known key listed
    simp [funnelId?, ← bytes, TrieNode.find?_append, reached] at found
  | some node =>
    have distinct := TrieNode.descend_distinct trie.da.distinct reached
    have entries : ∀ entry, entry ∈ node.entries ↔ trie.funnelId? (word ++ entry.1) = some entry.2 := by
      intro entry
      rw [funnelId?_below reached]
      exact node.mem_entries_iff distinct entry.1 entry.2
    have nothing : node.value = none := by
      cases own : node.value with
      | none => rfl
      | some id =>
        obtain ⟨key, listed, bytes⟩ := numbered.stored (word ++ []) id ((funnelId?_below reached []).trans own)
        exact absurd (bytes.trans (List.append_nil word)) (unlisted key listed)
    have stored : ∀ bytes ∈ node.entries.map fun entry => word ++ entry.1,
        ∃ id, trie.funnelId? bytes = some id := by
      intro bytes member
      obtain ⟨entry, there, rfl⟩ := List.mem_map.mp member
      exact ⟨entry.2, (entries entry).mp there⟩
    obtain ⟨visited, same⟩ := exists_keys numbered stored
    have words : ∀ key, key ∈ visited ↔ ∃ entry ∈ node.entries, word ++ entry.1 = key.bytes := by
      intro key
      rw [← List.mem_map (f := fun entry : List UInt8 × IdT => word ++ entry.1), ← same]
      exact (List.mem_map_of_injective fun _ _ => Key.ext).symm
    refine ⟨visited, ?_, fun key => ?_, ?_⟩
    · apply List.Nodup.of_map Key.bytes
      rw [same]
      have extensions := (TrieNode.entries_nodup distinct).map (List.append_right_injective word)
      rwa [List.map_map] at extensions
    · rw [words]
      constructor
      · rintro ⟨entry, member, bytes⟩
        exact ⟨numbered.listed_of_found (bytes ▸ (entries entry).mp member), entry.1, bytes⟩
      · rintro ⟨listed, extension, bytes⟩
        obtain ⟨id, found⟩ := numbered.known key listed
        exact ⟨(extension, id), (entries _).mpr (bytes ▸ found), bytes⟩
    · have ids : (visited.map Key.bytes).map trie.get = node.entries.map Prod.snd := by
        rw [same, List.map_map]
        refine List.map_congr_left fun entry member => ?_
        have found := (entries entry).mp member
        exact get_of_found found (numbered.isValue found)
      rw [List.map_map] at ids
      simp only [visits, reached, nothing, Option.toList_none, List.nil_append]
      exact ids.symm

/-- The funnel of a stored word comes first, and then once more, as the first of its subtree. -/
theorem visits_of_found {word : Bytes} {id : IdT} (found : trie.funnelId? word = some id) :
    ∃ rest, trie.visits word = id :: id :: rest := by
  obtain ⟨node, reached, own⟩ := Option.bind_eq_some_iff.mp found
  refine ⟨node.children.entries.map Prod.snd, ?_⟩
  simp [visits, reached, own, TrieNode.entries]

theorem get_injOn (numbered : Numbered trie keys) :
    ∀ key ∈ keys, ∀ other ∈ keys, trie.get key.bytes = trie.get other.bytes → key = other := by
  intro key listed other listed' same
  obtain ⟨id, found⟩ := numbered.known key listed
  obtain ⟨id', found'⟩ := numbered.known other listed'
  rw [numbered.get_eq found, numbered.get_eq found'] at same
  exact Key.ext (numbered.injective _ _ id found (same ▸ found'))

theorem visits_isValue (numbered : Numbered trie keys) (word : Bytes) :
    ∀ id ∈ trie.visits word, id ≠ noPath := by
  intro id member
  obtain ⟨_, found⟩ := mem_visits.mp member
  exact (numbered.isValue found).1

/-- The seeker counts its calls. -/
theorem iterated_called (around : Surroundings) (farm : Farm) (chain : FilterChain) (maxMatch : ℕ)
    (ids : List IdT) (state : Seeker.Callback) :
    (called (Seeker.callback around farm chain maxMatch) state ids).iterated = state.iterated + ids.length := by
  induction ids generalizing state with
  | nil => rfl
  | cons id rest ih =>
    rw [called, List.foldl_cons, ← called, ih, Seeker.callback_iterated, List.length_cons]
    omega

theorem visitsOnce_iff_unlisted (numbered : Numbered trie keys) (word : Bytes) :
    VisitsOnce trie keys word ↔ ∀ key ∈ keys, key.bytes ≠ word := by
  have values : ∀ word id, trie.funnelId? word = some id → IsValue id := fun _ _ found => numbered.isValue found
  have paths := visits_isValue numbered word
  constructor
  · rintro ⟨⟨visited, distinct, listed, _, calls⟩, _, _⟩ key member rfl
    obtain ⟨id, found⟩ := numbered.known key member
    obtain ⟨rest, twice⟩ := visits_of_found found
    have same := calls Unit (fun _ state => (true, state)) () fun _ _ => rfl
    rw [calls_eq values, walkCalls_all (fun _ _ => rfl) paths] at same
    have nodup : (visited.map fun key => trie.get key.bytes).Nodup := by
      refine distinct.map_on fun first there second there' equal => ?_
      exact get_injOn numbered first ((listed first).mp there).1 second ((listed second).mp there').1 equal
    rw [← same, twice] at nodup
    simp at nodup
  · intro unlisted
    obtain ⟨visited, distinct, listed, visits⟩ := exists_visited numbered unlisted
    refine ⟨⟨visited, distinct, listed, fun key member same => absurd same (unlisted key member), ?_⟩, ?_, ?_⟩
    · intro σ cb state always
      rw [calls_eq values, walkCalls_all always paths, visits]
    · intro σ cb state first id rest split more
      rw [calls_eq values] at split
      exact walkCalls_answered split more
    · intro around farm chain maxMatch
      have made := walkCalls_prefix (Seeker.callback around farm chain maxMatch) (trie.visits word) ⟨∅, [], 0⟩
      rw [← calls_eq values, visits, List.prefix_map_iff] at made
      obtain ⟨charged, before, same⟩ := made
      refine ⟨charged, distinct.sublist before.sublist, fun key member => ?_, ?_⟩
      · exact (listed key).mp (before.subset member)
      · rw [traverse_eq_called values, iterated_called, same, List.length_map, Nat.zero_add]

end Visits

/-- In every reachable store that fits into cedar, a walk below a word visits each of its keys once
exactly if the word is not a key itself. -/
theorem visitsOnce_iff {events : List Keeper.Event} {state : Keeper.State}
    (ran : run Keeper.step Keeper.initial events = some state)
    (fits : (Keeper.listedKeys state.log).card ≤ capacity) (word : Key) :
    VisitsOnce state.store.trie (Keeper.listedKeys state.log) word.bytes ↔
      word ∉ Keeper.listedKeys state.log := by
  have numbered : Numbered state.store.trie (Keeper.listedKeys state.log) :=
    (Keeper.consistent_initial.run ran fits).1.represents.toNumbered
  rw [visitsOnce_iff_unlisted numbered]
  constructor
  · exact fun unlisted member => unlisted word member rfl
  · rintro absent key member same
    exact absent (Key.ext same ▸ member)

/-- One item under `ab`, and a walk below `a`. -/
theorem visitsOnce_belowA : ∃ state,
    run Keeper.step Keeper.initial [.attach [Keeper.keyAB] (.sent 1 []) true] = some state ∧
      VisitsOnce state.store.trie (Keeper.listedKeys state.log) Keeper.keyA.bytes :=
  ⟨_, rfl, (@visitsOnce_iff [.attach [Keeper.keyAB] (.sent 1 []) true] _ rfl (by decide) Keeper.keyA).mpr
    (by decide)⟩

/-- A walk below `ab` itself calls back twice for it, and costs two iterations. -/
theorem exactKey_visitedTwice : ∃ state,
    run Keeper.step Keeper.initial [.attach [Keeper.keyAB] (.sent 1 []) true] = some state ∧
    state.store.trie.calls Keeper.keyAB.bytes (fun _ state => (true, state)) () = [1, 1] ∧
    ¬VisitsOnce state.store.trie (Keeper.listedKeys state.log) Keeper.keyAB.bytes := by
  refine ⟨_, rfl, rfl, ?_⟩
  rintro ⟨⟨visited, distinct, listed, _, calls⟩, _, _⟩
  have twice : visited.length = 2 := (List.length_map _).symm.trans
    (congrArg List.length (calls Unit (fun _ state => (true, state)) () fun _ _ => rfl).symm)
  obtain ⟨first, second, rfl⟩ := List.length_eq_two.mp twice
  have only : ∀ key ∈ [first, second], key = Keeper.keyAB := by
    intro key member
    simpa [Keeper.listedKeys, Keeper.initial] using ((listed key).mp member).1
  rw [only first (by simp), only second (by simp)] at distinct
  simp at distinct

end Taboo.Trie
