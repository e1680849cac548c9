import Taboo.Model.Trie
import Mathlib.Data.Finset.Card

/-! # The numbering of the keys

The trie gives every new key the next id, so its keys and their ids stay in bijection as long as the
cursor stays below cedar's markers. Nothing here looks at what the ids are used for.
-/

namespace Taboo

/-- How many keys cedar's node array, indexed by `int`, has room for. -/
def capacity : ℕ := 2 ^ 30

/-- The trie stores these keys, under the ids from one to its cursor. -/
structure Numbered (trie : Trie) (keys : Finset Key) : Prop where
  known : ∀ key ∈ keys, ∃ id, trie.funnelId? key.bytes = some id
  stored : ∀ word id, trie.funnelId? word = some id → ∃ key ∈ keys, key.bytes = word
  bounded : ∀ word id, trie.funnelId? word = some id →
    0 < id.toNat ∧ id.toNat ≤ trie.funnelIdCursor.toNat
  injective : ∀ word other id, trie.funnelId? word = some id → trie.funnelId? other = some id → word = other
  counted : trie.funnelIdCursor.toNat = keys.card
  room : keys.card ≤ capacity

namespace Numbered

theorem empty : Numbered Trie.empty ∅ where
  known := by simp
  stored := by simp
  bounded := by simp
  injective := by simp
  counted := rfl
  room := by simp

variable {trie : Trie} {keys : Finset Key}

theorem isValue (numbered : Numbered trie keys) {word : Bytes} {id : IdT}
    (found : trie.funnelId? word = some id) : Trie.IsValue id := by
  have bound := (numbered.bounded word id found).2
  have room := numbered.room
  rw [numbered.counted] at bound
  constructor <;> rintro rfl <;> simp [capacity, noPath, noValue] at bound room <;> omega

/-- A key that the trie has is listed. -/
theorem listed_of_found (numbered : Numbered trie keys) {key : Key} {id : IdT}
    (found : trie.funnelId? key.bytes = some id) : key ∈ keys := by
  obtain ⟨other, member, same⟩ := numbered.stored key.bytes id found
  exact Key.ext same ▸ member

theorem not_mem_keys_iff (numbered : Numbered trie keys) (key : Key) :
    key ∉ keys ↔ trie.funnelId? key.bytes = none := by
  constructor
  · intro absent
    apply Option.eq_none_iff_forall_ne_some.mpr
    intro id found
    exact absent (numbered.listed_of_found found)
  · intro absent member
    obtain ⟨id, found⟩ := numbered.known key member
    rw [absent] at found
    cases found

/-- `operator[]` finds the id of a listed key. -/
theorem get_eq (numbered : Numbered trie keys) {key : Key} {id : IdT}
    (found : trie.funnelId? key.bytes = some id) : trie.get key.bytes = id :=
  Trie.get_of_found found (numbered.isValue found)

theorem get_eq_zero_iff (numbered : Numbered trie keys) (key : Key) :
    trie.get key.bytes = 0 ↔ key ∉ keys := by
  rw [numbered.not_mem_keys_iff]
  cases found : trie.funnelId? key.bytes with
  | none => simp [Trie.get_of_absent found]
  | some id =>
    have positive := (numbered.bounded key.bytes id found).1
    rw [numbered.get_eq found]
    constructor
    · rintro rfl
      simp at positive
    · intro impossible
      cases impossible

theorem next_id (numbered : Numbered trie keys) {key : Key} (absent : key ∉ keys)
    (fits : (insert key keys).card ≤ capacity) : (trie.funnelIdCursor + 1).toNat = keys.card + 1 := by
  rw [Finset.card_insert_of_notMem absent] at fits
  rw [UInt32.toNat_add, numbered.counted]
  simp [capacity] at fits ⊢
  omega

/-- The id that a new key receives is no other key's. -/
theorem ne_next_id (numbered : Numbered trie keys) {key : Key} (absent : key ∉ keys)
    (fits : (insert key keys).card ≤ capacity) {word : Bytes} {id : IdT}
    (found : trie.funnelId? word = some id) : id ≠ trie.funnelIdCursor + 1 := by
  rintro rfl
  have bound := (numbered.bounded word _ found).2
  have before := numbered.counted
  have fresh := numbered.next_id absent fits
  omega

/-- A new key takes the next id and leaves the numbers of the others. -/
theorem insert_key (numbered : Numbered trie keys) {key : Key} (absent : key ∉ keys)
    (fits : (insert key keys).card ≤ capacity) {next : Trie}
    (cursor : next.funnelIdCursor = trie.funnelIdCursor + 1)
    (values : ∀ word, next.funnelId? word =
      if key.bytes = word then some (trie.funnelIdCursor + 1) else trie.funnelId? word) :
    Numbered next (insert key keys) := by
  have fresh := numbered.next_id absent fits
  refine ⟨?_, ?_, ?_, ?_, ?_, fits⟩
  · intro other member
    rw [values]
    split_ifs with here
    · exact ⟨_, rfl⟩
    · rcases Finset.mem_insert.mp member with rfl | member
      · exact absurd rfl here
      · exact numbered.known other member
  · intro word id there
    rw [values] at there
    split_ifs at there with here
    · exact ⟨key, Finset.mem_insert_self _ _, here⟩
    · obtain ⟨other, member, same⟩ := numbered.stored word id there
      exact ⟨other, Finset.mem_insert_of_mem member, same⟩
  · intro word id there
    rw [cursor, fresh]
    rw [values] at there
    split_ifs at there with here
    · obtain rfl := Option.some.inj there
      omega
    · have bound := numbered.bounded word id there
      have before := numbered.counted
      omega
  · intro word other id first second
    rw [values] at first second
    split_ifs at first second with here there there
    · exact here.symm.trans there
    · exact absurd (Option.some.inj first).symm (numbered.ne_next_id absent fits second)
    · exact absurd (Option.some.inj second).symm (numbered.ne_next_id absent fits first)
    · exact numbered.injective word other id first second
  · rw [cursor, fresh, Finset.card_insert_of_notMem absent]

end Numbered

end Taboo
