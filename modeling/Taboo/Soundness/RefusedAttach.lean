import Taboo.Soundness.ArrayKeeperRuns

/-! # Refused attach requests

The keeper attaches key by key and computes its answer afterwards, from whether some key was new and
from what happened at the last one. So an error does not say that nothing was attached, except under
the condition found here. The requests list any words. Behind one with a zero byte, which cedar's arrays
follow through the cell of a value, there is no telling what the other words lead to.
-/

namespace Taboo

open Machine BaseHandler ManageHandler

namespace ArrayStore

/-- The arrays know the word, and its funnel holds the id. -/
def Relates (store : ArrayStore) (word : Bytes) (id : IdT) : Prop :=
  store.trie.get word ≠ 0 ∧ id ∈ (store.farm.funnel (store.trie.get word)).toList.map Prod.snd

instance (store : ArrayStore) (word : Bytes) (id : IdT) : Decidable (store.Relates word id) :=
  inferInstanceAs (Decidable (_ ∧ _))

/-- No query, and no look at a word, tells the two stores apart. -/
structure SameAnswers (before after : ArrayStore) : Prop where
  related : ∀ word id, after.Relates word id ↔ before.Relates word id
  answers : ∀ around query, (ArrayKeeper.seek around after Seeker.fresh query).items =
    (ArrayKeeper.seek around before Seeker.fresh query).items

theorem SameAnswers.refl (store : ArrayStore) : SameAnswers store store := ⟨fun _ _ => .rfl, fun _ _ => rfl⟩

/-- What any store has, however it was reached. -/
structure Sound (store : ArrayStore) : Prop where
  /-- a base is an `int` in memory -/
  ints : ∀ e, asInt (asValue (store.trie.da.array e).base) = (store.trie.da.array e).base
  valid : store.farm.Valid

theorem find_int {store : ArrayStore} (sound : store.Sound) (word : Bytes) (node pos : ℕ) :
    asInt (asValue (store.trie.da.find node pos word).1) = (store.trie.da.find node pos word).1 := by
  induction word generalizing node pos with
  | nil =>
    rw [DoubleArray.find]
    split_ifs
    · rw [asValue_asInt]
    · exact sound.ints _
  | cons label rest ih =>
    simp only [DoubleArray.find]
    split_ifs
    · rw [asValue_asInt]
    · exact ih _ _

/-- An attach calls back with the funnel that the word relates to. -/
theorem Sound.traverse {store : ArrayStore} (sound : store.Sound) {word : Bytes} {id : IdT}
    (related : store.Relates word id) : Trie.IsValue (store.trie.da.traverse word).1 ∧
      id ∈ store.farm.funnel (store.trie.da.traverse word).1 := by
  obtain ⟨known, held⟩ := related
  rw [sound.valid.mem_values] at held
  have int := find_int sound word 0 0
  simp only [ArrayTrie.get, DoubleArray.exactMatchSearch, DoubleArray.traverse] at known held ⊢
  split_ifs at known held with missing marked valueless
  · exact absurd rfl known
  · exact absurd (asValue_asInt noValue) marked
  · exact absurd rfl known
  · refine ⟨⟨fun marker => missing ?_, valueless⟩, held⟩
    rw [← int, marker]

/-- What the arrays relate to a key is what the trie does. -/
theorem relates_iff {arrays : ArrayStore} {store : Store} (trie : Refines arrays.trie store.trie)
    (farm : arrays.farm = store.farm) (key : Key) (id : IdT) :
    arrays.Relates key.bytes id ↔ store.Relates key id := by
  rw [Relates, Store.Relates, trie.get_eq key.noZero, farm]

end ArrayStore

namespace ArrayKeeper

open AttachHandler

/-- The keeper accepts, or all keys hold the item already. -/
def Granted (store : ArrayStore) (request : RequestOf Bytes) : Prop :=
  request.upsert = true ∨ ∀ word ∈ request.keys, store.Relates word request.item.id

/-- Whatever the words, an attach leaves a valid farm. -/
theorem attach_valid {store : ArrayStore} (valid : store.farm.Valid) (words : List Bytes) (item : Item)
    (upsert : Bool) : (attach store words item upsert).2.farm.Valid := by
  simp only [attach]
  generalize false = flag
  induction words generalizing store flag with
  | nil => exact valid
  | cons word rest ih =>
    simp only [ArrayTrie.attach, ArrayTrie.attachKey, Keeper.attachCallback]
    split_ifs with new
    · exact @ih ⟨⟨_, _⟩, _⟩ (valid.attach _ item upsert) _
    · exact @ih ⟨store.trie, _⟩ (valid.attach _ item upsert) _

/-- Without upsert, an item that all the words hold is refused, and nothing changes. -/
theorem attach_refused {store : ArrayStore} {words : List Bytes} {item : Item}
    (held : ∀ word ∈ words, Trie.IsValue (store.trie.da.traverse word).1 ∧
      item.id ∈ store.farm.funnel (store.trie.da.traverse word).1) :
    attach store words item false = (false, store) := by
  have loop : ∀ flag, ∃ flag', store.trie.attach (Keeper.attachCallback item false) (store.farm, flag) words =
      (false, store.trie, store.farm, flag') := by
    induction words with
    | nil => exact fun flag => ⟨flag, rfl⟩
    | cons word rest ih =>
      intro flag
      obtain ⟨⟨value, member⟩, others⟩ := List.forall_mem_cons.mp held
      obtain ⟨flag', done⟩ := ih others false
      refine ⟨flag', ?_⟩
      simp [ArrayTrie.attach, ArrayTrie.attachKey, value.1, value.2, Keeper.attachCallback,
        Farm.attach_refused member, done]
  obtain ⟨flag, done⟩ := loop false
  simp only [attach, done, Bool.false_and, Bool.or_false]

section Keys

variable {arrays : State} {state : Keeper.State} {catalogue : Catalogue Key IdT}

end Keys

/-! ### Requests -/

section Requests

variable (config : Config) (parse : Parser) (digest : Bytes → Bytes)

variable {config parse digest} {handler : AttachHandler}

end Requests

/-- The key `a`, with item 1. -/
def oneItem : List Keeper.Event :=
  [.attach [Keeper.keyA] ⟨1, [(ascii "id", .number (.integer 1 (by decide)))]⟩ true]

def unsigned : Config := { (default : Config) with checkSign := false }

/-- What the parser makes of the texts of the requests below. -/
def parseSecond : Parser := fun text =>
  if text = ascii "[\"a\"]" then some (.array [.string (ascii "a")])
  else if text = ascii "[\"a\\u0000b\",\"a\\u0000b\"]" then
    some (.array [.string [97, 0, 98], .string [97, 0, 98]])
  else if text = ascii "\x7b\"id\":2\x7d" then some (.object [(ascii "id", .number (.integer 2 (by decide)))])
  else none

/-- Attach item 2 to these prefixes, without upsert. -/
def secondItem (prefixes : String) : AttachHandler :=
  [("key", ""), ("prefixes", prefixes), ("item", "\x7b\"id\":2\x7d"), ("upsert", "0")].foldl
    (fun handler entry =>
      addPostParam (reviewParam unsigned _reviewParam) handler (ascii entry.1) (ascii entry.2))
    (create ⟨[], ()⟩)

/-- A word with a zero byte, listed twice, is new and holds the item afterwards; the request is refused. -/
theorem zeroByte_refused_and_attached : ∃ result after,
    process unsigned parseSecond id (secondItem "[\"a\\u0000b\",\"a\\u0000b\"]") .empty =
      .ok (some result, after) ∧
    result.code = errAlreadyExists ∧ after.Relates [97, 0, 98] 2 ∧ ¬ArrayStore.SameAnswers .empty after := by
  refine ⟨_, _, rfl, rfl, by decide, fun same => ?_⟩
  have related := (same.related [97, 0, 98] 2).mp (by decide)
  revert related
  decide

end ArrayKeeper

end Taboo
