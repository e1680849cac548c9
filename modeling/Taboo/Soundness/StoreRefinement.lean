import Taboo.Model.Keeper
import Taboo.Soundness.Catalogue
import Taboo.Soundness.Numbering

/-! # The store refines a catalogue

`Represents` relates the trie, the funnels and the item dictionary to one catalogue: the trie numbers
its keys, and the funnel of a key's number holds what the catalogue lists under the key. Each round of
the attach loop, and the write section of `update_item`, keeps it.
-/

namespace Taboo

structure Represents (store : Store) (catalogue : Catalogue Key IdT) : Prop
    extends Numbered store.trie catalogue.keys where
  held : ∀ (key : Key) id, store.trie.funnelId? key.bytes = some id →
    ∀ item, item ∈ store.farm.funnel id ↔ item ∈ catalogue.holds key
  unlisted : ∀ key, key ∉ catalogue.keys → catalogue.holds key = ∅
  unused : ∀ funnelId : IdT, store.trie.funnelIdCursor.toNat < funnelId.toNat →
    store.farm.funnel funnelId = ∅
  valid : store.farm.Valid

/-- The trie knows the key, and its funnel holds the id. -/
def Store.Relates (store : Store) (key : Key) (id : IdT) : Prop :=
  store.trie.get key.bytes ≠ 0 ∧
    id ∈ (store.farm.funnel (store.trie.get key.bytes)).toList.map Prod.snd

instance (store : Store) (key : Key) (id : IdT) : Decidable (store.Relates key id) :=
  inferInstanceAs (Decidable (_ ∧ _))

/-- The last of the keys neither occurs before nor holds the id. -/
def Store.LastFree (store : Store) (keys : KeyList) (id : IdT) : Prop :=
  ∃ earlier last, keys = earlier ++ [last] ∧ last ∉ earlier ∧ ¬store.Relates last id

namespace Represents

theorem empty : Represents Store.empty ⟨∅, fun _ => ∅⟩ where
  toNumbered := Numbered.empty
  held := by simp [Store.empty]
  unlisted := by simp
  unused := by simp [Store.empty]
  valid := Farm.valid_empty

variable {store : Store} {catalogue : Catalogue Key IdT}

/-- A key that holds something is listed. -/
theorem listed_of_held (rep : Represents store catalogue) {key : Key} {id : IdT}
    (held : id ∈ catalogue.holds key) : key ∈ catalogue.keys := by
  by_contra absent
  rw [rep.unlisted key absent] at held
  exact held

theorem relates_iff (rep : Represents store catalogue) (key : Key) (id : IdT) :
    store.Relates key id ↔ id ∈ catalogue.holds key := by
  rw [Store.Relates, ne_eq, rep.get_eq_zero_iff, not_not, rep.valid.mem_values]
  constructor
  · rintro ⟨listed, member⟩
    obtain ⟨funnelId, found⟩ := rep.known key listed
    rw [rep.get_eq found] at member
    exact (rep.held key funnelId found id).mp member
  · intro held
    have listed := rep.listed_of_held held
    obtain ⟨funnelId, found⟩ := rep.known key listed
    rw [rep.get_eq found]
    exact ⟨listed, (rep.held key funnelId found id).mpr held⟩

/-- Attaching through the funnel of a listed key. -/
theorem attach_known (rep : Represents store catalogue) {key : Key} {id : IdT}
    (found : store.trie.funnelId? key.bytes = some id) (item : Item) (upsert : Bool) :
    Represents { store with farm := (store.farm.attach id item upsert).2 }
      (catalogue.attach [key] item.id) := by
  have member := rep.listed_of_found found
  have keys : (catalogue.attach [key] item.id).keys = catalogue.keys := by
    simpa [Catalogue.attach] using member
  refine ⟨keys.symm ▸ rep.toNumbered, ?_, ?_, ?_, rep.valid.attach id item upsert⟩
  · intro other otherId there n
    rw [Farm.mem_funnel_attach, rep.held other otherId there]
    have agree : otherId = id ↔ other = key := by
      constructor
      · rintro rfl
        exact Key.ext (rep.injective _ _ _ there found)
      · rintro rfl
        exact Option.some.inj (there.symm.trans found)
    simp [Catalogue.attach, agree]
  · intro other absent
    rw [keys] at absent
    have different : other ≠ key := fun equal => absent (equal ▸ member)
    simp [Catalogue.attach, rep.unlisted other absent, different]
  · intro funnelId beyond
    have bound := (rep.bounded key.bytes id found).2
    refine Farm.funnel_attach_empty ?_ (rep.unused funnelId beyond) item upsert
    rintro rfl
    exact absurd beyond (not_lt.mpr bound)

theorem next_funnel (rep : Represents store catalogue) {key : Key} (absent : key ∉ catalogue.keys)
    (fits : (insert key catalogue.keys).card ≤ capacity) :
    store.farm.funnel (store.trie.funnelIdCursor + 1) = ∅ := by
  apply rep.unused
  rw [rep.next_id absent fits, rep.counted]
  exact Nat.lt_succ_self _

/-- Attaching through the funnel that a new key receives. -/
theorem attach_new (rep : Represents store catalogue) {key : Key} (absent : key ∉ catalogue.keys)
    (fits : (insert key catalogue.keys).card ≤ capacity) {next : Trie}
    (cursor : next.funnelIdCursor = store.trie.funnelIdCursor + 1)
    (values : ∀ word, next.funnelId? word =
      if key.bytes = word then some (store.trie.funnelIdCursor + 1) else store.trie.funnelId? word)
    (item : Item) (upsert : Bool) :
    Represents ⟨next, (store.farm.attach (store.trie.funnelIdCursor + 1) item upsert).2⟩
      (catalogue.attach [key] item.id) := by
  have keys : (catalogue.attach [key] item.id).keys = insert key catalogue.keys := by
    simp [Catalogue.attach]
  refine ⟨keys.symm ▸ rep.insert_key absent fits cursor values, ?_, ?_, ?_, rep.valid.attach _ item upsert⟩
  · intro other otherId there n
    rw [Farm.mem_funnel_attach]
    simp only [values] at there
    split_ifs at there with here
    · obtain rfl := Key.ext here
      obtain rfl := Option.some.inj there
      simp [Catalogue.attach, rep.next_funnel absent fits, rep.unlisted key absent]
    · have different : other ≠ key := fun same => here (congrArg Key.bytes same.symm)
      rw [rep.held other otherId there]
      simp [Catalogue.attach, different, rep.ne_next_id absent fits there]
  · intro other missing
    rw [keys, Finset.mem_insert, not_or] at missing
    simp [Catalogue.attach, rep.unlisted other missing.2, missing.1]
  · intro funnelId beyond
    simp only [cursor, rep.next_id absent fits] at beyond
    have before := rep.counted
    refine Farm.funnel_attach_empty ?_ (rep.unused funnelId (by omega)) item upsert
    rintro rfl
    rw [rep.next_id absent fits] at beyond
    exact lt_irrefl _ beyond

/-- One round of the attach loop: the catalogue lists the item under the key, no key changes its id,
the trie's flag says whether the key was new and the callback's flag whether the farm accepted the
item. -/
theorem attachKey (rep : Represents store catalogue) (key : Key) (item : Item) (upsert flag : Bool)
    (fits : (insert key catalogue.keys).card ≤ capacity) :
    ∃ trie farm accepted, store.trie.attachKey (Keeper.attachCallback item upsert) (store.farm, flag) key =
        (decide (key ∉ catalogue.keys), trie, farm, accepted) ∧
      Represents ⟨trie, farm⟩ (catalogue.attach [key] item.id) ∧
      (∀ word id, store.trie.funnelId? word = some id → trie.funnelId? word = some id) ∧
      (accepted = true ↔ item.id ∉ catalogue.holds key ∨ upsert = true) := by
  by_cases member : key ∈ catalogue.keys
  · obtain ⟨id, found⟩ := rep.known key member
    refine ⟨store.trie, _, (store.farm.attach id item upsert).1, ?_,
      rep.attach_known found item upsert, fun _ _ there => there, ?_⟩
    · rw [Trie.attachKey_known _ _ found (rep.isValue found)]
      simp [member, Keeper.attachCallback]
    · rw [Farm.attach_fst_iff, rep.held key id found]
  · have absent := (rep.not_mem_keys_iff key).mp member
    obtain ⟨next, done, cursor, values⟩ :=
      Trie.attachKey_new (Keeper.attachCallback item upsert) (store.farm, flag) absent
    have nothing := rep.next_funnel member fits
    refine ⟨next, _, (store.farm.attach (store.trie.funnelIdCursor + 1) item upsert).1, ?_,
      rep.attach_new member fits cursor values item upsert, ?_, ?_⟩
    · simp [done, member, Keeper.attachCallback]
    · intro word id there
      rw [values, if_neg, there]
      rintro rfl
      rw [absent] at there
      cases there
    · simp [Farm.attach_fst_iff, nothing, rep.unlisted key member]

private theorem new_key_append (catalogue : Catalogue Key IdT) (earlier : KeyList) (key : Key) (id : IdT) :
    (decide (∃ other ∈ earlier, other ∉ catalogue.keys) ||
      decide (key ∉ (catalogue.attach earlier id).keys)) =
      decide (∃ other ∈ earlier ++ [key], other ∉ catalogue.keys) := by
  rw [← Bool.decide_or]
  apply decide_eq_decide.mpr
  simp only [Catalogue.attach, Finset.mem_union, List.mem_toFinset, not_or, List.mem_append,
    List.mem_singleton]
  constructor
  · rintro (⟨other, member, new⟩ | ⟨new, _⟩)
    · exact ⟨other, Or.inl member, new⟩
    · exact ⟨key, Or.inr rfl, new⟩
  · rintro ⟨other, member | rfl, new⟩
    · exact Or.inl ⟨other, member, new⟩
    · by_cases before : other ∈ earlier
      · exact Or.inl ⟨other, before, new⟩
      · exact Or.inr ⟨new, before⟩

/-- The attach loop. The callback's flag is that of the last key, which may occur before. -/
theorem attach_loop (rep : Represents store catalogue) (keys : KeyList) (item : Item) (upsert flag : Bool)
    (fits : (catalogue.attach keys item.id).keys.card ≤ capacity) :
    ∃ trie farm accepted, store.trie.attach (Keeper.attachCallback item upsert) (store.farm, flag) keys =
        (decide (∃ key ∈ keys, key ∉ catalogue.keys), trie, farm, accepted) ∧
      Represents ⟨trie, farm⟩ (catalogue.attach keys item.id) ∧
      (∀ word id, store.trie.funnelId? word = some id → trie.funnelId? word = some id) ∧
      ∀ earlier last, keys = earlier ++ [last] →
        (accepted = true ↔ item.id ∉ (catalogue.attach earlier item.id).holds last ∨ upsert = true) := by
  induction keys using List.reverseRecOn with
  | nil => exact ⟨store.trie, store.farm, flag, by simp [Trie.attach], by simpa using rep, by simp, by simp⟩
  | append_singleton earlier key ih =>
    have roomBefore : (catalogue.attach earlier item.id).keys.card ≤ capacity := by
      refine le_trans (Finset.card_le_card ?_) fits
      rw [← Catalogue.attach_append]
      exact Catalogue.keys_subset_attach _ _ _
    obtain ⟨trie, farm, accepted, done, before, kept, _⟩ := ih roomBefore
    have roomAfter : (insert key (catalogue.attach earlier item.id).keys).card ≤ capacity := by
      rw [← Catalogue.attach_append] at fits
      simpa [Catalogue.attach, Finset.union_comm] using fits
    obtain ⟨trie', farm', accepted', round, after, kept', outcome⟩ :=
      before.attachKey key item upsert accepted roomAfter
    refine ⟨trie', farm', accepted', ?_, ?_, ?_, ?_⟩
    · rw [Trie.attach_append, done]
      simp only [Trie.attach, round, Bool.or_false, new_key_append]
    · rw [← Catalogue.attach_append]
      exact after
    · exact fun word id there => kept' word id (kept word id there)
    · intro earlier' last split
      obtain ⟨rfl, same⟩ := List.append_inj' split rfl
      cases same
      exact outcome

/-- `Keeper::attach` answers true for an upsert, and otherwise when some key was new and the last
key did not hold the item when its turn came. -/
theorem keeper_attach (rep : Represents store catalogue) (keys : KeyList) (item : Item) (upsertItem : Bool)
    (fits : (catalogue.attach keys item.id).keys.card ≤ capacity) :
    Represents (Keeper.attach store keys item upsertItem).2 (catalogue.attach keys item.id) ∧
      (∀ word id, store.trie.funnelId? word = some id →
        (Keeper.attach store keys item upsertItem).2.trie.funnelId? word = some id) ∧
      ((Keeper.attach store keys item upsertItem).1 = true ↔ upsertItem = true ∨
        (∃ key ∈ keys, key ∉ catalogue.keys) ∧ ∃ earlier last, keys = earlier ++ [last] ∧
          item.id ∉ (catalogue.attach earlier item.id).holds last) := by
  obtain ⟨trie, farm, accepted, done, after, kept, outcome⟩ :=
    rep.attach_loop keys item upsertItem false fits
  simp only [Keeper.attach, done]
  refine ⟨after, kept, ?_⟩
  cases upsertItem with
  | true => simp
  | false =>
    simp only [Bool.or_false, Bool.and_eq_true, decide_eq_true_eq, Bool.false_eq_true, false_or]
    refine and_congr_right fun new => ?_
    obtain ⟨key, member, _⟩ := new
    rcases keys.eq_nil_or_concat with rfl | ⟨earlier, last, rfl⟩
    · cases member
    · rw [List.concat_eq_append] at outcome ⊢
      rw [outcome earlier last rfl]
      constructor
      · intro free
        exact ⟨earlier, last, rfl, by simpa using free⟩
      · rintro ⟨earlier', last', split, free⟩
        obtain ⟨rfl, same⟩ := List.append_inj' split rfl
        cases same
        exact Or.inl free

/-- What it answers, told by the store itself. -/
theorem keeper_attach_answer (rep : Represents store catalogue) (keys : KeyList) (item : Item)
    (upsertItem : Bool) (fits : (catalogue.attach keys item.id).keys.card ≤ capacity) :
    (Keeper.attach store keys item upsertItem).1 = true ↔ upsertItem = true ∨
      (∃ key ∈ keys, store.trie.get key.bytes = 0) ∧ store.LastFree keys item.id := by
  have free : ∀ earlier last, item.id ∉ (catalogue.attach earlier item.id).holds last ↔
      last ∉ earlier ∧ ¬store.Relates last item.id := by
    intro earlier last
    rw [rep.relates_iff]
    simp [Catalogue.attach, and_comm]
  have answer := (rep.keeper_attach keys item upsertItem fits).2.2
  simp only [free, ← rep.get_eq_zero_iff] at answer
  exact answer

end Represents

end Taboo
