import Taboo.Soundness.KeeperRuns

/-! # The order of the keys of an attach

Which keys an attach relates to the item does not depend on how they are listed. What it answers does:
without upsert, the last key of the list decides, which may hold the item already, be it from an earlier
place in the same list.
-/

namespace Taboo

open Machine

/-- The stores differ in nothing but the ids of their funnels. -/
structure SameUpToIds (left right : Store) : Prop where
  known : ∀ key : Key, left.trie.get key.bytes = 0 ↔ right.trie.get key.bytes = 0
  related : ∀ key id, left.Relates key id ↔ right.Relates key id
  items : ∀ id, left.farm.item id = right.farm.item id

namespace Keeper

/-- The answer is given by the upsert, or by a list without a new key, or the last keys of both lists
are free or both are not. -/
def AlikeListed (store : Store) (item : Item) (upsertItem : Bool) (first second : KeyList) : Prop :=
  upsertItem = true ∨ (∀ key ∈ first, store.trie.get key.bytes ≠ 0) ∨
    (store.LastFree first item.id ↔ store.LastFree second item.id)

section Attach

variable {store : Store} {catalogue : Catalogue Key IdT} {first second : KeyList}

theorem attach_sameUpToIds (rep : Represents store catalogue) (same : ∀ key, key ∈ first ↔ key ∈ second)
    (item : Item) (upsertItem : Bool) (fits : (catalogue.attach first item.id).keys.card ≤ capacity) :
    SameUpToIds (attach store first item upsertItem).2 (attach store second item upsertItem).2 := by
  have left := (rep.keeper_attach first item upsertItem fits).1
  have right := (rep.keeper_attach second item upsertItem (catalogue.attach_congr item.id same ▸ fits)).1
  rw [← catalogue.attach_congr item.id same] at right
  refine ⟨fun key => ?_, fun key id => ?_, fun id => ?_⟩
  · rw [left.get_eq_zero_iff, right.get_eq_zero_iff]
  · rw [left.relates_iff, right.relates_iff]
  · have nonempty : first ≠ [] ↔ second ≠ [] := by
      simp only [ne_eq, List.eq_nil_iff_forall_not_mem, same]
    rw [(attach_farm rep.valid first item upsertItem).2, (attach_farm rep.valid second item upsertItem).2]
    simp only [nonempty]

theorem attach_answer_iff (rep : Represents store catalogue) (same : ∀ key, key ∈ first ↔ key ∈ second)
    (item : Item) (upsertItem : Bool) (fits : (catalogue.attach first item.id).keys.card ≤ capacity) :
    (attach store first item upsertItem).1 = (attach store second item upsertItem).1 ↔
      AlikeListed store item upsertItem first second := by
  rw [Bool.eq_iff_iff, rep.keeper_attach_answer first item upsertItem fits,
    rep.keeper_attach_answer second item upsertItem (catalogue.attach_congr item.id same ▸ fits)]
  simp only [← same, AlikeListed]
  cases upsertItem with
  | true => simp
  | false =>
    simp only [Bool.false_eq_true, false_or]
    by_cases new : ∃ key ∈ first, store.trie.get key.bytes = 0
    · obtain ⟨key, member, unknown⟩ := new
      have known : ¬∀ key ∈ first, store.trie.get key.bytes ≠ 0 := fun known => known key member unknown
      rw [or_iff_right known, and_iff_right ⟨key, member, unknown⟩, and_iff_right ⟨key, member, unknown⟩]
    · refine iff_of_true (iff_of_false (fun accepted => new accepted.1) fun accepted => new accepted.1) ?_
      exact Or.inl fun key member unknown => new ⟨key, member, unknown⟩

end Attach

/-- In every reachable store, two lists of the same keys lead to the same answer and to the same store up
to the ids of the funnels exactly if they are alike. -/
theorem attach_listing_iff {events : List Event} {state : State}
    (ran : run step initial events = some state) {first second : KeyList}
    (same : ∀ key, key ∈ first ↔ key ∈ second) (item : Item) (upsertItem : Bool)
    (fits : (listedKeys state.log ∪ first.toFinset).card ≤ capacity) :
    ((attach state.store first item upsertItem).1 = (attach state.store second item upsertItem).1 ∧
        SameUpToIds (attach state.store first item upsertItem).2
          (attach state.store second item upsertItem).2) ↔
      AlikeListed state.store item upsertItem first second := by
  have rep := (consistent_initial.run ran
    (le_trans (Finset.card_le_card Finset.subset_union_left) fits)).1.represents
  rw [attach_answer_iff rep same item upsertItem fits]
  exact and_iff_left (attach_sameUpToIds rep same item upsertItem fits)

theorem swapped_same (key : Key) : key ∈ [keyA, keyB] ↔ key ∈ [keyB, keyA] := by
  simp [or_comm]

/-- Item 1 under `a`, and then item 2 under `a` and `b`, in both orders. -/
theorem attach_listing_secondItem : ∃ state, run step initial [.attach [keyA] (.sent 1 []) true] = some state ∧
    (attach state.store [keyA, keyB] (.sent 2 []) false).1 =
      (attach state.store [keyB, keyA] (.sent 2 []) false).1 ∧
      SameUpToIds (attach state.store [keyA, keyB] (.sent 2 []) false).2
        (attach state.store [keyB, keyA] (.sent 2 []) false).2 := by
  refine ⟨_, rfl, (@attach_listing_iff [.attach [keyA] (.sent 1 []) true] _ rfl [keyA, keyB] [keyB, keyA]
    swapped_same (.sent 2 []) false (by decide)).mpr (Or.inr (Or.inr (iff_of_true ?_ ?_)))⟩
  · exact ⟨[keyA], keyB, rfl, by decide, by decide⟩
  · exact ⟨[keyB], keyA, rfl, by decide, by decide⟩

/-- Item 1 again: with `b` last the answer is true, with `a` last it is false. -/
theorem heldLast_refused : ∃ state, run step initial [.attach [keyA] (.sent 1 []) true] = some state ∧
    (∀ key, key ∈ [keyA, keyB] ↔ key ∈ [keyB, keyA]) ∧
    (attach state.store [keyA, keyB] (.sent 1 []) false).1 = true ∧
    (attach state.store [keyB, keyA] (.sent 1 []) false).1 = false :=
  ⟨_, rfl, swapped_same, by decide, by decide⟩

end Keeper

end Taboo
