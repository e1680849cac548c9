import Mathlib.Data.List.Infix
import Taboo.Model.Seeker
import Taboo.Soundness.KeeperRuns

/-! # Answers of the seeker

The walk accumulates items under one invariant, `Collected`, that every funnel entry keeps. What it
has collected at the end is sound for the query, in every reachable store.
-/

namespace Taboo.Seeker

open Machine

section Pump

variable {around : Surroundings} {farm : Farm} {chain : FilterChain} {maxMatch : ℕ}

/-- What holds of the items collected so far on a walk over these funnels. -/
structure Collected (around : Surroundings) (farm : Farm) (chain : FilterChain) (maxMatch : ℕ)
    (funnelIds : Set IdT) (state : Callback) : Prop where
  bounded : state.items.length ≤ maxMatch
  recorded : ∀ item ∈ state.items, item.id ∈ state.recorded
  distinct : (state.items.map Item.id).Nodup
  stored : ∀ item ∈ state.items, farm.item item.id = some item
  held : ∀ item ∈ state.items, ∃ funnelId ∈ funnelIds, item.id ∈ farm.funnel funnelId
  passes : ∀ item ∈ state.items, chain.apply around.hashing item = true

theorem Collected.nothing (funnelIds : Set IdT) : Collected around farm chain maxMatch funnelIds ⟨∅, [], 0⟩ where
  bounded := Nat.zero_le _
  recorded := by simp
  distinct := List.nodup_nil
  stored := by simp
  held := by simp
  passes := by simp

/-- The invariant does not look at the number of callbacks. -/
theorem Collected.counted {funnelIds : Set IdT} {state : Callback}
    (collected : Collected around farm chain maxMatch funnelIds state) (iterated : ℕ) :
    Collected around farm chain maxMatch funnelIds { state with iterated } where
  bounded := collected.bounded
  recorded := collected.recorded
  distinct := collected.distinct
  stored := collected.stored
  held := collected.held
  passes := collected.passes

/-- An entry either adds nothing, or an item that was missing, is stored and passes. -/
theorem pumpEntry_cases (state : Callback) (id : IdT) :
    pumpEntry around farm chain maxMatch state id = state ∨
      ∃ item, farm.item id = some item ∧ state.items.length < maxMatch ∧ id ∉ state.recorded ∧
        chain.apply around.hashing item = true ∧ pumpEntry around farm chain maxMatch state id =
          { state with recorded := insert item.id state.recorded, items := state.items ++ [item] } := by
  unfold pumpEntry
  split_ifs with wanted
  · cases found : farm.item id with
    | none => exact Or.inl rfl
    | some item =>
      dsimp only
      split_ifs with passes
      · exact Or.inr ⟨item, rfl, wanted.1, wanted.2, passes, rfl⟩
      · exact Or.inl rfl
  · exact Or.inl rfl

theorem Collected.pumpEntry (valid : farm.Valid) {funnelIds : Set IdT} {state : Callback}
    (collected : Collected around farm chain maxMatch funnelIds state) {funnelId id : IdT}
    (visited : funnelId ∈ funnelIds) (member : id ∈ farm.funnel funnelId) :
    Collected around farm chain maxMatch funnelIds (pumpEntry around farm chain maxMatch state id) := by
  rcases pumpEntry_cases state id with same | ⟨item, found, room, missing, passes, added⟩
  · rw [same]
    exact collected
  · rw [added]
    obtain rfl := valid.named id item found
    have fresh : item.id ∉ state.items.map Item.id := by
      intro before
      obtain ⟨other, member', same⟩ := List.mem_map.mp before
      exact missing (same ▸ collected.recorded other member')
    -- every field but the first two is a fact about each item: the collected ones, and the new one
    refine ⟨?_, ?_, ?_, ?_, ?_, ?_⟩ <;>
      simp only [List.forall_mem_append, List.forall_mem_singleton, List.map_append, List.map_singleton,
        List.length_append, List.length_singleton]
    · omega
    · refine ⟨fun other member' => ?_, Finset.mem_insert_self _ _⟩
      exact Finset.mem_insert_of_mem (collected.recorded other member')
    · apply List.Nodup.append collected.distinct (List.nodup_singleton _)
      rw [List.disjoint_singleton]
      exact fresh
    · exact ⟨collected.stored, found⟩
    · exact ⟨collected.held, funnelId, visited, member⟩
    · exact ⟨collected.passes, passes⟩

/-- The ids that a callback reads, in its order. -/
def entries (around : Surroundings) (farm : Farm) (funnelId : IdT) : List IdT :=
  (around.funnelOrder.order (farm.funnel funnelId).toList).map Prod.snd

theorem mem_entries (valid : farm.Valid) {funnelId id : IdT} :
    id ∈ entries around farm funnelId ↔ id ∈ farm.funnel funnelId := by
  rw [← valid.mem_values]
  simp only [entries, List.mem_map, around.funnelOrder.mem_iff]

/-- The callback rule: what counting the call and every entry of its funnel keep holds after it. -/
theorem callback_induction {Holds : Callback → Prop} {funnelId : IdT}
    (counted : ∀ state, Holds state → Holds { state with iterated := state.iterated + 1 })
    (entry : ∀ id ∈ entries around farm funnelId, ∀ state, Holds state →
      Holds (pumpEntry around farm chain maxMatch state id)) {state : Callback} (initial : Holds state) :
    Holds (callback around farm chain maxMatch funnelId state).2 := by
  simp only [callback, pump]
  split_ifs
  · exact counted state initial
  · apply List.foldlRecOn
    · exact counted state initial
    · exact fun state holds id member => entry id member state holds

theorem callback_iterated (funnelId : IdT) (state : Callback) :
    (callback around farm chain maxMatch funnelId state).2.iterated = state.iterated + 1 := by
  simp only [callback, pump]
  split_ifs
  · rfl
  · refine List.foldlRecOn (motive := fun later : Callback => later.iterated = state.iterated + 1) _ _ rfl ?_
    intro later counted id _
    rcases pumpEntry_cases later id with same | ⟨item, _, _, _, _, added⟩
    · rw [same, counted]
    · rw [added]
      exact counted

theorem Collected.callback (valid : farm.Valid) {funnelIds : Set IdT} {state : Callback}
    (collected : Collected around farm chain maxMatch funnelIds state) {funnelId : IdT}
    (visited : funnelId ∈ funnelIds) :
    Collected around farm chain maxMatch funnelIds
      (callback around farm chain maxMatch funnelId state).2 := by
  apply callback_induction ?_ ?_ collected
  · exact fun state collected => collected.counted _
  · exact fun id member state collected => collected.pumpEntry valid visited ((mem_entries valid).mp member)

end Pump

/-- Every item of an answer is the one that the dictionary has under its id. -/
theorem seek_stored {store : Store} (valid : store.farm.Valid) (around : Surroundings) (seeker : Seeker)
    (query : Query) : ∀ item ∈ (seek around store seeker query).items, store.farm.item item.id = some item := by
  have collected : Collected around store.farm (rebuildChain around seeker.filter query) query.num Set.univ
      (store.trie.traverse query.queryPrefix
        (callback around store.farm (rebuildChain around seeker.filter query) query.num) ⟨∅, [], 0⟩) := by
    apply Trie.traverse_induction
    · exact fun funnelId state holds => holds.callback valid (Set.mem_univ funnelId)
    · exact Collected.nothing _
  exact collected.stored

/-- What the answer to a query owes to the store and the calls that built it. -/
structure Sound (around : Surroundings) (state : Keeper.State) (query : Query) (items : List Item) :
    Prop where
  bounded : items.length ≤ query.num
  distinct : (items.map Item.id).Nodup
  /-- the items are those of the dictionary -/
  stored : ∀ item ∈ items, state.store.farm.item item.id = some item
  attached : ∀ item ∈ items, ∃ key : Key, query.queryPrefix <+: key.bytes ∧
    Keeper.Related state.log key item.id
  unexcluded : ∀ item ∈ items, (rebuildChain around .empty query).excludes around.hashing item = false
  matched : ∀ item ∈ items, (rebuildChain around .empty query).matched around.hashing item = true

/-- A fresh seeker only shows what the represented catalogue holds. -/
theorem Sound.of_represents {state : Keeper.State} (rep : Represents state.store (Keeper.catalogue state.log))
    (around : Surroundings) (query : Query) :
    Sound around state query (seek around state.store fresh query).items := by
  have collected : Collected around state.store.farm (rebuildChain around .empty query) query.num
      {funnelId | funnelId ∈ state.store.trie.visits query.queryPrefix}
      (state.store.trie.traverse query.queryPrefix
        (callback around state.store.farm (rebuildChain around .empty query) query.num) ⟨∅, [], 0⟩) := by
    rw [Trie.traverse_eq_walk fun word id there => rep.isValue there]
    refine Trie.walk_induction ?_ (Collected.nothing _)
    intro funnelId visited callback holds
    exact holds.callback rep.valid visited
  refine ⟨collected.bounded, collected.distinct, collected.stored, ?_, ?_, ?_⟩
  · intro item member
    obtain ⟨funnelId, visited, held⟩ := collected.held item member
    obtain ⟨extension, found⟩ := Trie.mem_visits.mp visited
    obtain ⟨key, _, bytes⟩ := rep.stored _ _ found
    refine ⟨key, ⟨extension, bytes.symm⟩, ?_⟩
    exact (rep.held key funnelId (bytes ▸ found) item.id).mp held
  · intro item member
    have passes := collected.passes item member
    simp only [FilterChain.apply, Bool.and_eq_true, Bool.not_eq_true'] at passes
    exact passes.1
  · intro item member
    have passes := collected.passes item member
    simp only [FilterChain.apply, Bool.and_eq_true] at passes
    exact passes.2

/-- The answer of a fresh seeker is sound in every reachable store that fits into cedar. The query
is any, accepted ones included. -/
theorem seek_sound (around : Surroundings) (query : Query) {events : List Keeper.Event}
    {state : Keeper.State} (ran : run Keeper.step Keeper.initial events = some state)
    (fits : (Keeper.listedKeys state.log).card ≤ capacity) :
    Sound around state query (seek around state.store fresh query).items := by
  have rep := (Keeper.consistent_initial.run ran fits).1.represents
  exact .of_represents rep around query

/-- A query for the keys that begin with `a`. -/
def beginningWithA : Query := { Query.fresh with queryPrefix := ascii "a", num := 3 }

def surroundings : Surroundings := ⟨default, default, .insertion _⟩

theorem seek_sound_interleaved : ∃ state, run Keeper.step Keeper.initial Keeper.interleaved = some state ∧
    (seek surroundings state.store fresh beginningWithA).items.map Item.id = [1, 2] ∧
    Sound surroundings state beginningWithA (seek surroundings state.store fresh beginningWithA).items :=
  ⟨_, rfl, by decide, @seek_sound surroundings beginningWithA Keeper.interleaved _ rfl (by decide)⟩

end Taboo.Seeker
