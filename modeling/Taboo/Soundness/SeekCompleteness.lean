import Taboo.Soundness.SeekSoundness

/-! # The seeker against a naive scan

A walk that was not cut off has recorded every stored item that passes the filters below every funnel
it met, and has collected what it has recorded. With soundness, its answer is that of a scan over all
keys and all items.
-/

namespace Taboo.Seeker

open Machine

section Pump

variable {around : Surroundings} {farm : Farm} {chain : FilterChain} {maxMatch : ℕ}

/-- Callbacks only add. -/
structure Grows (before after : Callback) : Prop where
  items : before.items.length ≤ after.items.length
  recorded : before.recorded ⊆ after.recorded
  iterated : before.iterated ≤ after.iterated

theorem Grows.refl (state : Callback) : Grows state state := ⟨le_refl _, subset_rfl, le_refl _⟩

theorem Grows.trans {first second third : Callback} (before : Grows first second)
    (after : Grows second third) : Grows first third where
  items := le_trans before.items after.items
  recorded := before.recorded.trans after.recorded
  iterated := le_trans before.iterated after.iterated

theorem grows_pumpEntry (state : Callback) (id : IdT) :
    Grows state (pumpEntry around farm chain maxMatch state id) := by
  rcases pumpEntry_cases state id with same | ⟨item, _, _, _, _, added⟩
  · rw [same]
    exact .refl state
  · rw [added]
    exact ⟨by simp, Finset.subset_insert _ _, le_refl _⟩

theorem grows_foldl (ids : List IdT) (state : Callback) :
    Grows state (ids.foldl (pumpEntry around farm chain maxMatch) state) := by
  induction ids generalizing state with
  | nil => exact .refl state
  | cons id rest ih => exact (grows_pumpEntry state id).trans (ih _)

theorem grows_callback (funnelId : IdT) (state : Callback) :
    Grows state (callback around farm chain maxMatch funnelId state).2 := by
  apply callback_induction ?_ ?_ (Grows.refl state)
  · exact fun _ grows => grows.trans ⟨le_refl _, subset_rfl, Nat.le_succ _⟩
  · exact fun id _ later grows => grows.trans (grows_pumpEntry later id)

/-- An id that the walk would show: its item is stored and passes the filters. -/
def Wanted (around : Surroundings) (farm : Farm) (chain : FilterChain) (id : IdT) : Prop :=
  ∃ item, farm.item id = some item ∧ chain.apply around.hashing item = true

/-- With room left, the entry of a wanted id records it. -/
theorem pumpEntry_wanted (valid : farm.Valid) {state : Callback} {id : IdT}
    (wanted : Wanted around farm chain id) (room : state.items.length < maxMatch) :
    id ∈ (pumpEntry around farm chain maxMatch state id).recorded := by
  obtain ⟨item, found, passes⟩ := wanted
  unfold pumpEntry
  by_cases missing : id ∈ state.recorded
  · simp [missing]
  · rw [if_pos ⟨room, missing⟩]
    simp only [found, passes, if_true]
    rw [← valid.named id item found]
    exact Finset.mem_insert_self _ _

theorem foldl_wanted (valid : farm.Valid) {ids : List IdT} {state : Callback}
    (room : (ids.foldl (pumpEntry around farm chain maxMatch) state).items.length < maxMatch) :
    ∀ id ∈ ids, Wanted around farm chain id →
      id ∈ (ids.foldl (pumpEntry around farm chain maxMatch) state).recorded := by
  induction ids generalizing state with
  | nil => simp
  | cons id rest ih =>
    intro other member wanted
    rcases List.mem_cons.mp member with rfl | member
    · have later : Grows state ((other :: rest).foldl (pumpEntry around farm chain maxMatch) state) :=
        grows_foldl _ state
      have now := pumpEntry_wanted valid wanted (lt_of_le_of_lt later.items room)
      exact (grows_foldl rest _).recorded now
    · exact ih room other member wanted

/-- Enough items, or too many callbacks. -/
def CutOff (around : Surroundings) (maxMatch : ℕ) (state : Callback) : Prop :=
  maxMatch ≤ state.items.length ∨ around.config.maxIterations < state.iterated

instance (around : Surroundings) (maxMatch : ℕ) (state : Callback) : Decidable (CutOff around maxMatch state) :=
  inferInstanceAs (Decidable (_ ∨ _))

theorem CutOff.mono {before after : Callback} (grows : Grows before after)
    (cut : CutOff around maxMatch before) : CutOff around maxMatch after :=
  cut.imp (le_trans · grows.items) (lt_of_lt_of_le · grows.iterated)

/-- A callback that asks for no more has a reason to. -/
theorem callback_stops {funnelId : IdT} {state : Callback}
    (ends : (callback around farm chain maxMatch funnelId state).1 = false) :
    CutOff around maxMatch (callback around farm chain maxMatch funnelId state).2 := by
  simp only [callback, pump] at ends ⊢
  split_ifs at ends ⊢ with often
  · exact Or.inr often
  · exact Or.inl (by simpa using ends)

/-- A callback that is not cut off records all that its funnel has to show. -/
theorem callback_wanted (valid : farm.Valid) {funnelId : IdT} {state : Callback}
    (uncut : ¬CutOff around maxMatch (callback around farm chain maxMatch funnelId state).2) :
    ∀ id ∈ farm.funnel funnelId, Wanted around farm chain id →
      id ∈ (callback around farm chain maxMatch funnelId state).2.recorded := by
  intro id held wanted
  simp only [callback, pump] at uncut ⊢
  split_ifs at uncut ⊢ with often
  · exact absurd (Or.inr often) uncut
  · have room := not_le.mp fun full => uncut (Or.inl full)
    exact foldl_wanted valid room id ((mem_entries valid).mpr held) wanted

/-- Only collected items are recorded. -/
def Shown (state : Callback) : Prop := ∀ id ∈ state.recorded, id ∈ state.items.map Item.id

theorem Shown.pumpEntry {state : Callback} (shown : Shown state) (id : IdT) :
    Shown (pumpEntry around farm chain maxMatch state id) := by
  rcases pumpEntry_cases state id with same | ⟨item, _, _, _, _, added⟩
  · rw [same]
    exact shown
  · rw [added]
    intro other member
    rw [List.map_append, List.mem_append]
    rcases Finset.mem_insert.mp member with rfl | member
    · exact Or.inr List.mem_cons_self
    · exact Or.inl (shown other member)

theorem Shown.callback {state : Callback} (shown : Shown state) (funnelId : IdT) :
    Shown (callback around farm chain maxMatch funnelId state).2 := by
  apply callback_induction ?_ ?_ shown
  · exact fun _ shown => shown
  · exact fun id _ _ shown => shown.pumpEntry id

/-- What is recorded is in the list, where that holds items of the dictionary. -/
theorem Shown.mem {state : Callback} (shown : Shown state)
    (stored : ∀ item ∈ state.items, farm.item item.id = some item) {item : Item}
    (found : farm.item item.id = some item) (recorded : item.id ∈ state.recorded) : item ∈ state.items := by
  obtain ⟨other, member, same⟩ := List.mem_map.mp (shown item.id recorded)
  have there := stored other member
  rw [same, found] at there
  exact Option.some.inj there ▸ member

end Pump

/-- Where the walk of a fresh seeker for this query ends. -/
def walked (around : Surroundings) (store : Store) (query : Query) : Callback :=
  store.trie.traverse query.queryPrefix
    (callback around store.farm (rebuildChain around .empty query) query.num) ⟨∅, [], 0⟩

theorem seek_fresh (around : Surroundings) (store : Store) (query : Query) :
    (seek around store fresh query).items = (walked around store query).items := rfl

section Walk

variable {around : Surroundings} {store : Store} {catalogue : Catalogue Key IdT} {query : Query}

theorem walked_eq_walk (rep : Represents store catalogue) (around : Surroundings) (query : Query) :
    walked around store query =
      Trie.walk (callback around store.farm (rebuildChain around .empty query) query.num)
        (store.trie.visits query.queryPrefix) ⟨∅, [], 0⟩ :=
  Trie.traverse_eq_walk (fun _ _ there => rep.isValue there) query.queryPrefix _ _

theorem walked_shown (rep : Represents store catalogue) : Shown (walked around store query) := by
  rw [walked_eq_walk rep]
  exact Trie.walk_induction (fun id _ _ shown => shown.callback id) (by simp [Shown])

/-- A walk that was not cut off has recorded what the funnels below the prefix have to show. -/
theorem walked_recorded (rep : Represents store catalogue)
    (uncut : ¬CutOff around query.num (walked around store query)) {funnelId id : IdT}
    (visited : funnelId ∈ store.trie.visits query.queryPrefix) (held : id ∈ store.farm.funnel funnelId)
    (wanted : Wanted around store.farm (rebuildChain around .empty query) id) :
    id ∈ (walked around store query).recorded := by
  have values : ∀ id ∈ store.trie.visits query.queryPrefix, id ≠ noPath := by
    intro id member
    obtain ⟨_, stored⟩ := Trie.mem_visits.mp member
    exact (rep.isValue stored).1
  rw [walked_eq_walk rep] at uncut ⊢
  apply Trie.walk_complete (fun funnelId callback => ∀ id ∈ store.farm.funnel funnelId,
    Wanted around store.farm (rebuildChain around .empty query) id → id ∈ callback.recorded)
    ?_ ?_ ?_ ?_ values uncut funnelId visited id held wanted
  · exact fun _ _ => callback_stops
  · exact fun id callback => CutOff.mono (grows_callback id callback)
  · exact fun _ _ => callback_wanted rep.valid
  · exact fun other _ callback kept id member wanted =>
      (grows_callback other callback).recorded (kept id member wanted)

end Walk

/-- What a scan over all keys and all items finds. -/
def Matches (around : Surroundings) (state : Keeper.State) (query : Query) (item : Item) : Prop :=
  (∃ key : Key, query.queryPrefix <+: key.bytes ∧ Keeper.Related state.log key item.id) ∧
    state.store.farm.item item.id = some item ∧
    (rebuildChain around .empty query).apply around.hashing item = true

/-- Uncut, a fresh seeker shows what the scan finds. -/
theorem mem_seek_iff {state : Keeper.State} (rep : Represents state.store (Keeper.catalogue state.log))
    {around : Surroundings} {query : Query}
    (uncut : ¬CutOff around query.num (walked around state.store query)) (item : Item) :
    item ∈ (seek around state.store fresh query).items ↔ Matches around state query item := by
  have sound := Sound.of_represents rep around query
  constructor
  · intro member
    refine ⟨sound.attached item member, sound.stored item member, ?_⟩
    simp [FilterChain.apply, sound.unexcluded item member, sound.matched item member]
  · rintro ⟨⟨key, ⟨extension, bytes⟩, related⟩, found, passes⟩
    -- the funnel of the key is among those that the walk meets
    obtain ⟨funnelId, there⟩ := rep.known key (rep.listed_of_held related)
    have held := (rep.held key funnelId there item.id).mpr related
    have visited : funnelId ∈ state.store.trie.visits query.queryPrefix :=
      Trie.mem_visits.mpr ⟨extension, by rw [bytes, there]⟩
    have recorded := walked_recorded rep uncut visited held ⟨item, found, passes⟩
    rw [seek_fresh] at sound ⊢
    exact (walked_shown rep).mem sound.stored found recorded

/-- In every reachable store that fits into cedar, a walk that was not cut off answers like the scan. -/
theorem seek_complete (around : Surroundings) (query : Query) {events : List Keeper.Event}
    {state : Keeper.State} (ran : run Keeper.step Keeper.initial events = some state)
    (fits : (Keeper.listedKeys state.log).card ≤ capacity)
    (uncut : ¬CutOff around query.num (walked around state.store query)) :
    (∀ item, item ∈ (seek around state.store fresh query).items ↔ Matches around state query item) ∧
      {id | id ∈ (seek around state.store fresh query).items.map Item.id} =
        {id | ∃ item, Matches around state query item ∧ item.id = id} := by
  have rep := (Keeper.consistent_initial.run ran fits).1.represents
  have complete : ∀ item, item ∈ (seek around state.store fresh query).items ↔
      Matches around state query item := mem_seek_iff rep uncut
  refine ⟨complete, Set.ext fun id => ?_⟩
  simp only [Set.mem_ofPred_eq, List.mem_map, complete]

/-- Three matches would do, and the walk finds the two that there are. -/
theorem seek_complete_interleaved : ∃ state,
    run Keeper.step Keeper.initial Keeper.interleaved = some state ∧
    (∀ item, item ∈ (seek surroundings state.store fresh beginningWithA).items ↔
      Matches surroundings state beginningWithA item) ∧
    {id | id ∈ (seek surroundings state.store fresh beginningWithA).items.map Item.id} =
      {id | ∃ item, Matches surroundings state beginningWithA item ∧ item.id = id} :=
  ⟨_, rfl, @seek_complete surroundings beginningWithA Keeper.interleaved _ rfl (by decide) (by decide)⟩

end Taboo.Seeker
