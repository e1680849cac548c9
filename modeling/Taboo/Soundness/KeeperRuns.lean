import Taboo.Soundness.StoreRefinement

/-! # Runs of the keeper

Every call that was begun is pending or was logged once, when it returned, with its own answer. The log of
returned calls determines a catalogue. Along every run whose keys fit into cedar, the
store represents the catalogue of its log, and every `update_item` between its two sections holds
the funnel id of its key, whatever ran in between: ids are never taken back.
-/

namespace Taboo.Keeper

open Machine

abbrev Log := List (Call × Bool)

/-- What a locked section adds to the log: the call that it ends, if it ends one, with its own answer. -/
def returned (state : State) : Event → Log
  | .attach keys item upsertItem =>
      [(.attach keys item upsertItem, (attach state.store keys item upsertItem).1)]
  | .lookup key item => if state.store.trie.get key.bytes ≠ 0 then [] else [(.updateItem key item, false)]
  | .write index =>
      (state.pending[index]?.map fun update =>
        (.updateItem update.key update.item,
          (state.store.farm.attach update.funnelId update.item true).1)).toList

theorem step_log {state next : State} {event : Event} (stepped : step state event = some next) :
    next.log = returned state event ++ state.log := by
  cases event with
  | attach keys item upsertItem =>
    cases stepped
    rfl
  | lookup key item =>
    simp only [step] at stepped
    split_ifs at stepped with found <;> cases stepped <;> simp [returned, found]
  | write index =>
    obtain ⟨update, member, rfl⟩ := Option.map_eq_some_iff.mp stepped
    simp [returned, member]

/-- The call that a locked section begins. -/
def begun : Event → List Call
  | .attach keys item upsertItem => [.attach keys item upsertItem]
  | .lookup key item => [.updateItem key item]
  | .write _ => []

def Update.call (update : Update) : Call := .updateItem update.key update.item

/-- Every call that was begun has returned once, or is pending. -/
theorem calls_run {events : List Event} {state : State}
    (ran : Machine.run step initial events = some state) :
    (events.flatMap begun).Perm (state.log.map Prod.fst ++ state.pending.map Update.call) := by
  refine run_induction (P := fun events state =>
    (events.flatMap begun).Perm (state.log.map Prod.fst ++ state.pending.map Update.call)) ?_ ?_ ran
  · exact .refl []
  intro events event state next _ calls stepped
  rw [List.flatMap_append, List.flatMap_singleton]
  refine (calls.append_right _).trans ?_
  cases event with
  | attach keys item upsertItem =>
    cases stepped
    exact List.perm_append_singleton ..
  | lookup key item =>
    simp only [step] at stepped
    split_ifs at stepped with found <;> cases stepped
    · simp [begun, Update.call]
    · exact List.perm_append_singleton ..
  | write index =>
    obtain ⟨update, member, rfl⟩ := step_write stepped
    obtain ⟨inside, rfl⟩ := List.getElem?_eq_some_iff.mp member
    have moved := (List.getElem_cons_eraseIdx_perm inside).symm.map Update.call
    simp only [begun, List.append_nil]
    exact (moved.append_left _).trans List.perm_middle

/-- The keys that the attach calls of a log listed. -/
def listedKeys : Log → Finset Key
  | [] => ∅
  | (.attach keys _ _, _) :: log => listedKeys log ∪ keys.toFinset
  | (.updateItem _ _, _) :: log => listedKeys log

/-- An attach that listed the key, or a successful `update_item` on it, was about this item id. -/
def Related (log : Log) (key : Key) (id : IdT) : Prop :=
  (∃ keys item upsertItem answer, (Call.attach keys item upsertItem, answer) ∈ log ∧ key ∈ keys ∧
    item.id = id) ∨ ∃ item, (Call.updateItem key item, true) ∈ log ∧ item.id = id

def catalogue (log : Log) : Catalogue Key IdT := ⟨listedKeys log, fun key => {id | Related log key id}⟩

theorem catalogue_nil : catalogue [] = ⟨∅, fun _ => ∅⟩ := by
  ext <;> simp [catalogue, listedKeys, Related]

theorem catalogue_attach (log : Log) (keys : KeyList) (item : Item) (upsertItem answer : Bool) :
    catalogue ((.attach keys item upsertItem, answer) :: log) = (catalogue log).attach keys item.id := by
  ext key id
  · simp [catalogue, listedKeys, Catalogue.attach]
  · simp only [catalogue, Catalogue.attach, Set.mem_ofPred_eq, Related, List.mem_cons]
    constructor
    · rintro (⟨keys', item', upsert', answer', here | before, listed, same⟩ | ⟨item', here | before, same⟩)
      · cases here
        exact Or.inr ⟨listed, same.symm⟩
      · exact Or.inl (Or.inl ⟨keys', item', upsert', answer', before, listed, same⟩)
      · cases here
      · exact Or.inl (Or.inr ⟨item', before, same⟩)
    · rintro ((⟨keys', item', upsert', answer', before, rest⟩ | ⟨item', before, same⟩) | ⟨listed, rfl⟩)
      · exact Or.inl ⟨keys', item', upsert', answer', Or.inr before, rest⟩
      · exact Or.inr ⟨item', Or.inr before, same⟩
      · exact Or.inl ⟨keys, item, upsertItem, answer, Or.inl rfl, listed, rfl⟩

theorem catalogue_missed (log : Log) (key : Key) (item : Item) :
    catalogue ((.updateItem key item, false) :: log) = catalogue log := by
  ext <;> simp [catalogue, listedKeys, Related]

theorem catalogue_updated {log : Log} {key : Key} (listed : key ∈ listedKeys log) (item : Item) :
    catalogue ((.updateItem key item, true) :: log) = (catalogue log).attach [key] item.id := by
  ext other id
  · simp only [catalogue, listedKeys, Catalogue.attach, Finset.mem_union, List.mem_toFinset,
      List.mem_singleton, iff_self_or]
    rintro rfl
    exact listed
  · simp only [catalogue, Catalogue.attach, Set.mem_ofPred_eq, Related, List.mem_cons,
      List.not_mem_nil, or_false, Prod.mk.injEq, reduceCtorEq, false_and, false_or,
      Call.updateItem.injEq, and_true, or_assoc]
    refine or_congr_right ⟨?_, ?_⟩
    · rintro ⟨item', ⟨rfl, rfl⟩ | before, same⟩
      · exact Or.inr ⟨rfl, same.symm⟩
      · exact Or.inl ⟨item', before, same⟩
    · rintro (⟨item', before, same⟩ | ⟨rfl, rfl⟩)
      · exact ⟨item', Or.inr before, same⟩
      · exact ⟨item, Or.inl ⟨rfl, rfl⟩, rfl⟩

/-- The store agrees with the log, and every pending call holds the funnel of its key. -/
structure Consistent (state : State) : Prop where
  represents : Represents state.store (catalogue state.log)
  pending : ∀ update ∈ state.pending, state.store.trie.funnelId? update.key.bytes = some update.funnelId

theorem consistent_initial : Consistent initial where
  represents := by
    rw [initial, catalogue_nil]
    exact .empty
  pending := by simp [initial]

/-- Funnel ids of the first state are those of the second. -/
def Keeps (before after : State) : Prop :=
  ∀ word id, before.store.trie.funnelId? word = some id → after.store.trie.funnelId? word = some id

theorem listedKeys_step {state next : State} {event : Event} (stepped : step state event = some next) :
    listedKeys state.log ⊆ listedKeys next.log := by
  cases event with
  | attach keys item upsertItem =>
    cases stepped
    exact Finset.subset_union_left
  | lookup key item =>
    simp only [step] at stepped
    split_ifs at stepped <;> cases stepped <;> exact subset_rfl
  | write index =>
    obtain ⟨update, _, rfl⟩ := step_write stepped
    exact subset_rfl

/-- One locked section keeps the store consistent and takes no funnel id back. -/
theorem Consistent.step {state next : State} (consistent : Consistent state) {event : Event}
    (stepped : Keeper.step state event = some next) (fits : (listedKeys next.log).card ≤ capacity) :
    Consistent next ∧ Keeps state next := by
  have rep := consistent.represents
  cases event with
  | attach keys item upsertItem =>
    cases stepped
    have fits' : ((catalogue state.log).attach keys item.id).keys.card ≤ capacity := by
      rwa [← catalogue_attach state.log keys item upsertItem true]
    obtain ⟨after, kept, _⟩ := rep.keeper_attach keys item upsertItem fits'
    refine ⟨⟨?_, fun update member => kept _ _ (consistent.pending update member)⟩, kept⟩
    rw [catalogue_attach]
    exact after
  | lookup key item =>
    simp only [Keeper.step] at stepped
    split_ifs at stepped with found
    · cases stepped
      refine ⟨⟨rep, fun update member => ?_⟩, fun _ _ there => there⟩
      rcases List.mem_append.mp member with member | member
      · exact consistent.pending update member
      · obtain rfl := List.mem_singleton.mp member
        rw [ne_eq, rep.get_eq_zero_iff, not_not] at found
        obtain ⟨id, there⟩ := rep.known key found
        simpa [rep.get_eq there] using there
    · cases stepped
      refine ⟨⟨?_, consistent.pending⟩, fun _ _ there => there⟩
      rw [catalogue_missed]
      exact rep
  | write index =>
    obtain ⟨update, member, rfl⟩ := step_write stepped
    have there := consistent.pending update (List.mem_of_getElem? member)
    have listed : update.key ∈ listedKeys state.log := rep.listed_of_found there
    refine ⟨⟨?_, fun other rest => consistent.pending other (List.mem_of_mem_eraseIdx rest)⟩,
      fun _ _ there => there⟩
    rw [catalogue_updated listed]
    exact rep.attach_known there update.item true

/-- Along any continuation that fits, the store stays consistent and keeps its ids. -/
theorem Consistent.run {state target : State} (consistent : Consistent state) {events : List Event}
    (ran : Machine.run Keeper.step state events = some target)
    (fits : (listedKeys target.log).card ≤ capacity) : Consistent target ∧ Keeps state target := by
  revert fits
  refine run_invariant (P := fun next => (listedKeys next.log).card ≤ capacity →
    Consistent next ∧ Keeps state next) ?_ (fun _ => ⟨consistent, fun _ _ there => there⟩) ran
  intro middle event next holds stepped fits
  obtain ⟨before, kept⟩ := holds (le_trans (Finset.card_le_card (listedKeys_step stepped)) fits)
  obtain ⟨after, kept'⟩ := before.step stepped fits
  exact ⟨after, fun word id there => kept' word id (kept word id there)⟩

theorem mem_listedKeys_iff (log : Log) (key : Key) : key ∈ listedKeys log ↔
    ∃ keys item upsertItem answer, (Call.attach keys item upsertItem, answer) ∈ log ∧ key ∈ keys := by
  induction log with
  | nil => simp [listedKeys]
  | cons entry log ih =>
    obtain ⟨call, answer⟩ := entry
    cases call with
    | attach keys item upsertItem =>
      simp only [listedKeys, Finset.mem_union, ih, List.mem_toFinset, List.mem_cons]
      constructor
      · rintro (⟨keys', item', upsert', answer', before, listed⟩ | listed)
        · exact ⟨keys', item', upsert', answer', Or.inr before, listed⟩
        · exact ⟨keys, item, upsertItem, answer, Or.inl rfl, listed⟩
      · rintro ⟨keys', item', upsert', answer', here | before, listed⟩
        · cases here
          exact Or.inr listed
        · exact Or.inl ⟨keys', item', upsert', answer', before, listed⟩
    | updateItem other item => simpa [listedKeys] using ih

/-- What a store owes to the calls that have returned: their keys, under distinct and real funnel
ids, their items under those keys, and a document for every id. -/
structure Agrees (store : Store) (log : Log) : Prop where
  absent : ∀ key : Key, store.trie.get key.bytes = 0 ↔ key ∉ listedKeys log
  items : ∀ key ∈ listedKeys log, ∀ id,
    id ∈ (store.farm.funnel (store.trie.get key.bytes)).toList.map Prod.snd ↔ Related log key id
  distinct : ∀ key ∈ listedKeys log, ∀ other ∈ listedKeys log,
    store.trie.get key.bytes = store.trie.get other.bytes → key = other
  real : ∀ key ∈ listedKeys log, store.trie.get key.bytes ≠ 0 ∧
    store.trie.get key.bytes ≠ noValue ∧ store.trie.get key.bytes ≠ noPath
  present : ∀ funnelId id, id ∈ (store.farm.funnel funnelId).toList.map Prod.snd →
    ∃ item, store.farm.item id = some item ∧ item.id = id

theorem Consistent.agrees {state : State} (consistent : Consistent state) :
    Agrees state.store state.log := by
  have rep := consistent.represents
  refine ⟨rep.get_eq_zero_iff, ?_, ?_, ?_, ?_⟩
  · intro key listed id
    obtain ⟨funnelId, found⟩ := rep.known key listed
    rw [rep.get_eq found, rep.valid.mem_values, rep.held key funnelId found]
    rfl
  · intro key listed other listed' same
    obtain ⟨funnelId, found⟩ := rep.known key listed
    obtain ⟨funnelId', found'⟩ := rep.known other listed'
    rw [rep.get_eq found, rep.get_eq found'] at same
    exact Key.ext (rep.injective _ _ _ (same ▸ found) found')
  · intro key listed
    obtain ⟨funnelId, found⟩ := rep.known key listed
    have nonzero := (rep.get_eq_zero_iff key).not_left.mpr listed
    rw [rep.get_eq found] at nonzero ⊢
    exact ⟨nonzero, (rep.isValue found).2, (rep.isValue found).1⟩
  · intro funnelId id member
    exact rep.valid.item_of_mem ((rep.valid.mem_values funnelId id).mp member)

/-- Every reachable store agrees with the calls that have returned, and a key that once has a funnel
keeps it. The interleaving of the two sections of `update_item` is any. -/
theorem run_agrees {events : List Event} {state : State}
    (ran : Machine.run step initial events = some state) (fits : (listedKeys state.log).card ≤ capacity) :
    Agrees state.store state.log ∧
      ∀ before after middle, events = before ++ after → Machine.run step initial before = some middle →
        ∀ key ∈ listedKeys middle.log,
          state.store.trie.get key.bytes = middle.store.trie.get key.bytes := by
  have last := (consistent_initial.run ran fits).1
  refine ⟨last.agrees, ?_⟩
  rintro before after middle rfl ranBefore key listed
  obtain ⟨middle', ranBefore', ranAfter⟩ := run_cut ran
  obtain rfl := Option.some.inj (ranBefore.symm.trans ranBefore')
  have fitsBefore : (listedKeys middle.log).card ≤ capacity := by
    refine le_trans (Finset.card_le_card ?_) fits
    exact run_invariant (P := fun state => listedKeys middle.log ⊆ listedKeys state.log)
      (fun _ _ _ holds stepped => holds.trans (listedKeys_step stepped)) subset_rfl ranAfter
  have earlier := (consistent_initial.run ranBefore fitsBefore).1
  obtain ⟨id, found⟩ := earlier.represents.known key listed
  rw [earlier.represents.get_eq found,
    last.represents.get_eq ((earlier.run ranAfter fits).2 key.bytes id found)]

def keyA : Key := ⟨ascii "a", by decide, by decide⟩
def keyAB : Key := ⟨ascii "ab", by decide, by decide⟩
def keyB : Key := ⟨ascii "b", by decide, by decide⟩

/-- Two keys of one item, then an `update_item` whose write runs after another attach. -/
def interleaved : List Event :=
  [.attach [keyA, keyAB] (.sent 1 []) false, .lookup keyA (.sent 2 []), .attach [keyB] (.sent 3 []) true,
    .write 0]

theorem run_agrees_interleaved : ∃ state, Machine.run step initial interleaved = some state ∧
    Agrees state.store state.log :=
  ⟨_, rfl, (@run_agrees interleaved _ rfl (by decide)).1⟩

end Taboo.Keeper
