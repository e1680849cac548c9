import Taboo.Machine.Run
import Taboo.Model.Farm
import Taboo.Model.Trie

/-! # The keeper and its concurrent callers

`attach` holds the write lock throughout. `update_item` looks the key up under the read lock, drops
it, and takes the write lock for the funnel it found; between the two, other calls may run. The
calls that have done their lookup are the `pending` ones.
-/

namespace Taboo

/-- The shared part of `Aside`. -/
structure Store where
  trie : Trie
  farm : Farm

namespace Store

def empty : Store := ⟨.empty, .empty⟩

end Store

namespace Keeper

/-- `AttachCallback`: every call overwrites `attached`. -/
def attachCallback (item : Item) (upsert : Bool) (funnelId : IdT) (state : Farm × Bool) : Farm × Bool :=
  let answer := state.1.attach funnelId item upsert
  (answer.2, answer.1)

def attach (store : Store) (keys : KeyList) (item : Item) (upsertItem : Bool) : Bool × Store :=
  let done := store.trie.attach (attachCallback item upsertItem) (store.farm, false) keys
  ((done.1 && done.2.2.2) || upsertItem, ⟨done.2.1, done.2.2.1⟩)

/-- Whatever the keys, an attach leaves a valid farm, with the item where its id had none before. -/
theorem attach_farm {store : Store} (valid : store.farm.Valid) (keys : KeyList) (item : Item)
    (upsertItem : Bool) :
    (attach store keys item upsertItem).2.farm.Valid ∧
      ∀ id, (attach store keys item upsertItem).2.farm.item id =
        if keys ≠ [] ∧ id = item.id ∧ store.farm.item id = none then some item else store.farm.item id := by
  obtain ⟨funnelIds, length, called⟩ :=
    store.trie.attach_calls (attachCallback item upsertItem) (store.farm, false) keys
  have nonempty : keys ≠ [] ↔ funnelIds ≠ [] := by
    rw [← List.length_pos_iff, ← List.length_pos_iff, length]
  simp only [attach, called, nonempty]
  clear called length nonempty
  generalize false = flag
  induction funnelIds generalizing store flag with
  | nil => exact ⟨valid, by simp⟩
  | cons funnelId rest ih =>
    have first := valid.item_attach funnelId item upsertItem
    obtain ⟨valid', later⟩ := @ih ⟨store.trie, (store.farm.attach funnelId item upsertItem).2⟩
      (valid.attach funnelId item upsertItem) (store.farm.attach funnelId item upsertItem).1
    refine ⟨valid', fun id => ?_⟩
    refine (later id).trans ?_
    simp only [first, ne_eq, List.cons_ne_nil, not_false_eq_true, true_and]
    rcases eq_or_ne id item.id with rfl | different
    · cases store.farm.item item.id <;> simp
    · simp [different]

/-- An `update_item` call between its two locked sections. -/
structure Update where
  key : Key
  item : Item
  funnelId : IdT

inductive Call
  | attach (keys : KeyList) (item : Item) (upsertItem : Bool)
  | updateItem (key : Key) (item : Item)

/-- The log records the calls that have returned, with what they returned, newest first. -/
structure State where
  store : Store
  pending : List Update
  log : List (Call × Bool)

inductive Event
  | attach (keys : KeyList) (item : Item) (upsertItem : Bool)
  /-- the read-locked section of `update_item` -/
  | lookup (key : Key) (item : Item)
  /-- the write-locked section of a pending `update_item` -/
  | write (index : ℕ)

def initial : State := ⟨.empty, [], []⟩

/-- One locked section. -/
def step (state : State) : Event → Option State
  | .attach keys item upsertItem =>
      let answer := attach state.store keys item upsertItem
      some ⟨answer.2, state.pending, (.attach keys item upsertItem, answer.1) :: state.log⟩
  | .lookup key item =>
      let id := state.store.trie.get key.bytes
      if id ≠ 0 then some { state with pending := state.pending ++ [⟨key, item, id⟩] }
      else some { state with log := (.updateItem key item, false) :: state.log }
  | .write index =>
      state.pending[index]?.map fun update =>
        let answer := state.store.farm.attach update.funnelId update.item true
        ⟨{ state.store with farm := answer.2 }, state.pending.eraseIdx index,
          (.updateItem update.key update.item, answer.1) :: state.log⟩

/-- The write section upserts, so it always succeeds. -/
theorem step_write {state next : State} {index : ℕ} (stepped : step state (.write index) = some next) :
    ∃ update, state.pending[index]? = some update ∧ next =
      ⟨⟨state.store.trie, (state.store.farm.attach update.funnelId update.item true).2⟩,
        state.pending.eraseIdx index, (.updateItem update.key update.item, true) :: state.log⟩ := by
  obtain ⟨update, member, rfl⟩ := Option.map_eq_some_iff.mp stepped
  have accepted : (state.store.farm.attach update.funnelId update.item true).1 = true :=
    (Farm.attach_fst_iff ..).mpr (Or.inr rfl)
  exact ⟨update, member, by simp only [accepted]⟩

end Keeper

end Taboo
