import Taboo.Model.ArrayTrie
import Taboo.Model.AttachHandler
import Taboo.Model.Seeker

/-! # The keeper and the seeker on cedar's arrays

`Keeper`, `Seeker` and the handler of attach requests once more, with a store whose trie lies in the arrays.
The calls and the locked sections are those of `Keeper`.
-/

namespace Taboo

/-- The shared part of `Aside`. -/
structure ArrayStore where
  trie : ArrayTrie
  farm : Farm

namespace ArrayStore

def empty : ArrayStore := ⟨.empty, .empty⟩

end ArrayStore

namespace ArrayKeeper

structure State where
  store : ArrayStore
  pending : List Keeper.Update
  log : List (Keeper.Call × Bool)

def initial : State := ⟨.empty, [], []⟩

def attach (store : ArrayStore) (keys : List Bytes) (item : Item) (upsertItem : Bool) : Bool × ArrayStore :=
  let done := store.trie.attach (Keeper.attachCallback item upsertItem) (store.farm, false) keys
  ((done.1 && done.2.2.2) || upsertItem, ⟨done.2.1, done.2.2.1⟩)

/-- One locked section. -/
def step (state : State) : Keeper.Event → Option State
  | .attach keys item upsertItem =>
      let answer := attach state.store (keys.map Key.bytes) item upsertItem
      some ⟨answer.2, state.pending, (.attach keys item upsertItem, answer.1) :: state.log⟩
  | .lookup key item =>
      let id := state.store.trie.get key.bytes
      if id ≠ 0 then some { state with pending := state.pending ++ [⟨key, item, id⟩] }
      else some { state with log := (.updateItem key item, false) :: state.log }
  | .write index =>
      state.pending[index]?.map fun update =>
        let answer := state.store.farm.attach update.funnelId update.item true
        ⟨{ state.store with farm := answer.2 }, state.pending.eraseIdx index,
          (.updateItem update.key update.item, answer.1) :: state.log⟩

/-- `Seeker::seek` -/
def seek (around : Surroundings) (store : ArrayStore) (seeker : Seeker) (query : Query) : Seeker :=
  let chain := Seeker.rebuildChain around seeker.filter query
  let walked := store.trie.traverse query.queryPrefix
    (Seeker.callback around store.farm chain query.num) ⟨∅, [], 0⟩
  ⟨chain, walked.items⟩

/-- `AttachHandler::process` -/
def process (config : Config) (parse : Parser) (digest : Bytes → Bytes) (handler : AttachHandler)
    (store : ArrayStore) : Except Fault (Option Result × ArrayStore) :=
  AttachHandler.processOf config parse digest AttachHandler.toWord attach handler store

end ArrayKeeper

end Taboo
