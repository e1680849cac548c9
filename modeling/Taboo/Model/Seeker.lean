import Mathlib.Data.Finset.Insert
import Taboo.Model.Keeper
import Taboo.Model.Query

/-! # The seeker

A query walks the trie below its prefix and pumps the items of every funnel it meets through the
filter chain, until it has enough of them or has called back too often.
-/

namespace Taboo

/-- What a query runs with besides the store. -/
structure Surroundings where
  config : Config
  hashing : Hashing
  funnelOrder : HashOrder (IdT × IdT)

/-- The mutable members of `Seeker`. -/
structure Seeker where
  filter : FilterChain
  items : List Item

namespace Seeker

def fresh : Seeker := ⟨.empty, []⟩

/-- The mutable members of `ItemCallback`, with the items it collects for the seeker. -/
structure Callback where
  recorded : Finset IdT
  items : List Item
  iterated : ℕ

section Pump

variable (around : Surroundings) (farm : Farm) (chain : FilterChain) (maxMatch : ℕ)

/-- One entry of a funnel; the loop goes on when there are enough items, but adds none. -/
def pumpEntry (state : Callback) (id : IdT) : Callback :=
  if state.items.length < maxMatch ∧ id ∉ state.recorded then
    match farm.item id with
    | some item =>
        if chain.apply around.hashing item then
          { state with recorded := insert item.id state.recorded, items := state.items ++ [item] }
        else state
    | none => state
  else state

def pump (funnelId : IdT) (state : Callback) : Bool × Callback :=
  let ids := (around.funnelOrder.order (farm.funnel funnelId).toList).map Prod.snd
  let state := ids.foldl (pumpEntry around farm chain maxMatch) state
  (decide (state.items.length < maxMatch), state)

/-- `ItemCallback::operator()` -/
def callback (funnelId : IdT) (state : Callback) : Bool × Callback :=
  let state := { state with iterated := state.iterated + 1 }
  if around.config.maxIterations < state.iterated then (false, state)
  else pump around farm chain maxMatch funnelId state

end Pump

/-- `FilterChain::rebuild` for both chains. -/
def rebuildChain (around : Surroundings) (chain : FilterChain) (query : Query) : FilterChain where
  filter := Filter.rebuild around.hashing around.config.keyId chain.filter query.filters
  exclude := Filter.rebuild around.hashing around.config.keyId chain.exclude query.excludes

def seek (around : Surroundings) (store : Store) (seeker : Seeker) (query : Query) : Seeker :=
  let chain := rebuildChain around seeker.filter query
  let walked := store.trie.traverse query.queryPrefix (callback around store.farm chain query.num) ⟨∅, [], 0⟩
  ⟨chain, walked.items⟩

end Seeker

end Taboo
