import Taboo.Model.ArrayKeeper
import Taboo.Soundness.ArrayTrieRuns
import Taboo.Soundness.KeeperRuns

/-! # Runs of the keeper on cedar's arrays

Whatever the callers do, in whatever order their locked sections come, the keeper on the arrays returns
what the keeper on the trie returns, and every query finds the same items in the same order.
-/

namespace Taboo.ArrayKeeper

open Machine

/-- The same farm, calls and answers, and the arrays hold the trie. -/
structure Alike (arrays : State) (state : Keeper.State) : Prop where
  trie : Refines arrays.store.trie state.store.trie
  farm : arrays.store.farm = state.store.farm
  pending : arrays.pending = state.pending
  log : arrays.log = state.log

theorem alike_initial : Alike initial Keeper.initial := ⟨.empty, rfl, rfl, rfl⟩

theorem Alike.attach {arrays : State} {state : Keeper.State} (alike : Alike arrays state)
    (keys : KeyList) (item : Item)
    (upsertItem : Bool) : (attach arrays.store (keys.map Key.bytes) item upsertItem).1 =
      (Keeper.attach state.store keys item upsertItem).1 ∧
      Refines (attach arrays.store (keys.map Key.bytes) item upsertItem).2.trie
        (Keeper.attach state.store keys item upsertItem).2.trie ∧
      (attach arrays.store (keys.map Key.bytes) item upsertItem).2.farm =
        (Keeper.attach state.store keys item upsertItem).2.farm := by
  obtain ⟨flag, next, called⟩ := alike.trie.attach (Keeper.attachCallback item upsertItem)
    (arrays.store.farm, false) keys
  simp only [ArrayKeeper.attach, Keeper.attach, flag, called, ← alike.farm, true_and]
  exact ⟨next, trivial⟩

/-- A locked section can run on both or on neither. -/
theorem Alike.step {arrays : State} {state : Keeper.State} (alike : Alike arrays state)
    (event : Keeper.Event) :
    Option.Rel Alike (step arrays event) (Keeper.step state event) := by
  cases event with
  | attach keys item upsertItem =>
    obtain ⟨answer, trie, farm⟩ := alike.attach keys item upsertItem
    exact .some ⟨trie, farm, alike.pending, by rw [answer, alike.log]⟩
  | lookup key item =>
    simp only [ArrayKeeper.step, Keeper.step, alike.trie.get_eq key.noZero]
    split_ifs
    · exact .some ⟨alike.trie, alike.farm, by rw [alike.pending], alike.log⟩
    · exact .some ⟨alike.trie, alike.farm, alike.pending, by rw [alike.log]⟩
  | write index =>
    simp only [ArrayKeeper.step, Keeper.step, alike.pending]
    cases state.pending[index]? with
    | none => exact .none
    | some update =>
      exact .some ⟨alike.trie, by rw [alike.farm], rfl, by rw [alike.farm, alike.log]⟩

/-- The keeper on the arrays runs as the keeper on the trie. -/
theorem alike_run (events : List Keeper.Event) :
    Option.Rel Alike (run step initial events) (run Keeper.step Keeper.initial events) :=
  run_related (fun _ _ event alike => alike.step event) alike_initial events

theorem alike_of_run {events : List Keeper.Event} {arrays : State}
    (ran : run step initial events = some arrays) :
    ∃ state, run Keeper.step Keeper.initial events = some state ∧ Alike arrays state := by
  have alike := alike_run events
  rw [ran] at alike
  generalize run Keeper.step Keeper.initial events = target at alike
  cases alike with
  | some alike => exact ⟨_, rfl, alike⟩

/-- A query finds in the arrays what it finds in the trie. -/
theorem Alike.seek {arrays : State} {state : Keeper.State} (alike : Alike arrays state)
    (around : Surroundings) (seeker : Seeker) (query : Query) (nonzero : 0 ∉ query.queryPrefix)
    (value : state.store.trie.funnelId? query.queryPrefix ≠ some noPath) :
    seek around arrays.store seeker query = Seeker.seek around state.store seeker query := by
  simp only [ArrayKeeper.seek, Seeker.seek, alike.farm, alike.trie.traverse _ _ nonzero value]

/-- Every run of the keeper on the arrays, up to the number of keys that cedar has room for, returns what the
keeper on the trie returns, and leaves a store in which every query without a zero byte finds the same. -/
theorem arrays_answer {events : List Keeper.Event} {arrays : State}
    (ran : run step initial events = some arrays)
    (fits : (Keeper.listedKeys arrays.log).card ≤ capacity) :
    ∃ state, run Keeper.step Keeper.initial events = some state ∧ arrays.log = state.log ∧
      arrays.store.farm = state.store.farm ∧
      (∀ word, 0 ∉ word → arrays.store.trie.get word = state.store.trie.get word) ∧
      ∀ around seeker query, 0 ∉ query.queryPrefix →
        seek around arrays.store seeker query = Seeker.seek around state.store seeker query := by
  obtain ⟨state, ran', alike⟩ := alike_of_run ran
  have numbered : Numbered state.store.trie (Keeper.listedKeys state.log) :=
    (Keeper.consistent_initial.run ran' (alike.log ▸ fits)).1.represents.toNumbered
  refine ⟨state, ran', alike.log, alike.farm, fun word nonzero => alike.trie.get_eq nonzero,
    fun around seeker query nonzero => ?_⟩
  exact alike.seek around seeker query nonzero fun found => (numbered.isValue found).1 rfl

theorem arrays_answer_interleaved : ∃ arrays, run step initial Keeper.interleaved = some arrays ∧
    ∃ state, run Keeper.step Keeper.initial Keeper.interleaved = some state ∧ arrays.log = state.log ∧
      arrays.store.farm = state.store.farm ∧
      (∀ word, 0 ∉ word → arrays.store.trie.get word = state.store.trie.get word) ∧
      ∀ around seeker query, 0 ∉ query.queryPrefix →
        seek around arrays.store seeker query = Seeker.seek around state.store seeker query :=
  ⟨_, rfl, arrays_answer rfl (by decide)⟩

end Taboo.ArrayKeeper
