import Taboo.Soundness.SeekCompleteness
import Taboo.Soundness.VisitedKeys

/-! # The order of an answer

Two walks that differ in their limit stay in step until the smaller one is full, so the smaller answer is
the front of the larger. And the funnel of the exact key is pumped first, so its items come first.
-/

namespace Taboo.Seeker

open Machine

section Limits

variable {around : Surroundings} {farm : Farm} {chain : FilterChain} {maxMatch small large : ℕ}

theorem pumpEntry_full {state : Callback} (full : maxMatch ≤ state.items.length) (id : IdT) :
    pumpEntry around farm chain maxMatch state id = state := by
  unfold pumpEntry
  exact if_neg fun wanted => absurd wanted.1 (not_lt.mpr full)

theorem callback_full {state : Callback} (full : maxMatch ≤ state.items.length) (funnelId : IdT) :
    (callback around farm chain maxMatch funnelId state).2.items = state.items := by
  have same : ∀ later : Callback, later.items = state.items → ∀ id,
      (pumpEntry around farm chain maxMatch later id).items = state.items := by
    intro later kept id
    rw [pumpEntry_full (kept ▸ full), kept]
  exact @callback_induction around farm chain maxMatch (fun later => later.items = state.items) funnelId
    (fun _ kept => kept) (fun id _ later kept => same later kept id) state rfl

/-- The walk with the smaller limit has the front of what the other has, and is in its state unless it is
full. -/
structure InStep (small : ℕ) (left right : Callback) : Prop where
  front : left.items = right.items.take small
  same : left.items.length < small → left = right

theorem InStep.of_full {left right : Callback} (front : left.items = right.items.take small)
    (full : small ≤ left.items.length) : InStep small left right :=
  ⟨front, fun room => absurd room (not_lt.mpr full)⟩

theorem InStep.grown {left right after : Callback} (inStep : InStep small left right)
    (full : small ≤ left.items.length) {more : List Item} (grown : after.items = right.items ++ more) :
    InStep small left after := by
  have length : small ≤ right.items.length := by
    rw [inStep.front, List.length_take] at full
    exact le_trans full (min_le_right _ _)
  refine .of_full ?_ full
  rw [grown, List.take_append_of_le_length length]
  exact inStep.front

/-- What the larger walk does alone. -/
theorem InStep.alone {left right : Callback} (inStep : InStep small left right)
    (full : small ≤ left.items.length) (id : IdT) :
    InStep small left (pumpEntry around farm chain large right id) := by
  rcases pumpEntry_cases right id with kept | ⟨item, _, _, _, _, added⟩
  · rw [kept]
    exact inStep
  · rw [added]
    exact inStep.grown full rfl

theorem InStep.callback_alone {left right : Callback} (inStep : InStep small left right)
    (full : small ≤ left.items.length) (funnelId : IdT) :
    InStep small left (callback around farm chain large funnelId right).2 := by
  apply callback_induction ?_ ?_ inStep
  · exact fun _ inStep => .of_full inStep.front full
  · exact fun id _ _ inStep => inStep.alone full id

theorem InStep.pumpEntry (le : small ≤ large) {left right : Callback} (inStep : InStep small left right)
    (id : IdT) : InStep small (pumpEntry around farm chain small left id)
      (pumpEntry around farm chain large right id) := by
  rcases lt_or_ge left.items.length small with room | full
  · obtain rfl := inStep.same room
    have both : Seeker.pumpEntry around farm chain large left id =
        Seeker.pumpEntry around farm chain small left id := by
      simp only [Seeker.pumpEntry, room, lt_of_lt_of_le room le, true_and]
    have bound : (Seeker.pumpEntry around farm chain small left id).items.length ≤ small := by
      rcases pumpEntry_cases left id with kept | ⟨item, _, _, _, _, added⟩
      · rw [kept]
        exact le_of_lt room
      · rw [added, List.length_append, List.length_singleton]
        exact room
    rw [both]
    exact ⟨(List.take_of_length_le bound).symm, fun _ => rfl⟩
  · rw [pumpEntry_full full]
    exact inStep.alone full id

theorem InStep.callback (le : small ≤ large) (funnelId : IdT) {left right : Callback}
    (inStep : InStep small left right) :
    InStep small (callback around farm chain small funnelId left).2
      (callback around farm chain large funnelId right).2 := by
  rcases lt_or_ge left.items.length small with room | full
  · obtain rfl := inStep.same room
    simp only [Seeker.callback, pump]
    have counted : InStep small { left with iterated := left.iterated + 1 }
        { left with iterated := left.iterated + 1 } :=
      ⟨inStep.front, fun _ => rfl⟩
    split_ifs
    · exact counted
    · exact List.foldl_rel counted fun id _ _ _ inStep => inStep.pumpEntry le id
  · have kept := @callback_full around farm chain small left full funnelId
    have left' := @InStep.callback_alone around farm chain small large left right inStep full funnelId
    exact .of_full (kept ▸ left'.front) (kept ▸ full)

/-- A callback asks for more where neither of the limits is reached. -/
theorem callback_goes {funnelId : IdT} {state : Callback} :
    (callback around farm chain maxMatch funnelId state).1 = true ↔
      state.iterated + 1 ≤ around.config.maxIterations ∧
        (callback around farm chain maxMatch funnelId state).2.items.length < maxMatch := by
  simp only [callback, pump]
  split_ifs with often
  · simp [not_le.mpr often]
  · simp [not_lt.mp often]

theorem InStep.goes (le : small ≤ large) {funnelId : IdT} {left right : Callback}
    (inStep : InStep small left right)
    (goes : (Seeker.callback around farm chain small funnelId left).1 = true) :
    (Seeker.callback around farm chain large funnelId right).1 = true := by
  obtain ⟨often, room⟩ := callback_goes.mp goes
  obtain rfl := inStep.same (lt_of_le_of_lt (grows_callback funnelId left).items room)
  have same := (inStep.callback le funnelId).same room
  exact callback_goes.mpr ⟨often, lt_of_lt_of_le (same ▸ room) le⟩

/-- Where only the smaller walk ends, it is full: both have called back as often before. -/
theorem InStep.ends {funnelId : IdT} {left right : Callback} (inStep : InStep small left right)
    (ends : (Seeker.callback around farm chain small funnelId left).1 = false)
    (goes : (Seeker.callback around farm chain large funnelId right).1 = true) :
    small ≤ (Seeker.callback around farm chain small funnelId left).2.items.length := by
  by_contra full
  have room := not_le.mp full
  obtain rfl := inStep.same (lt_of_le_of_lt (grows_callback funnelId left).items room)
  have often := (callback_goes.mp goes).1
  rw [callback_goes.mpr ⟨often, room⟩] at ends
  exact Bool.noConfusion ends

end Limits

/-- Asking for more only extends the answer, whatever the store. -/
theorem seek_take (around : Surroundings) (store : Store) (query : Query) {small large : ℕ}
    (le : small ≤ large) :
    (seek around store fresh { query with num := small }).items =
      (seek around store fresh { query with num := large }).items.take small := by
  have steps : Trie.Lockstep (callback around store.farm (rebuildChain around .empty query) small)
      (callback around store.farm (rebuildChain around .empty query) large) (InStep small)
      fun left => small ≤ left.items.length :=
    { both := fun funnelId _ _ inStep => inStep.callback le funnelId
      goes := fun _ _ _ inStep => inStep.goes le
      ends := fun _ _ _ inStep => inStep.ends
      alone := fun funnelId _ _ full inStep => inStep.callback_alone full funnelId }
  exact (Trie.traverse_lockstep steps store.trie query.queryPrefix ⟨List.take_nil.symm, fun _ => rfl⟩).front

theorem seek_take_interleaved : ∃ state, run Keeper.step Keeper.initial Keeper.interleaved = some state ∧
    (seek surroundings state.store fresh { beginningWithA with num := 1 }).items =
      (seek surroundings state.store fresh { beginningWithA with num := 3 }).items.take 1 :=
  ⟨_, rfl, @seek_take surroundings _ beginningWithA 1 3 (by decide)⟩

/-- The item is attached to the key that the query spells. -/
def Exact (state : Keeper.State) (query : Query) (id : IdT) : Prop :=
  ∃ key : Key, key.bytes = query.queryPrefix ∧ Keeper.Related state.log key id

/-- Items of the exact key come first, and only a full answer of nothing but them leaves one out. -/
structure ExactFirst (around : Surroundings) (state : Keeper.State) (query : Query) (items : List Item) :
    Prop where
  ordered : items.Pairwise fun earlier later => Exact state query later.id → Exact state query earlier.id
  missing : ∀ item, Exact state query item.id → state.store.farm.item item.id = some item →
    (rebuildChain around .empty query).apply around.hashing item = true → item ∉ items →
    items.length = query.num ∧ ∀ other ∈ items, Exact state query other.id

section Funnels

variable {around : Surroundings} {farm : Farm} {chain : FilterChain} {maxMatch : ℕ}

/-- What callbacks add to a state that has recorded whatever this funnel has to show. -/
structure Follows (farm : Farm) (funnelId : IdT) (first state : Callback) : Prop where
  recorded : first.recorded ⊆ state.recorded
  items : ∃ others, state.items = first.items ++ others ∧ ∀ item ∈ others, item.id ∉ farm.funnel funnelId

theorem Follows.refl (funnelId : IdT) (state : Callback) : Follows farm funnelId state state :=
  ⟨subset_rfl, [], (List.append_nil _).symm, by simp⟩

theorem Follows.pumpEntry (valid : farm.Valid) {funnelId : IdT} {first state : Callback}
    (all : ∀ id ∈ farm.funnel funnelId, Wanted around farm chain id → id ∈ first.recorded)
    (follows : Follows farm funnelId first state) (id : IdT) :
    Follows farm funnelId first (pumpEntry around farm chain maxMatch state id) := by
  rcases pumpEntry_cases state id with same | ⟨item, found, _, missing, passes, added⟩
  · rw [same]
    exact follows
  · rw [added]
    obtain ⟨others, items, outside⟩ := follows.items
    obtain rfl := valid.named id item found
    -- an item of the funnel would be recorded already
    have beyond : item.id ∉ farm.funnel funnelId :=
      fun member => missing (follows.recorded (all item.id member ⟨item, found, passes⟩))
    refine ⟨follows.recorded.trans (Finset.subset_insert _ _), others ++ [item], ?_, ?_⟩
    · rw [← List.append_assoc, ← items]
    · rw [List.forall_mem_append, List.forall_mem_singleton]
      exact ⟨outside, beyond⟩

theorem Follows.callback (valid : farm.Valid) {funnelId : IdT} {first state : Callback}
    (all : ∀ id ∈ farm.funnel funnelId, Wanted around farm chain id → id ∈ first.recorded)
    (follows : Follows farm funnelId first state) (other : IdT) :
    Follows farm funnelId first (callback around farm chain maxMatch other state).2 := by
  apply callback_induction ?_ ?_ follows
  · exact fun _ follows => ⟨follows.recorded, follows.items⟩
  · exact fun id _ _ follows => follows.pumpEntry valid all id

/-- The first callback of a walk, in two cases: it has filled the answer from its funnel, or it has
recorded whatever the funnel has to show, and callbacks go on from there. -/
theorem first_callback (valid : farm.Valid) (once : 1 ≤ around.config.maxIterations) (funnelId : IdT)
    (rest : List IdT) (path : funnelId ≠ noPath) :
    ∃ first : Callback, Collected around farm chain maxMatch {funnelId} first ∧ Shown first ∧
      ((first.items.length = maxMatch ∧
          Trie.walk (callback around farm chain maxMatch) (funnelId :: rest) ⟨∅, [], 0⟩ = first) ∨
        ((∀ id ∈ farm.funnel funnelId, Wanted around farm chain id → id ∈ first.recorded) ∧
          Follows farm funnelId first
            (Trie.walk (callback around farm chain maxMatch) (funnelId :: rest) ⟨∅, [], 0⟩))) := by
  have start : Collected around farm chain maxMatch {funnelId} ⟨∅, [], 0⟩ := .nothing _
  have collected := start.callback valid (Set.mem_singleton funnelId)
  have shown : Shown (callback around farm chain maxMatch funnelId ⟨∅, [], 0⟩).2 := by
    apply Shown.callback
    simp [Shown]
  have answer := @callback_goes around farm chain maxMatch funnelId ⟨∅, [], 0⟩
  refine ⟨_, collected, shown, ?_⟩
  simp only [Trie.walk, if_neg path]
  split_ifs with goes
  · have room := (answer.mp goes).2
    have uncut : ¬CutOff around maxMatch (callback around farm chain maxMatch funnelId ⟨∅, [], 0⟩).2 := by
      rintro (full | often)
      · exact absurd room (not_lt.mpr full)
      · rw [callback_iterated] at often
        exact absurd once (not_le.mpr often)
    have all := callback_wanted valid uncut
    refine Or.inr ⟨all, Trie.walk_induction ?_ (.refl funnelId _)⟩
    exact fun other _ _ follows => follows.callback valid all other
  · refine Or.inl ⟨le_antisymm collected.bounded (not_lt.mp fun room => ?_), rfl⟩
    exact goes (answer.mpr ⟨once, room⟩)

end Funnels

section Exact

variable {state : Keeper.State} {query : Query}

theorem exact_iff_mem (rep : Represents state.store (Keeper.catalogue state.log)) {funnelId : IdT}
    (found : state.store.trie.funnelId? query.queryPrefix = some funnelId) (id : IdT) :
    Exact state query id ↔ id ∈ state.store.farm.funnel funnelId := by
  obtain ⟨key, _, bytes⟩ := rep.stored _ _ found
  rw [rep.held key funnelId (bytes ▸ found) id]
  constructor
  · rintro ⟨other, bytes', related⟩
    exact Key.ext (bytes'.trans bytes.symm) ▸ related
  · exact fun related => ⟨key, bytes, related⟩

theorem not_exact (rep : Represents state.store (Keeper.catalogue state.log))
    (absent : state.store.trie.funnelId? query.queryPrefix = none) (id : IdT) : ¬Exact state query id := by
  rintro ⟨key, bytes, related⟩
  obtain ⟨funnelId, there⟩ := rep.known key (rep.listed_of_held related)
  rw [bytes, absent] at there
  cases there

end Exact

/-- In every reachable store that fits into cedar, the answer of a fresh seeker that may call back at all
starts with the items of the exact key. -/
theorem seek_exactFirst (around : Surroundings) (once : 1 ≤ around.config.maxIterations) (query : Query)
    {events : List Keeper.Event} {state : Keeper.State}
    (ran : run Keeper.step Keeper.initial events = some state)
    (fits : (Keeper.listedKeys state.log).card ≤ capacity) :
    ExactFirst around state query (seek around state.store fresh query).items := by
  have rep := (Keeper.consistent_initial.run ran fits).1.represents
  cases found : state.store.trie.funnelId? query.queryPrefix with
  | none =>
    have nothing := not_exact rep found
    refine ⟨?_, fun item exact => absurd exact (nothing item.id)⟩
    exact List.pairwise_of_forall fun _ later exact => absurd exact (nothing later.id)
  | some funnelId =>
    have exact_iff := exact_iff_mem rep found
    obtain ⟨rest, visits⟩ := Trie.visits_of_found found
    obtain ⟨first, collected, shown, cases⟩ := @first_callback around state.store.farm
      (rebuildChain around .empty query) query.num rep.valid once funnelId (funnelId :: rest)
      (rep.isValue found).1
    rw [seek_fresh, walked_eq_walk rep, visits]
    have exact : ∀ item ∈ first.items, Exact state query item.id := by
      intro item member
      obtain ⟨_, rfl, held⟩ := collected.held item member
      exact (exact_iff item.id).mpr held
    have ordered : first.items.Pairwise fun earlier later =>
        Exact state query later.id → Exact state query earlier.id :=
      List.pairwise_of_forall_mem_list fun earlier member _ _ _ => exact earlier member
    rcases cases with ⟨full, ends⟩ | ⟨all, follows⟩
    · rw [ends]
      exact ⟨ordered, fun _ _ _ _ _ => ⟨full, exact⟩⟩
    · obtain ⟨others, items, outside⟩ := follows.items
      rw [items]
      refine ⟨List.pairwise_append.mpr ⟨ordered, ?_, fun earlier member _ _ _ => exact earlier member⟩, ?_⟩
      · refine List.pairwise_of_forall_mem_list fun _ _ later member exact' => ?_
        exact absurd ((exact_iff later.id).mp exact') (outside later member)
      · -- whatever the exact funnel has to show is in the list
        intro item exact' found' passes absent
        have recorded := all item.id ((exact_iff item.id).mp exact') ⟨item, found', passes⟩
        have member := shown.mem collected.stored found' recorded
        exact absurd (List.mem_append_left others member) absent

/-- The key `a` has two items, and a limit of one leaves the second one out. -/
theorem seek_exactFirst_interleaved : ∃ state, run Keeper.step Keeper.initial Keeper.interleaved = some state ∧
    (seek surroundings state.store fresh { beginningWithA with num := 1 }).items.map Item.id = [1] ∧
    ExactFirst surroundings state { beginningWithA with num := 1 }
      (seek surroundings state.store fresh { beginningWithA with num := 1 }).items :=
  ⟨_, rfl, by decide, @seek_exactFirst surroundings (by decide) _ Keeper.interleaved _ rfl (by decide)⟩

end Taboo.Seeker
