import Mathlib.Logic.Function.Basic
import Taboo.Soundness.SeekSoundness

/-! # What becomes of upserted documents

The log also determines, for each id, the document of the last call that upserted it and returned
true. The dictionary holds that document along a run exactly as long as no upserting call meets
another document under its id, or lists no key at all.
-/

namespace Taboo.Keeper

open Machine

/-- The item of the last returned call that upserted the id and answered true. -/
def lastUpsert : Log → IdT → Option Item
  | [] => fun _ => none
  | (.attach _ item true, true) :: log => Function.update (lastUpsert log) item.id (some item)
  | (.updateItem _ item, true) :: log => Function.update (lastUpsert log) item.id (some item)
  | (.attach _ _ true, false) :: log => lastUpsert log
  | (.attach _ _ false, _) :: log => lastUpsert log
  | (.updateItem _ _, false) :: log => lastUpsert log

/-- The dictionary holds the last upserted item of every id. -/
def Current (state : State) : Prop :=
  ∀ id item, lastUpsert state.log id = some item → state.store.farm.item id = some item

/-- An upserting call finds its id free, with a key to attach it under, or its own item there. -/
def Effective (state : State) : Event → Prop
  | .attach keys item true => (keys ≠ [] ∧ state.store.farm.item item.id = none) ∨
      state.store.farm.item item.id = some item
  | .attach _ _ false => True
  | .lookup _ _ => True
  | .write index => ∀ update, state.pending[index]? = some update →
      state.store.farm.item update.item.id = none ∨ state.store.farm.item update.item.id = some update.item

/-- The dictionary after a call that upserts `item` and answers true: the rest of it is as before. -/
private theorem current_update {log : Log} {before after : IdT → Option Item} {item : Item}
    (current : ∀ id other, lastUpsert log id = some other → before id = some other)
    (others : ∀ id, id ≠ item.id → after id = before id) :
    (∀ id other, Function.update (lastUpsert log) item.id (some item) id = some other →
      after id = some other) ↔ after item.id = some item := by
  constructor
  · intro holds
    exact holds item.id item (Function.update_self ..)
  · intro own id other last
    rcases eq_or_ne id item.id with rfl | different
    · rw [Function.update_self] at last
      rw [own, last]
    · rw [Function.update_of_ne different] at last
      rw [others id different, current id other last]

/-- An upsert leaves its own item in the dictionary only if nothing else was there. -/
private theorem entered_iff {stored : Option Item} {item : Item} {P : Prop} [Decidable P]
    [Decidable (stored = none)] : (if P ∧ stored = none then some item else stored) = some item ↔
      (P ∧ stored = none) ∨ stored = some item := by
  split_ifs with entered <;> simp [entered]

theorem valid_step {state next : State} (valid : state.store.farm.Valid) {event : Event}
    (stepped : step state event = some next) : next.store.farm.Valid := by
  cases event with
  | attach keys item upsertItem =>
    cases stepped
    exact (attach_farm valid keys item upsertItem).1
  | lookup key item =>
    simp only [step] at stepped
    split_ifs at stepped <;> cases stepped <;> exact valid
  | write index =>
    obtain ⟨update, _, rfl⟩ := step_write stepped
    exact valid.attach update.funnelId update.item true

theorem valid_run {events : List Event} {state : State} (ran : run step initial events = some state) :
    state.store.farm.Valid :=
  run_invariant (P := fun state => state.store.farm.Valid)
    (fun _ _ _ valid stepped => valid_step valid stepped) Farm.valid_empty ran

theorem current_step {state next : State} (valid : state.store.farm.Valid) (current : Current state)
    {event : Event} (stepped : step state event = some next) :
    Current next ↔ Effective state event := by
  cases event with
  | attach keys item upsertItem =>
    cases stepped
    have items := (attach_farm valid keys item upsertItem).2
    cases upsertItem with
    | true =>
      have answered : (attach state.store keys item true).1 = true := by simp [attach]
      simp only [Current, answered, lastUpsert]
      rw [current_update current fun id different => by rw [items, if_neg (fun here => different here.2.1)],
        items]
      simp only [true_and]
      exact entered_iff
    | false =>
      refine iff_of_true (fun id other last => ?_) trivial
      have before := current id other last
      rw [items, if_neg fun here => Option.some_ne_none other (before.symm.trans here.2.2), before]
  | lookup key item =>
    simp only [step] at stepped
    split_ifs at stepped <;> cases stepped <;> exact iff_of_true current trivial
  | write index =>
    obtain ⟨update, member, rfl⟩ := step_write stepped
    have items := valid.item_attach update.funnelId update.item true
    simp only [Current, lastUpsert]
    rw [current_update current fun id different => by rw [items, if_neg (fun here => different here.1)],
      items, entered_iff]
    simp [Effective, member]

/-- The last upserted item of an id stands in the dictionary, and in every answer that shows the id. -/
structure TakenEffect (state : State) : Prop where
  stored : ∀ id item, lastUpsert state.log id = some item → state.store.farm.item id = some item
  shown : ∀ id item, lastUpsert state.log id = some item → ∀ around query,
    ∀ found ∈ (Seeker.seek around state.store Seeker.fresh query).items, found.id = id → found = item

theorem takenEffect_iff {state : State} (valid : state.store.farm.Valid) :
    TakenEffect state ↔ Current state := by
  refine ⟨TakenEffect.stored, fun current => ⟨current, ?_⟩⟩
  rintro id item last around query found member rfl
  have there := Seeker.seek_stored valid around Seeker.fresh query found member
  exact Option.some.inj (there.symm.trans (current found.id item last))

/-- Upserts take effect throughout a run exactly if each of them is effective when its turn to write
comes. -/
theorem upserts_take_effect_iff {events : List Event} {state : State}
    (ran : run step initial events = some state) :
    Throughout step initial events TakenEffect ↔ EachStep step initial events Effective := by
  apply throughout_iff ran
  · apply (takenEffect_iff Farm.valid_empty).mpr
    intro id item last
    cases last
  · intro before state event next ranBefore taken stepped
    have valid := valid_run ranBefore
    rw [takenEffect_iff (valid_step valid stepped)]
    exact current_step valid taken.stored stepped

theorem upserts_take_effect_interleaved : Throughout step initial interleaved TakenEffect ↔
    EachStep step initial interleaved Effective :=
  @upserts_take_effect_iff interleaved _ rfl

/-- Two documents of one id, upserted one after the other under one key. -/
def overwritten : List Event :=
  [.attach [keyA] (.sent 1 []) true, .attach [keyA] (.sent 1 [(ascii "b", .null)]) true]

theorem overwritten_keeps_first : ∃ state, run step initial overwritten = some state ∧
    state.log.map Prod.snd = [true, true] ∧ state.store.farm.item 1 = some (.sent 1 []) ∧
    lastUpsert state.log 1 = some (.sent 1 [(ascii "b", .null)]) ∧ ¬TakenEffect state := by
  refine ⟨_, rfl, rfl, rfl, rfl, fun taken => ?_⟩
  have stored := taken.stored 1 (.sent 1 [(ascii "b", .null)]) rfl
  have first : some (Item.sent 1 []) = some (.sent 1 [(ascii "b", .null)]) := stored
  simp [Item.sent] at first

end Taboo.Keeper
