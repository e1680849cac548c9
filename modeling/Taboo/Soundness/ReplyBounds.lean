import Taboo.Soundness.SeekSoundness
import Taboo.Soundness.ShownFields

/-! # The length of a reply

The wish for a number of items is cut down to `maxMatches`. The default, which takes the place of a
missing wish and of a wish for nothing, is not.
-/

namespace Taboo

/-- Whatever the store, a seeker finds no more than it is asked for. -/
theorem Seeker.seek_length_le (around : Surroundings) (store : Store) (seeker : Seeker) (query : Query) :
    (seeker.seek around store query).items.length ≤ query.num := by
  let chain := rebuildChain around seeker.filter query
  have step : ∀ funnelId (state : Callback), state.items.length ≤ query.num →
      (callback around store.farm chain query.num funnelId state).2.items.length ≤ query.num := by
    intro funnelId state bounded
    apply @callback_induction around store.farm chain query.num (fun later => later.items.length ≤ query.num)
      funnelId (fun _ bounded => bounded) ?_ state bounded
    intro id _ later bounded
    rcases pumpEntry_cases later id with same | ⟨item, _, room, _, _, added⟩
    · rw [same]
      exact bounded
    · rw [added, List.length_append, List.length_singleton]
      exact room
  exact @Trie.traverse_induction Callback _ (fun state => state.items.length ≤ query.num) step store.trie
    query.queryPrefix _ (Nat.zero_le _)

theorem Predicter.payload_length (query : Query) (items : List Item) :
    (payload query items).length = items.length := by
  unfold payload addDocuments addItems
  split_ifs <;> exact List.length_map _

namespace Query

/-- The query asks for at least one item and at most `maxMatches`, and no reply to it writes more. -/
structure WithinLimit (around : Surroundings) (query : Query) : Prop where
  positive : 1 ≤ query.num
  limited : query.num ≤ around.config.maxMatches
  written : ∀ (store : Store) (seeker : Seeker),
    (Predicter.payload query (seeker.seek around store query).items).length ≤ around.config.maxMatches

/-- The payload wishes for some items. -/
def WishesForSome (config : Config) (parse : Parser) (text : Bytes) : Prop :=
  ∃ body wanted, parse (cStr text) = some (.object body) ∧
    (findMember body config.keyQUNum).bind Value.uint? = some wanted ∧ 1 ≤ wanted.toNat

theorem withinLimit_iff_num (around : Surroundings) (query : Query) :
    WithinLimit around query ↔ 1 ≤ query.num ∧ query.num ≤ around.config.maxMatches := by
  constructor
  · exact fun within => ⟨within.positive, within.limited⟩
  · rintro ⟨positive, limited⟩
    refine ⟨positive, limited, fun store seeker => ?_⟩
    rw [Predicter.payload_length]
    exact le_trans (seeker.seek_length_le around store query) limited

theorem wantedNum_eq {config : Config} (configured : 1 ≤ config.maxMatches) (wish : Option Value) :
    (∃ wanted, wish.bind Value.uint? = some wanted ∧ 1 ≤ wanted.toNat ∧
        wantedNum config wish = min wanted.toNat config.maxMatches) ∨
      ((∀ wanted, wish.bind Value.uint? = some wanted → wanted.toNat = 0) ∧
        wantedNum config wish = config.defaultMatches) := by
  unfold wantedNum
  cases asked : wish.bind Value.uint? with
  | none => exact Or.inr ⟨by simp, ite_self _⟩
  | some wanted =>
    rcases Nat.eq_zero_or_pos wanted.toNat with nothing | positive
    · exact Or.inr ⟨fun _ same => Option.some.inj same ▸ nothing, if_pos (by simp [nothing])⟩
    · exact Or.inl ⟨wanted, rfl, positive, if_neg (not_lt.mpr (le_min positive configured))⟩

/-- An accepted query keeps to `maxMatches` exactly if its payload wishes for some items, or the default
keeps to it. -/
theorem accepted_withinLimit_iff (around : Surroundings) (configured : 1 ≤ around.config.maxMatches)
    {aside : Aside} {parse : Parser} {hash : HashOrder Bytes} {query accepted : Query} {text : Bytes}
    (done : query.rebuild around.config aside parse hash text = .ok (true, accepted)) :
    WithinLimit around accepted ↔ WishesForSome around.config parse text ∨
      1 ≤ around.config.defaultMatches ∧ around.config.defaultMatches ≤ around.config.maxMatches := by
  obtain ⟨wish, shown, spelled, _, _, rfl⟩ := (rebuild_accepted_iff ..).mp done
  rw [withinLimit_iff_num, Wish.query]
  rcases wantedNum_eq configured (findMember wish.body around.config.keyQUNum) with
    ⟨wanted, asked, positive, num⟩ | ⟨nothing, num⟩
  · rw [num]
    refine iff_of_true ⟨le_min positive configured, min_le_right _ _⟩ (Or.inl ?_)
    exact ⟨wish.body, wanted, spelled.parsed, asked, positive⟩
  · have unwished : ¬WishesForSome around.config parse text := by
      rintro ⟨body, wanted, parsed, asked, positive⟩
      cases spelled.parsed.symm.trans parsed
      exact absurd (nothing wanted asked) (Nat.one_le_iff_ne_zero.mp positive)
    rw [num, or_iff_right unwished]

/-- The defaults, but for two visible fields. -/
def twoVisible : Config := Config.loadOptions default (ascii "id, name") []

theorem withinLimit_twoVisible : ∃ accepted, fresh.rebuild twoVisible (Aside.ofConfig twoVisible) parsePrefixOnly
      (.insertion _) prefixOnly = .ok (true, accepted) ∧
    WithinLimit ⟨twoVisible, default, .insertion _⟩ accepted :=
  ⟨_, rfl, (@accepted_withinLimit_iff ⟨twoVisible, default, .insertion _⟩ (by decide) (Aside.ofConfig twoVisible)
    parsePrefixOnly (.insertion _) fresh _ prefixOnly rfl).mpr (Or.inr (by decide))⟩

/-- At most one item is to be shown, and two by default. -/
def tightOptions : Config := { twoVisible with maxMatches := 1, defaultMatches := 2 }

/-- Two items under the key of `prefixOnly`. -/
def twoItems : List Keeper.Event :=
  [.attach [Keeper.keyAB] (.sent 1 []) false, .attach [Keeper.keyAB] (.sent 2 []) false]

/-- A payload without a number is accepted, asks for two items, and gets them. -/
theorem tightOptions_exceeded : ∃ accepted, fresh.rebuild tightOptions (Aside.ofConfig tightOptions)
      parsePrefixOnly (.insertion _) prefixOnly = .ok (true, accepted) ∧
    ¬WithinLimit ⟨tightOptions, default, .insertion _⟩ accepted ∧
    ∃ state, Machine.run Keeper.step Keeper.initial twoItems = some state ∧
      (Predicter.payload accepted
        (Seeker.fresh.seek ⟨tightOptions, default, .insertion _⟩ state.store accepted).items).length = 2 := by
  refine ⟨_, rfl, fun within => ?_, _, rfl, by decide⟩
  have limited := within.limited
  revert limited
  decide

end Query

end Taboo
