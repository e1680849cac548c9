import Taboo.Model.Predicter
import Taboo.Soundness.Rebuild

/-! # Hidden fields

`reviseFields` erases hidden names while it iterates, and steps over the element behind each one it
erases. What is left is visible exactly if every hidden name was followed by a visible one.
-/

namespace Taboo

open Query

/-- What the two lists of the configuration make visible. Without visible names, the invisible ones
count as with `*`. -/
def Visible (visible invisible : List Bytes) (name : Bytes) : Prop :=
  if visible = [star] ∨ (visible = [] ∧ invisible ≠ []) then name ∉ invisible else name ∈ visible

/-- Each hidden name is followed by one that is not hidden. -/
def FollowedByVisible (hidden : Bytes → Bool) : List Bytes → Prop
  | [] => True
  | [name] => hidden name = false
  | name :: next :: rest => (hidden name = true → hidden next = false) ∧ FollowedByVisible hidden (next :: rest)

theorem followedByVisible_cons {hidden : Bytes → Bool} {name : Bytes} (shown : hidden name = false)
    (rest : List Bytes) : FollowedByVisible hidden (name :: rest) ↔ FollowedByVisible hidden rest := by
  cases rest with
  | nil => exact iff_of_true shown trivial
  | cons next rest => simp [FollowedByVisible, shown]

theorem followedByVisible_all {hidden : Bytes → Bool} {names : List Bytes}
    (shown : ∀ name, hidden name = false) : FollowedByVisible hidden names := by
  induction names with
  | nil => trivial
  | cons name rest ih => exact (followedByVisible_cons (shown name) rest).mpr ih

/-- The loop leaves no hidden name, and stays within the set, exactly if none is followed by another
or comes last. -/
theorem eraseLoop_iff (hidden : Bytes → Bool) (names : List Bytes) :
    (∃ kept, eraseLoop hidden names = .ok kept ∧ ∀ name ∈ kept, hidden name = false) ↔
      FollowedByVisible hidden names := by
  -- what the loop keeps in front of the rest
  have keep : ∀ (name : Bytes) (rest : List Bytes),
      (∃ kept, (eraseLoop hidden rest).map (name :: ·) = .ok kept ∧ ∀ other ∈ kept, hidden other = false) ↔
        hidden name = false ∧
          ∃ kept, eraseLoop hidden rest = .ok kept ∧ ∀ other ∈ kept, hidden other = false := by
    intro name rest
    cases eraseLoop hidden rest with
    | error fault => simp [Except.map]
    | ok kept => simp [Except.map]
  fun_induction eraseLoop hidden names with
  | case1 => simp [FollowedByVisible]
  | case2 name hides => simp [FollowedByVisible, hides]
  | case3 name hides next rest ih =>
    have step : FollowedByVisible hidden (name :: next :: rest) ↔
        hidden next = false ∧ FollowedByVisible hidden (next :: rest) := by
      simp only [FollowedByVisible, hides, forall_const]
    refine (keep next rest).trans (Iff.trans (and_congr_right fun shown => ?_) step.symm)
    exact ih.trans (followedByVisible_cons shown rest).symm
  | case4 name rest shows ih =>
    have shown : hidden name = false := Bool.eq_false_iff.mpr shows
    refine (keep name rest).trans (Iff.trans ?_ (followedByVisible_cons shown rest).symm)
    exact (and_iff_right shown).trans ih

namespace Aside

/-- Loading the options and building the sets keeps their meaning. -/
theorem hides_iff (config : Config) (visible invisible : List Bytes) (name : Bytes) :
    (ofConfig (config.loadVisibility visible invisible)).hides name = true ↔
      ¬Visible visible invisible name := by
  unfold hides ofConfig Config.loadVisibility Visible
  by_cases all : visible = [star]
  · by_cases none : invisible = [] <;> simp [all, none]
  · by_cases empty : visible = []
    · by_cases none : invisible = [] <;> simp [empty, none]
    · simp [all, empty]

end Aside

namespace Query

/-- After revision no shown field is hidden, and nothing ran past the end, exactly if each hidden
name among the requested ones is followed by a visible one. -/
theorem reviseFields_iff (aside : Aside) (hash : HashOrder Bytes) (names : List Bytes) :
    (∃ shown, reviseFields aside hash names = .ok shown ∧ ∀ name ∈ shown.1, aside.hides name = false) ↔
      FollowedByVisible aside.hides names := by
  have loop : ∀ hidden : Bytes → Bool, (∃ shown, (eraseLoop hidden names).map (·, false) = .ok shown ∧
      ∀ name ∈ shown.1, hidden name = false) ↔ FollowedByVisible hidden names := by
    intro hidden
    rw [← eraseLoop_iff]
    cases eraseLoop hidden names with
    | error fault => simp [Except.map]
    | ok kept => simp [Except.map]
  unfold reviseFields
  split_ifs with all noneHidden nothing
  · have shown : ∀ name, aside.hides name = false := by simp [Aside.hides, all]
    refine iff_of_true ⟨_, rfl, fun name _ => shown name⟩ (followedByVisible_all shown)
  · rw [List.isEmpty_iff.mp nothing]
    refine iff_of_true ⟨_, rfl, fun name member => ?_⟩ trivial
    simp [Aside.hides, noneHidden, hash.mem_iff.mp member]
  · have same : aside.hides = fun name => decide (name ∉ aside.queryVisibleFields) := by
      funext name
      simp [Aside.hides, all, noneHidden]
    rw [same]
    exact loop _
  · have same : aside.hides = fun name => decide (name ∈ aside.queryInvisibleFields) := by
      funext name
      simp [Aside.hides, all, noneHidden]
    rw [same]
    exact loop _

/-- What a payload owes to a configuration: the loops stay within the set, and whatever the items are,
only visible members of them are written. -/
structure Discreet (config : Config) (visible invisible : List Bytes) (parse : Parser)
    (hash : HashOrder Bytes) (query : Query) (text : Bytes) : Prop where
  withinSet : query.rebuild (config.loadVisibility visible invisible)
    (Aside.ofConfig (config.loadVisibility visible invisible)) parse hash text ≠ .error .pastEnd
  shown : ∀ accepted, query.rebuild (config.loadVisibility visible invisible)
      (Aside.ofConfig (config.loadVisibility visible invisible)) parse hash text = .ok (true, accepted) →
    ∀ items, ∀ members ∈ Predicter.payload accepted items, ∀ entry ∈ members,
      Visible visible invisible entry.1

/-- The names written under a selection of fields are among them. -/
theorem written_field {fields : List Bytes} {items : List Item} {members : Members} {entry : Bytes × Value}
    (written : members ∈ Predicter.addItems fields items) (member : entry ∈ members) :
    entry.1 ∈ fields := by
  obtain ⟨item, _, rfl⟩ := List.mem_map.mp written
  obtain ⟨key, listed, found⟩ := List.mem_filterMap.mp member
  obtain ⟨value, _, rfl⟩ := Option.map_eq_some_iff.mp found
  exact listed

/-- An item that has the member shows the selected field. -/
theorem field_written {fields : List Bytes} {name : Bytes} (listed : name ∈ fields) :
    ∃ members ∈ Predicter.addItems fields [.sent 0 [(name, .null)]], ∃ value, (name, value) ∈ members := by
  obtain ⟨value, found⟩ := Item.sent_found 0 name .null
  refine ⟨_, List.mem_singleton_self _, value, List.mem_filterMap.mpr ⟨name, listed, ?_⟩⟩
  rw [found, Option.map_some]

theorem visible_iff (config : Config) (visible invisible : List Bytes) (name : Bytes) :
    Visible visible invisible name ↔
      (Aside.ofConfig (config.loadVisibility visible invisible)).hides name = false := by
  rw [← Bool.not_eq_true, Aside.hides_iff, not_not]

/-- A revision that succeeds shows visible fields, if no field that it leaves is hidden. -/
theorem shown_visible {aside : Aside} {hash : HashOrder Bytes} {names : List Bytes} {shown : List Bytes × Bool}
    (revised : reviseFields aside hash names = .ok shown) {query : Query} (fields : query.fields = shown.1)
    (all : query.fieldsAll = shown.2) (visible : ∀ name ∈ shown.1, aside.hides name = false)
    (items : List Item) : ∀ members ∈ Predicter.payload query items, ∀ entry ∈ members,
      aside.hides entry.1 = false := by
  intro members written entry there
  cases everything : shown.2 with
  | true => exact reviseFields_all revised everything entry.1
  | false =>
    rw [Predicter.payload, all, everything] at written
    exact visible entry.1 (fields ▸ written_field written there)

/-- Hidden fields stay hidden exactly if no hidden name that the payload asks for is followed, in the
order of the set, by another one or by the end. -/
theorem discreet_iff (config : Config) (visible invisible : List Bytes) (parse : Parser)
    (hash : HashOrder Bytes) (query : Query) (text : Bytes) :
    Discreet config visible invisible parse hash query text ↔
      ∀ names, askedFields (config.loadVisibility visible invisible) parse hash text = some names →
        FollowedByVisible (Aside.ofConfig (config.loadVisibility visible invisible)).hides names := by
  constructor
  · intro discreet names asked
    obtain ⟨wish, spelled, rfl⟩ := askedFields_iff.mp asked
    rw [← reviseFields_iff _ hash]
    cases revised : reviseFields (Aside.ofConfig (config.loadVisibility visible invisible)) hash wish.names with
    | error fault =>
      obtain rfl := reviseFields_error revised
      exact absurd ((rebuild_error_iff ..).mpr (Or.inr ⟨wish, spelled, revised⟩)) discreet.withinSet
    | ok shown =>
      refine ⟨shown, rfl, fun name member => ?_⟩
      rw [← visible_iff config]
      have accepted := (rebuild_accepted_iff (Aside.ofConfig (config.loadVisibility visible invisible)) query
        _).mpr ⟨wish, shown, spelled, revised, Or.inr (List.ne_nil_of_mem member), rfl⟩
      cases all : shown.2 with
      | true => exact (visible_iff config ..).mpr (reviseFields_all revised all name)
      | false =>
        obtain ⟨members, written, value, there⟩ := field_written member
        refine discreet.shown _ accepted [.sent 0 [(name, .null)]] members ?_ _ there
        rw [Predicter.payload, Wish.query, all]
        exact written
  · intro followed
    have revisable : ∀ wish, Wish.Spelled (config.loadVisibility visible invisible) parse hash text wish →
        ∃ shown, reviseFields (Aside.ofConfig (config.loadVisibility visible invisible)) hash wish.names =
          .ok shown ∧ ∀ name ∈ shown.1,
            (Aside.ofConfig (config.loadVisibility visible invisible)).hides name = false := by
      intro wish spelled
      exact (reviseFields_iff ..).mpr (followed wish.names (askedFields_iff.mpr ⟨wish, spelled, rfl⟩))
    constructor
    · intro past
      rcases (rebuild_error_iff ..).mp past with ⟨_, impossible⟩ | ⟨wish, spelled, failed⟩
      · cases impossible
      · obtain ⟨shown, revised, _⟩ := revisable wish spelled
        cases failed.symm.trans revised
    · intro accepted done items members written entry there
      obtain ⟨wish, shown, spelled, revised, _, rfl⟩ := (rebuild_accepted_iff ..).mp done
      obtain ⟨shown', revised', shows⟩ := revisable wish spelled
      cases revised.symm.trans revised'
      rw [visible_iff config]
      exact shown_visible revised rfl rfl shows items members written entry there

/-- A payload that asks for two fields. -/
def twoFields : Bytes := ascii "\x7b\"prefix\":\"ab\",\"fields\":[\"a\",\"b\"]\x7d"

def parseTwoFields : Parser := fun text =>
  if text = twoFields then
    some (.object [(ascii "prefix", .string (ascii "ab")),
      (ascii "fields", .array [.string (ascii "a"), .string (ascii "b")])])
  else none

/-- Only `id` is visible, and the second field is shown. -/
theorem twoFields_indiscreet : ∃ accepted,
    fresh.rebuild (Config.loadVisibility default [ascii "id"] [])
      (Aside.ofConfig (Config.loadVisibility default [ascii "id"] [])) parseTwoFields (.insertion _) twoFields =
      .ok (true, accepted) ∧
    (Predicter.payload accepted [.sent 1 [(ascii "b", .null)]]).map (·.map Prod.fst) = [[ascii "b"]] ∧
    ¬Discreet default [ascii "id"] [] parseTwoFields (.insertion _) fresh twoFields := by
  refine ⟨_, rfl, by decide, fun discreet => ?_⟩
  have shown := discreet.shown _ rfl [.sent 1 [(ascii "b", .null)]] _ (List.mem_singleton_self _)
    (ascii "b", .null) (List.mem_singleton_self _)
  exact (Aside.hides_iff default _ _ _).mp (by decide) shown

end Query

end Taboo
