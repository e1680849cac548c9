import Mathlib.Data.Fintype.EquivFin
import Taboo.Model.Predicter
import Taboo.Soundness.Rebuild

/-! # Visible fields of a query that names none

Splitting an option always yields a segment, be it an empty one, and an empty segment is a name like
any other to everything behind it. So the list of invisible fields is never empty where it is read, and
an empty name may be among the visible ones.
-/

namespace Taboo

namespace Config

/-- The name that a segment spells, if it spells one. -/
def name? (segment : Bytes) : Option Bytes := if trim segment = [] then none else some (trim segment)

/-- The names of an option: what stands between its separators. -/
def names (option : Bytes) : List Bytes := (option.splitOnP isSeparator).filterMap name?

theorem names_eq (option : Bytes) : names option = (series option).filter (· ≠ []) := by
  have skips : name? [] = none := rfl
  rw [names, ← Segments.filterMap_pieces isSeparator skips, series, ← List.filterMap_eq_filter,
    List.filterMap_map]
  congr 1
  funext segment
  by_cases blank : trim segment = [] <;> simp [name?, blank, Option.guard]

theorem series_ne_nil (option : Bytes) : series option ≠ [] := by
  simpa [series, Segments.pieces] using Segments.piecesFrom_ne_nil isSeparator false option

/-- What the two options, read as names, make visible. -/
def Reveals (visible invisible name : Bytes) : Prop :=
  if names visible = [star] then name ∉ names invisible else name ∈ names visible

/-- Unless the one segment is `*`, the segments are the visible names exactly if none of them is empty. -/
theorem mem_series_iff_reveals {visible : Bytes} (listed : series visible ≠ [star]) (invisible : Bytes) :
    (∀ name, name ∈ series visible ↔ Reveals visible invisible name) ↔ [] ∉ series visible := by
  constructor
  · intro agree empty
    by_cases all : names visible = [star]
    · obtain ⟨name, fresh⟩ := Infinite.exists_notMem_finset (series visible ++ names invisible).toFinset
      rw [List.mem_toFinset, List.mem_append, not_or] at fresh
      refine fresh.1 ((agree name).mpr ?_)
      rw [Reveals, if_pos all]
      exact fresh.2
    · have named := (agree []).mp empty
      rw [Reveals, if_neg all, names_eq, List.mem_filter] at named
      simp at named
  · intro full name
    have same : names visible = series visible := by
      rw [names_eq, List.filter_eq_self]
      rintro other member
      exact decide_eq_true fun empty => full (empty ▸ member)
    rw [Reveals, same, if_neg listed]

end Config

/-- The members are exactly those of the item that are visible, each once if it has them once. -/
structure Shows (visible : Bytes → Prop) (item : Item) (members : Members) : Prop where
  shown : ∀ name value, (name, value) ∈ members ↔ visible name ∧ findMember item.dom name = some value
  once : (item.dom.map Prod.fst).Nodup → (members.map Prod.fst).Nodup

namespace Query

/-- What a selection of fields writes is visible exactly if the fields are. -/
theorem shows_addItems_iff {visible : Bytes → Prop} {fields : List Bytes} (distinct : fields.Nodup) :
    (∀ items, List.Forall₂ (Shows visible) items (Predicter.addItems fields items)) ↔
      ∀ name, name ∈ fields ↔ visible name := by
  have written : ∀ (item : Item) name value,
      (name, value) ∈ (fields.filterMap fun key => (findMember item.dom key).map (key, ·)) ↔
        name ∈ fields ∧ findMember item.dom name = some value := by
    intro item name value
    simp only [List.mem_filterMap, Option.map_eq_some_iff, Prod.mk.injEq]
    constructor
    · rintro ⟨key, listed, found, there, rfl, rfl⟩
      exact ⟨listed, there⟩
    · rintro ⟨listed, there⟩
      exact ⟨name, listed, value, there, rfl, rfl⟩
  simp only [Predicter.addItems, List.forall₂_map_right_iff, List.forall₂_same]
  constructor
  · intro shows name
    obtain ⟨value, found⟩ := Item.sent_found 0 name .null
    have here := (shows [.sent 0 [(name, .null)]] _ (List.mem_singleton_self _)).shown name value
    rw [written] at here
    simpa [found] using here
  · intro same items item _
    refine ⟨fun name value => by rw [written, same], fun _ => ?_⟩
    have names : (fields.filterMap fun key => (findMember item.dom key).map (key, ·)).map Prod.fst =
        fields.filter fun key => (findMember item.dom key).isSome := by
      rw [List.map_filterMap, ← List.filterMap_eq_filter]
      congr 1
      funext key
      cases found : findMember item.dom key <;> simp [Option.guard, found]
    rw [names]
    exact distinct.filter _

theorem reviseFields_unasked (config : Config) (visible invisible : Bytes) (hash : HashOrder Bytes) :
    reviseFields (Aside.ofConfig (config.loadOptions visible invisible)) hash [] =
      .ok (if Config.series visible = [star] then [] else hash.order (Config.series visible).dedup, false) := by
  have given := Config.series_ne_nil
  unfold Config.loadOptions Config.loadVisibility Aside.ofConfig reviseFields
  by_cases all : Config.series visible = [star]
  · simp [all, given, eraseLoop, Except.map]
  · simp [all, given]

/-- The query is accepted, and shows the visible members of whatever items there are. -/
def ShowsVisible (config : Config) (visible invisible : Bytes) (parse : Parser) (hash : HashOrder Bytes)
    (query : Query) (text : Bytes) : Prop :=
  ∃ accepted, query.rebuild (config.loadOptions visible invisible)
      (Aside.ofConfig (config.loadOptions visible invisible)) parse hash text = .ok (true, accepted) ∧
    ∀ items, List.Forall₂ (Shows (Config.Reveals visible invisible)) items
      (Predicter.payload accepted items)

/-- A query for no fields in particular shows the visible ones exactly if the visible fields are not
split into `*` alone, and not into an empty segment among others. -/
theorem showsVisible_iff {config : Config} {visible invisible : Bytes} {parse : Parser}
    {hash : HashOrder Bytes} {text : Bytes} {wish : Wish}
    (spelled : Wish.Spelled (config.loadOptions visible invisible) parse hash text wish)
    (unasked : findMember wish.body config.keyQUFields = none) (query : Query) :
    ShowsVisible config visible invisible parse hash query text ↔
      Config.series visible ≠ [star] ∧ [] ∉ Config.series visible := by
  have asked : requestedFields hash (findMember wish.body config.keyQUFields) = (wish.names, true) :=
    spelled.fields
  rw [unasked] at asked
  have nothing : wish.names = [] := (congrArg Prod.fst asked).symm
  obtain ⟨rejected, come⟩ := spelled.rebuild_eq
    (Aside.ofConfig (config.loadOptions visible invisible)) query
  rw [nothing, reviseFields_unasked] at come
  by_cases all : Config.series visible = [star]
  · refine iff_of_false ?_ fun condition => condition.1 all
    rintro ⟨accepted, done, _⟩
    simp [come, all, Except.map] at done
  · let fields := hash.order (Config.series visible).dedup
    have distinct : fields.Nodup := (hash.perm _).nodup_iff.mpr (List.nodup_dedup _)
    have listed : ∀ name, name ∈ fields ↔ name ∈ Config.series visible := by
      intro name
      rw [hash.mem_iff, List.mem_dedup]
    have nonempty : fields ≠ [] := by
      obtain ⟨name, member⟩ := List.exists_mem_of_ne_nil _ (Config.series_ne_nil visible)
      exact List.ne_nil_of_mem ((listed name).mpr member)
    have done : query.rebuild (config.loadOptions visible invisible)
        (Aside.ofConfig (config.loadOptions visible invisible)) parse hash text =
          .ok (true, wish.query (config.loadOptions visible invisible) (fields, false)) := by
      rw [come, if_neg all]
      simp only [Except.map]
      rw [if_pos (Or.inr nonempty)]
    have shows : (∀ items, List.Forall₂ (Shows (Config.Reveals visible invisible)) items
        (Predicter.addItems fields items)) ↔ ∀ name, name ∈ fields ↔ Config.Reveals visible invisible name :=
      shows_addItems_iff distinct
    simp only [listed, Config.mem_series_iff_reveals all] at shows
    rw [and_iff_right all, ← shows]
    constructor
    · rintro ⟨accepted, done', shown⟩
      cases done.symm.trans done'
      exact shown
    · exact fun shown => ⟨_, done, shown⟩

/-- A payload with a prefix only. -/
def prefixOnly : Bytes := ascii "\x7b\"prefix\":\"ab\"\x7d"

def parsePrefixOnly : Parser := fun text =>
  if text = prefixOnly then some (.object [(ascii "prefix", .string (ascii "ab"))]) else none

/-- Two visible fields, with a blank before the second. -/
theorem showsVisible_twoFields :
    ShowsVisible default (ascii "id, name") [] parsePrefixOnly (.insertion _) fresh prefixOnly := by
  refine (@showsVisible_iff default (ascii "id, name") [] parsePrefixOnly (.insertion _) prefixOnly
    ⟨[(ascii "prefix", .string (ascii "ab"))], ascii "ab", none, none, []⟩ ?_ rfl fresh).mpr (by decide)
  exact ⟨rfl, rfl, rfl, by decide, rfl, rfl, rfl⟩

/-- The default options, `*` and nothing, make every field visible, but the query is rejected. -/
theorem default_rejected :
    (∀ name, Config.Reveals star [] name) ∧
    (∃ rejected, fresh.rebuild (Config.loadOptions default star [])
      (Aside.ofConfig (Config.loadOptions default star [])) parsePrefixOnly (.insertion _) prefixOnly =
        .ok (false, rejected)) ∧
    ¬ShowsVisible default star [] parsePrefixOnly (.insertion _) fresh prefixOnly := by
  refine ⟨fun name => ?_, ⟨_, rfl⟩, ?_⟩
  · have all : Config.names star = [star] := (Config.names_eq star).trans rfl
    have hidden : Config.names [] = [] := (Config.names_eq []).trans rfl
    simp [Config.Reveals, all, hidden]
  · rintro ⟨accepted, done, _⟩
    cases done

end Query

end Taboo
