import Taboo.Container.FiniteMap
import Taboo.Model.Item

/-! # Funnels and the item dictionary

A funnel holds the item ids of one key, the item dictionary the documents of all ids. Items enter
the dictionary by `insert`, which keeps the document that is already there.
-/

namespace Taboo

structure Farm where
  itemDict : ItemDict
  funnelDict : FunnelDict

namespace Farm

def empty : Farm := ⟨∅, ∅⟩

def attach (farm : Farm) (funnelId : IdT) (item : Item) (upsert : Bool) : Bool × Farm :=
  let funnelDict := farm.funnelDict.insertIfNew funnelId ∅
  let funnel := funnelDict[funnelId]?.getD ∅
  if item.id ∉ funnel then
    (true, ⟨farm.itemDict.insertIfNew item.id item,
      funnelDict.insert funnelId (funnel.insertIfNew item.id item.id)⟩)
  else if upsert then
    (true, ⟨farm.itemDict.insertIfNew item.id item,
      funnelDict.insert funnelId (funnel.insert item.id item.id)⟩)
  else (false, ⟨farm.itemDict, funnelDict⟩)

/-- The item dictionary loses the item of a funnel that does not hold it; an emptied funnel goes, too. -/
def detach (farm : Farm) (id : IdT) (item : Item) : Bool × Farm :=
  match farm.funnelDict[id]? with
  | none => (false, farm)
  | some funnel =>
      if item.id ∈ funnel then
        let rest := funnel.erase item.id
        (true, ⟨farm.itemDict,
          if rest.isEmpty then farm.funnelDict.erase id else farm.funnelDict.insert id rest⟩)
      else (false, ⟨farm.itemDict.erase item.id, farm.funnelDict⟩)

def funnel (farm : Farm) (funnelId : IdT) : Funnel := farm.funnelDict[funnelId]?.getD ∅

/-- `none` is the null pointer `dummyItem`. -/
def item (farm : Farm) (id : IdT) : Option Item := farm.itemDict[id]?

@[simp] theorem funnel_empty (funnelId : IdT) : empty.funnel funnelId = ∅ := by simp [funnel, empty]

/-- Creating an empty funnel does not show. -/
private theorem funnel_insertIfNew (farm : Farm) (created funnelId : IdT) :
    (farm.funnelDict.insertIfNew created ∅)[funnelId]?.getD ∅ = farm.funnel funnelId := by
  rw [FiniteMap.getElem?_insertIfNew, funnel]
  split_ifs with absent
  · rw [absent.2]
    rfl
  · rfl

/-- An item that its funnel holds is refused without upsert, and then nothing changes. -/
theorem attach_refused {farm : Farm} {funnelId : IdT} {item : Item}
    (held : item.id ∈ farm.funnel funnelId) : farm.attach funnelId item false = (false, farm) := by
  have known : funnelId ∈ farm.funnelDict := by
    by_contra absent
    simp [funnel, absent] at held
  have same : farm.funnelDict.insertIfNew funnelId ∅ = farm.funnelDict := by
    apply Std.ExtTreeMap.ext_getElem?
    intro other
    simp [Std.ExtTreeMap.getElem?_insertIfNew, known]
  simp only [attach, funnel_insertIfNew]
  simp only [held, not_true_eq_false, if_false, Bool.false_eq_true, same]

private theorem getElem?_set (farm : Farm) (items : ItemDict) (funnelId : IdT) (changed : Funnel)
    (other id : IdT) :
    ((Farm.mk items ((farm.funnelDict.insertIfNew funnelId ∅).insert funnelId changed)).funnel other)[id]? =
      if other = funnelId then changed[id]? else (farm.funnel other)[id]? := by
  rw [funnel, FiniteMap.getElem?_insert]
  split_ifs
  · rfl
  · rw [funnel_insertIfNew]

/-- Every other attach succeeds: the item enters its funnel, and the dictionary if it lacked the id. -/
theorem attach_done {farm : Farm} {funnelId : IdT} {item : Item} {upsert : Bool}
    (allowed : item.id ∈ farm.funnel funnelId → upsert = true) :
    ∃ next, farm.attach funnelId item upsert = (true, next) ∧
      next.itemDict = farm.itemDict.insertIfNew item.id item ∧
      ∀ other id, (next.funnel other)[id]? =
        if other = funnelId ∧ id = item.id then some item.id else (farm.funnel other)[id]? := by
  simp only [attach, funnel_insertIfNew]
  by_cases held : item.id ∈ farm.funnel funnelId
  · simp only [held, not_true_eq_false, if_false, allowed held, if_true]
    refine ⟨_, rfl, rfl, fun other id => ?_⟩
    rw [getElem?_set, FiniteMap.getElem?_insert]
    rcases eq_or_ne other funnelId with rfl | elsewhere
    · simp
    · simp [elsewhere]
  · simp only [held, not_false_eq_true, if_true]
    refine ⟨_, rfl, rfl, fun other id => ?_⟩
    rw [getElem?_set, FiniteMap.getElem?_insertIfNew]
    rcases eq_or_ne other funnelId with rfl | elsewhere
    · have missing : id = item.id → (farm.funnel other)[id]? = none := by
        rintro rfl
        exact (FiniteMap.not_mem_iff ..).mp held
      rw [if_pos rfl, if_congr (and_iff_left_of_imp missing) rfl rfl]
      simp
    · simp [elsewhere]

/-- It replaces one funnel, by one that holds the item. -/
theorem attach_funnelDict {farm : Farm} {funnelId : IdT} {item : Item} {upsert : Bool}
    (allowed : item.id ∈ farm.funnel funnelId → upsert = true) : ∃ changed : Funnel, item.id ∈ changed ∧
      (farm.attach funnelId item upsert).2.funnelDict =
        (farm.funnelDict.insertIfNew funnelId ∅).insert funnelId changed := by
  simp only [attach, funnel_insertIfNew]
  by_cases held : item.id ∈ farm.funnel funnelId
  · simp only [held, not_true_eq_false, if_false, allowed held, if_true]
    exact ⟨_, Std.ExtTreeMap.mem_insert_self, rfl⟩
  · simp only [held, not_false_eq_true, if_true]
    exact ⟨_, Std.ExtTreeMap.mem_insertIfNew_self, rfl⟩

theorem attach_fst_iff (farm : Farm) (funnelId : IdT) (item : Item) (upsert : Bool) :
    (farm.attach funnelId item upsert).1 = true ↔ item.id ∉ farm.funnel funnelId ∨ upsert = true := by
  by_cases allowed : item.id ∈ farm.funnel funnelId → upsert = true
  · obtain ⟨next, done, _, _⟩ := attach_done allowed
    rw [done]
    simpa [← imp_iff_not_or] using allowed
  · obtain ⟨held, refused⟩ := Classical.not_imp.mp allowed
    rw [Bool.eq_false_iff.mpr refused, attach_refused held]
    simp [held]

/-- Whatever an attach answers, its funnel holds the item afterwards and the others are as before. -/
theorem mem_funnel_attach (farm : Farm) (funnelId : IdT) (item : Item) (upsert : Bool) (other id : IdT) :
    id ∈ (farm.attach funnelId item upsert).2.funnel other ↔
      id ∈ farm.funnel other ∨ (other = funnelId ∧ id = item.id) := by
  by_cases allowed : item.id ∈ farm.funnel funnelId → upsert = true
  · obtain ⟨next, done, _, funnels⟩ := attach_done allowed
    rw [done, Std.ExtTreeMap.mem_iff_isSome_getElem?, Std.ExtTreeMap.mem_iff_isSome_getElem?, funnels]
    by_cases own : other = funnelId ∧ id = item.id <;> simp [own]
  · obtain ⟨held, refused⟩ := Classical.not_imp.mp allowed
    rw [Bool.eq_false_iff.mpr refused, attach_refused held]
    constructor
    · exact Or.inl
    · rintro (member | ⟨rfl, rfl⟩)
      · exact member
      · exact held

theorem funnel_attach_empty {farm : Farm} {funnelId other : IdT} (different : other ≠ funnelId)
    (empty : farm.funnel other = ∅) (item : Item) (upsert : Bool) :
    (farm.attach funnelId item upsert).2.funnel other = ∅ := by
  apply Std.ExtTreeMap.eq_empty_iff_forall_not_mem.mpr
  intro id there
  rw [mem_funnel_attach, empty] at there
  rcases there with there | ⟨same, _⟩
  · simp at there
  · exact different same

/-- What holds of the funnels and the dictionary of every farm that attaches build. -/
structure Valid (farm : Farm) : Prop where
  /-- a funnel maps each of its ids to itself -/
  own : ∀ (funnelId id found : IdT), (farm.funnel funnelId)[id]? = some found → found = id
  /-- and every id it maps is in the dictionary -/
  present : ∀ (funnelId id : IdT), id ∈ farm.funnel funnelId → id ∈ farm.itemDict
  /-- under which an item of that id stands -/
  named : ∀ id item, farm.item id = some item → item.id = id

theorem valid_empty : empty.Valid where
  own := by simp
  present := by simp
  named := by simp [item, empty]

/-- Attaching stores the item where its id has none yet, and leaves every stored item alone. -/
theorem Valid.item_attach {farm : Farm} (valid : farm.Valid) (funnelId : IdT) (item : Item) (upsert : Bool)
    (id : IdT) : (farm.attach funnelId item upsert).2.item id =
      if id = item.id ∧ farm.item id = none then some item else farm.item id := by
  by_cases allowed : item.id ∈ farm.funnel funnelId → upsert = true
  · obtain ⟨next, done, items, _⟩ := attach_done allowed
    rw [done, Farm.item, items]
    exact FiniteMap.getElem?_insertIfNew ..
  · obtain ⟨held, refused⟩ := Classical.not_imp.mp allowed
    rw [Bool.eq_false_iff.mpr refused, attach_refused held, if_neg]
    rintro ⟨rfl, absent⟩
    exact (FiniteMap.not_mem_iff ..).mpr absent (valid.present funnelId item.id held)

theorem Valid.attach {farm : Farm} (valid : farm.Valid) (funnelId : IdT) (item : Item) (upsert : Bool) :
    (farm.attach funnelId item upsert).2.Valid := by
  by_cases allowed : item.id ∈ farm.funnel funnelId → upsert = true
  · obtain ⟨next, done, items, funnels⟩ := attach_done allowed
    rw [done]
    refine ⟨?_, ?_, ?_⟩
    · intro other id found there
      rw [funnels] at there
      split_ifs at there with here
      · rw [← Option.some.inj there, here.2]
      · exact valid.own other id found there
    · intro other id member
      rw [items, Std.ExtTreeMap.mem_insertIfNew]
      have member := (mem_funnel_attach farm funnelId item upsert other id).mp (by rwa [done])
      rcases member with member | ⟨_, rfl⟩
      · exact Or.inr (valid.present other id member)
      · exact Or.inl Std.ReflCmp.compare_self
    · intro id found there
      rw [Farm.item, items, FiniteMap.getElem?_insertIfNew] at there
      split_ifs at there with here
      · rw [← Option.some.inj there, here.1]
      · exact valid.named id found there
  · obtain ⟨held, refused⟩ := Classical.not_imp.mp allowed
    rw [Bool.eq_false_iff.mpr refused, attach_refused held]
    exact valid

/-- The ids that a walk over a funnel meets are its keys. -/
theorem Valid.mem_values {farm : Farm} (valid : farm.Valid) (funnelId id : IdT) :
    id ∈ (farm.funnel funnelId).toList.map Prod.snd ↔ id ∈ farm.funnel funnelId := by
  simp only [List.mem_map, Prod.exists, Std.ExtTreeMap.mem_toList_iff_getElem?_eq_some, exists_eq_right,
    Std.ExtTreeMap.mem_iff_isSome_getElem?, Option.isSome_iff_exists]
  constructor
  · rintro ⟨key, there⟩
    obtain rfl := valid.own funnelId key id there
    exact ⟨_, there⟩
  · rintro ⟨found, there⟩
    obtain rfl := valid.own funnelId id found there
    exact ⟨_, there⟩

theorem Valid.item_of_mem {farm : Farm} (valid : farm.Valid) {funnelId id : IdT}
    (member : id ∈ farm.funnel funnelId) : ∃ item, farm.item id = some item ∧ item.id = id := by
  have known := valid.present funnelId id member
  refine ⟨farm.itemDict[id], Std.ExtTreeMap.getElem?_eq_some_getElem known, ?_⟩
  exact valid.named id _ (Std.ExtTreeMap.getElem?_eq_some_getElem known)

end Farm

end Taboo
