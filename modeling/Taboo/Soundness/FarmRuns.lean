import Taboo.Machine.Run
import Taboo.Model.Farm

/-! # Which items the dictionary keeps

No operation counts references. Attaching adds to a funnel and to the dictionary alike, but detaching
takes an item out of its funnel only, and out of the dictionary only where the funnel lacks it. What
detaches a run may do so that dictionary and funnels still agree is found here.
-/

namespace Taboo.Farm

open Machine

/-- No stored funnel is empty. -/
def Occupied (farm : Farm) : Prop :=
  ∀ (funnelId : IdT) (funnel : Funnel), farm.funnelDict[funnelId]? = some funnel → funnel ≠ ∅

/-- The dictionary has exactly the items of the funnels, none of which is empty. -/
structure Balanced (farm : Farm) : Prop where
  referenced : ∀ id, id ∈ farm.itemDict ↔
    ∃ (funnelId : IdT) (funnel : Funnel), farm.funnelDict[funnelId]? = some funnel ∧ id ∈ funnel
  occupied : farm.Occupied

theorem mem_funnel_iff (farm : Farm) (funnelId id : IdT) : id ∈ farm.funnel funnelId ↔
    ∃ funnel : Funnel, farm.funnelDict[funnelId]? = some funnel ∧ id ∈ funnel := by
  unfold funnel
  cases farm.funnelDict[funnelId]? <;> simp

theorem balanced_empty : empty.Balanced where
  referenced := by simp [empty]
  occupied := by simp [empty, Occupied]

theorem Occupied.attach {farm : Farm} (occupied : farm.Occupied) (funnelId : IdT) (item : Item)
    (upsert : Bool) : (farm.attach funnelId item upsert).2.Occupied := by
  by_cases allowed : item.id ∈ farm.funnel funnelId → upsert = true
  · obtain ⟨changed, holds, funnelDict⟩ := attach_funnelDict allowed
    intro other funnel there
    rw [funnelDict, FiniteMap.getElem?_insert] at there
    split_ifs at there with here
    · obtain rfl := Option.some.inj there
      rintro rfl
      simp at holds
    · rw [FiniteMap.getElem?_insertIfNew, if_neg (fun new => here new.1)] at there
      exact occupied other funnel there
  · obtain ⟨held, refused⟩ := Classical.not_imp.mp allowed
    rw [Bool.eq_false_iff.mpr refused, attach_refused held]
    exact occupied

theorem Balanced.attach {farm : Farm} (balanced : farm.Balanced) (funnelId : IdT) (item : Item)
    (upsert : Bool) : (farm.attach funnelId item upsert).2.Balanced := by
  refine ⟨fun id => ?_, balanced.occupied.attach funnelId item upsert⟩
  by_cases allowed : item.id ∈ farm.funnel funnelId → upsert = true
  · obtain ⟨next, done, items, _⟩ := attach_done allowed
    simp only [← mem_funnel_iff, mem_funnel_attach]
    rw [done, items, FiniteMap.mem_insertIfNew, balanced.referenced]
    simp only [← mem_funnel_iff, exists_or, exists_and_right, exists_eq, true_and]
    rw [or_comm, eq_comm]
  · obtain ⟨held, refused⟩ := Classical.not_imp.mp allowed
    rw [Bool.eq_false_iff.mpr refused, attach_refused held]
    exact balanced.referenced id

/-- A detach from a funnel that holds the item takes it out of that funnel and nowhere else. -/
theorem detach_held {farm : Farm} {funnelId : IdT} {item : Item} (held : item.id ∈ farm.funnel funnelId) :
    (farm.detach funnelId item).2.itemDict = farm.itemDict ∧
      ∀ other id, id ∈ (farm.detach funnelId item).2.funnel other ↔
        id ∈ farm.funnel other ∧ ¬(other = funnelId ∧ id = item.id) := by
  obtain ⟨funnel, stored, member⟩ := (mem_funnel_iff ..).mp held
  simp only [detach, stored, if_pos member]
  refine ⟨trivial, fun other id => ?_⟩
  rcases eq_or_ne other funnelId with rfl | elsewhere
  · have same : farm.funnel other = funnel := by rw [Farm.funnel, stored, Option.getD_some]
    have left : id ∈ funnel.erase item.id ↔ id ∈ funnel ∧ ¬(other = other ∧ id = item.id) := by
      rw [FiniteMap.mem_erase]
      simp [and_comm]
    rw [same, Farm.funnel, ← left]
    split_ifs with nothing
    · rw [Std.ExtTreeMap.getElem?_erase_self, Std.ExtTreeMap.isEmpty_iff.mp nothing, Option.getD_none]
    · rw [Std.ExtTreeMap.getElem?_insert_self, Option.getD_some]
  · simp only [elsewhere, false_and, not_false_eq_true, and_true, Farm.funnel]
    split_ifs
    · rw [FiniteMap.getElem?_erase, if_neg elsewhere]
    · rw [FiniteMap.getElem?_insert, if_neg elsewhere]

/-- A detach from a known funnel that lacks the item takes it out of the dictionary. -/
theorem detach_missed {farm : Farm} {funnelId : IdT} {item : Item} (known : funnelId ∈ farm.funnelDict)
    (missed : item.id ∉ farm.funnel funnelId) :
    (farm.detach funnelId item).2 = ⟨farm.itemDict.erase item.id, farm.funnelDict⟩ := by
  obtain ⟨funnel, there⟩ := Option.isSome_iff_exists.mp (Std.ExtTreeMap.mem_iff_isSome_getElem?.mp known)
  have missing : item.id ∉ funnel := by simpa [Farm.funnel, there] using missed
  simp [detach, there, missing]

theorem detach_unknown {farm : Farm} {funnelId : IdT} (unknown : funnelId ∉ farm.funnelDict) (item : Item) :
    farm.detach funnelId item = (false, farm) := by
  simp [detach, (FiniteMap.not_mem_iff ..).mp unknown]

theorem Occupied.detach {farm : Farm} (occupied : farm.Occupied) (funnelId : IdT) (item : Item) :
    (farm.detach funnelId item).2.Occupied := by
  unfold Farm.detach
  split
  · exact occupied
  · split_ifs
    · dsimp only
      intro other funnel there
      split_ifs at there with nothing
      · rw [FiniteMap.getElem?_erase] at there
        split_ifs at there
        exact occupied other funnel there
      · rw [FiniteMap.getElem?_insert] at there
        split_ifs at there
        · obtain rfl := Option.some.inj there
          exact fun empty => nothing (Std.ExtTreeMap.isEmpty_iff.mpr empty)
        · exact occupied other funnel there
    · exact occupied

inductive Call
  | attach (funnelId : IdT) (item : Item) (upsert : Bool)
  | detach (funnelId : IdT) (item : Item)

def step (farm : Farm) : Call → Option Farm
  | .attach funnelId item upsert => some (farm.attach funnelId item upsert).2
  | .detach funnelId item => some (farm.detach funnelId item).2

/-- A detach meets an unknown funnel, an item that another funnel holds as well, or an item that no
funnel holds. -/
def Clean (farm : Farm) : Call → Prop
  | .attach _ _ _ => True
  | .detach funnelId item => funnelId ∈ farm.funnelDict →
      if item.id ∈ farm.funnel funnelId then ∃ other, other ≠ funnelId ∧ item.id ∈ farm.funnel other
      else ∀ other, item.id ∉ farm.funnel other

theorem balanced_detach_iff {farm : Farm} (balanced : farm.Balanced) (funnelId : IdT) (item : Item) :
    (farm.detach funnelId item).2.Balanced ↔ Clean farm (.detach funnelId item) := by
  have stored : ∀ id, id ∈ farm.itemDict ↔ ∃ other, id ∈ farm.funnel other := by
    simpa only [mem_funnel_iff] using balanced.referenced
  by_cases known : funnelId ∈ farm.funnelDict
  · by_cases held : item.id ∈ farm.funnel funnelId
    · obtain ⟨items, funnels⟩ := detach_held held
      simp only [Clean, known, held, if_true, forall_const]
      constructor
      · intro after
        have kept := (after.referenced item.id).mp (by rw [items]; exact (stored item.id).mpr ⟨_, held⟩)
        simp only [← mem_funnel_iff, funnels] at kept
        obtain ⟨other, there, elsewhere⟩ := kept
        exact ⟨other, fun same => elsewhere ⟨same, trivial⟩, there⟩
      · rintro ⟨other, elsewhere, there⟩
        refine ⟨fun id => ?_, balanced.occupied.detach funnelId item⟩
        simp only [← mem_funnel_iff, funnels, items, stored]
        constructor
        · rintro ⟨another, member⟩
          by_cases lost : another = funnelId ∧ id = item.id
          · exact ⟨other, lost.2 ▸ there, fun same => elsewhere same.1⟩
          · exact ⟨another, member, lost⟩
        · rintro ⟨another, member, _⟩
          exact ⟨another, member⟩
    · simp only [Clean, known, held, if_false, forall_const, detach_missed known held]
      constructor
      · intro after other there
        have kept := (after.referenced item.id).mpr ⟨other, (mem_funnel_iff ..).mp there⟩
        rw [FiniteMap.mem_erase] at kept
        exact kept.1 rfl
      · intro nowhere
        refine ⟨fun id => ?_, balanced.occupied⟩
        rw [FiniteMap.mem_erase, balanced.referenced, and_iff_right_iff_imp]
        rintro ⟨other, funnel, there, member⟩ rfl
        exact nowhere other ((mem_funnel_iff ..).mpr ⟨funnel, there, member⟩)
  · rw [detach_unknown known]
    exact iff_of_true balanced fun there => absurd there known

/-- The second half of the balance holds in any run. -/
theorem occupied_run {calls : List Call} {farm : Farm} (ran : run step empty calls = some farm) :
    farm.Occupied := by
  refine run_invariant (P := Occupied) ?_ balanced_empty.occupied ran
  intro farm call next occupied stepped
  cases call with
  | attach funnelId item upsert =>
    cases stepped
    exact occupied.attach funnelId item upsert
  | detach funnelId item =>
    cases stepped
    exact occupied.detach funnelId item

/-- Dictionary and funnels agree along a run exactly if every detach of it is clean. -/
theorem balanced_throughout_iff (calls : List Call) :
    Throughout step empty calls Balanced ↔ EachStep step empty calls Clean := by
  have total : ∀ farm call, ∃ next, step farm call = some next := by
    intro farm call
    cases call <;> exact ⟨_, rfl⟩
  obtain ⟨farm, ran⟩ := run_total total empty calls
  apply throughout_iff ran balanced_empty
  intro _ farm call next _ balanced stepped
  cases call with
  | attach funnelId item upsert =>
    cases stepped
    exact iff_of_true (balanced.attach funnelId item upsert) trivial
  | detach funnelId item =>
    cases stepped
    exact balanced_detach_iff balanced funnelId item

/-- Item 1, attached under one funnel and detached again. -/
def attachedAndDetached : List Call := [.attach 1 (.sent 1 []) true, .detach 1 (.sent 1 [])]

/-- Two items under a funnel each; the second is then detached from the funnel of the first. -/
def detachedElsewhere : List Call :=
  [.attach 1 (.sent 1 []) true, .attach 2 (.sent 2 []) true, .detach 1 (.sent 2 [])]

/-- The first run leaves an item that no funnel holds, the second one a funnel whose item is gone. -/
theorem detached_unbalanced :
    (∃ farm, run step empty attachedAndDetached = some farm ∧ 1 ∈ farm.itemDict ∧
      farm.funnelDict.isEmpty = true ∧ ¬farm.Balanced) ∧
    ∃ farm, run step empty detachedElsewhere = some farm ∧ 2 ∈ farm.funnel 2 ∧ 2 ∉ farm.itemDict ∧
      ¬farm.Balanced := by
  constructor
  · obtain ⟨farm, ran, stored, nothing⟩ : ∃ farm, run step empty attachedAndDetached = some farm ∧
        1 ∈ farm.itemDict ∧ farm.funnelDict.isEmpty = true := ⟨_, rfl, by decide, by decide⟩
    refine ⟨farm, ran, stored, nothing, fun balanced => ?_⟩
    obtain ⟨funnelId, funnel, there, _⟩ := (balanced.referenced 1).mp stored
    rw [Std.ExtTreeMap.isEmpty_iff.mp nothing] at there
    simp at there
  · refine ⟨_, rfl, by decide, by decide, fun balanced => ?_⟩
    have stored := (balanced.referenced 2).mpr ⟨2, (mem_funnel_iff ..).mp (by decide)⟩
    revert stored
    decide

end Taboo.Farm
