import Mathlib.Data.List.Induction

/-! # Lookups after insertions and erasures

The lookup rules of ordered maps whose comparison decides equality, with equations in place of
comparisons.
-/

namespace FiniteMap

open Std

variable {α β : Type*} {cmp : α → α → Ordering} [TransCmp cmp] [LawfulEqCmp cmp] [DecidableEq α]

theorem getElem?_insert (map : ExtTreeMap α β cmp) (key other : α) (value : β) :
    (map.insert key value)[other]? = if other = key then some value else map[other]? := by
  rw [ExtTreeMap.getElem?_insert]
  apply if_congr ?_ rfl rfl
  rw [LawfulEqCmp.compare_eq_iff_eq, eq_comm]

theorem getElem?_erase (map : ExtTreeMap α β cmp) (key other : α) :
    (map.erase key)[other]? = if other = key then none else map[other]? := by
  rw [ExtTreeMap.getElem?_erase]
  apply if_congr ?_ rfl rfl
  rw [LawfulEqCmp.compare_eq_iff_eq, eq_comm]

omit [DecidableEq α] in
theorem mem_erase (map : ExtTreeMap α β cmp) (key other : α) :
    other ∈ map.erase key ↔ other ≠ key ∧ other ∈ map := by
  rw [ExtTreeMap.mem_erase, ne_eq, LawfulEqCmp.compare_eq_iff_eq, eq_comm]

omit [LawfulEqCmp cmp] [DecidableEq α] in
theorem not_mem_iff (map : ExtTreeMap α β cmp) (key : α) : key ∉ map ↔ map[key]? = none := by
  rw [ExtTreeMap.mem_iff_isSome_getElem?, Bool.not_eq_true, Option.isSome_eq_false_iff, Option.isNone_iff_eq_none]

omit [DecidableEq α] in
theorem mem_insertIfNew (map : ExtTreeMap α β cmp) (key other : α) (value : β) :
    other ∈ map.insertIfNew key value ↔ other = key ∨ other ∈ map := by
  rw [ExtTreeMap.mem_insertIfNew, LawfulEqCmp.compare_eq_iff_eq, eq_comm]

/-- An insertion that keeps what is there shows only where nothing is. -/
theorem getElem?_insertIfNew (map : ExtTreeMap α β cmp) (key other : α) (value : β)
    [Decidable (map[other]? = none)] :
    (map.insertIfNew key value)[other]? =
      if other = key ∧ map[other]? = none then some value else map[other]? := by
  rw [ExtTreeMap.getElem?_insertIfNew]
  apply if_congr ?_ rfl rfl
  rw [LawfulEqCmp.compare_eq_iff_eq, eq_comm]
  refine and_congr_right ?_
  rintro rfl
  exact not_mem_iff map other

end FiniteMap
