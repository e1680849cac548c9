import Mathlib.Data.Finset.Card
import Mathlib.Data.Set.Basic

/-! # Catalogues

What the store is for, without tries, funnels or dictionaries: a finite set of keys and, for each of
them, the ids listed under it. Listing an id under several keys is one operation, and neither the
order nor the repetition of the keys shows in its result.
-/

namespace Taboo

/-- Which ids are listed under which keys. -/
@[ext] structure Catalogue (κ ι : Type*) where
  keys : Finset κ
  holds : κ → Set ι

namespace Catalogue

variable {κ ι : Type*} [DecidableEq κ]

/-- List an id under every key of a list. -/
def attach (catalogue : Catalogue κ ι) (keys : List κ) (id : ι) : Catalogue κ ι where
  keys := catalogue.keys ∪ keys.toFinset
  holds key := {other | other ∈ catalogue.holds key ∨ (key ∈ keys ∧ other = id)}

@[simp] theorem attach_nil (catalogue : Catalogue κ ι) (id : ι) : catalogue.attach [] id = catalogue := by
  ext <;> simp [attach]

theorem attach_append (catalogue : Catalogue κ ι) (first second : List κ) (id : ι) :
    (catalogue.attach first id).attach second id = catalogue.attach (first ++ second) id := by
  ext <;> simp [attach, or_assoc, or_and_right]

theorem attach_congr (catalogue : Catalogue κ ι) {first second : List κ} (id : ι)
    (same : ∀ key, key ∈ first ↔ key ∈ second) : catalogue.attach first id = catalogue.attach second id := by
  ext <;> simp [attach, same]

theorem keys_subset_attach (catalogue : Catalogue κ ι) (keys : List κ) (id : ι) :
    catalogue.keys ⊆ (catalogue.attach keys id).keys := Finset.subset_union_left

end Catalogue

end Taboo
