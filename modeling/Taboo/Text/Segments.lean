import Mathlib.Data.List.Basic

/-! # Splitting at merged separators

Separators that follow one another count as one, but those at an end of the text still split off an
empty piece. A reading that skips empty pieces sees no difference to splitting at every separator.
-/

namespace Segments

variable {α β : Type*} (isSeparator : α → Bool)

/-- The pieces of a text, `merging` right behind a separator. -/
def piecesFrom : Bool → List α → List (List α)
  | _, [] => [[]]
  | merging, symbol :: rest =>
      if isSeparator symbol then
        if merging then piecesFrom true rest else [] :: piecesFrom true rest
      else (piecesFrom false rest).modifyHead (symbol :: ·)

def pieces (text : List α) : List (List α) := piecesFrom isSeparator false text

theorem piecesFrom_ne_nil (merging : Bool) (text : List α) : piecesFrom isSeparator merging text ≠ [] := by
  induction text generalizing merging with
  | nil => simp [piecesFrom]
  | cons symbol rest ih =>
    unfold piecesFrom
    split_ifs
    · exact ih true
    · simp
    · simpa using ih false

/-- Up to skipped pieces the two ways to split agree, and those from the start of a text begin with the
same piece. -/
theorem filterMap_piecesFrom {read : List α → Option β} (skips : read [] = none) (text : List α) :
    (∃ first merged others, piecesFrom isSeparator false text = first :: merged ∧
      text.splitOnP isSeparator = first :: others ∧ merged.filterMap read = others.filterMap read) ∧
    (piecesFrom isSeparator true text).filterMap read = (text.splitOnP isSeparator).filterMap read := by
  induction text with
  | nil => exact ⟨⟨[], [], [], rfl, rfl, rfl⟩, rfl⟩
  | cons symbol rest ih =>
    obtain ⟨⟨first, merged, others, here, there, same⟩, later⟩ := ih
    rw [List.splitOnP_cons_eq_if_modifyHead]
    simp only [piecesFrom]
    cases isSeparator symbol with
    | true =>
      simp only [Bool.false_eq_true, if_true, if_false]
      exact ⟨⟨[], _, _, rfl, rfl, later⟩, by rw [later, List.filterMap_cons, skips]⟩
    | false =>
      simp only [Bool.false_eq_true, if_false, here, there, List.modifyHead_cons]
      exact ⟨⟨symbol :: first, merged, others, rfl, rfl, same⟩, by simp only [List.filterMap_cons, same]⟩

theorem filterMap_pieces {read : List α → Option β} (skips : read [] = none) (text : List α) :
    (pieces isSeparator text).filterMap read = (text.splitOnP isSeparator).filterMap read := by
  obtain ⟨⟨first, merged, others, here, there, same⟩, _⟩ := filterMap_piecesFrom isSeparator skips text
  rw [pieces, here, there, List.filterMap_cons, List.filterMap_cons, same]

end Segments
