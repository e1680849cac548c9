import Mathlib.Data.List.Infix

/-! # Reading back separated fields

A field that is written without escaping can be read back if its separator first occurs behind it.
Then texts made of such fields determine the fields, whatever follows, and a text made of blocks that
can be read back one by one determines the list of blocks.
-/

namespace Separated

variable {α β : Type*}

/-- Behind the field, the separator occurs for the first time. -/
def Closes (separator field : List α) : Prop :=
  ∀ front back, field ++ separator = front ++ separator ++ back → back = []

/-- A separator of one symbol closes the fields that lack it. -/
theorem closes_singleton_iff {separator : α} {field : List α} :
    Closes [separator] field ↔ separator ∉ field := by
  constructor
  · intro closes member
    obtain ⟨front, back, rfl⟩ := List.append_of_mem member
    have nothing := closes front (back ++ [separator]) (by simp)
    simp at nothing
  · intro absent front back same
    rcases List.eq_nil_or_concat back with rfl | ⟨others, last, rfl⟩
    · rfl
    · rw [List.concat_eq_append, ← List.append_assoc] at same
      obtain ⟨rfl, -⟩ := List.append_inj' same rfl
      simp at absent

/-- Two closed fields that begin the same text are one. -/
theorem Closes.append_inj {separator field other : List α} (closes : Closes separator field)
    (closes' : Closes separator other) {rest rest' : List α}
    (same : field ++ (separator ++ rest) = other ++ (separator ++ rest')) :
    field = other ∧ rest = rest' := by
  rw [← List.append_assoc, ← List.append_assoc other] at same
  have shorter : ∀ {field other : List α}, Closes separator other →
      field ++ separator <+: other ++ separator → field = other := by
    rintro field other closes ⟨back, extended⟩
    obtain rfl := closes field back extended.symm
    rw [List.append_nil] at extended
    exact List.append_cancel_right extended
  have fields : field = other := by
    rcases List.prefix_or_prefix_of_prefix (List.prefix_append (field ++ separator) rest)
      (same ▸ List.prefix_append (other ++ separator) rest') with before | before
    · exact shorter closes' before
    · exact (shorter closes before).symm
  subst fields
  exact ⟨rfl, List.append_cancel_left same⟩

/-- A separator in front of every block can be moved behind it. -/
theorem flatMap_shift (separator : List α) (encode : β → List α) (blocks : List β) :
    (blocks.flatMap fun block => separator ++ encode block) ++ separator =
      separator ++ blocks.flatMap fun block => encode block ++ separator := by
  induction blocks with
  | nil => simp
  | cons block rest ih => simp only [List.flatMap_cons, List.append_assoc, ih]

/-- Nonempty blocks that can be read off the front of a text determine it and are determined by it. -/
theorem flatMap_inj {encode : β → List α} {first second : List β}
    (nonempty : ∀ block, encode block ≠ [])
    (read : ∀ block ∈ first, ∀ other ∈ second, ∀ rest rest', encode block ++ rest = encode other ++ rest' →
      block = other ∧ rest = rest')
    (same : first.flatMap encode = second.flatMap encode) : first = second := by
  induction first generalizing second with
  | nil =>
    cases second with
    | nil => rfl
    | cons other others =>
      have empty : encode other = [] := (List.append_eq_nil_iff.mp same.symm).1
      exact absurd empty (nonempty other)
  | cons block blocks ih =>
    cases second with
    | nil =>
      have empty : encode block = [] := (List.append_eq_nil_iff.mp same).1
      exact absurd empty (nonempty block)
    | cons other others =>
      obtain ⟨rfl, rest⟩ := read block List.mem_cons_self other List.mem_cons_self _ _ same
      rw [ih ?_ rest]
      intro block' member other' member'
      exact read block' (List.mem_cons_of_mem _ member) other' (List.mem_cons_of_mem _ member')

end Separated
