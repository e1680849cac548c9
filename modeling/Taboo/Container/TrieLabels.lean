import Taboo.Container.SiblingTrie

/-! # The edges of a trie

The labels of the edges below a node, in their order, and tries without dead ends: every edge leads to a
value or to further edges.
-/

namespace Container

universe u v

variable {α : Type u} {β : Type v}

namespace SiblingTrie

/-- The labels of the edges in order. -/
def labels : SiblingTrie α β → List α
  | nil => []
  | cons label _ _ siblings => label :: siblings.labels

/-- No edge leads to a dead end. -/
def Full : SiblingTrie α β → Prop
  | nil => True
  | cons _ value children siblings => (value ≠ none ∨ children ≠ nil) ∧ children.Full ∧ siblings.Full

variable [DecidableEq α]

theorem mem_labels_iff {trie : SiblingTrie α β} {label : α} : label ∈ trie.labels ↔
      trie.follow label ≠ none := by
  induction trie with
  | nil => simp [labels, follow]
  | cons first value children siblings _ ih =>
    by_cases here : first = label
    · simp [labels, follow, here]
    · simp [labels, follow, here, Ne.symm here, ih]

@[simp] theorem labels_replace (trie : SiblingTrie α β) (label : α) (node : TrieNode α β) :
    (trie.replace label node).labels = trie.labels := by
  induction trie with
  | nil => rfl
  | cons first value children siblings _ ih =>
    by_cases here : first = label <;> simp [replace, labels, here, ih]

theorem replace_ne_nil {trie : SiblingTrie α β} (some : trie ≠ nil) (label : α) (node : TrieNode α β) :
    trie.replace label node ≠ nil := by
  cases trie with
  | nil => exact absurd rfl some
  | cons first value children siblings =>
    rw [replace]
    split_ifs <;> simp

theorem Full.follow {trie : SiblingTrie α β} (full : trie.Full) {label : α} {node : TrieNode α β}
    (found : trie.follow label = some node) : (node.value ≠ none ∨ node.children ≠ nil) ∧
      node.children.Full := by
  induction trie with
  | nil => cases found
  | cons first value children siblings _ ih =>
    obtain ⟨live, ofChildren, ofSiblings⟩ := full
    simp only [SiblingTrie.follow] at found
    split_ifs at found with here
    · cases found
      exact ⟨live, ofChildren⟩
    · exact ih ofSiblings found

theorem Full.replace {trie : SiblingTrie α β} (full : trie.Full) (label : α) {node : TrieNode α β}
    (live : node.value ≠ none ∨ node.children ≠ nil) (below : node.children.Full) :
    (trie.replace label node).Full := by
  induction trie with
  | nil => exact trivial
  | cons first value children siblings _ ih =>
    obtain ⟨live', ofChildren, ofSiblings⟩ := full
    rw [SiblingTrie.replace]
    split_ifs
    · exact ⟨live, below, ofSiblings⟩
    · exact ⟨live', ofChildren, ih ofSiblings⟩

end SiblingTrie

namespace TrieNode

variable [DecidableEq α]

theorem insert_cons_value (node : TrieNode α β) (label : α) (rest : List α) (stored : β) :
    (node.insert (label :: rest) stored).value = node.value := by
  cases found : node.children.follow label <;> simp [insert, found]

theorem follow_insert_cons (node : TrieNode α β) (label wanted : α) (rest : List α) (stored : β) :
    (node.insert (label :: rest) stored).children.follow wanted =
      if label = wanted then some (((node.children.follow label).getD empty).insert rest stored)
      else node.children.follow wanted := by
  cases found : node.children.follow label with
  | none => simp [insert, found, SiblingTrie.follow]
  | some child => simp [insert, found, SiblingTrie.follow_replace]

theorem labels_insert_cons (node : TrieNode α β) (label : α) (rest : List α) (stored : β) :
    (node.insert (label :: rest) stored).children.labels =
      if label ∈ node.children.labels then node.children.labels else label :: node.children.labels := by
  cases found : node.children.follow label <;>
    simp [insert, found, SiblingTrie.mem_labels_iff, SiblingTrie.labels]

/-- A value that is stored leaves no dead end behind. -/
theorem insert_full {node : TrieNode α β} (full : node.children.Full) (word : List α) (stored : β) :
    ((node.insert word stored).value ≠ none ∨ (node.insert word stored).children ≠ .nil) ∧
      (node.insert word stored).children.Full := by
  induction word generalizing node with
  | nil => exact ⟨Or.inl (by simp [insert]), full⟩
  | cons label rest ih =>
    cases found : node.children.follow label with
    | none =>
      have grown := ih (show (empty : TrieNode α β).children.Full from trivial)
      simp only [insert, found]
      exact ⟨Or.inr (by simp), grown.1, grown.2, full⟩
    | some child =>
      have grown := ih (full.follow found).2
      have some' : node.children ≠ .nil := by
        rintro none
        rw [none] at found
        cases found
      simp only [insert, found]
      exact ⟨Or.inr (SiblingTrie.replace_ne_nil some' _ _), full.replace label grown.1 grown.2⟩

theorem descend_full {node target : TrieNode α β} (full : node.children.Full) {label : α} {rest : List α}
    (reached : node.descend (label :: rest) = some target) :
    (target.value ≠ none ∨ target.children ≠ .nil) ∧ target.children.Full := by
  induction rest generalizing node label with
  | nil =>
    obtain ⟨child, found, reached⟩ := Option.bind_eq_some_iff.mp reached
    cases reached
    exact full.follow found
  | cons next rest ih =>
    obtain ⟨child, found, reached⟩ := Option.bind_eq_some_iff.mp reached
    exact ih (full.follow found).2 reached

end TrieNode

end Container
