import Mathlib.Data.List.Nodup

/-! # Tries in first-child, next-sibling form

A node carries an optional value and the list of its children; a list of children is threaded
through `siblings` links, as in array tries that keep the first child and the next sibling of
every node. New edges enter at the head of their list, so the enumeration order depends on the
insertion order. Lookup and enumeration agree on every trie whose sibling labels are distinct,
and insertion keeps them distinct.
-/

namespace Container

universe u v

/-- A list of labelled edges: first edge, its subtree, the remaining siblings. -/
inductive SiblingTrie (α : Type u) (β : Type v)
  | nil
  | cons (label : α) (value : Option β) (children siblings : SiblingTrie α β)

/-- What an edge leads to. -/
structure TrieNode (α : Type u) (β : Type v) where
  value : Option β
  children : SiblingTrie α β

variable {α : Type u} {β : Type v}

namespace SiblingTrie

section Follow

variable [DecidableEq α]

/-- The node below the first edge with the given label. -/
def follow : SiblingTrie α β → α → Option (TrieNode α β)
  | nil, _ => none
  | cons label value children siblings, wanted =>
      if label = wanted then some ⟨value, children⟩ else siblings.follow wanted

/-- Replace the node below the first edge with the given label. -/
def replace : SiblingTrie α β → α → TrieNode α β → SiblingTrie α β
  | nil, _, _ => nil
  | cons label value children siblings, wanted, node =>
      if label = wanted then cons label node.value node.children siblings
      else cons label value children (siblings.replace wanted node)

/-- Sibling labels are distinct, at every depth. -/
def Distinct : SiblingTrie α β → Prop
  | nil => True
  | cons label _ children siblings =>
      siblings.follow label = none ∧ children.Distinct ∧ siblings.Distinct

theorem follow_replace (trie : SiblingTrie α β) (label wanted : α) (node : TrieNode α β) :
    (trie.replace label node).follow wanted =
      if label = wanted then (trie.follow label).map fun _ => node else trie.follow wanted := by
  induction trie with
  | nil => simp [replace, follow]
  | cons first value children siblings _ ih =>
    by_cases here : first = label
    · subst here
      by_cases same : first = wanted <;> simp [replace, follow, same]
    · by_cases same : label = wanted
      · subst same
        simp [replace, follow, here, ih]
      · simp [replace, follow, here, ih, same]

theorem Distinct.replace {trie : SiblingTrie α β} (distinct : trie.Distinct) (label : α)
    {node : TrieNode α β} (below : node.children.Distinct) : (trie.replace label node).Distinct := by
  induction trie with
  | nil => exact trivial
  | cons first value children siblings _ ih =>
    obtain ⟨fresh, ofChildren, ofSiblings⟩ := distinct
    by_cases here : first = label
    · simp only [SiblingTrie.replace, if_pos here]
      exact ⟨fresh, below, ofSiblings⟩
    · simp only [SiblingTrie.replace, if_neg here]
      refine ⟨?_, ofChildren, ih ofSiblings⟩
      rw [follow_replace, if_neg (Ne.symm here), fresh]

theorem Distinct.follow {trie : SiblingTrie α β} (distinct : trie.Distinct) {label : α}
    {node : TrieNode α β} (found : trie.follow label = some node) : node.children.Distinct := by
  induction trie with
  | nil => cases found
  | cons first value children siblings _ ih =>
    simp only [SiblingTrie.follow] at found
    split_ifs at found with here
    · cases found
      exact distinct.2.1
    · exact ih distinct.2.2 found

end Follow

/-- Stored words and values in walk order: a node's own value comes before its subtree, a subtree
before the siblings after it. -/
def entries : SiblingTrie α β → List (List α × β)
  | nil => []
  | cons label value children siblings =>
      (((value.toList.map fun stored => ([], stored)) ++ children.entries).map
        fun entry : List α × β => (label :: entry.1, entry.2)) ++ siblings.entries

end SiblingTrie

namespace TrieNode

/-- A node at which nothing is stored yet. -/
def empty : TrieNode α β := ⟨none, .nil⟩

/-- Own value first, then the subtree. -/
def entries (node : TrieNode α β) : List (List α × β) :=
  (node.value.toList.map fun stored => ([], stored)) ++ node.children.entries

section Lookup

variable [DecidableEq α]

/-- The node reached along a word. -/
def descend : TrieNode α β → List α → Option (TrieNode α β)
  | node, [] => some node
  | node, label :: rest => (node.children.follow label).bind fun child => child.descend rest

/-- The value stored at a word. -/
def find? (node : TrieNode α β) (word : List α) : Option β :=
  (node.descend word).bind TrieNode.value

/-- Store a value at a word, creating the missing edges at the head of their lists. -/
def insert : TrieNode α β → List α → β → TrieNode α β
  | node, [], stored => ⟨some stored, node.children⟩
  | node, label :: rest, stored =>
      match node.children.follow label with
      | some child => ⟨node.value, node.children.replace label (child.insert rest stored)⟩
      | none =>
          let child := empty.insert rest stored
          ⟨node.value, .cons label child.value child.children node.children⟩

@[simp] theorem descend_nil (node : TrieNode α β) : node.descend [] = some node := rfl

@[simp] theorem find?_nil (node : TrieNode α β) : node.find? [] = node.value := rfl

theorem find?_cons (node : TrieNode α β) (label : α) (rest : List α) :
    node.find? (label :: rest) = (node.children.follow label).bind fun child => child.find? rest := by
  simp only [find?, descend, Option.bind_assoc]

@[simp] theorem find?_empty (word : List α) : (empty : TrieNode α β).find? word = none := by
  cases word <;> simp [find?, descend, empty, SiblingTrie.follow]

theorem descend_append (node : TrieNode α β) (first second : List α) :
    node.descend (first ++ second) = (node.descend first).bind fun middle => middle.descend second := by
  induction first generalizing node with
  | nil => rfl
  | cons label rest ih => simp only [List.cons_append, descend, ih, Option.bind_assoc]

/-- Words below a node are the extensions of the word that leads to it. -/
theorem find?_append (node : TrieNode α β) (first second : List α) :
    node.find? (first ++ second) = (node.descend first).bind fun middle => middle.find? second := by
  simp only [find?, descend_append, Option.bind_assoc]

theorem find?_insert (node : TrieNode α β) (word wanted : List α) (stored : β) :
    (node.insert word stored).find? wanted = if word = wanted then some stored else node.find? wanted := by
  induction word generalizing node wanted with
  | nil =>
    cases wanted with
    | nil => simp [insert]
    | cons label rest => simp [insert, find?_cons]
  | cons label rest ih =>
    cases wanted with
    | nil => cases found : node.children.follow label <;> simp [insert, found]
    | cons other tail =>
      cases found : node.children.follow label with
      | none =>
        by_cases same : label = other
        · subst same
          simp [insert, found, find?_cons, SiblingTrie.follow, ih]
        · simp [insert, found, find?_cons, SiblingTrie.follow, same]
      | some child =>
        by_cases same : label = other
        · subst same
          simp [insert, found, find?_cons, SiblingTrie.follow_replace, ih]
        · simp [insert, found, find?_cons, SiblingTrie.follow_replace, same]

theorem insert_distinct {node : TrieNode α β} (distinct : node.children.Distinct) (word : List α)
    (stored : β) : (node.insert word stored).children.Distinct := by
  induction word generalizing node with
  | nil => exact distinct
  | cons label rest ih =>
    cases found : node.children.follow label with
    | none =>
      simp only [insert, found]
      exact ⟨found, ih (show (empty : TrieNode α β).children.Distinct from trivial), distinct⟩
    | some child =>
      simp only [insert, found]
      exact distinct.replace label (ih (distinct.follow found))

theorem descend_distinct {node target : TrieNode α β} (distinct : node.children.Distinct)
    {word : List α} (reached : node.descend word = some target) : target.children.Distinct := by
  induction word generalizing node with
  | nil =>
    cases reached
    exact distinct
  | cons label rest ih =>
    obtain ⟨child, found, reached⟩ := Option.bind_eq_some_iff.mp reached
    exact ih (distinct.follow found) reached

end Lookup

end TrieNode

/-! ### The walk and the lookup -/

section Walk

variable [DecidableEq α]

omit [DecidableEq α] in
private theorem SiblingTrie.mem_entries_cons {label : α} {value : Option β}
    {children siblings : SiblingTrie α β} (word : List α) (stored : β) :
    (word, stored) ∈ (cons label value children siblings).entries ↔
      (∃ rest, word = label :: rest ∧ (rest, stored) ∈ (TrieNode.mk value children).entries) ∨
        (word, stored) ∈ siblings.entries := by
  change (word, stored) ∈ (TrieNode.mk value children).entries.map _ ++ siblings.entries ↔ _
  simp only [List.mem_append, List.mem_map, Prod.mk.injEq, Prod.exists]
  refine or_congr_left ⟨?_, ?_⟩
  · rintro ⟨rest, own, member, rfl, rfl⟩
    exact ⟨rest, rfl, member⟩
  · rintro ⟨rest, rfl, member⟩
    exact ⟨rest, stored, member, rfl, rfl⟩

/-- A list of children holds the words that start with the label of one of its edges. -/
private def SiblingTrie.Holds (trie : SiblingTrie α β) (word : List α) (stored : β) : Prop :=
  ∃ label rest, word = label :: rest ∧
    (trie.follow label).bind (fun child => child.find? rest) = some stored

private theorem TrieNode.mem_entries_of_children {node : TrieNode α β} {word : List α} {stored : β}
    (below : (word, stored) ∈ node.children.entries ↔ node.children.Holds word stored) :
    (word, stored) ∈ node.entries ↔ node.find? word = some stored := by
  simp only [entries, List.mem_append, List.mem_map, Option.mem_toList, Prod.mk.injEq, below,
    SiblingTrie.Holds]
  cases word with
  | nil => simp
  | cons label rest => simp [find?_cons]

private theorem SiblingTrie.mem_entries_iff {trie : SiblingTrie α β} (distinct : trie.Distinct)
    (word : List α) (stored : β) : (word, stored) ∈ trie.entries ↔ trie.Holds word stored := by
  induction trie generalizing word with
  | nil => simp [entries, follow, Holds]
  | cons first value children siblings ihChildren ihSiblings =>
    obtain ⟨fresh, ofChildren, ofSiblings⟩ := distinct
    rw [mem_entries_cons, ihSiblings ofSiblings]
    constructor
    · rintro (⟨rest, rfl, member⟩ | ⟨label, rest, rfl, found⟩)
      · have found := (TrieNode.mem_entries_of_children (ihChildren ofChildren rest)).mp member
        exact ⟨first, rest, rfl, by simpa [follow] using found⟩
      · have other : first ≠ label := by
          rintro rfl
          simp [fresh] at found
        exact ⟨label, rest, rfl, by simpa [follow, other] using found⟩
    · rintro ⟨label, rest, rfl, found⟩
      by_cases here : first = label
      · subst here
        simp only [follow, if_true, Option.bind_some] at found
        exact Or.inl ⟨rest, rfl, (TrieNode.mem_entries_of_children (ihChildren ofChildren rest)).mpr found⟩
      · exact Or.inr ⟨label, rest, rfl, by simpa [follow, here] using found⟩

/-- The walk below a node meets exactly the words stored there. -/
theorem TrieNode.mem_entries_iff {node : TrieNode α β} (distinct : node.children.Distinct)
    (word : List α) (stored : β) : (word, stored) ∈ node.entries ↔ node.find? word = some stored :=
  mem_entries_of_children (SiblingTrie.mem_entries_iff distinct word stored)

private theorem TrieNode.entries_nodup_of_children {node : TrieNode α β}
    (distinct : node.children.Distinct) (below : (node.children.entries.map Prod.fst).Nodup) :
    (node.entries.map Prod.fst).Nodup := by
  have nonempty : [] ∉ node.children.entries.map Prod.fst := by
    intro member
    obtain ⟨⟨_, stored⟩, member, rfl⟩ := List.mem_map.mp member
    obtain ⟨_, _, same, _⟩ := (SiblingTrie.mem_entries_iff distinct _ _).mp member
    cases same
  cases own : node.value with
  | none => simpa [entries, own] using below
  | some stored => simpa [entries, own] using And.intro (by simpa using nonempty) below

private theorem SiblingTrie.entries_nodup {trie : SiblingTrie α β} (distinct : trie.Distinct) :
    (trie.entries.map Prod.fst).Nodup := by
  induction trie with
  | nil => exact List.nodup_nil
  | cons first value children siblings ihChildren ihSiblings =>
    obtain ⟨fresh, ofChildren, ofSiblings⟩ := distinct
    have own : ((TrieNode.mk value children).entries.map Prod.fst).Nodup :=
      TrieNode.entries_nodup_of_children ofChildren (ihChildren ofChildren)
    change (((TrieNode.mk value children).entries.map _ ++ siblings.entries).map Prod.fst).Nodup
    rw [List.map_append, List.map_map]
    refine List.nodup_append'.mpr ⟨?_, ihSiblings ofSiblings, ?_⟩
    · have labelled := own.map (f := (first :: ·)) (fun _ _ same => (List.cons.inj same).2)
      simpa only [List.map_map, Function.comp_def] using labelled
    · intro word here there
      obtain ⟨_, _, rfl⟩ := List.mem_map.mp here
      obtain ⟨⟨_, stored⟩, member, same⟩ := List.mem_map.mp there
      obtain ⟨label, _, rfl, found⟩ := (mem_entries_iff ofSiblings _ _).mp member
      rw [(List.cons.inj same).1, fresh] at found
      cases found

/-- The walk meets every stored word once. -/
theorem TrieNode.entries_nodup {node : TrieNode α β} (distinct : node.children.Distinct) :
    (node.entries.map Prod.fst).Nodup :=
  entries_nodup_of_children distinct (SiblingTrie.entries_nodup distinct)

end Walk

end Container
