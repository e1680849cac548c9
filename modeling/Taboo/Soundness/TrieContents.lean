import Taboo.Container.TrieLabels
import Taboo.Soundness.LaidTrie

/-! # The contents of the cells as a trie

The labels of a node in the cells are those of a node of the trie, with the label zero in front where a
value is stored. Following a key and writing its terminal changes the contents as an insertion changes
the trie.
-/

namespace Taboo.DoubleArray

open Container

/-- The labels below a node: first its terminal, then the edges. -/
def labelsOf (node : TrieNode UInt8 IdT) : List UInt8 :=
  (if node.value = none then [] else [0]) ++ node.children.labels

namespace Contents

def followKey (contents : Contents) (path : Route) : Bytes → Contents
  | [] => contents
  | label :: rest => (contents.follow path label).followKey (label :: path) rest

/-- A value is written to the terminal of a node. -/
def store (contents : Contents) (path : Route) (val : ℤ) : Contents :=
  { contents with vals := Function.update contents.vals path val }

/-- A key is followed to its terminal. -/
def reach (contents : Contents) (path : Route) (word : Bytes) : Contents :=
  (contents.followKey path word).follow (word.reverse ++ path) 0

/-- A key is followed, and the value written. -/
def insert (contents : Contents) (path : Route) (word : Bytes) (val : IdT) : Contents :=
  (contents.reach path word).store (word.reverse ++ path) (asInt val)

end Contents

theorem labelsOf_ne_nil {node : TrieNode UInt8 IdT}
    (live : node.value ≠ none ∨ node.children ≠ .nil) : labelsOf node ≠ [] := by
  rw [labelsOf]
  rcases live with own | edges
  · simp [own]
  · cases shape : node.children with
    | nil => exact absurd shape edges
    | cons label value children siblings => simp [SiblingTrie.labels]

/-- The contents below a path are those of a node of the trie. -/
structure Shows (contents : Contents) (path : Route) (node : TrieNode UInt8 IdT) : Prop where
  kids : ∀ word, contents.kids (word.reverse ++ path) = ((node.descend word).map labelsOf).getD []
  vals : ∀ word val, node.find? word = some val → contents.vals (word.reverse ++ path) = asInt val
  nonzero : ∀ word target, node.descend word = some target → 0 ∉ target.children.labels

variable {contents : Contents} {path : Route} {label : UInt8} {node child : TrieNode UInt8 IdT}
  {word : Bytes}

namespace Contents

variable {route : Route}

theorem reach_cons (contents : Contents) (path : Route) (label : UInt8) (rest : Bytes) :
    contents.reach path (label :: rest) = (contents.follow path label).reach (label :: path) rest := by
  simp [reach, followKey]

theorem insert_nil (contents : Contents) (path : Route) (val : IdT) :
    contents.insert path [] val = (contents.follow path 0).store path (asInt val) := rfl

theorem insert_cons (contents : Contents) (path : Route) (label : UInt8) (rest : Bytes) (val : IdT) :
    contents.insert path (label :: rest) val = (contents.follow path label).insert
      (label :: path) rest val := by
  simp [insert, reach_cons]

theorem kids_follow_of_ne (ne : route ≠ path) :
    (contents.follow path label).kids route = contents.kids route := by
  rw [follow]
  split_ifs
  · rfl
  · exact Function.update_of_ne ne _ _

theorem vals_follow_of_ne (ne : route ≠ path ∨ label ≠ 0) :
    (contents.follow path label).vals route = contents.vals route := by
  rw [follow]
  split_ifs with member
  · rfl
  · simp only [add]
    split_ifs with zero
    · exact Function.update_of_ne (ne.resolve_right (not_not.mpr zero)) _ _
    · rfl

/-- Following a key changes nothing but the nodes from its start on. -/
theorem insert_of_not_suffix (contents : Contents) (outside : ¬path <:+ route) (word : Bytes)
    (val : IdT) :
    (contents.insert path word val).kids route = contents.kids route ∧
      (contents.insert path word val).vals route = contents.vals route := by
  induction word generalizing contents path with
  | nil =>
    have ne : route ≠ path := fun same => outside (same ▸ List.suffix_rfl)
    refine ⟨kids_follow_of_ne ne, ?_⟩
    exact (Function.update_of_ne ne _ _).trans (vals_follow_of_ne (Or.inl ne))
  | cons label rest ih =>
    have ne : route ≠ path := fun same => outside (same ▸ List.suffix_rfl)
    have further : ¬label :: path <:+ route := fun below =>
      outside ((List.suffix_cons label path).trans below)
    obtain ⟨kids, vals⟩ := ih (contents.follow path label) further
    rw [insert_cons, kids, vals]
    exact ⟨kids_follow_of_ne ne, vals_follow_of_ne (Or.inl ne)⟩

end Contents

private theorem apart (next : UInt8) (rest : Bytes) (path : Route) :
    (next :: rest).reverse ++ path ≠ path := by
  intro same
  have := congrArg List.length same
  simp at this
  omega

namespace Shows

theorem kids_self (shows : Shows contents path node) : contents.kids path = labelsOf node := by
  simpa using shows.kids []

theorem nonzero_self (shows : Shows contents path node) : 0 ∉ node.children.labels :=
      shows.nonzero [] node rfl

theorem terminal_mem_iff (shows : Shows contents path node) : 0 ∈ contents.kids path ↔
      node.value ≠ none := by
  rw [shows.kids_self, labelsOf, List.mem_append]
  have := shows.nonzero_self
  split_ifs <;> simp_all

/-- The terminal comes first, a new edge behind it. -/
theorem kids_follow (shows : Shows contents path node) (label : UInt8) :
    (contents.follow path label).kids path =
      if label = 0 then 0 :: node.children.labels
      else (if node.value = none then [] else [0]) ++
        if label ∈ node.children.labels then node.children.labels else label :: node.children.labels := by
  have zero := shows.nonzero_self
  have listed : label ∈ contents.kids path ↔ label = 0 ∧ node.value ≠ none ∨
      label ∈ node.children.labels := by
    rw [shows.kids_self, labelsOf, List.mem_append]
    split_ifs with none <;> simp [none]
  have add : (contents.add path label).kids path = push label (labelsOf node) := by
    rw [← shows.kids_self]
    exact Function.update_self ..
  rw [Contents.follow]
  by_cases root : label = 0
  · subst root
    rw [if_pos rfl]
    by_cases none : node.value = none
    · rw [if_neg (by simp [listed, none, zero]), add, labelsOf, if_pos none, List.nil_append,
        push_of_notMem zero]
    · rw [if_pos (by simp [listed, none]), shows.kids_self, labelsOf, if_neg none, List.singleton_append]
  · rw [if_neg root]
    by_cases member : label ∈ node.children.labels
    · rw [if_pos (by simp [listed, member]), if_pos member, shows.kids_self, labelsOf]
    · rw [if_neg (by simp [listed, member, root]), if_neg member, add, labelsOf]
      split_ifs with none
      · rw [List.nil_append, List.nil_append, push_of_notMem zero]
      · simp [push]

/-- Where no node has labels there is a trie without edges. -/
theorem of_empty (kids : ∀ word : Bytes, contents.kids (word.reverse ++ path) = []) :
    Shows contents path .empty := by
  have leaf : labelsOf (.empty : TrieNode UInt8 IdT) = [] := rfl
  have stuck : ∀ label rest, (.empty : TrieNode UInt8 IdT).descend (label :: rest) = none :=
    fun _ _ => rfl
  refine ⟨fun word => ?_, fun word val stored => ?_, fun word target reached => ?_⟩
  · rw [kids]
    cases word <;> simp [leaf, stuck]
  · simp at stored
  · cases word with
    | nil =>
      cases reached
      exact List.not_mem_nil
    | cons label rest => cases reached

theorem below (shows : Shows contents path node) (found : node.children.follow label = some child) :
    Shows contents (label :: path) child := by
  have descends : ∀ word, node.descend (label :: word) = child.descend word := fun word => by
    simp [TrieNode.descend, found]
  refine ⟨fun word => ?_, fun word val stored => ?_, fun word target reached => ?_⟩
  · simpa [descends] using shows.kids (label :: word)
  · simpa using shows.vals (label :: word) val (by simpa [TrieNode.find?, descends] using stored)
  · exact shows.nonzero (label :: word) target (by rw [descends, reached])

theorem mem_kids_iff (shows : Shows contents path node) (nonzero : label ≠ 0) :
    label ∈ contents.kids path ↔ node.children.follow label ≠ none := by
  rw [shows.kids_self, labelsOf, List.mem_append, SiblingTrie.mem_labels_iff]
  split_ifs <;> simp [nonzero]

/-- Following an edge leads to its node, or to a new one without edges. -/
theorem follow (shows : Shows contents path node) (nonzero : label ≠ 0) :
    Shows (contents.follow path label) (label :: path) ((node.children.follow label).getD .empty) := by
  have listed := shows.mem_kids_iff nonzero
  cases found : node.children.follow label with
  | some child =>
    rw [Contents.follow, if_pos (listed.mpr (by simp [found]))]
    exact shows.below found
  | none =>
    have elsewhere : ∀ word : Bytes, word.reverse ++ label :: path ≠ path := fun word same => by
      have := congrArg List.length same
      simp at this
      omega
    refine .of_empty fun word => ?_
    have missing := shows.kids (label :: word)
    rw [show node.descend (label :: word) = none by simp [TrieNode.descend, found]] at missing
    rw [Contents.kids_follow_of_ne (elsewhere word)]
    simpa using missing

/-- What the terminal of a key holds before it is written: zero where nothing has been stored. -/
theorem stored (shows : Shows contents path node) (nonzero : 0 ∉ word) :
    (contents.reach path word).vals (word.reverse ++ path) = asInt ((node.find? word).getD 0) := by
  induction word generalizing contents path node with
  | nil =>
    change (contents.follow path 0).vals path = asInt (node.value.getD 0)
    have listed := shows.terminal_mem_iff
    cases own : node.value with
    | none =>
      have absent : 0 ∉ contents.kids path := by simp [listed, own]
      simp [Contents.follow, absent, Contents.add]
    | some val =>
      have there : 0 ∈ contents.kids path := by simp [listed, own]
      rw [Contents.follow, if_pos there]
      exact shows.vals [] val own
  | cons label rest ih =>
    rw [List.mem_cons, not_or] at nonzero
    have further := ih (shows.follow (Ne.symm nonzero.1)) nonzero.2
    rw [Contents.reach_cons, TrieNode.find?_cons]
    cases found : node.children.follow label with
    | none => simpa [found] using further
    | some child => simpa [found] using further

theorem insert (shows : Shows contents path node) (nonzero : 0 ∉ word) (val : IdT) :
    Shows (contents.insert path word val) path (node.insert word val) := by
  induction word generalizing contents path node with
  | nil =>
    rw [Contents.insert_nil]
    refine ⟨fun word => ?_, fun word other stored => ?_, fun word target reached => ?_⟩
    · cases word with
      | nil => simpa [labelsOf, TrieNode.insert, Contents.store] using shows.kids_follow 0
      | cons next rest => exact (Contents.kids_follow_of_ne
          (apart next rest path)).trans (shows.kids (next :: rest))
    · cases word with
      | nil =>
        cases stored
        exact Function.update_self ..
      | cons next rest =>
        refine (Function.update_of_ne (apart next rest path) _ _).trans ?_
        rw [Contents.vals_follow_of_ne (Or.inl (apart next rest path))]
        exact shows.vals (next :: rest) other stored
    · cases word with
      | nil =>
        cases reached
        exact shows.nonzero_self
      | cons next rest => exact shows.nonzero (next :: rest) target reached
  | cons label rest ih =>
    rw [List.mem_cons, not_or] at nonzero
    have further := ih (shows.follow (Ne.symm nonzero.1)) nonzero.2
    have elsewhere : ∀ (next : UInt8) (word : Bytes), next ≠ label →
        ¬label :: path <:+ (next :: word).reverse ++ path := by
      rintro next word ne ⟨front, same⟩
      rw [List.reverse_cons, List.append_assoc] at same
      exact ne (List.cons.inj (List.append_inj_right' same rfl)).1.symm
    have descends : ∀ (next : UInt8) (word : Bytes), (node.insert (label :: rest) val).descend
      (next :: word) =
        if label = next then (((node.children.follow label).getD .empty).insert rest val).descend word
        else node.descend (next :: word) := by
      intro next word
      simp only [TrieNode.descend, TrieNode.follow_insert_cons]
      split_ifs <;> rfl
    have top : ¬label :: path <:+ path := fun below => Nat.not_succ_le_self _ below.length_le
    rw [Contents.insert_cons]
    refine ⟨fun word => ?_, fun word other stored => ?_, fun word target reached => ?_⟩
    · cases word with
      | nil =>
        refine (Contents.insert_of_not_suffix _ top rest val).1.trans ?_
        rw [shows.kids_follow, if_neg (Ne.symm nonzero.1)]
        simp [labelsOf, TrieNode.insert_cons_value, TrieNode.labels_insert_cons]
      | cons next word =>
        rw [descends]
        split_ifs with same
        · subst same
          simpa using further.kids word
        · obtain ⟨kids, -⟩ := Contents.insert_of_not_suffix (contents.follow path label)
            (elsewhere next word (Ne.symm same)) rest val
          rw [kids, Contents.kids_follow_of_ne (apart next word path), shows.kids]
    · cases word with
      | nil =>
        refine (Contents.insert_of_not_suffix _ top rest val).2.trans ?_
        rw [Contents.vals_follow_of_ne (Or.inr (Ne.symm nonzero.1))]
        exact shows.vals [] other ((node.insert_cons_value label rest val).symm.trans stored)
      | cons next word =>
        rw [TrieNode.find?, descends] at stored
        split_ifs at stored with same
        · subst same
          simpa using further.vals word other stored
        · obtain ⟨-, vals⟩ := Contents.insert_of_not_suffix (contents.follow path label)
            (elsewhere next word (Ne.symm same)) rest val
          rw [vals, Contents.vals_follow_of_ne (Or.inl (apart next word path))]
          exact shows.vals (next :: word) other stored
    · cases word with
      | nil =>
        cases reached
        rw [TrieNode.labels_insert_cons]
        split_ifs
        · exact shows.nonzero_self
        · simpa [nonzero.1] using shows.nonzero_self
      | cons next word =>
        rw [descends] at reached
        split_ifs at reached
        · exact further.nonzero word target reached
        · exact shows.nonzero (next :: word) target reached

end Shows

end Taboo.DoubleArray
