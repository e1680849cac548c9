import Taboo.Container.SiblingTrie
import Taboo.Model.Item

/-! # The prefix trie

`Da` is cedar's `da<id_t, no_value, no_path, false>` read through its child and sibling links; where
the nodes lie in its arrays does not show. A node's terminal is its first child and later edges
enter the sibling list at the front, so `begin` and `next` walk the subtree in the order of
`TrieNode.entries`.
-/

namespace Taboo

open Container

/-- The words of the trie: `update` exits on an empty one, and zero is the label of cedar's terminals. -/
@[ext] structure Key where
  bytes : Bytes
  nonempty : bytes ≠ []
  noZero : 0 ∉ bytes
deriving DecidableEq

/-- `KeyList` -/
abbrev KeyList := List Key

theorem Key.bytes_injective : Function.Injective Key.bytes := fun _ _ same => Key.ext same

/-- Such words are spelled by keys. -/
theorem Key.exists_spelling {words : List Bytes} (nonempty : ∀ word ∈ words, word ≠ [])
    (noZero : ∀ word ∈ words, 0 ∉ word) : ∃ keys : KeyList, keys.map Key.bytes = words := by
  induction words with
  | nil => exact ⟨[], rfl⟩
  | cons word rest ih =>
    rw [List.forall_mem_cons] at nonempty noZero
    obtain ⟨keys, spelled⟩ := ih nonempty.2 noZero.2
    exact ⟨⟨word, nonempty.1, noZero.1⟩ :: keys, congrArg (word :: ·) spelled⟩

def noValue : IdT := 0x7fffffff - 1
def noPath : IdT := 0x7fffffff - 2

structure Da where
  root : TrieNode UInt8 IdT
  distinct : root.children.Distinct

namespace Da

def empty : Da := ⟨.empty, trivial⟩

/-- `_find` from the root: the value, and the node where the walk may go on. -/
def traverse (da : Da) (key : Bytes) : IdT × Option (TrieNode UInt8 IdT) :=
  match da.root.descend key with
  | none => (noPath, none)
  | some node => (node.value.getD noValue, some node)

def exactMatchSearch (da : Da) (key : Bytes) : IdT :=
  let found := (da.traverse key).1
  if found = noPath then noValue else found

/-- A fresh terminal holds zero; a value once stored is replaced by smaller ones only. -/
def update (da : Da) (key : Key) (val : IdT) : Da :=
  let stored := (da.root.find? key.bytes).getD 0
  let next := if stored = 0 ∨ val < stored then val else stored
  ⟨da.root.insert key.bytes next, TrieNode.insert_distinct da.distinct _ _⟩

end Da

structure Trie where
  da : Da
  funnelIdCursor : IdT

namespace Trie

def empty : Trie := ⟨.empty, 0⟩

/-- One round of the loop of `attach`: give the key a funnel if it has none, call back with it. -/
def attachKey {σ : Type} (cb : IdT → σ → σ) (trie : Trie) (state : σ) (key : Key) : Bool × Trie × σ :=
  let funnelId := (trie.da.traverse key.bytes).1
  if funnelId = noPath ∨ funnelId = noValue then
    let funnelId := trie.funnelIdCursor + 1
    (true, ⟨trie.da.update key funnelId, funnelId⟩, cb funnelId state)
  else (false, trie, cb funnelId state)

/-- The flag says whether some key was new. -/
def attach {σ : Type} (cb : IdT → σ → σ) (trie : Trie) (state : σ) : KeyList → Bool × Trie × σ
  | [] => (false, trie, state)
  | key :: rest =>
      let first := attachKey cb trie state key
      let others := attach cb first.2.1 first.2.2 rest
      (first.1 || others.1, others.2)

/-- The `begin`/`next` loop over the values of a subtree, ended by `no_path` or by the callback. -/
def walk {σ : Type} (cb : IdT → σ → Bool × σ) : List IdT → σ → σ
  | [], state => state
  | funnelId :: rest, state =>
      if funnelId = noPath then state
      else
        let answer := cb funnelId state
        if answer.1 then walk cb rest answer.2 else answer.2

/-- `Trie::traverse`: the funnel of the key itself, then the walk of its subtree. -/
def traverse {σ : Type} (trie : Trie) (key : Bytes) (cb : IdT → σ → Bool × σ) (state : σ) : σ :=
  match trie.da.traverse key with
  | (_, none) => state
  | (funnelId, some node) =>
      let values := node.entries.map Prod.snd
      if funnelId ≠ noValue then
        let answer := cb funnelId state
        if answer.1 then walk cb values answer.2 else answer.2
      else walk cb values state

/-- `operator[]` -/
def get (trie : Trie) (key : Bytes) : IdT :=
  let id := trie.da.exactMatchSearch key
  if id = noValue then 0 else id

theorem attach_append {σ : Type} (cb : IdT → σ → σ) (trie : Trie) (state : σ) (first second : KeyList) :
    trie.attach cb state (first ++ second) =
      let done := trie.attach cb state first
      let others := done.2.1.attach cb done.2.2 second
      (done.1 || others.1, others.2) := by
  induction first generalizing trie state with
  | nil => simp [attach]
  | cons key rest ih => simp [attach, ih, Bool.or_assoc]

/-- Whatever the trie looks like, `attach` calls back once for each key. -/
theorem attach_calls {σ : Type} (cb : IdT → σ → σ) (trie : Trie) (state : σ) (keys : KeyList) :
    ∃ funnelIds : List IdT, funnelIds.length = keys.length ∧
      (trie.attach cb state keys).2.2 = funnelIds.foldl (fun state funnelId => cb funnelId state) state := by
  induction keys generalizing trie state with
  | nil => exact ⟨[], rfl, rfl⟩
  | cons key rest ih =>
    have once : ∃ funnelId, (attachKey cb trie state key).2.2 = cb funnelId state := by
      simp only [attachKey]
      split_ifs <;> exact ⟨_, rfl⟩
    obtain ⟨funnelId, first⟩ := once
    obtain ⟨funnelIds, length, others⟩ := ih (attachKey cb trie state key).2.1 (cb funnelId state)
    refine ⟨funnelId :: funnelIds, by simp [length], ?_⟩
    rw [attach, first]
    exact others

/-! ### What each operation does to the stored values -/

/-- The funnel id stored at a word. -/
def funnelId? (trie : Trie) (word : Bytes) : Option IdT := trie.da.root.find? word

@[simp] theorem funnelId?_empty (word : Bytes) : empty.funnelId? word = none := by
  simp [funnelId?, empty, Da.empty]

theorem traverse_of_found {trie : Trie} {word : Bytes} {id : IdT}
    (found : trie.funnelId? word = some id) : (trie.da.traverse word).1 = id := by
  obtain ⟨node, reached, value⟩ := Option.bind_eq_some_iff.mp found
  simp [Da.traverse, reached, value]

private theorem traverse_of_absent {trie : Trie} {word : Bytes} (absent : trie.funnelId? word = none) :
    (trie.da.traverse word).1 = noPath ∨ (trie.da.traverse word).1 = noValue := by
  cases reached : trie.da.root.descend word with
  | none => exact Or.inl (by simp [Da.traverse, reached])
  | some node =>
    have value : node.value = none := by simpa [funnelId?, TrieNode.find?, reached] using absent
    exact Or.inr (by simp [Da.traverse, reached, value])

/-- Neither of cedar's two markers for a missing value. -/
def IsValue (id : IdT) : Prop := id ≠ noPath ∧ id ≠ noValue

theorem get_of_found {trie : Trie} {word : Bytes} {id : IdT} (found : trie.funnelId? word = some id)
    (value : IsValue id) : trie.get word = id := by
  simp [get, Da.exactMatchSearch, traverse_of_found found, value.1, value.2]

theorem get_of_absent {trie : Trie} {word : Bytes} (absent : trie.funnelId? word = none) :
    trie.get word = 0 := by
  rcases traverse_of_absent absent with marker | marker <;>
    simp [get, Da.exactMatchSearch, marker]

theorem attachKey_known {σ : Type} (cb : IdT → σ → σ) {trie : Trie} (state : σ) {key : Key} {id : IdT}
    (found : trie.funnelId? key.bytes = some id) (value : IsValue id) :
    trie.attachKey cb state key = (false, trie, cb id state) := by
  simp [attachKey, traverse_of_found found, value.1, value.2]

theorem attachKey_new {σ : Type} (cb : IdT → σ → σ) {trie : Trie} (state : σ) {key : Key}
    (absent : trie.funnelId? key.bytes = none) :
    ∃ next : Trie, trie.attachKey cb state key = (true, next, cb (trie.funnelIdCursor + 1) state) ∧
      next.funnelIdCursor = trie.funnelIdCursor + 1 ∧
      ∀ word, next.funnelId? word =
        if key.bytes = word then some (trie.funnelIdCursor + 1) else trie.funnelId? word := by
  have fresh : (trie.da.root.find? key.bytes).getD 0 = 0 := by rw [← funnelId?, absent]; rfl
  refine ⟨⟨trie.da.update key (trie.funnelIdCursor + 1), trie.funnelIdCursor + 1⟩,
    if_pos (traverse_of_absent absent), rfl, fun word => ?_⟩
  simp only [funnelId?, Da.update, fresh, true_or, if_true, TrieNode.find?_insert]

/-- The ids that `traverse` delivers as long as the callback asks for more. -/
def visits (trie : Trie) (word : Bytes) : List IdT :=
  match trie.da.root.descend word with
  | none => []
  | some node => node.value.toList ++ node.entries.map Prod.snd

/-- The visited funnels are those of the stored extensions of the word. -/
theorem mem_visits {trie : Trie} {word : Bytes} {id : IdT} :
    id ∈ trie.visits word ↔ ∃ extension, trie.funnelId? (word ++ extension) = some id := by
  simp only [visits, funnelId?, TrieNode.find?_append]
  cases reached : trie.da.root.descend word with
  | none => simp
  | some node =>
    have below := fun extension => node.mem_entries_iff
      (TrieNode.descend_distinct trie.da.distinct reached) extension id
    simp only [List.mem_append, Option.mem_toList, List.mem_map, Prod.exists, exists_eq_right, below,
      Option.bind_some]
    constructor
    · rintro (own | ⟨extension, found⟩)
      · exact ⟨[], own⟩
      · exact ⟨extension, found⟩
    · exact Or.inr

theorem traverse_eq_walk {σ : Type} {trie : Trie}
    (values : ∀ word id, trie.funnelId? word = some id → IsValue id)
    (word : Bytes) (cb : IdT → σ → Bool × σ) (state : σ) :
    trie.traverse word cb state = walk cb (trie.visits word) state := by
  cases reached : trie.da.root.descend word with
  | none => simp [traverse, visits, Da.traverse, reached, walk]
  | some node =>
    cases own : node.value with
    | none => simp [traverse, visits, Da.traverse, reached, own]
    | some id =>
      have value : IsValue id := values word id (by simp [funnelId?, TrieNode.find?, reached, own])
      simp [traverse, visits, Da.traverse, reached, own, walk, value.1, value.2]

/-- The walk rule: what every callback along the walk keeps holds at its end. -/
theorem walk_induction {σ : Type} {cb : IdT → σ → Bool × σ} {Holds : σ → Prop} {ids : List IdT}
    (preserved : ∀ id ∈ ids, ∀ state, Holds state → Holds (cb id state).2) {state : σ}
    (initial : Holds state) : Holds (walk cb ids state) := by
  induction ids generalizing state with
  | nil => exact initial
  | cons id rest ih =>
    have next := preserved id List.mem_cons_self state initial
    simp only [walk]
    split_ifs
    · exact initial
    · exact ih (fun other member => preserved other (List.mem_cons_of_mem _ member)) next
    · exact next

/-- The rule for a walk that nothing cut short: what a callback does for its funnel, and no later one
undoes, is done for every funnel at the end. -/
theorem walk_complete {σ : Type} {cb : IdT → σ → Bool × σ} {Stopped : σ → Prop}
    (Done : IdT → σ → Prop) (stops : ∀ id state, (cb id state).1 = false → Stopped (cb id state).2)
    (stays : ∀ id state, Stopped state → Stopped (cb id state).2)
    (does : ∀ id state, ¬Stopped (cb id state).2 → Done id (cb id state).2)
    (keeps : ∀ other id state, Done id state → Done id (cb other state).2)
    {ids : List IdT} (values : ∀ id ∈ ids, id ≠ noPath) {state : σ}
    (unstopped : ¬Stopped (walk cb ids state)) : ∀ id ∈ ids, Done id (walk cb ids state) := by
  induction ids generalizing state with
  | nil => simp
  | cons id rest ih =>
    have ahead : walk cb (id :: rest) state = walk cb rest (cb id state).2 := by
      simp only [walk, if_neg (values id List.mem_cons_self)] at unstopped ⊢
      split_ifs at unstopped ⊢ with more
      · rfl
      · exact absurd (stops id state (Bool.not_eq_true _ ▸ more)) unstopped
    rw [ahead] at unstopped ⊢
    have others := ih (fun other member => values other (List.mem_cons_of_mem _ member)) unstopped
    have still : ¬Stopped (cb id state).2 := fun stopped =>
      unstopped (walk_induction (fun other _ state => stays other state) stopped)
    have own : Done id (walk cb rest (cb id state).2) :=
      walk_induction (fun other _ state => keeps other id state) (does id state still)
    intro other member
    rcases List.mem_cons.mp member with rfl | member
    · exact own
    · exact others other member

/-- What two callbacks have to do for their walks to stay related: the second asks for more as long as the
first does, and what it does after the first has ended keeps the relation. -/
structure Lockstep {σ τ : Type} (cb : IdT → σ → Bool × σ) (cb' : IdT → τ → Bool × τ) (R : σ → τ → Prop)
    (Done : σ → Prop) : Prop where
  both : ∀ id left right, R left right → R (cb id left).2 (cb' id right).2
  goes : ∀ id left right, R left right → (cb id left).1 = true → (cb' id right).1 = true
  ends : ∀ id left right, R left right → (cb id left).1 = false → (cb' id right).1 = true → Done (cb id left).2
  alone : ∀ id left right, Done left → R left right → R left (cb' id right).2

section Lockstep

variable {σ τ : Type} {cb : IdT → σ → Bool × σ} {cb' : IdT → τ → Bool × τ} {R : σ → τ → Prop} {Done : σ → Prop}

theorem walk_lockstep (steps : Lockstep cb cb' R Done) (ids : List IdT) {left : σ} {right : τ}
    (related : R left right) : R (walk cb ids left) (walk cb' ids right) := by
  induction ids generalizing left right with
  | nil => exact related
  | cons id rest ih =>
    have next := steps.both id left right related
    simp only [walk]
    split_ifs with path more others others
    · exact related
    · exact ih next
    · exact absurd (steps.goes id left right related more) others
    · have done := steps.ends id left right related (Bool.not_eq_true _ ▸ more) others
      exact walk_induction (fun id _ state => steps.alone id _ state done) next
    · exact next

theorem traverse_lockstep (steps : Lockstep cb cb' R Done) (trie : Trie) (word : Bytes) {left : σ}
    {right : τ} (related : R left right) : R (trie.traverse word cb left) (trie.traverse word cb' right) := by
  rcases reached : trie.da.traverse word with ⟨funnelId, _ | node⟩
  · simp only [traverse, reached]
    exact related
  · have next := steps.both funnelId left right related
    simp only [traverse, reached]
    split_ifs with own more others others
    · exact walk_lockstep steps _ next
    · exact absurd (steps.goes funnelId left right related more) others
    · have done := steps.ends funnelId left right related (Bool.not_eq_true _ ▸ more) others
      exact walk_induction (fun id _ state => steps.alone id _ state done) next
    · exact next
    · exact walk_lockstep steps _ related

end Lockstep

theorem traverse_induction {σ : Type} {cb : IdT → σ → Bool × σ} {Holds : σ → Prop}
    (preserved : ∀ id state, Holds state → Holds (cb id state).2) (trie : Trie) (word : Bytes) {state : σ}
    (initial : Holds state) : Holds (trie.traverse word cb state) := by
  have walked : ∀ (ids : List IdT) {state : σ}, Holds state → Holds (walk cb ids state) :=
    fun ids _ => walk_induction fun id _ state => preserved id state
  unfold traverse
  split
  · exact initial
  · dsimp only
    split_ifs
    · exact walked _ (preserved _ _ initial)
    · exact preserved _ _ initial
    · exact walked _ initial

end Trie

end Taboo
