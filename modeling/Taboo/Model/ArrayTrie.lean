import Taboo.Model.DoubleArray

/-! # The trie on cedar's arrays

`Trie` once more, with the calls that it makes into the arrays. Its keys are any words that are not empty,
also such with zero bytes. The loop of `traverse` runs as many rounds at most as there are cells.
-/

namespace Taboo

structure ArrayTrie where
  da : DoubleArray
  funnelIdCursor : IdT

namespace ArrayTrie

def empty : ArrayTrie := ⟨.initial, 0⟩

/-- One round of the loop of `attach`. -/
def attachKey {σ : Type} (cb : IdT → σ → σ) (trie : ArrayTrie) (state : σ) (key : Bytes) :
    Bool × ArrayTrie × σ :=
  let funnelId := (trie.da.traverse key).1
  if funnelId = noPath ∨ funnelId = noValue then
    let funnelId := trie.funnelIdCursor + 1
    (true, ⟨trie.da.update key funnelId, funnelId⟩, cb funnelId state)
  else (false, trie, cb funnelId state)

def attach {σ : Type} (cb : IdT → σ → σ) (trie : ArrayTrie) (state : σ) : List Bytes → Bool × ArrayTrie × σ
  | [] => (false, trie, state)
  | key :: rest =>
      let first := attachKey cb trie state key
      let others := attach cb first.2.1 first.2.2 rest
      (first.1 || others.1, others.2)

/-- The loop of `traverse`, from what `begin` or `next` has found on. -/
def visit {σ : Type} (cb : IdT → σ → Bool × σ) (da : DoubleArray) (root : ℕ) : ℕ → ℤ × ℕ × ℕ → σ → σ
  | 0, _, state => state
  | fuel + 1, (funnelId, nodePos, keyPos), state =>
      if asValue funnelId = noPath then state
      else
        let answer := cb (asValue funnelId) state
        if answer.1 then visit cb da root fuel (da.next nodePos keyPos root) answer.2 else answer.2

def traverse {σ : Type} (trie : ArrayTrie) (key : Bytes) (cb : IdT → σ → Bool × σ) (state : σ) : σ :=
  let found := trie.da.traverse key
  let funnelId := found.1
  let root := found.2.1
  let loop := visit cb trie.da root trie.da.size (trie.da.begin root found.2.2)
  if funnelId ≠ noPath then
    if funnelId ≠ noValue then
      let answer := cb funnelId state
      if answer.1 then loop answer.2 else answer.2
    else loop state
  else state

/-- `operator[]` -/
def get (trie : ArrayTrie) (key : Bytes) : IdT :=
  let id := trie.da.exactMatchSearch key
  if id = noValue then 0 else id

end ArrayTrie

end Taboo
