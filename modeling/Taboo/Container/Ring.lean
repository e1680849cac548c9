import Mathlib.Data.List.Chain
import Mathlib.Data.List.Nodup

/-! # Circular doubly linked lists

Links to the next and to the previous member, kept in tables, thread some of the entries in a circle.
The list of the members begins anywhere in it. A member enters and leaves by writes to the links of
its neighbours only, so the circle is known by the list again.
-/

namespace Container

variable {α : Type*}

/-- Following `next` from the first member, and `prev` the other way round, one comes back to it. -/
structure Ring (next prev : α → α) (members : List α) : Prop where
  nodup : members.Nodup
  linked : (members ++ members.take 1).IsChain fun member other =>
    next member = other ∧ prev other = member

namespace Ring

variable {next prev next' prev' : α → α} {head member other : α} {rest members : List α}

theorem nil : Ring next prev [] := ⟨List.nodup_nil, List.isChain_nil⟩

theorem singleton (forward : next head = head) (backward : prev head = head) : Ring next prev [head] :=
  ⟨List.nodup_singleton head, by simp [forward, backward]⟩

/-- The circle can be entered anywhere. -/
theorem rotate {front back : List α} (ring : Ring next prev (front ++ back)) :
    Ring next prev (back ++ front) := by
  cases front with
  | nil => simpa using ring
  | cons first front =>
    cases back with
    | nil => simpa using ring
    | cons second back =>
      obtain ⟨nodup, chain⟩ := ring
      refine ⟨List.nodup_append_comm.mp nodup, ?_⟩
      simp only [List.cons_append, List.take_succ_cons, List.take_zero, List.append_assoc] at chain ⊢
      rw [← List.cons_append, List.isChain_split] at chain ⊢
      exact chain.symm

/-- A member can be taken for the first one. -/
theorem enter (ring : Ring next prev members) (there : member ∈ members) :
    ∃ others, Ring next prev (member :: others) ∧ ∀ other, other ∈ member :: others ↔
      other ∈ members := by
  obtain ⟨front, back, rfl⟩ := List.append_of_mem there
  exact ⟨back ++ front, ring.rotate, fun other => by simp [or_left_comm, or_comm]⟩

theorem next_mem (ring : Ring next prev members) (there : member ∈ members) : next member ∈ members := by
  obtain ⟨others, entered, same⟩ := ring.enter there
  rw [← same]
  cases others with
  | nil =>
    have linked : next member = member ∧ prev member = member := by simpa using entered.linked
    simp [linked.1]
  | cons second others =>
    have linked := (List.isChain_cons_cons.mp entered.linked).1
    simp [linked.1]

theorem prev_next (ring : Ring next prev members) (there : member ∈ members) :
    prev (next member) = member := by
  obtain ⟨others, entered, -⟩ := ring.enter there
  cases others with
  | nil =>
    have linked : next member = member ∧ prev member = member := by simpa using entered.linked
    rw [linked.1, linked.2]
  | cons second others =>
    have linked := (List.isChain_cons_cons.mp entered.linked).1
    rw [linked.1, linked.2]

/-- The last member closes the circle. -/
private theorem closed (ring : Ring next prev (head :: rest)) :
    ∃ last ∈ head :: rest, next last = head ∧ prev head = last := by
  rcases List.eq_nil_or_concat' rest with rfl | ⟨front, last, rfl⟩
  · exact ⟨head, List.mem_singleton_self head, by simpa using ring.linked⟩
  · have chain := ring.linked
    simp only [List.take_succ_cons, List.take_zero] at chain
    rw [← List.cons_append, List.append_assoc, List.isChain_append] at chain
    exact ⟨last, by simp, by simpa using chain.2.1⟩

theorem prev_mem (ring : Ring next prev members) (there : member ∈ members) : prev member ∈ members := by
  obtain ⟨others, entered, same⟩ := ring.enter there
  obtain ⟨last, member, -, rfl⟩ := entered.closed
  exact (same _).mp member

theorem next_prev (ring : Ring next prev members) (there : member ∈ members) :
    next (prev member) = member := by
  obtain ⟨others, entered, -⟩ := ring.enter there
  obtain ⟨last, -, forward, rfl⟩ := entered.closed
  exact forward

theorem next_eq_iff (ring : Ring next prev members) (there : member ∈ members) (also : other ∈ members) :
    next member = other ↔ member = prev other :=
  ⟨fun follows => follows ▸ (ring.prev_next there).symm, fun precedes => precedes ▸ ring.next_prev also⟩

theorem next_head {second : α} (ring : Ring next prev (head :: second :: rest)) : next head = second :=
  (List.isChain_cons_cons.mp ring.linked).1.1

theorem prev_head {last : α} (ring : Ring next prev (head :: rest))
    (ends : (head :: rest).getLast? = some last) :
    prev head = last := by
  have chain := ring.linked
  rw [List.isChain_append] at chain
  exact (chain.2.2 last ends head rfl).2

/-- Only the sole member of a circle is linked to itself. -/
theorem next_eq_self_iff (ring : Ring next prev members) (there : member ∈ members) :
    next member = member ↔ members = [member] := by
  constructor
  · intro self
    obtain ⟨front, back, rfl⟩ := List.append_of_mem there
    have entered := ring.rotate
    rw [List.cons_append] at entered
    cases others : back ++ front with
    | nil =>
      obtain ⟨rfl, rfl⟩ := List.append_eq_nil_iff.mp others
      rfl
    | cons second more =>
      rw [others] at entered
      rw [entered.next_head] at self
      exact absurd (self ▸ entered.nodup) (by simp)
  · rintro rfl
    exact (by simpa using ring.linked : next member = member ∧ prev member = member).1

/-- Links of entries outside the circle do not matter. -/
theorem frame (ring : Ring next prev members) (forward : ∀ member ∈ members, next' member = next member)
    (backward : ∀ member ∈ members, prev' member = prev member) : Ring next' prev' members := by
  refine ⟨ring.nodup, ring.linked.imp_of_mem_imp fun member other left right linked => ?_⟩
  have inside : ∀ entry ∈ members ++ members.take 1, entry ∈ members := by
    intro entry here
    exact (List.mem_append.mp here).elim id List.mem_of_mem_take
  rw [forward member (inside member left), backward other (inside other right)]
  exact linked

/-- The numbers of an interval in their order, the last one linked to the first. -/
theorem interval {next prev : ℕ → ℕ} {start length : ℕ}
    (forward : ∀ i, start ≤ i → i < start + length → next i = i + 1)
    (backward : ∀ i, start < i → i ≤ start + length → prev i = i - 1)
    (last : next (start + length) = start) (first : prev start = start + length) :
    Ring next prev (List.range' start (length + 1)) := by
  refine ⟨List.nodup_range', ?_⟩
  have front : (List.range' start (length + 1)).take 1 = [start] := by rw [List.range'_succ]; rfl
  rw [front, List.isChain_append]
  refine ⟨?_, List.isChain_singleton _, ?_⟩
  · refine (List.isChain_range' start (length + 1) 1).imp_of_mem_imp fun i j left right follows => ?_
    rw [List.mem_range'_1] at left right
    rw [follows, forward i left.1 (by omega), backward (i + 1) (by omega) (by omega)]
    exact ⟨rfl, rfl⟩
  · intro i atEnd j atStart
    obtain rfl : start = j := by simpa using atStart
    obtain rfl : start + length = i := by simpa [List.getLast?_range'] using atEnd
    exact ⟨last, first⟩

section Writes

variable [DecidableEq α]

/-- The first member leaves: its neighbours are linked to each other. -/
private theorem unlink_head (ring : Ring next prev (head :: member :: rest))
    (forward : ∀ other ∈ member :: rest, next' other = if next other = head then next head else next
      other)
    (backward : ∀ other ∈ member :: rest, prev' other = if prev other = head then prev head else
      prev other) :
    Ring next' prev' (member :: rest) := by
  obtain ⟨nodup, chain⟩ := ring
  obtain ⟨fresh, nodup⟩ := List.nodup_cons.mp nodup
  refine ⟨nodup, ?_⟩
  simp only [List.take_succ_cons, List.take_zero] at chain ⊢
  rw [List.cons_append, List.cons_append, List.isChain_cons_cons, ← List.cons_append,
    List.isChain_append] at chain
  obtain ⟨first, inner, -, last⟩ := chain
  refine List.isChain_append.mpr ⟨?_, List.isChain_singleton _, ?_⟩
  · refine inner.imp_of_mem_imp fun entry other left right linked => ?_
    have apart := fun same : other = head => fresh (same ▸ right)
    have behind := fun same : entry = head => fresh (same ▸ left)
    rw [forward entry left, backward other right, linked.1, linked.2, if_neg apart, if_neg behind]
    exact ⟨rfl, rfl⟩
  · intro entry atEnd other atStart
    obtain rfl : member = other := by simpa using atStart
    obtain ⟨onward, back⟩ := last entry atEnd head (by simp)
    rw [forward entry (List.mem_of_getLast? atEnd), backward member List.mem_cons_self, if_pos onward,
      if_pos first.2, first.1, back]
    exact ⟨rfl, rfl⟩

/-- A member leaves the circle when the links of its neighbours skip it. -/
theorem erase (ring : Ring next prev members) (there : member ∈ members) (others : members ≠ [member])
    (forward : ∀ other ∈ members, other ≠ member →
      next' other = if other = prev member then next member else next other)
    (backward : ∀ other ∈ members, other ≠ member →
      prev' other = if other = next member then prev member else prev other) :
    Ring next' prev' (members.erase member) := by
  have links := fun other (here : other ∈ members) => ring.next_eq_iff here there
  have links' := fun other (here : other ∈ members) => ring.next_eq_iff there here
  obtain ⟨front, back, rfl⟩ := List.append_of_mem there
  have alone : member ∉ front := fun inside =>
    List.disjoint_of_nodup_append ring.nodup inside List.mem_cons_self
  rw [List.erase_append_right _ alone, List.erase_cons_head]
  apply rotate
  have entered := ring.rotate
  rw [List.cons_append] at entered
  cases rotated : back ++ front with
  | nil =>
    obtain ⟨rfl, rfl⟩ := List.append_eq_nil_iff.mp rotated
    exact absurd rfl others
  | cons second more =>
    rw [rotated] at entered
    have inside : ∀ other ∈ second :: more, other ∈ front ++ member :: back ∧ other ≠ member := by
      intro other here
      refine ⟨?_, fun same => (List.nodup_cons.mp entered.nodup).1 (same ▸ here)⟩
      rw [← rotated] at here
      simpa [or_comm, or_left_comm] using Or.inr (a := other = member) (List.mem_append.mp here)
    refine entered.unlink_head (fun other here => ?_) fun other here => ?_
    · obtain ⟨listed, apart⟩ := inside other here
      simp only [forward other listed apart, links other listed]
    · obtain ⟨listed, apart⟩ := inside other here
      have same : other = next member ↔ prev other = member := by
        rw [eq_comm, links' other listed, eq_comm]
      simp only [backward other listed apart, same]

/-- An entry becomes the first member when it is linked between the last and the first one. -/
theorem cons (ring : Ring next prev (head :: rest)) (fresh : member ∉ head :: rest)
    (onward : next' member = head) (back : prev' member = prev head)
    (forward : ∀ other ∈ head :: rest, next' other = if other = prev head then member else next other)
    (backward : ∀ other ∈ head :: rest, prev' other = if other = head then member else prev other) :
    Ring next' prev' (member :: head :: rest) := by
  have links := fun other (here : other ∈ head :: rest) => ring.next_eq_iff here List.mem_cons_self
  have ends := ring.prev_mem List.mem_cons_self
  obtain ⟨nodup, chain⟩ := ring
  refine ⟨List.nodup_cons.mpr ⟨fresh, nodup⟩, ?_⟩
  simp only [List.take_succ_cons, List.take_zero] at chain ⊢
  rw [List.isChain_append] at chain
  obtain ⟨inner, -, last⟩ := chain
  have first : prev' head = member := by rw [backward head List.mem_cons_self, if_pos rfl]
  rw [List.cons_append, List.cons_append, List.isChain_cons_cons, ← List.cons_append]
  refine ⟨⟨onward, first⟩, List.isChain_append.mpr ⟨?_, List.isChain_singleton _, ?_⟩⟩
  · refine inner.imp_of_mem_tail_imp fun entry other left right linked => ?_
    have behind : other ≠ head := fun same => (List.nodup_cons.mp nodup).1 (same ▸ right)
    have inside : other ∈ head :: rest := List.mem_cons_of_mem _ right
    have within : entry ≠ prev head := fun same =>
      behind (linked.1.symm.trans ((links entry left).mpr same))
    rw [forward entry left, backward other inside, if_neg within, if_neg behind]
    exact linked
  · intro entry atEnd other atStart
    obtain rfl : member = other := by simpa using atStart
    have linked := last entry atEnd head (by simp)
    rw [forward entry (List.mem_of_getLast? atEnd), if_pos linked.2.symm, back]
    exact ⟨rfl, linked.2⟩

end Writes

end Ring

end Container
