import Taboo.Model.Json

/-! # Items and their dictionaries

An item is a JSON object with an unsigned `id` member. `boost::unordered_map` is a finite map whose
`insert` keeps an entry that is already there (`insertIfNew`) and whose iteration order is left to
a `HashOrder`.
-/

namespace Taboo

open Std

/-- `id_t`, for items and for funnels. -/
abbrev IdT := UInt32

/-- `makeItem` builds items from objects only, so the document is its member list. -/
structure Item where
  id : IdT
  dom : Members

abbrev ItemDict := ExtTreeMap IdT Item
abbrev Funnel := ExtTreeMap IdT IdT
abbrev FunnelDict := ExtTreeMap IdT Funnel

/-- `makeItem`: the null pointer on a parse error and where `id` is missing or no unsigned integer;
`FindMember` needs an object. -/
def makeItem (parse : Parser) (keyId : Bytes) (text : Bytes) : Except Fault (Option Item) :=
  match parse (cStr text) with
  | none => .ok none
  | some (.object members) =>
      .ok do
        let value ← findMember members keyId
        let id ← value.uint?
        return ⟨id, members⟩
  | some _ => .error .badAccess

theorem makeItem_of_found {parse : Parser} {keyId text : Bytes} {members : Members} {value : Value} {id : IdT}
    (parsed : parse (cStr text) = some (.object members)) (found : findMember members keyId = some value)
    (read : value.uint? = some id) : makeItem parse keyId text = .ok (some ⟨id, members⟩) := by
  simp [makeItem, parsed, found, read]

/-- The item of a document that spells its id first. -/
def Item.sent (id : IdT) (others : Members) : Item := ⟨id, (ascii "id", .ofUint id) :: others⟩

/-- It has the other member, or that one is the id. -/
theorem Item.sent_found (id : IdT) (name : Bytes) (value : Value) :
    ∃ found, findMember (Item.sent id [(name, value)]).dom name = some found := by
  unfold Item.sent findMember
  by_cases same : ascii "id" = name <;> simp [same]

theorem makeItem_sent {parse : Parser} {text : Bytes} {id : IdT} {others : Members}
    (parsed : parse (cStr text) = some (.object (Item.sent id others).dom)) :
    makeItem parse (ascii "id") text = .ok (some (.sent id others)) :=
  makeItem_of_found parsed (by simp [findMember]) (Value.uint?_ofUint id)

end Taboo
