import Taboo.Model.Config
import Taboo.Model.Filter

/-! # Queries

`rebuild` refills one `Query` object from a payload, section by section; it answers false where a
section is bad and leaves what it has written by then. Field sets are lists in iteration order.
-/

namespace Taboo

structure Query where
  fields : List Bytes
  queryPrefix : Bytes
  echoData : Option Value
  filters : Option Value
  excludes : Option Value
  num : ℕ
  fieldsAll : Bool

namespace Query

def fresh : Query := ⟨[], [], none, none, none, 0, false⟩

/-- The body of both filtering loops of `reviseFields`. `erase` returns the element after the erased
one, and the loop's `++it` then steps over it. -/
def eraseLoop (hidden : Bytes → Bool) : List Bytes → Except Fault (List Bytes)
  | [] => .ok []
  | name :: rest =>
      if hidden name then
        match rest with
        | [] => .error .pastEnd
        | next :: rest => (eraseLoop hidden rest).map (next :: ·)
      else (eraseLoop hidden rest).map (name :: ·)

/-- The fields to show, in iteration order, and `fieldsAll`. -/
def reviseFields (aside : Aside) (hash : HashOrder Bytes) (fields : List Bytes) :
    Except Fault (List Bytes × Bool) :=
  if aside.queryVisibleAll then .ok (fields, fields.isEmpty)
  else if aside.queryInvisibleFields.isEmpty then
    if fields.isEmpty then .ok (hash.order aside.queryVisibleFields, false)
    else (eraseLoop (fun name => name ∉ aside.queryVisibleFields) fields).map (·, false)
  else (eraseLoop (fun name => name ∈ aside.queryInvisibleFields) fields).map (·, false)

/-- `prefixValid`, where the prefix is a string; `stage::between` is inclusive. -/
def prefixValid (config : Config) (length : ℕ) : Bool :=
  decide (config.prefixMinLen ≤ length ∧ length ≤ config.prefixMaxLen)

/-- `filters` and `excludes`: the outer `none` rejects the query, the inner one is `NULL`. -/
def condition : Option Value → Option (Option Value)
  | none => some none
  | some (.object members) => some (if members.isEmpty then none else some (.object members))
  | some (.array elements) => some (if elements.isEmpty then none else some (.array elements))
  | some .null => some none
  | some value => if value.isUint then some (some value) else none

/-- The names collected up to the first element that is no string, and whether there is one. -/
def requestedNames : List Value → List Bytes × Bool
  | [] => ([], true)
  | .string name :: rest => let (names, good) := requestedNames rest; (name :: names, good)
  | _ :: _ => ([], false)

def requestedFields (hash : HashOrder Bytes) : Option Value → List Bytes × Bool
  | some (.array elements) =>
      let (names, good) := requestedNames elements
      (hash.order names.dedup, good)
  | some (.string name) => ([name], true)
  | _ => ([], true)

/-- `num`: the wish capped by `maxMatches`, or the default where there is none to honour. -/
def wantedNum (config : Config) (wish : Option Value) : ℕ :=
  let num :=
    match wish.bind Value.uint? with
    | some wanted => min wanted.toNat config.maxMatches
    | none => config.defaultMatches
  if num < 1 then config.defaultMatches else num

/-- The rest of `rebuild`, once the fields are revised. -/
def finish (config : Config) (body : Members) (query : Query) (shown : List Bytes × Bool) : Bool × Query :=
  let query := { query with fields := shown.1, fieldsAll := shown.2 }
  if !shown.2 && shown.1.isEmpty then (false, query)
  else
    (true, { query with
      num := wantedNum config (findMember body config.keyQUNum)
      echoData := if config.keyQEchoData.isEmpty then none else findMember body config.keyQEchoData })

/-- The sections from `fields` on. -/
def rebuildFields (config : Config) (aside : Aside) (hash : HashOrder Bytes) (body : Members)
    (query : Query) : Except Fault (Bool × Query) :=
  let requested := requestedFields hash (findMember body config.keyQUFields)
  if !requested.2 then .ok (false, { query with fields := requested.1 })
  else (reviseFields aside hash requested.1).map (finish config body query)

/-- The sections from `filters` on. -/
def rebuildConditions (config : Config) (aside : Aside) (hash : HashOrder Bytes) (body : Members)
    (query : Query) : Except Fault (Bool × Query) :=
  match condition (findMember body config.keyQUFilters) with
  | none => .ok (false, { query with filters := none })
  | some filters =>
      match condition (findMember body config.keyQUExcludes) with
      | none => .ok (false, { query with filters, excludes := none })
      | some excludes => rebuildFields config aside hash body { query with filters, excludes }

/-- `Query::rebuild`; `GetStringLength` needs a string. -/
def rebuild (config : Config) (aside : Aside) (parse : Parser) (hash : HashOrder Bytes) (query : Query)
    (text : Bytes) : Except Fault (Bool × Query) :=
  match parse (cStr text) with
  | some (.object body) =>
      match findMember body config.keyQUPrefix with
      | none => .ok (false, { query with queryPrefix := [] })
      | some (.string wanted) =>
          if !prefixValid config wanted.length then .ok (false, { query with queryPrefix := [] })
          else if cStr wanted = [] then .ok (false, { query with queryPrefix := [] })
          else rebuildConditions config aside hash body { query with queryPrefix := cStr wanted }
      | some _ => .error .badAccess
  | _ => .ok (false, query)

/-- The body of a payload for which `rebuild` comes to the set of fields. -/
def clearsFields (config : Config) (parse : Parser) (text : Bytes) : Option Members :=
  match parse (cStr text) with
  | some (.object body) =>
      match findMember body config.keyQUPrefix with
      | some (.string wanted) =>
          if prefixValid config wanted.length ∧ cStr wanted ≠ [] ∧
              (condition (findMember body config.keyQUFilters)).isSome ∧
              (condition (findMember body config.keyQUExcludes)).isSome then some body
          else none
      | _ => none
  | _ => none

/-- What is then inserted into the set: the requested names, and the visible ones where `reviseFields`
finds it empty. -/
def insertedFields (config : Config) (aside : Aside) (body : Members) : List Bytes :=
  let requested := requestedFields (.insertion _) (findMember body config.keyQUFields)
  if requested.2 && !aside.queryVisibleAll && aside.queryInvisibleFields.isEmpty && requested.1.isEmpty then
    aside.queryVisibleFields
  else requested.1

/-- The buckets of the set of fields after `rebuild`. -/
def bucketsAfter (config : Config) (aside : Aside) (parse : Parser) (set : HashBuckets Bytes) (buckets : ℕ)
    (text : Bytes) : ℕ :=
  match clearsFields config parse text with
  | some body => set.grow buckets (insertedFields config aside body)
  | none => buckets

end Query

end Taboo
