import Taboo.Model.Item

/-! # Filter chains

A chain is the list of its filters from the head on; the empty list is the null pointer. Rebuilding
a chain from an object condition starts at whatever head the chain already has.
-/

namespace Taboo

/-- The hash functions that `ValuePtrHasher` picks from, cut down to `int`. -/
structure Hashing where
  int64 : ℤ → ℤ
  sdbm : Bytes → ℤ
  uint8 : ℕ → ℤ
  bool : Bool → ℤ
  double : ℚ → ℤ
deriving Inhabited

/-- `ValuePtrHasher` -/
def Hashing.value (hashing : Hashing) : Value → ℤ
  | .number (.integer value range) =>
      match (Value.number (.integer value range)).int? with
      | some int => hashing.int64 int
      | none => hashing.uint8 0
  | .number (.double value) => hashing.double value.value
  | .string value => hashing.sdbm value
  | .bool value => hashing.bool value
  | .null => hashing.uint8 0
  | .array _ => hashing.uint8 0
  | .object _ => hashing.uint8 0

/-- `ValuePtrSet::find`: an equal element with the same hash. -/
def ValuePtrSet.contains (hashing : Hashing) (values : List Value) (value : Value) : Bool :=
  values.any fun stored => hashing.value value == hashing.value stored && value.equal stored

def ValuePtrSet.insert (hashing : Hashing) (values : List Value) (value : Value) : List Value :=
  if ValuePtrSet.contains hashing values value then values else values ++ [value]

inductive Filter
  /-- `EqualFilter` -/
  | equal (attr : Bytes) (value : Value)
  /-- `InFilter` -/
  | inSet (attr : Bytes) (values : List Value) (allowMiss : Bool)

namespace Filter

/-- `InFilter::fill_values` -/
def fillValues (hashing : Hashing) (attr : Bytes) (elements : List Value) : Filter :=
  .inSet attr ((elements.filter fun value => !value.isNull).foldl (ValuePtrSet.insert hashing) [])
    (elements.any Value.isNull)

/-- `EqualFilterImpl::validate` -/
def equalValid (value : Value) : Bool := !value.isObject && !value.isArray && !value.isNull

/-- `_apply` -/
def accepts (hashing : Hashing) (item : Item) : Filter → Bool
  | .equal attr value =>
      match findMember item.dom attr with
      | none => value.isNull
      | some found => !value.isNull && found.equal value
  | .inSet attr values allowMiss =>
      match findMember item.dom attr with
      | none => allowMiss
      | some found => ValuePtrSet.contains hashing values found

/-- `apply`: this filter, then the next one. -/
def applyAll (hashing : Hashing) (item : Item) : List Filter → Bool
  | [] => true
  | first :: next => first.accepts hashing item && applyAll hashing item next

/-- `FilterChain::attach` behind the cursor; what hung there before is dropped. -/
def attach (chain : List Filter) (cursor : ℕ) (next : Filter) : List Filter × ℕ :=
  if chain = [] then ([next], 0) else (chain.take (cursor + 1) ++ [next], cursor + 1)

/-- One member of an object condition in `byCond`. -/
def byMember (hashing : Hashing) (state : List Filter × ℕ) (member : Bytes × Value) : List Filter × ℕ :=
  match member.2 with
  | .array elements => attach state.1 state.2 (fillValues hashing member.1 elements)
  | .object _ => state
  | value => if equalValid value then attach state.1 state.2 (.equal member.1 value) else state

/-- `FilterChain::byCond`: the cursor starts at the head of the chain that is there. -/
def byCond (hashing : Hashing) (chain : List Filter) (members : Members) : List Filter :=
  (members.foldl (byMember hashing) (chain, 0)).1

/-- `FilterChain::rebuild` of one of the two chains. -/
def rebuild (hashing : Hashing) (keyId : Bytes) (chain : List Filter) : Option Value → List Filter
  | none => []
  | some (.array elements) => [fillValues hashing keyId elements]
  | some (.object members) => byCond hashing chain members
  | some value => if value.isUint then [.equal keyId value] else chain

end Filter

structure FilterChain where
  filter : List Filter
  exclude : List Filter

namespace FilterChain

def empty : FilterChain := ⟨[], []⟩

/-- Some condition excludes, and the item meets it. -/
def excludes (hashing : Hashing) (chain : FilterChain) (item : Item) : Bool :=
  !chain.exclude.isEmpty && Filter.applyAll hashing item chain.exclude

/-- The item meets the filters, if any. -/
def matched (hashing : Hashing) (chain : FilterChain) (item : Item) : Bool :=
  chain.filter.isEmpty || Filter.applyAll hashing item chain.filter

def apply (hashing : Hashing) (chain : FilterChain) (item : Item) : Bool :=
  !chain.excludes hashing item && chain.matched hashing item

end FilterChain

end Taboo
