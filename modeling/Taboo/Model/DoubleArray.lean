import Mathlib.Logic.Function.Basic
import Taboo.Model.Trie

/-! # cedar's arrays

`da<id_t, no_value, no_path, false>` as it lies in memory: nodes, the links to their children, and the
blocks of 256 cells with the rings of their free ones. A cell that belongs to no allocated block yet
holds `unallocated`; the arrays grow with `_size` and `int` does not overflow. A loop over siblings or
over a ring of free cells runs 256 rounds at most, one over a list of blocks as many as there are blocks,
one along a path of the trie as many as there are cells.
-/

namespace Taboo

/-- `node`; a terminal's value shares its place with the base. -/
@[ext] structure Node where
  base : ℤ
  check : ℤ
deriving DecidableEq

/-- `ninfo` -/
structure NInfo where
  sibling : UInt8
  child : UInt8
deriving DecidableEq

/-- `block` -/
structure Block where
  prev : ℕ
  next : ℕ
  num : ℤ
  reject : ℤ
  trial : ℕ
  ehead : ℕ
deriving DecidableEq

/-- The lists of `_bheadF`, `_bheadC` and `_bheadO`. -/
inductive BlockList
  | full
  | closed
  | opened
deriving DecidableEq

structure DoubleArray where
  array : ℕ → Node
  ninfo : ℕ → NInfo
  block : ℕ → Block
  bhead : BlockList → ℕ
  size : ℕ
  reject : ℕ → ℤ

/-- `MAX_TRIAL` -/
def maxTrial : ℕ := 1

/-- `base ^ label` -/
def place (base : ℤ) (label : UInt8) : ℕ := base.toNat ^^^ label.toNat

theorem place_place (e : ℕ) (label : UInt8) : place (place e label) label = e := by
  rw [place, place, Int.toNat_natCast, Int.toNat_natCast, Nat.xor_assoc, Nat.xor_self, Nat.xor_zero]

theorem place_back {base : ℤ} (based : 0 ≤ base) (label : UInt8) :
    (place (place base label) label : ℤ) = base := by
  lift base to ℕ using based
  rw [place_place]

/-- Siblings lie in one block. -/
theorem place_div (base : ℤ) (label : UInt8) : place base label / 256 = base.toNat / 256 := by
  have small : label.toNat / 256 = 0 := Nat.div_eq_of_lt label.toNat_lt
  rw [place, show 256 = 2 ^ 8 from rfl, Nat.xor_div_two_pow, show 2 ^ 8 = 256 from rfl, small,
    Nat.xor_zero]

@[simp] theorem place_zero (e : ℕ) : place e 0 = e := by simp [place]

theorem place_injective (base : ℤ) : Function.Injective (place base) := by
  intro label other same
  have cancelled := congrArg (base.toNat ^^^ ·) same
  simp only [place, ← Nat.xor_assoc, Nat.xor_self, Nat.zero_xor] at cancelled
  exact UInt8.toNat_inj.mp cancelled

/-- The two readings of the union in `node`. -/
def asInt (val : IdT) : ℤ := val.toInt32.toInt
def asValue (base : ℤ) : IdT := (Int32.ofInt base).toUInt32

theorem asValue_asInt (val : IdT) : asValue (asInt val) = val := by
  simp [asValue, asInt]

/-- Below 2^31 they agree. -/
theorem asInt_eq {val : IdT} (small : val.toNat < 2 ^ 31) : asInt val = val.toNat := by
  have read : asInt val = val.toBitVec.toInt := rfl
  rw [read, BitVec.toInt_eq_toNat_of_lt (by change 2 * val.toNat < _; omega)]
  rfl

def Node.unallocated : Node := ⟨0, -1⟩

/-- `ninfo ()` -/
def NInfo.none : NInfo := ⟨0, 0⟩

/-- `block ()` -/
def Block.fresh : Block := ⟨0, 0, 256, 257, 0, 0⟩

namespace DoubleArray

/-- `_initialize` -/
def initial : DoubleArray where
  array i :=
    if i = 0 then ⟨0, -1⟩
    else if i < 256 then ⟨if i = 1 then -255 else -(i - 1), if i = 255 then -1 else -(i + 1)⟩
    else .unallocated
  ninfo _ := .none
  block bi := if bi = 0 then { Block.fresh with ehead := 1 } else .fresh
  bhead _ := 0
  size := 256
  reject i := i + 1

/-! ### Writes -/

section Writes

variable (da : DoubleArray)

@[simp] def modifyNode (e : ℕ) (f : Node → Node) : DoubleArray :=
  { da with array := fun i => if i = e then f (da.array i) else da.array i }

@[simp] def modifyNInfo (e : ℕ) (f : NInfo → NInfo) : DoubleArray :=
  { da with ninfo := fun i => if i = e then f (da.ninfo i) else da.ninfo i }

@[simp] def modifyBlock (bi : ℕ) (f : Block → Block) : DoubleArray :=
  { da with block := fun i => if i = bi then f (da.block i) else da.block i }

@[simp] def putHead (list : BlockList) (bi : ℕ) : DoubleArray :=
  { da with bhead := Function.update da.bhead list bi }

@[simp] def putNode (e : ℕ) (n : Node) : DoubleArray := da.modifyNode e fun _ => n
@[simp] def putBase (e : ℕ) (base : ℤ) : DoubleArray := da.modifyNode e fun n => { n with base := base }
@[simp] def putCheck (e : ℕ) (check : ℤ) : DoubleArray := da.modifyNode e fun n =>
      { n with check := check }
@[simp] def putNInfo (e : ℕ) (info : NInfo) : DoubleArray := da.modifyNInfo e fun _ => info
@[simp] def putChild (e : ℕ) (c : UInt8) : DoubleArray := da.modifyNInfo e fun info =>
      { info with child := c }
@[simp] def putSibling (e : ℕ) (c : UInt8) : DoubleArray :=
  da.modifyNInfo e fun info => { info with sibling := c }

@[simp] def putPrev (bi prev : ℕ) : DoubleArray := da.modifyBlock bi fun b => { b with prev := prev }
@[simp] def putNext (bi next : ℕ) : DoubleArray := da.modifyBlock bi fun b => { b with next := next }
@[simp] def putNum (bi : ℕ) (num : ℤ) : DoubleArray := da.modifyBlock bi fun b => { b with num := num }
@[simp] def putReject (bi : ℕ) (reject : ℤ) : DoubleArray :=
  da.modifyBlock bi fun b => { b with reject := reject }
@[simp] def putTrial (bi trial : ℕ) : DoubleArray := da.modifyBlock bi fun b => { b with trial := trial }
@[simp] def putEhead (bi ehead : ℕ) : DoubleArray := da.modifyBlock bi fun b => { b with ehead := ehead }

end Writes

section Fields

variable {P : Prop} [Decidable P]

@[simp] theorem base_ite (n m : Node) : (if P then n else m).base = if P then n.base else m.base :=
  apply_ite ..

@[simp] theorem check_ite (n m : Node) : (if P then n else m).check = if P then n.check else m.check :=
  apply_ite ..

@[simp] theorem sibling_ite (n m : NInfo) :
    (if P then n else m).sibling = if P then n.sibling else m.sibling := apply_ite ..

@[simp] theorem child_ite (n m : NInfo) : (if P then n else m).child = if P then n.child else m.child :=
  apply_ite ..

@[simp] theorem prev_ite (b c : Block) : (if P then b else c).prev = if P then b.prev else c.prev :=
      apply_ite ..

@[simp] theorem next_ite (b c : Block) : (if P then b else c).next = if P then b.next else c.next :=
      apply_ite ..

@[simp] theorem num_ite (b c : Block) : (if P then b else c).num = if P then b.num else c.num :=
      apply_ite ..

@[simp] theorem reject_ite (b c : Block) :
    (if P then b else c).reject = if P then b.reject else c.reject := apply_ite ..

@[simp] theorem trial_ite (b c : Block) : (if P then b else c).trial = if P then b.trial else c.trial :=
  apply_ite ..

@[simp] theorem ehead_ite (b c : Block) : (if P then b else c).ehead = if P then b.ehead else c.ehead :=
  apply_ite ..

end Fields

/-! ### Blocks and their free cells -/

/-- `_pop_block` -/
def popBlock (da : DoubleArray) (bi : ℕ) (headIn : BlockList) (last : Bool) : DoubleArray :=
  if last then da.putHead headIn 0
  else
    let b := da.block bi
    let da := (da.putNext b.prev b.next).putPrev b.next b.prev
    if bi = da.bhead headIn then da.putHead headIn b.next else da

/-- `_push_block` -/
def pushBlock (da : DoubleArray) (bi : ℕ) (headOut : BlockList) (empty : Bool) : DoubleArray :=
  if empty then ((da.putNext bi bi).putPrev bi bi).putHead headOut bi
  else
    let head := da.bhead headOut
    let tail := (da.block head).prev
    let da := (da.putPrev bi tail).putNext bi head
    ((da.putNext tail bi).putPrev head bi).putHead headOut bi

/-- `_transfer_block` -/
def transferBlock (da : DoubleArray) (bi : ℕ) (headIn headOut : BlockList) : DoubleArray :=
  let da := da.popBlock bi headIn (bi = (da.block bi).next)
  da.pushBlock bi headOut (da.bhead headOut = 0 ∧ (da.block bi).num ≠ 0)

/-- The free cells of a new block that starts at `start`, in a ring. -/
def freeNode (start i : ℕ) : Node :=
  ⟨-(if i = start then start + 255 else i - 1 : ℤ), -(if i = start + 255 then start else i + 1 : ℤ)⟩

/-- `_add_block` -/
def addBlock (da : DoubleArray) : DoubleArray × ℕ :=
  let bi := da.size / 256
  let da := da.putEhead bi da.size
  let da := { da with
    array := fun i => if da.size ≤ i ∧ i < da.size + 256 then freeNode da.size i else da.array i }
  let da := da.pushBlock bi .opened (da.bhead .opened = 0)
  let da := { da with size := da.size + 256 }
  (da, da.size / 256 - 1)

/-- `_find_place` for a single cell -/
def findPlace (da : DoubleArray) : DoubleArray × ℕ :=
  if da.bhead .closed ≠ 0 then (da, (da.block (da.bhead .closed)).ehead)
  else if da.bhead .opened ≠ 0 then (da, (da.block (da.bhead .opened)).ehead)
  else
    let added := da.addBlock
    (added.1, added.2 * 256)

/-- Whether the labels all find their cell free, the first of them at `e`. -/
def fits (da : DoubleArray) (labels : List UInt8) (e : ℕ) : Bool :=
  let base := place e (labels.headD 0)
  labels.tail.all fun label => (da.array (place base label)).check < 0

/-- The search round the free cells of a block. -/
def searchRing (da : DoubleArray) (labels : List UInt8) (ehead : ℕ) : ℕ → ℕ → Option ℕ
  | 0, _ => none
  | fuel + 1, e =>
      if da.fits labels e then some e
      else
        let e := (-(da.array e).check).toNat
        if e = ehead then none else searchRing da labels ehead fuel e

/-- A candidate block in which the labels find no place loses a trial. -/
def rejectBlock (da : DoubleArray) (bi : ℕ) (nc : ℤ) : DoubleArray :=
  let b := da.block bi
  let da := da.putReject bi nc
  let da :=
    if nc < da.reject b.num.toNat then { da with reject := Function.update da.reject b.num.toNat nc } else da
  let da := da.putTrial bi (b.trial + 1)
  if b.trial + 1 = maxTrial then da.transferBlock bi .opened .closed else da

/-- The loop over the open blocks, from `bi` to `bz`. -/
def searchBlocks (da : DoubleArray) (labels : List UInt8) (bz : ℕ) : ℕ → ℕ → DoubleArray × Option ℕ
  | 0, _ => (da, none)
  | fuel + 1, bi =>
      let b := da.block bi
      let nc : ℤ := labels.length
      let found := if nc ≤ b.num ∧ nc < b.reject then da.searchRing labels b.ehead 256 b.ehead else none
      match found with
      | some e => (da.putEhead bi e, some e)
      | none =>
          let rejected := da.rejectBlock bi nc
          if bi = bz then (rejected, none) else searchBlocks rejected labels bz fuel b.next

/-- `_find_place` for several siblings -/
def findPlaceFor (da : DoubleArray) (labels : List UInt8) : DoubleArray × ℕ :=
  let bi := da.bhead .opened
  let searched :=
    if bi ≠ 0 then da.searchBlocks labels (da.block bi).prev (da.size / 256) bi else (da, none)
  match searched.2 with
  | some e => (searched.1, e)
  | none =>
      let added := searched.1.addBlock
      (added.1, added.2 * 256)

/-- "release empty node from empty ring" -/
def releaseEnode (da : DoubleArray) (e : ℕ) : DoubleArray :=
  let n := da.array e
  let da := (da.putCheck (-n.base).toNat n.check).putBase (-n.check).toNat n.base
  if e = (da.block (e / 256)).ehead then da.putEhead (e / 256) (-n.check).toNat else da

/-- The first half of `_pop_enode`: a cell leaves the ring of its block. -/
def unlinkEnode (da : DoubleArray) (e : ℕ) : DoubleArray :=
  let bi := e / 256
  let da := da.putNum bi ((da.block bi).num - 1)
  if (da.block bi).num = 0 then
    if bi ≠ 0 then da.transferBlock bi .closed .full else da
  else
    let da := da.releaseEnode e
    if bi ≠ 0 ∧ (da.block bi).num = 1 ∧ (da.block bi).trial ≠ maxTrial then
      da.transferBlock bi .opened .closed
    else da

/-- What a cell holds when it is taken for a label. -/
def newNode (label : UInt8) (node : ℕ) : Node := ⟨if label ≠ 0 then -1 else asInt 0, node⟩

/-- `_pop_enode` -/
def popEnode (da : DoubleArray) (base : ℤ) (label : UInt8) (node : ℕ) : DoubleArray × ℕ :=
  let found := if base < 0 then da.findPlace else (da, place base label)
  let e := found.2
  let da := (found.1.unlinkEnode e).putNode e (newNode label node)
  (if base < 0 then da.putBase node (place e label) else da, e)

/-- A cell goes behind the first free one of its block. -/
def linkEnode (da : DoubleArray) (e : ℕ) : DoubleArray :=
  let prev := (da.block (e / 256)).ehead
  let next := (-(da.array prev).check).toNat
  ((da.putNode e ⟨-prev, -next⟩).putCheck prev (-e)).putBase next (-e)

/-- A cell joins the free ones of its block. -/
def joinEnode (da : DoubleArray) (e : ℕ) : DoubleArray :=
  let bi := e / 256
  if (da.block bi).num = 1 then
    let da := (da.putEhead bi e).putNode e ⟨-e, -e⟩
    if bi ≠ 0 then da.transferBlock bi .full .closed else da
  else
    let da := da.linkEnode e
    let da :=
      if ((da.block bi).num = 2 ∨ (da.block bi).trial = maxTrial) ∧ bi ≠ 0 then
        da.transferBlock bi .closed .opened
      else da
    da.putTrial bi 0

/-- A block with more free cells may be tried for more labels again. -/
def raiseReject (da : DoubleArray) (bi : ℕ) : DoubleArray :=
  let limit := da.reject (da.block bi).num.toNat
  if (da.block bi).reject < limit then da.putReject bi limit else da

/-- `_push_enode` -/
def pushEnode (da : DoubleArray) (e : ℕ) : DoubleArray :=
  let bi := e / 256
  let da := da.putNum bi ((da.block bi).num + 1)
  ((da.joinEnode e).raiseReject bi).putNInfo e .none

/-! ### Nodes and their children -/

/-- `_push_sibling`: at the front, but behind the terminal. -/
def pushSibling (da : DoubleArray) (node : ℕ) (base : ℤ) (label : UInt8) (flag : Bool) : DoubleArray :=
  let c := (da.ninfo node).child
  if flag ∧ c = 0 then
    let first := place base c
    (da.putSibling (place base label) (da.ninfo first).sibling).putSibling first label
  else (da.putSibling (place base label) c).putChild node label

/-- The rounds of `_consult`. -/
def consult (da : DoubleArray) (baseN baseP : ℤ) : ℕ → UInt8 → UInt8 → Bool
  | 0, _, _ => false
  | fuel + 1, cn, cp =>
      let cn := (da.ninfo (place baseN cn)).sibling
      let cp := (da.ninfo (place baseP cp)).sibling
      if cn ≠ 0 ∧ cp ≠ 0 then consult da baseN baseP fuel cn cp else cp ≠ 0

/-- The labels from `c` on. -/
def siblings (da : DoubleArray) (base : ℤ) : ℕ → UInt8 → List UInt8
  | 0, _ => []
  | fuel + 1, c => if c = 0 then [] else c :: siblings da base fuel (da.ninfo (place base c)).sibling

/-- `_set_child` -/
def setChild (da : DoubleArray) (base : ℤ) (c : UInt8) (label : Option UInt8) : List UInt8 :=
  if c = 0 then c :: (label.toList ++ da.siblings base 256 (da.ninfo (place base c)).sibling)
  else label.toList ++ da.siblings base 256 c

/-- The grandchildren from `c` on get the parent's new place. -/
def adopt (da : DoubleArray) (base : ℤ) (dest : ℕ) : ℕ → UInt8 → DoubleArray
  | 0, _ => da
  | fuel + 1, c =>
      let da := da.putCheck (place base c) dest
      let c := (da.ninfo (place base c)).sibling
      if c = 0 then da else adopt da base dest fuel c

/-- A node's base goes to its new place, with its children if it has some. -/
def copyNode (da : DoubleArray) (label : UInt8) (old dest : ℕ) : DoubleArray :=
  let base := (da.array old).base
  let c := (da.ninfo old).child
  let da := da.putBase dest base
  if 0 < base ∧ label ≠ 0 then (da.putChild dest c).adopt base dest 256 c else da

/-- The conflict that `_resolve` settles, as its loop sees it. -/
structure Conflict where
  flag : Bool
  base : ℤ
  base_ : ℤ
  node : ℕ
  toPn : ℕ
  labelN : UInt8

/-- The old place of a moved child: taken at once by the newcomer, or given back. -/
def leavePlace (da : DoubleArray) (conflict : Conflict) (nodeN old : ℕ) : DoubleArray :=
  if !conflict.flag ∧ old = conflict.toPn then
    let da := da.pushSibling nodeN (place conflict.toPn conflict.labelN) conflict.labelN true
    (da.putChild old 0).putNode old (newNode conflict.labelN nodeN)
  else da.pushEnode old

/-- The loop of `_resolve` over the labels from one on, with `from_n`, which may be moved on the way. -/
def moveChildren (conflict : Conflict) : List UInt8 → DoubleArray → ℕ → DoubleArray × ℕ
  | [], da, nodeN => (da, nodeN)
  | label :: rest, da, nodeN =>
      let popped := da.popEnode conflict.base label conflict.node
      let dest := popped.2
      let old := place conflict.base_ label
      let da := popped.1.putSibling dest (rest.headD 0)
      if conflict.flag ∧ old = conflict.toPn then moveChildren conflict rest da nodeN
      else
        let da := da.copyNode label old dest
        let nodeN := if !conflict.flag ∧ old = nodeN then dest else nodeN
        moveChildren conflict rest (da.leavePlace conflict nodeN old) nodeN

/-- `_resolve`: the place of the new edge, and where its node now lies. -/
def resolve (da : DoubleArray) (nodeN : ℕ) (baseN : ℤ) (labelN : UInt8) : DoubleArray × ℕ × ℕ :=
  let toPn := place baseN labelN
  let nodeP := (da.array toPn).check.toNat
  let baseP := (da.array nodeP).base
  let flag := da.consult baseN baseP 256 (da.ninfo nodeN).child (da.ninfo nodeP).child
  let labels :=
    if flag then da.setChild baseN (da.ninfo nodeN).child (some labelN)
    else da.setChild baseP (da.ninfo nodeP).child none
  let found := if labels.length = 1 then da.findPlace else da.findPlaceFor labels
  let base : ℤ := place found.2 (labels.headD 0)
  let node := if flag then nodeN else nodeP
  let base_ := if flag then baseN else baseP
  let da := if flag ∧ labels.headD 0 = labelN then found.1.putChild node labelN else found.1
  let da := da.putBase node base
  let moved := moveChildren ⟨flag, base, base_, node, toPn, labelN⟩ labels da nodeN
  (moved.1, if flag then place base labelN else toPn, moved.2)

/-- `_follow`: the cell below an edge, made if it is missing, and where the node now lies. -/
def follow (da : DoubleArray) (node : ℕ) (label : UInt8) : DoubleArray × ℕ × ℕ :=
  let base := (da.array node).base
  let dest := place base label
  if base < 0 ∨ (da.array dest).check < 0 then
    let popped := da.popEnode base label node
    let dest := popped.2
    (popped.1.pushSibling node (place dest label) label (0 ≤ base), dest, node)
  else if (da.array dest).check ≠ node then da.resolve node base label
  else (da, dest, node)

/-! ### The interface -/

/-- The loop of `update` over the bytes of the key. -/
def followKey (da : DoubleArray) (node : ℕ) : Bytes → DoubleArray × ℕ
  | [] => (da, node)
  | label :: rest =>
      let followed := da.follow node label
      followKey followed.1 followed.2.1 rest

/-- `update`, of a key that is not empty. -/
def update (da : DoubleArray) (key : Bytes) (val : IdT) : DoubleArray :=
  let inner := da.followKey 0 key
  let followed := inner.1.follow inner.2 0
  let da := followed.1
  let dest := followed.2.1
  let stored := asValue (da.array dest).base
  if stored = 0 ∨ val < stored then da.putBase dest (asInt val) else da

/-- `_find`: what it returns, with `from` and `pos` as it leaves them. -/
def find (da : DoubleArray) (node pos : ℕ) : Bytes → ℤ × ℕ × ℕ
  | [] =>
      let n := da.array (place (da.array node).base 0)
      (if n.check ≠ node then asInt noValue else n.base, node, pos)
  | label :: rest =>
      let dest := place (da.array node).base label
      if (da.array dest).check ≠ node then (asInt noPath, node, pos) else find da dest (pos + 1) rest

/-- `traverse` -/
def traverse (da : DoubleArray) (key : Bytes) : IdT × ℕ × ℕ :=
  let found := da.find 0 0 key
  (asValue found.1, found.2)

/-- `exactMatchSearch` -/
def exactMatchSearch (da : DoubleArray) (key : Bytes) : IdT :=
  let i := (da.find 0 0 key).1
  asValue (if i = asInt noPath then asInt noValue else i)

/-- `suffix`: the labels on the way to a cell, written from the last one on in front of `key`. -/
def suffix (da : DoubleArray) : ℕ → ℕ → Bytes → Bytes
  | 0, _, key => key
  | len + 1, dest, key =>
      let node := (da.array dest).check.toNat
      suffix da len node (UInt8.ofNat ((da.array node).base.toNat ^^^ dest) :: key)

/-- `num_keys` -/
def numKeys (da : DoubleArray) : ℕ :=
  (List.range da.size).countP fun dest =>
    0 ≤ (da.array dest).check ∧ (da.array (da.array dest).check.toNat).base = dest

/-- The descent of `begin` along first children. -/
def descend (da : DoubleArray) : ℕ → ℕ → UInt8 → ℕ → ℤ × ℕ × ℕ
  | 0, node, _, len => (asInt noPath, node, len)
  | fuel + 1, node, c, len =>
      if c = 0 then ((da.array (place (da.array node).base c)).base, node, len)
      else
        let node := place (da.array node).base c
        descend da fuel node (da.ninfo node).child (len + 1)

/-- `begin`: the first value below a node, with `from` and `len` as it leaves them. -/
def begin (da : DoubleArray) (node len : ℕ) : ℤ × ℕ × ℕ :=
  let c := (da.ninfo node).child
  if node = 0 then
    let c := (da.ninfo (place (da.array node).base c)).sibling
    if c = 0 then (asInt noPath, node, len) else da.descend da.size node c len
  else da.descend da.size node c len

/-- The climb of `next`, up to a node that has a sibling. -/
def climb (da : DoubleArray) (root : ℕ) : ℕ → UInt8 → ℕ → ℕ → UInt8 × ℕ × ℕ
  | 0, _, node, len => (0, node, len)
  | fuel + 1, c, node, len =>
      if c = 0 ∧ node ≠ root then
        climb da root fuel (da.ninfo node).sibling (da.array node).check.toNat (len - 1)
      else (c, node, len)

/-- `next` -/
def next (da : DoubleArray) (node len root : ℕ) : ℤ × ℕ × ℕ :=
  let c := (da.ninfo (place (da.array node).base 0)).sibling
  let climbed := da.climb root da.size c node len
  let c := climbed.1
  let node := climbed.2.1
  let len := climbed.2.2
  if c ≠ 0 then da.begin (place (da.array node).base c) (len + 1) else (asInt noPath, node, len)

end DoubleArray

end Taboo
