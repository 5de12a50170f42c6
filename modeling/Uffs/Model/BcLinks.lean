import Uffs.Model.BufLinks

/-
  The block info cache by the links of the source: the list
  from `head` to `tail`.

  `Model/Flash.lean` has a list in place of these links.  A
  walk that is longer than there are entries does not end,
  and no more does a step through a null pointer.

  Main declarations:
    * `LinkedCache`
    * `LinkedCache.breakBcFromList`,
      `LinkedCache.insertToBcListTail`
    * `LinkedCache.init`
    * `BcCall`, `BcCall.execLinks`, `BcCall.exec`
-/

namespace Uffs

variable [Platform]

------------------------------------------------------------
-- Links
------------------------------------------------------------

/-
  `uffs_BlockInfoCacheSt` with the links of its entries; a
  null pointer is `none`.
-/
structure LinkedCache where
  info : Nat → BlockInfo
  next : Nat → Option Nat
  prev : Nat → Option Nat
  head : Option Nat
  tail : Option Nat

/- Programs on the block info cache. -/
abbrev CM (α : Type) : Type := Prog LinkedCache Event α

/- The steps that a walk over the cache is given. -/
def bcSteps : Nat :=
  bcCaches + 1

namespace LinkedCache

/- `_BreakBcFromList` -/
def breakBcFromList (c : LinkedCache) (i : Nat) : LinkedCache :=
  let next := updLink c.next (c.prev i) (c.next i)
  let prev := updLink c.prev (next i) (c.prev i)
  { c with
    next := next
    prev := prev
    head := if c.head = some i then next i else c.head
    tail := if c.tail = some i then prev i else c.tail }

/- `_InsertToBcListTail`; the list must not be empty. -/
def insertToBcListTail (i : Nat) : CM Unit := do
  let c ← Prog.get
  match c.tail with
  | none => Prog.diverge
  | some j =>
      Prog.modify fun c =>
        { c with
          next := upd (upd c.next i none) j (some i)
          prev := upd c.prev i (some j)
          tail := some i }

/- `_MoveBcToTail` -/
def moveBcToTail (i : Nat) : CM Unit := do
  Prog.modify fun c => c.breakBcFromList i
  insertToBcListTail i

/- Change one entry. -/
def setInfo (i : Nat) (f : BlockInfo → BlockInfo) : CM Unit :=
  Prog.modify fun c =>
    { c with info := upd c.info i (f (c.info i)) }

/- `uffs_BlockInfoFindInCache` -/
def blockInfoFindInCache (block : Nat) : CM (Option Nat) := do
  let o ← ofWalk fun c =>
    walkFind c.next (fun i => (c.info i).block == block)
      bcSteps c.head
  match o with
  | none => pure none
  | some i =>
      setInfo i fun w => { w with refCount := w.refCount + 1 }
      pure (some i)

/- `uffs_BlockInfoGet` -/
def blockInfoGet (block : Nat) : CM (Option Nat) := do
  match ← blockInfoFindInCache block with
  | some i =>
      moveBcToTail i
      pure (some i)
  | none =>
      let o ← ofWalk fun c =>
        walkFind c.next (fun i => (c.info i).refCount == 0)
          bcSteps c.head
      match o with
      | none => pure none
      | some i =>
          setInfo i fun w =>
            { block := block
              spares := fun p =>
                { w.spares p with expired := true }
              expiredCount := pagesPerBlock
              refCount := 1 }
          moveBcToTail i
          pure (some i)

/- `uffs_BlockInfoPut` -/
def blockInfoPut (i : Nat) : CM Unit :=
  setInfo i fun w => { w with refCount := w.refCount - 1 }

/- `uffs_BlockInfoExpire` of `UFFS_ALL_PAGES` -/
def blockInfoExpireAll (i : Nat) : CM Unit :=
  setInfo i fun w =>
    { w with
      spares := fun p => { w.spares p with expired := true }
      expiredCount := w.expiredCount + w.freshCount }

/- `uffs_BlockInfoIsAllFree` -/
def blockInfoIsAllFree : CM Bool :=
  ofWalk fun c =>
    (walkFind c.next (fun i => (c.info i).refCount != 0)
      bcSteps c.head).map Option.isNone

/- The loop of `uffs_BlockInfoExpireAll`. -/
def expireFrom : Nat → Option Nat → CM Unit
| 0, _ => Prog.diverge
| _ + 1, none => pure ()
| n + 1, some i => do
    blockInfoExpireAll i
    let c ← Prog.get
    expireFrom n (c.next i)

/- `uffs_BlockInfoExpireAll` -/
def bcExpireAll : CM Unit := do
  let c ← Prog.get
  expireFrom bcSteps c.head

/- The loops of `uffs_BlockInfoInitCache`. -/
def init : LinkedCache where
  info := BcCache.init.info
  next := fun i => if i + 1 < bcCaches then some (i + 1) else none
  prev := fun i => if i = 0 then none else some (i - 1)
  head := some 0
  tail := some (bcCaches - 1)

end LinkedCache

------------------------------------------------------------
-- Calls on the Cache
------------------------------------------------------------

/-
  The functions above; an entry is named by its index.  By
  `edit` the caller loads or expires pages of an entry.
-/
inductive BcCall where
| find (block : Nat)
| get (block : Nat)
| put (i : Nat)
| edit (i : Nat) (w : BlockInfo)
| isAllFree
| expireAll

/- What they return. -/
inductive BcAnswer where
| index (o : Option Nat)
| bool (b : Bool)
| none
deriving DecidableEq, Repr

/- A call on the links. -/
def BcCall.execLinks : BcCall → CM BcAnswer
| .find block => do
    let o ← LinkedCache.blockInfoFindInCache block
    pure (.index o)
| .get block => do
    let o ← LinkedCache.blockInfoGet block
    pure (.index o)
| .put i => do
    LinkedCache.blockInfoPut i
    pure .none
| .edit i w => do
    LinkedCache.setInfo i fun _ => w
    pure .none
| .isAllFree => do
    let b ← LinkedCache.blockInfoIsAllFree
    pure (.bool b)
| .expireAll => do
    LinkedCache.bcExpireAll
    pure .none

/- The same call on the list. -/
def BcCall.exec : BcCall → M BcAnswer
| .find block => do
    let o ← blockInfoFindInCache block
    pure (.index o)
| .get block => do
    let o ← blockInfoGet block
    pure (.index o)
| .put i => do
    blockInfoPut i
    pure .none
| .edit i w => do
    setInfo i fun _ => w
    pure .none
| .isAllFree => do
    let s ← Prog.get
    pure (.bool s.bc.isAllFree)
| .expireAll => do
    bcExpireAll
    pure .none

end Uffs
