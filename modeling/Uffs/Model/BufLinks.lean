import Uffs.Lib.DList
import Uffs.Model.Session

/-
  The page buffers by the links of the source: the list from
  `head` to `tail`, the clone buffers and the dirty lists.

  `Model/Buf.lean` has lists in place of these links.  A walk
  is given one step more than there are buffers; a longer one
  does not end.

  Main declarations:
    * `LinkedPool`
    * `LinkedPool.breakFromBufList`,
      `LinkedPool.linkToBufListHead`
    * `LinkedPool.linkToDirtyList`,
      `LinkedPool.breakFromDirtyList`
    * `LinkedPool.init`
    * `BufCall`, `BufCall.execLinks`, `BufCall.exec`
-/

namespace Uffs

variable [Platform]

------------------------------------------------------------
-- Links
------------------------------------------------------------

/-
  `uffs_PageBufDescSt` with the links of its buffers; a null
  pointer is `none`.
-/
structure LinkedPool where
  entry : Nat → Buf
  next : Nat → Option Nat
  prev : Nat → Option Nat
  nextDirty : Nat → Option Nat
  prevDirty : Nat → Option Nat
  head : Option Nat
  tail : Option Nat
  clone : Option Nat
  dirty : Nat → Option Nat
  count : Nat → Int
  lock : Nat → Nat

/- Write through a link that may be null. -/
def updLink
    (f : Nat → Option Nat)
    (o x : Option Nat) : Nat → Option Nat :=
  match o with
  | none => f
  | some i => upd f i x

namespace LinkedPool

/- `_BreakFromBufList` -/
def breakFromBufList (c : LinkedPool) (i : Nat) : LinkedPool :=
  let prev := updLink c.prev (c.next i) (c.prev i)
  let next := updLink c.next (prev i) (c.next i)
  { c with
    prev := prev
    next := next
    head := if c.head = some i then next i else c.head
    tail := if c.tail = some i then prev i else c.tail }

/- `_LinkToBufListHead` -/
def linkToBufListHead
    (c : LinkedPool)
    (i : Nat) : LinkedPool :=
  if c.head = some i then
    c
  else
    { c with
      prev := updLink (upd c.prev i none) c.head (some i)
      next := upd c.next i c.head
      tail := if c.tail = none then some i else c.tail
      head := some i }

/- `_MoveNodeToHead` -/
def moveNodeToHead (c : LinkedPool) (i : Nat) : LinkedPool :=
  if c.head = some i then
    c
  else
    (c.breakFromBufList i).linkToBufListHead i

/- `_InsertToCloneBufList` -/
def insertToCloneBufList
    (c : LinkedPool)
    (i : Nat) : LinkedPool :=
  { c with
    next := upd c.next i c.clone
    clone := some i }

/- `_LinkToDirtyList` -/
def linkToDirtyList
    (c : LinkedPool)
    (slot i : Nat) : LinkedPool :=
  { c with
    entry := upd c.entry i { c.entry i with mark := .dirty }
    prevDirty :=
      updLink (upd c.prevDirty i none) (c.dirty slot) (some i)
    nextDirty := upd c.nextDirty i (c.dirty slot)
    dirty := upd c.dirty slot (some i)
    count := upd c.count slot (c.count slot + 1) }

/- The end of `_BreakFromDirty`, with the slot found. -/
def breakFromDirtyList
    (c : LinkedPool)
    (slot i : Nat) : LinkedPool :=
  let prev := updLink c.prevDirty (c.nextDirty i)
    (c.prevDirty i)
  let next := updLink c.nextDirty (prev i) (c.nextDirty i)
  { c with
    prevDirty := upd prev i none
    nextDirty := upd next i none
    dirty :=
      if c.dirty slot = some i then
        upd c.dirty slot (next i)
      else
        c.dirty
    count := upd c.count slot (c.count slot - 1) }

/- The buffers that `uffs_BufInit` makes the list of. -/
def chain (n : Nat) : LinkedPool where
  entry := fun _ => Buf.zero
  next := fun i => if i + 1 < n then some (i + 1) else none
  prev := fun i => if i = 0 then none else some (i - 1)
  nextDirty := fun _ => none
  prevDirty := fun _ => none
  head := if n = 0 then none else some 0
  tail := if n = 0 then none else some (n - 1)
  clone := none
  dirty := fun _ => none
  count := fun _ => 0
  lock := fun _ => 0

/- The loop of `uffs_BufInit` over the clone buffers. -/
def prepareClones : Nat → LinkedPool → LinkedPool
| 0, c => c
| n + 1, c =>
    match c.head with
    | none => c
    | some i =>
        prepareClones n
          ((c.breakFromBufList i).insertToCloneBufList i)

/- `uffs_BufInit` -/
def init : LinkedPool :=
  prepareClones cloneBuffersThreshold (chain pageBuffers)

end LinkedPool

------------------------------------------------------------
-- Functions on Linked Buffers
------------------------------------------------------------

/- Programs on the page buffers. -/
abbrev LM (α : Type) : Type := Prog LinkedPool Event α

/- The steps that a walk is given. -/
def bufSteps : Nat :=
  pageBuffers + 1

/- The result of a walk, which is not out of steps. -/
def ofWalk
    {σ α : Type}
    (o : σ → Option α) : Prog σ Event α := do
  let c ← Prog.get
  match o c with
  | none => Prog.diverge
  | some a => pure a

namespace LinkedPool

/- Change one buffer. -/
def setBuf (i : Nat) (f : Buf → Buf) : LM Unit :=
  Prog.modify fun c =>
    { c with entry := upd c.entry i (f (c.entry i)) }

/- `_FindFreeBuf` -/
def findFreeBuf : LM (Option Nat) :=
  ofWalk fun c =>
    walkFind c.prev (fun i => (c.entry i).isFree) bufSteps c.tail

/- `uffs_BufFind` -/
def bufFind
    (parent serial pageId : Nat) : LM (Option Nat) :=
  ofWalk fun c =>
    walkFind c.next
      (fun i => (c.entry i).parent == parent &&
        (c.entry i).serial == serial &&
        (c.entry i).pageId == pageId &&
        (c.entry i).mark != .empty)
      bufSteps c.head

/- `uffs_BufGet` -/
def bufGet
    (parent serial pageId : Nat) : LM (Option Nat) := do
  match ← bufFind parent serial pageId with
  | none => pure none
  | some i =>
      setBuf i fun b => { b with refCount := b.refCount + 1 }
      Prog.modify fun c => c.moveNodeToHead i
      pure (some i)

/- `uffs_BufClone` of `NULL` -/
def bufClone : LM (Option Nat) := do
  let c ← Prog.get
  match c.clone with
  | none => pure none
  | some i =>
      Prog.modify fun c => { c with clone := c.next i }
      Prog.modify fun c =>
        { c with
          next := upd c.next i none
          prev := upd c.prev i none
          nextDirty := upd c.nextDirty i none
          prevDirty := upd c.prevDirty i none }
      setBuf i fun b => { b with refCount := cloneBufMark }
      pure (some i)

/- `uffs_BufFreeClone` -/
def bufFreeClone (i : Nat) : LM URet := do
  let c ← Prog.get
  if (c.entry i).refCount ≠ cloneBufMark then
    pure .fail
  else do
    setBuf i fun b => { b with refCount := 0, mark := .empty }
    Prog.modify fun c => c.insertToCloneBufList i
    pure .succ

/- `uffs_BufPut` -/
def bufPut (i : Nat) : LM URet := do
  let c ← Prog.get
  if (c.entry i).refCount = 0 then
    pure .fail
  else if (c.entry i).refCount = cloneBufMark then
    bufFreeClone i
  else do
    setBuf i fun b => { b with refCount := b.refCount - 1 }
    pure .succ

/- `uffs_BufFindGroupSlot` -/
def findGroupSlot
    (c : LinkedPool)
    (parent serial : Nat) : Option Nat :=
  (List.range dirtyGroups).find? fun slot =>
    match c.dirty slot with
    | none => false
    | some i =>
        (c.entry i).parent == parent &&
          (c.entry i).serial == serial

/- `uffs_BufFindGroupSlot` -/
def bufFindGroupSlot
    (parent serial : Nat) : LM (Option Nat) :=
  Prog.gets fun c => c.findGroupSlot parent serial

/- `uffs_BufFindFreeGroupSlot` -/
def bufFindFreeGroupSlot : LM (Option Nat) :=
  Prog.gets fun c => (List.range dirtyGroups).find? fun slot =>
    (c.dirty slot).isNone

/- `_BreakFromDirty` -/
def breakFromDirty (i : Nat) : LM URet := do
  let c ← Prog.get
  if (c.entry i).mark ≠ .dirty then
    pure .fail
  else do
    match ← bufFindGroupSlot (c.entry i).parent
        (c.entry i).serial with
    | none => pure .fail
    | some slot =>
        Prog.modify fun c => c.breakFromDirtyList slot i
        pure .succ

/- `_FindBufInDirtyList` -/
def findBufInDirtyList
    (slot pageId : Nat) : LM (Option Nat) :=
  ofWalk fun c =>
    walkFind c.nextDirty
      (fun i => (c.entry i).pageId == pageId)
      bufSteps (c.dirty slot)

/- `_FindMinimunPageIdFromDirtyList` -/
def findMinimunPageIdFromDirtyList
    (slot : Nat) : LM (Option Nat) :=
  ofWalk fun c =>
    match c.dirty slot with
    | none => some none
    | some i =>
        (walkFold c.nextDirty
          (fun best j =>
            if (c.entry j).pageId < (c.entry best).pageId then j
            else best)
          bufSteps (c.nextDirty i) i).map some

/- `_CheckDirtyList` -/
def checkDirtyList (slot : Nat) : LM URet :=
  ofWalk fun c =>
    match c.dirty slot with
    | none => some .succ
    | some i =>
        (walkFind c.nextDirty
          (fun j => !((c.entry j).parent == (c.entry i).parent &&
            (c.entry j).serial == (c.entry i).serial &&
            (c.entry j).mark == .dirty))
          bufSteps (c.nextDirty i)).map fun o =>
            if o.isNone then .succ else .fail

/-
  The step of `uffs_BufFlush_Exist_With_Enough_FreePage`
  after a page has been written.
-/
def bufWritten (i : Nat) : LM URet := do
  match ← breakFromDirty i with
  | .fail => pure .fail
  | .succ =>
      setBuf i fun b => { b with mark := .valid }
      Prog.modify fun c => c.moveNodeToHead i
      pure .succ

/- `_IsBufInInDirtyList` -/
def isBufInInDirtyList (slot i : Nat) : LM Bool :=
  ofWalk fun c =>
    (walkFind c.nextDirty (fun j => j == i) bufSteps
      (c.dirty slot)).map Option.isSome

/- The end of `uffs_BufWrite`, up to the flush. -/
def linkIfNew (slot i : Nat) : LM Unit := do
  let linked ← isBufInInDirtyList slot i
  if !linked then
    Prog.modify fun c => c.linkToDirtyList slot i

/-
  The loop of `uffs_BufFlush_Exist_With_BlockRecover` that
  takes the recovered pages off the dirty list.
-/
def cleanDirtyFrom (slot : Nat) : Nat → Nat → LM Unit
| 0, _ => pure ()
| n + 1, i => do
    match ← findBufInDirtyList slot i with
    | none => cleanDirtyFrom slot n (i + 1)
    | some d =>
        match ← breakFromDirty d with
        | .fail => cleanDirtyFrom slot n (i + 1)
        | .succ =>
            setBuf d fun b =>
              { b with mark := .valid, truncTail := false }
            Prog.modify fun c => c.moveNodeToHead d
            cleanDirtyFrom slot n (i + 1)

/- `uffs_BufMarkEmpty` -/
def bufMarkEmpty (i : Nat) : LM Unit := do
  let c ← Prog.get
  if (c.entry i).mark ≠ .empty && (c.entry i).refCount = 0 then
    if (c.entry i).mark = .dirty then
      let _ ← breakFromDirty i
    setBuf i fun b => { b with mark := .empty }

/- `uffs_BufIsAllFree` -/
def bufIsAllFree : LM Bool :=
  ofWalk fun c =>
    (walkFind c.next (fun i => (c.entry i).refCount != 0)
      bufSteps c.head).map Option.isNone

end LinkedPool

------------------------------------------------------------
-- Calls
------------------------------------------------------------

/-
  The functions above; a buffer is named by its index.  By
  `edit` the caller changes a buffer that it has.
-/
inductive BufCall where
| find (parent serial pageId : Nat)
| get (parent serial pageId : Nat)
| put (i : Nat)
| clone
| freeClone (i : Nat)
| findFree
| groupSlot (parent serial : Nat)
| freeGroupSlot
| link (slot i : Nat)
| written (i : Nat)
| dirtyPage (slot pageId : Nat)
| leastPage (slot : Nat)
| check (slot : Nat)
| clean (slot : Nat)
| moveToHead (i : Nat)
| markEmpty (i : Nat)
| isAllFree
| edit (i : Nat) (b : Buf)
deriving DecidableEq, Repr

/- What they return. -/
inductive BufAnswer where
| index (o : Option Nat)
| ret (r : URet)
| bool (b : Bool)
| none
deriving DecidableEq, Repr

/- A call on the links. -/
def BufCall.execLinks : BufCall → LM BufAnswer
| .find parent serial pageId => do
    let o ← LinkedPool.bufFind parent serial pageId
    pure (.index o)
| .get parent serial pageId => do
    let o ← LinkedPool.bufGet parent serial pageId
    pure (.index o)
| .put i => do
    let r ← LinkedPool.bufPut i
    pure (.ret r)
| .clone => do
    let o ← LinkedPool.bufClone
    pure (.index o)
| .freeClone i => do
    let r ← LinkedPool.bufFreeClone i
    pure (.ret r)
| .findFree => do
    let o ← LinkedPool.findFreeBuf
    pure (.index o)
| .groupSlot parent serial => do
    let o ← LinkedPool.bufFindGroupSlot parent serial
    pure (.index o)
| .freeGroupSlot => do
    let o ← LinkedPool.bufFindFreeGroupSlot
    pure (.index o)
| .link slot i => do
    LinkedPool.linkIfNew slot i
    pure .none
| .written i => do
    let r ← LinkedPool.bufWritten i
    pure (.ret r)
| .dirtyPage slot pageId => do
    let o ← LinkedPool.findBufInDirtyList slot pageId
    pure (.index o)
| .leastPage slot => do
    let o ← LinkedPool.findMinimunPageIdFromDirtyList slot
    pure (.index o)
| .check slot => do
    let r ← LinkedPool.checkDirtyList slot
    pure (.ret r)
| .clean slot => do
    LinkedPool.cleanDirtyFrom slot pagesPerBlock 0
    pure .none
| .moveToHead i => do
    Prog.modify fun c => c.moveNodeToHead i
    pure .none
| .markEmpty i => do
    LinkedPool.bufMarkEmpty i
    pure .none
| .isAllFree => do
    let b ← LinkedPool.bufIsAllFree
    pure (.bool b)
| .edit i b => do
    LinkedPool.setBuf i fun _ => b
    pure .none

/- The same step on the lists. -/
def bufWritten (i : Nat) : M URet := do
  match ← breakFromDirty i with
  | .fail => pure .fail
  | .succ =>
      setBuf i fun b => { b with mark := .valid }
      moveNodeToHead i
      pure .succ

/- `_IsBufInInDirtyList` and `_LinkToDirtyList` -/
def linkIfNew (slot i : Nat) : M Unit := do
  let g ← getGroup slot
  if i ∉ g.dirty then
    linkToDirtyList slot i

/- The same call on the lists. -/
def BufCall.exec : BufCall → M BufAnswer
| .find parent serial pageId => do
    let o ← bufFind parent serial pageId
    pure (.index o)
| .get parent serial pageId => do
    let o ← bufGet parent serial pageId
    pure (.index o)
| .put i => do
    let r ← bufPut i
    pure (.ret r)
| .clone => do
    let o ← bufClone
    pure (.index o)
| .freeClone i => do
    let r ← bufFreeClone i
    pure (.ret r)
| .findFree => do
    let o ← findFreeBuf
    pure (.index o)
| .groupSlot parent serial => do
    let o ← bufFindGroupSlot parent serial
    pure (.index o)
| .freeGroupSlot => do
    let o ← bufFindFreeGroupSlot
    pure (.index o)
| .link slot i => do
    linkIfNew slot i
    pure .none
| .written i => do
    let r ← bufWritten i
    pure (.ret r)
| .dirtyPage slot pageId => do
    let o ← findBufInDirtyList slot pageId
    pure (.index o)
| .leastPage slot => do
    let o ← findMinimunPageIdFromDirtyList slot
    pure (.index o)
| .check slot => do
    let r ← checkDirtyList slot
    pure (.ret r)
| .clean slot => do
    cleanDirtyFrom slot pagesPerBlock 0
    pure .none
| .moveToHead i => do
    moveNodeToHead i
    pure .none
| .markEmpty i => do
    bufMarkEmpty i
    pure .none
| .isAllFree => do
    let s ← Prog.get
    pure (.bool s.buf.isAllFree)
| .edit i b => do
    setBuf i fun _ => b
    pure .none

end Uffs
