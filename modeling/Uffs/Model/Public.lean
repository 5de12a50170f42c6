import Uffs.Model.Flash

/-
  The searches of `uffs_public.c` over the pages of one
  block.  A block is given by its block info, whose tags are
  loaded as the search goes on.

  Main declarations:
    * `findBestPageInBlock`
    * `findPageInBlockWithPageId`
    * `isPageErased`
    * `getFreePagesCount`
    * `getBlockFileDataLength`
-/

namespace Uffs

variable [Platform]

------------------------------------------------------------
-- Time Stamps
------------------------------------------------------------

/- `uffs_GetFirstBlockTimeStamp` -/
def getFirstBlockTimeStamp : Nat := 0

/- `uffs_GetNextBlockTimeStamp` -/
def getNextBlockTimeStamp (prev : Nat) : Nat :=
  (prev + 1) % 3

/- `uffs_IsSrcNewerThanObj` -/
def isSrcNewerThanObj (src obj : Nat) : Bool :=
  (src : Int) - obj = 1 || (src : Int) - obj = -2

------------------------------------------------------------
-- Pages of a Block
------------------------------------------------------------

/-
  The bottom-up search of `uffs_FindBestPageInBlock`: the
  highest page above `page`, and at most `page + n`, that
  carries the same page id, parent and serial as `old`.
-/
def findBestFrom
    (bc : Nat)
    (old : Tag)
    (page : Nat) : Nat → M Nat
| 0 => pure page
| n + 1 => do
    let i := page + (n + 1)
    let _ ← blockInfoLoad bc i
    let tag ← getTag bc i
    if tag.isGood && tag.pageId == old.pageId &&
        tag.parent == old.parent &&
        tag.serial == old.serial then
      pure i
    else
      findBestFrom bc old page n

/- `uffs_FindBestPageInBlock` -/
def findBestPageInBlock
    (bc page : Nat) : M (Option Nat) := do
  let _ ← blockInfoLoad bc page
  let old ← getTag bc page
  if !old.isGood then
    pure none
  else if page = pagesPerBlock - 1 then
    pure (some page)
  else do
    -- a fully loaded block holds every page id once
    let _ ← blockInfoLoad bc (pagesPerBlock - 1)
    let tag ← getTag bc (pagesPerBlock - 1)
    if tag.isGood && tag.pageId == pagesPerBlock - 1 then
      pure (some page)
    else do
      let best ← findBestFrom bc old page
        (pagesPerBlock - 1 - page)
      pure (some best)

/- The loop of `uffs_FindPageInBlockWithPageId`. -/
def findPageFrom
    (bc pageId : Nat) : Nat → Nat → M (Option Nat)
| 0, _ => pure none
| n + 1, page => do
    let _ ← blockInfoLoad bc page
    let tag ← getTag bc page
    if tag.isGood && tag.pageId == pageId then
      pure (some page)
    else
      findPageFrom bc pageId n (page + 1)

/-
  `uffs_FindPageInBlockWithPageId`; `none` stands for
  `UFFS_INVALID_PAGE`.
-/
def findPageInBlockWithPageId
    (bc pageId : Nat) : M (Option Nat) :=
  findPageFrom bc pageId (pagesPerBlock - pageId) pageId

/- `uffs_IsThisBlockUsed` -/
def isThisBlockUsed (bc : Nat) : M Bool := do
  let _ ← blockInfoLoad bc 0
  let tag ← getTag bc 0
  pure tag.isDirty

/- `uffs_GetBlockTimeStamp` -/
def getBlockTimeStamp (bc : Nat) : M Nat := do
  if !(← isThisBlockUsed bc) then
    pure getFirstBlockTimeStamp
  else do
    let _ ← blockInfoLoad bc 0
    let tag ← getTag bc 0
    pure tag.blockTs

/- `uffs_IsPageErased` -/
def isPageErased (bc page : Nat) : M Bool := do
  match ← blockInfoLoad bc page with
  | .fail => pure false
  | .succ =>
      let tag ← getTag bc page
      pure (!tag.sealed && !tag.isDirty && !tag.isValid)

/- The loop of `uffs_GetFreePagesCount`, last page first. -/
def getFreePagesFrom (bc : Nat) : Nat → Nat → M Nat
| 0, count => pure count
| n + 1, count => do
    let _ ← blockInfoLoad bc n
    if ← isPageErased bc n then
      getFreePagesFrom bc n (count + 1)
    else do
      let tag ← getTag bc n
      if tag.isGood then
        pure count
      else
        getFreePagesFrom bc n count

/- `uffs_GetFreePagesCount` -/
def getFreePagesCount (bc : Nat) : M Nat :=
  getFreePagesFrom bc pagesPerBlock 0

/- The scan of all spares in `uffs_GetBlockFileDataLength`. -/
def blockLengthFrom
    (bc : Nat) : Nat → Nat → Nat → Nat → M Nat
| 0, _, _, size => pure size
| n + 1, i, pageId, size => do
    let tag ← getTag bc i
    if tag.isGood && tag.pageId == pageId then
      match ← findBestPageInBlock bc i with
      | none => blockLengthFrom bc n (i + 1) pageId size
      | some page =>
          let tag ← getTag bc page
          blockLengthFrom bc n (i + 1) (pageId + 1)
            (size + tag.dataLen)
    else
      blockLengthFrom bc n (i + 1) pageId size

/- `uffs_GetBlockFileDataLength` -/
def getBlockFileDataLength
    (bc : Nat)
    (type : BlockType) : M Nat := do
  let _ ← blockInfoLoad bc (pagesPerBlock - 1)
  let last ← getTag bc (pagesPerBlock - 1)
  let full :=
    last.isGood && last.pageId == pagesPerBlock - 1
  if full && type = .file then
    pure (pgDataSize * (pagesPerBlock - 2) + last.dataLen)
  else if full && type = .data then
    pure (pgDataSize * (pagesPerBlock - 1) + last.dataLen)
  else do
    let _ ← blockInfoLoadAll bc
    let tag ← getTag bc 0
    if !tag.isGood then
      pure 0
    else if tag.type = .file then
      blockLengthFrom bc (pagesPerBlock - 1) 1 1 0
    else
      blockLengthFrom bc pagesPerBlock 0 0 0

end Uffs
