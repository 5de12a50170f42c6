import Uffs.Model.BadBlock

/-
  Building the tree from flash (`uffs_BuildTree`) and the
  searches by name (`uffs_tree.c`).

  Main declarations:
    * `buildValidTreeNode`
    * `scanAndFixUnCleanPage`
    * `buildTreeStepOne`, `buildTreeStepTwo`,
      `buildTreeStepThree`
    * `buildTree`, `mount`
    * `treeFindFileNodeByName`, `treeFindDirNodeByName`
-/

namespace Uffs

variable [Platform]

------------------------------------------------------------
-- Invalid and Pending Blocks
------------------------------------------------------------

/-
  Erase a block and file its node under the erased or the
  bad blocks.
-/
def eraseAndFile (n block : Nat) : M Unit := do
  setNode n fun x => x.setListBlock block
  let ret ← flashEraseBlock block
  if ret.isBadBlock then
    badBlockProcessNode n
  else do
    if ret.haveErr then
      note .eraseIgnored
    treeInsertToErasedListTail n

/- `uffs_TreeProcessPendingBadBlock` -/
def treeProcessPendingBadBlock
    (n block : Nat) : M Bool := do
  match ← badBlockPendingNodeGet block with
  | none => pure false
  | some p =>
      match p.mark with
      | .cleanup =>
          eraseAndFile n block
          pure true
      | .markBad =>
          setNode n fun x => x.setListBlock block
          badBlockProcessNode n
          pure true
      | .refresh => pure false
      | .recover => pure false

------------------------------------------------------------
-- Valid Blocks
------------------------------------------------------------

/-
  The part of `_BuildValidTreeNode` that enters a block into
  the tree once its name sum is known.
-/
def registerNode
    (n bc : Nat)
    (block : Nat)
    (tag : Tag)
    (sum : Nat) : M URet := do
  match tag.type with
  | .dir =>
      setNode n fun _ => .dir block sum tag.parent tag.serial
  | .file =>
      let len ← getBlockFileDataLength bc .file
      setNode n fun _ =>
        .file block sum tag.parent tag.serial len
  | .data =>
      let len ← getBlockFileDataLength bc .data
      setNode n fun _ => .data block tag.parent len tag.serial
  | .resv => note .resvBlock
  insertNodeToTree tag.type n
  pure .succ

/- How reading the name of a DIR or FILE block ended. -/
inductive NameSum where
| sum (s : Nat)
| processed
| invalid
| failed
deriving DecidableEq, Repr

/-
  The part of `_BuildValidTreeNode` that reads the name of a
  DIR or FILE block.
-/
def loadNameSum (n bc block : Nat) : M NameSum := do
  match ← bufClone with
  | none => pure .failed
  | some b =>
      match ← blockInfoLoadAll bc with
      | .fail =>
          let done ← treeProcessPendingBadBlock n block
          let _ ← bufFreeClone b
          pure (if done then .processed else .failed)
      | .succ =>
          match ← findPageInBlockWithPageId bc 0 with
          | none =>
              let _ ← bufFreeClone b
              pure .invalid
          | some page =>
              -- a failing search hands the invalid page on
              let page :=
                (← findBestPageInBlock bc page).getD 0xffff
              let ret ← flashReadPage block page b false
              let pending ← badBlockAddByFlashResult block ret
              if pending = none && ret.haveErr then do
                let _ ← bufFreeClone b
                pure .failed
              else do
                let x ← getBuf b
                let _ ← bufFreeClone b
                pure (.sum (makeSum16 (fiName x.data)))

/-
  The part of `_BuildValidTreeNode` after the comparison
  with an alternative block.
-/
def loadValidNode
    (n bc block : Nat)
    (tag : Tag) : M URet := do
  if tag.type = .dir ∨ tag.type = .file then
    match ← loadNameSum n bc block with
    | .failed => pure .fail
    | .processed => pure .succ
    | .invalid =>
        eraseAndFile n block
        pure .succ
    | .sum s => do
        let tag ← getTag bc 0
        registerNode n bc block tag s
  else
    registerNode n bc block tag 0

/- `_BuildValidTreeNode` -/
def buildValidTreeNode (n bc : Nat) : M URet := do
  let block := (← getInfo bc).block
  match ← blockInfoLoad bc 0 with
  | .fail =>
      if ← treeProcessPendingBadBlock n block then
        pure .succ
      else
        pure .fail
  | .succ =>
      let tag ← getTag bc 0
      if !tag.isDirty then
        pure .fail
      else if !tag.isGood then do
        eraseAndFile n block
        pure .succ
      else do
        match ← findFromTree tag.type tag.parent tag.serial with
        | none => loadValidNode n bc block tag
        | some alt =>
            let blockAlt := (← getNode alt).block
            if blockAlt = invalidUffsSerial then
              pure .fail
            else do
              match ← blockInfoGet blockAlt with
              | none => pure .fail
              | some bcAlt =>
                  let _ ← blockInfoLoad bcAlt 0
                  let tagAlt ← getTag bcAlt 0
                  if isSrcNewerThanObj tag.blockTs tagAlt.blockTs
                  then do
                    -- the newer block may be incomplete
                    eraseAndFile n block
                    blockInfoPut bcAlt
                    pure .succ
                  else do
                    eraseAndFile n blockAlt
                    blockInfoPut bcAlt
                    breakFromEntry tag.type alt
                    loadValidNode alt bc block tag

------------------------------------------------------------
-- Unclean Pages
------------------------------------------------------------

/- What `_ScanAndFixUnCleanPage` finds in a block. -/
inductive ScanEnd where
| clean
| needRecovery
| needCleanup
| failed
deriving DecidableEq, Repr

/-
  The loop of `_ScanAndFixUnCleanPage` over the pages from
  `page` down to page 1.
-/
def scanFrom (bc block : Nat) : Nat → M ScanEnd
| 0 => pure .clean
| page + 1 => do
    let loadStatus ← blockInfoLoad bc (page + 1)
    let tag ← getTag bc (page + 1)
    if tag.sealed then
      pure (if loadStatus = .succ then .clean else .needRecovery)
    else if loadStatus = .fail || tag.isDirty || tag.isValid then
      pure .needCleanup
    else do
      match ← loadMiniHeader block (page + 1) with
      | none => pure .failed
      | some status =>
          if status ≠ 0xFF then
            pure .needCleanup
          else
            scanFrom bc block page

/- `_ScanAndFixUnCleanPage` -/
def scanAndFixUnCleanPage (bc : Nat) : M URet := do
  let block := (← getInfo bc).block
  match ← scanFrom bc block (pagesPerBlock - 1) with
  | .failed => pure .fail
  | .clean => pure .succ
  | .needCleanup =>
      badBlockAdd block .cleanup
      pure .succ
  | .needRecovery =>
      badBlockAdd block .recover
      pure .succ

------------------------------------------------------------
-- Step One
------------------------------------------------------------

/- `uffs_PoolGet` on the pool of tree nodes -/
def treeNodeGet : M (Option Nat) := do
  let s ← Prog.get
  if s.tree.allocated < nodeCount then
    modifyTree fun t => { t with allocated := t.allocated + 1 }
    pure (some s.tree.allocated)
  else
    pure none

/-
  The part of `_BuildTreeStepOne` for a block whose first
  page looks erased.
-/
def stepOneErased (n block : Nat) : M URet := do
  match ← loadMiniHeader block 0 with
  | none => pure .fail
  | some status =>
      let ret ←
        if status ≠ 0xFF then flashEraseBlock block
        else pure .noErr
      setNode n fun x => x.setListBlock block
      if ret.isBadBlock then
        badBlockProcessNode n
      else
        treeInsertToErasedListTailEx n (some 1)
      pure .succ

/-
  The part of `_BuildTreeStepOne` for a block with valid
  pages.
-/
def stepOneUsed (n bc block : Nat) : M URet := do
  if ← treeProcessPendingBadBlock n block then
    pure .succ
  else do
    match ← scanAndFixUnCleanPage bc with
    | .fail => pure .fail
    | .succ =>
        if ← treeProcessPendingBadBlock n block then
          pure .succ
        else
          buildValidTreeNode n bc

/-
  The part of a round of `_BuildTreeStepOne` between getting
  and putting the block info.
-/
def stepOneNode (bc block : Nat) : M URet := do
  match ← treeNodeGet with
  | none => pure .fail
  | some n =>
      if ← flashIsBadBlock block then
        setNode n fun x => x.setListBlock block
        treeInsertToBadBlockList n
        pure .succ
      else if ← isPageErased bc 0 then
        stepOneErased n block
      else
        stepOneUsed n bc block

/- One round of the loop of `_BuildTreeStepOne`. -/
def stepOneBlock (block : Nat) : M URet := do
  match ← blockInfoGet block with
  | none => pure .fail
  | some bc =>
      let ret ← stepOneNode bc block
      blockInfoPut bc
      pure ret

/- The loop of `_BuildTreeStepOne`. -/
def stepOneFrom : Nat → Nat → M URet
| 0, _ => pure .succ
| n + 1, block => do
    match ← stepOneBlock block with
    | .fail => pure .fail
    | .succ => stepOneFrom n (block + 1)

/- `_BuildTreeStepOne` -/
def buildTreeStepOne : M URet := do
  modifyTree fun t =>
    { t with
      bad := none
      badCount := 0
      erased := none
      erasedTail := none
      erasedCount := 0 }
  stepOneFrom nodeCount parStart

------------------------------------------------------------
-- Step Two
------------------------------------------------------------

/- The loop of `_BuildTreeStepTwo`. -/
def stepTwoFrom : Nat → M URet
| 0 => pure .succ
| n + 1 => do
    match ← treeGetErasedNodeNoCheck with
    | none => pure .fail
    | some x =>
        treeInsertToErasedListTailEx x none
        stepTwoFrom n

/-
  `_BuildTreeStepTwo`: the first erased block to be used
  depends on the time.
-/
def buildTreeStepTwo : M URet := do
  let now ← getCurDateTime
  let s ← Prog.get
  stepTwoFrom (now % (s.tree.erasedCount + 1))

------------------------------------------------------------
-- Step Three
------------------------------------------------------------

/-
  One round of the loop of `_BuildTreeStepThree`: add the
  length of a data block to its file, or erase an orphan.
  The one file node that the source keeps in `cache` is the
  one that the search would find again.
-/
def stepThreeNode (work : Nat) : M Unit := do
  let w ← getNode work
  match ← treeFindFileNode w.parent with
  | none =>
      breakFromEntry .data work
      setNode work fun x => .list none none x.block 0
      eraseAndFile work w.block
  | some n =>
      setNode n fun x => x.setLen (x.len + w.len)

/- The loop over one hash entry. -/
def stepThreeChain : List Nat → M Unit
| [] => pure ()
| work :: rest => do
    stepThreeNode work
    stepThreeChain rest

/- The loop over the hash entries from `i` on. -/
def stepThreeFrom : Nat → Nat → M Unit
| 0, _ => pure ()
| n + 1, i => do
    let s ← Prog.get
    stepThreeChain (s.tree.dataEntry i)
    stepThreeFrom n (i + 1)

/- `_BuildTreeStepThree` -/
def buildTreeStepThree : M Unit :=
  stepThreeFrom 512 0

------------------------------------------------------------
-- Mounting
------------------------------------------------------------

/- `uffs_BuildTree` -/
def buildTree : M URet := do
  match ← buildTreeStepOne with
  | .fail => pure .fail
  | .succ =>
      recoverIfPending
      match ← buildTreeStepTwo with
      | .fail => pure .fail
      | .succ =>
          buildTreeStepThree
          recoverIfPending
          pure .succ

/- The tree after `uffs_TreeInit`. -/
def Tree.init : Tree where
  node := fun _ => .list none none 0 0
  allocated := 0
  erased := none
  erasedTail := none
  erasedCount := 0
  suspend := none
  bad := none
  badCount := 0
  dirEntry := fun _ => []
  fileEntry := fun _ => []
  dataEntry := fun _ => []

/- The block info cache after `uffs_BlockInfoInitCache`. -/
def BcCache.init : BcCache where
  info := fun _ =>
    { block := invalidBlock
      spares := fun _ => { tag := Tag.erased, expired := true }
      expiredCount := pagesPerBlock
      refCount := 0 }
  list := List.range bcCaches

/-
  A device before `uffs_BuildTree`, as `uffs_InitDevice` and
  the functions it calls leave it.
-/
def Dev.init
    (flash : Flash)
    (clock : Nat) : Dev where
  flash := flash
  clock := clock
  spareFree := maxSpareBuffers
  bc := BcCache.init
  buf := BufPool.init
  tree := Tree.init
  pending :=
    { count := 0
      slot := fun _ => { block := 0, mark := .refresh }
      blockInRecovery := invalidBlock }
  refCount := 0
  watch :=
    { lastErase := fun _ => .noErr
      usedHandedOut := false
      tagFailed := fun _ _ => false
      truncating := none
      staleMark := false }

/- Start over from the medium and build the tree. -/
def mount : M URet := do
  Prog.modify fun s =>
    { Dev.init s.flash s.clock with watch := s.watch }
  buildTree

------------------------------------------------------------
-- Searches by Name
------------------------------------------------------------

/-
  `uffs_TreeCompareFileName`; the loop stops at the first
  byte that differs.
-/
def treeCompareFileName
    (name : List Byte)
    (sum node : Nat)
    (type : BlockType) : M Bool := do
  match ← bufGetEx type node 0 false with
  | none => pure false
  | some i =>
      let b ← getBuf i
      let matched :=
        makeSum16 (fiName b.data) = sum &&
          fiNameLen b.data = name.length &&
          fiName b.data = name
      let _ ← bufPut i
      pure matched

/-
  The loop over the nodes of `uffs_TreeFindFileNodeByName`
  and `uffs_TreeFindDirNodeByName`.
-/
def findByNameFrom
    (name : List Byte)
    (sum parent : Nat)
    (type : BlockType) : List Nat → M (Option Nat)
| [] => pure none
| n :: rest => do
    let node ← getNode n
    if node.checksum = sum ∧ node.parent = parent then
      if ← treeCompareFileName name sum n type then
        pure (some n)
      else
        findByNameFrom name sum parent type rest
    else
      findByNameFrom name sum parent type rest

/- `uffs_TreeFindFileNodeByName` -/
def treeFindFileNodeByName
    (name : List Byte)
    (sum parent : Nat) : M (Option Nat) := do
  let s ← Prog.get
  findByNameFrom name sum parent .file s.tree.fileNodes

/- `uffs_TreeFindDirNodeByName` -/
def treeFindDirNodeByName
    (name : List Byte)
    (sum parent : Nat) : M (Option Nat) := do
  let s ← Prog.get
  findByNameFrom name sum parent .dir s.tree.dirNodes

end Uffs
