import Uffs.Model.Tree

/-
  Page buffers (`uffs_buf.c`): the LRU list, the dirty
  groups and the three ways of flushing a group.

  A flush that meets a failing page write starts again with
  a new block; `Platform.fuel` bounds the number of these
  jumps to `retry`.

  Main declarations:
    * `bufInit`
    * `bufFlushExistWithBlockRecover`
    * `bufFlushNewBlock`
    * `bufFlushExistWithEnoughFreePage`
    * `bufFlushSlot`
    * `bufGetEx`, `bufNew`, `bufWrite`
-/

namespace Uffs

variable [Platform]

------------------------------------------------------------
-- The Buffer List
------------------------------------------------------------

/- A page buffer as `memset` leaves it. -/
def Buf.zero : Buf where
  type := .dir
  truncTail := false
  parent := 0
  serial := 0
  pageId := 0
  mark := .empty
  refCount := 0
  dataLen := 0
  data := List.replicate pgDataSize 0

/-
  `uffs_BufInit`: the first buffers become clone buffers.
-/
def BufPool.init : BufPool where
  entry := fun _ => Buf.zero
  list := List.range' cloneBuffersThreshold
    (pageBuffers - cloneBuffersThreshold)
  clone := (List.range cloneBuffersThreshold).reverse
  group := fun _ => { dirty := [], count := 0, lock := 0 }

/- `_MoveNodeToHead` -/
def moveNodeToHead (i : Nat) : M Unit :=
  Prog.modify fun s =>
    { s with
      buf := { s.buf with list := i :: s.buf.list.erase i } }

/- Is this a buffer that `_FindFreeBuf` may hand out? -/
def Buf.isFree (b : Buf) : Bool :=
  b.refCount == 0 && b.mark != .dirty

/- `_FindFreeBuf`, from the tail of the list -/
def findFreeBuf : M (Option Nat) :=
  Prog.gets fun s =>
    s.buf.list.reverse.find? fun i => (s.buf.entry i).isFree

/- `uffs_BufFind` of one page -/
def BufPool.find
    (p : BufPool)
    (parent serial pageId : Nat) : Option Nat :=
  p.list.find? fun i =>
    (p.entry i).parent == parent &&
      (p.entry i).serial == serial &&
      (p.entry i).pageId == pageId &&
      (p.entry i).mark != .empty

/- `uffs_BufFind` -/
def bufFind (parent serial pageId : Nat) : M (Option Nat) :=
  Prog.gets fun s => s.buf.find parent serial pageId

/- `uffs_BufGet` -/
def bufGet
    (parent serial pageId : Nat) : M (Option Nat) := do
  match ← bufFind parent serial pageId with
  | none => pure none
  | some i =>
      setBuf i fun b => { b with refCount := b.refCount + 1 }
      moveNodeToHead i
      pure (some i)

/- `uffs_BufPut` -/
def bufPut (i : Nat) : M URet := do
  let b ← getBuf i
  if b.refCount = 0 then
    pure .fail
  else if b.refCount = cloneBufMark then
    bufFreeClone i
  else do
    setBuf i fun b => { b with refCount := b.refCount - 1 }
    pure .succ

------------------------------------------------------------
-- Dirty Groups
------------------------------------------------------------

/- `uffs_BufFindGroupSlot` -/
def BufPool.findGroupSlot
    (p : BufPool)
    (parent serial : Nat) : Option Nat :=
  (List.range dirtyGroups).find? fun slot =>
    match (p.group slot).dirty with
    | [] => false
    | i :: _ =>
        (p.entry i).parent == parent &&
          (p.entry i).serial == serial

/- `uffs_BufFindGroupSlot` -/
def bufFindGroupSlot
    (parent serial : Nat) : M (Option Nat) :=
  Prog.gets fun s => s.buf.findGroupSlot parent serial

/- `uffs_BufFindFreeGroupSlot` -/
def bufFindFreeGroupSlot : M (Option Nat) :=
  Prog.gets fun s => (List.range dirtyGroups).find? fun slot =>
    (s.buf.group slot).dirty.isEmpty

/- `_LinkToDirtyList` -/
def linkToDirtyList (slot i : Nat) : M Unit := do
  setBuf i fun b => { b with mark := .dirty }
  setGroup slot fun g =>
    { g with dirty := i :: g.dirty, count := g.count + 1 }

/- `_BreakFromDirty` -/
def breakFromDirty (i : Nat) : M URet := do
  let b ← getBuf i
  if b.mark ≠ .dirty then
    pure .fail
  else do
    match ← bufFindGroupSlot b.parent b.serial with
    | none => pure .fail
    | some slot =>
        setGroup slot fun g =>
          { g with dirty := g.dirty.erase i, count := g.count - 1 }
        pure .succ

/- `_FindBufInDirtyList` -/
def findBufInDirtyList
    (slot pageId : Nat) : M (Option Nat) :=
  Prog.gets fun s =>
    (s.buf.group slot).dirty.find? fun i =>
      (s.buf.entry i).pageId == pageId

/- `_GetDirOrFileNameSum` -/
def getDirOrFileNameSum (b : Buf) : Nat :=
  if (b.type = .file ∨ b.type = .dir) ∧ b.pageId = 0 then
    makeSum16 (fiName b.data)
  else
    0

/- `_CheckDirtyList` -/
def checkDirtyList (slot : Nat) : M URet :=
  Prog.gets fun s =>
    match (s.buf.group slot).dirty with
    | [] => .succ
    | i :: rest =>
        let b := s.buf.entry i
        if rest.all fun j =>
            (s.buf.entry j).parent == b.parent &&
              (s.buf.entry j).serial == b.serial &&
              (s.buf.entry j).mark == .dirty then
          .succ
        else
          .fail

/- `_FindMinimunPageIdFromDirtyList` -/
def BufPool.findMinimunPageId (p : BufPool) :
    List Nat → Option Nat
| [] => none
| i :: rest =>
    some <| rest.foldl
      (fun best j =>
        if (p.entry j).pageId < (p.entry best).pageId then j
        else best)
      i

/- `_FindMinimunPageIdFromDirtyList` -/
def findMinimunPageIdFromDirtyList
    (slot : Nat) : M (Option Nat) :=
  Prog.gets fun s =>
    s.buf.findMinimunPageId (s.buf.group slot).dirty

------------------------------------------------------------
-- Flushing with a Block Recover
------------------------------------------------------------

/- What a flush writes: the key of the group and its type. -/
structure GroupKey where
  type : BlockType
  parent : Nat
  serial : Nat
deriving DecidableEq, Repr

/-
  Where the loop over the pages of the new block stopped:
  the page, `flash_op_new`, `succRecover` and `data_sum`.
-/
structure Recovery where
  page : Nat
  op : FlashRet
  succ : Bool
  sum : Nat
deriving DecidableEq, Repr

/-
  Find the content of page `i` of the old block for the new
  one: a cached buffer, or a clone buffer filled from flash.
  `none` ends the recover (no clone buffer, I/O error).
-/
def recoverSource
    (key : GroupKey)
    (bc page i : Nat) : M (Option (Nat × Bool)) := do
  let oldTag ← getTag bc page
  match ← bufGet key.parent key.serial i with
  | some b => pure (some (b, false))
  | none =>
      match ← bufClone with
      | none => pure none
      | some b =>
          let w ← getInfo bc
          let ret ← flashReadPage w.block page b false
          match ← badBlockAddByFlashResult w.block ret with
          | none =>
              if ret.haveErr then do
                let _ ← bufFreeClone b
                pure none
              else do
                setBuf b fun x =>
                  { x with
                    type := key.type
                    parent := key.parent
                    serial := key.serial
                    pageId := oldTag.pageId
                    dataLen := oldTag.dataLen }
                pure (some (b, true))
          | some _ =>
              setBuf b fun x =>
                { x with
                  mark := .valid
                  type := key.type
                  parent := key.parent
                  serial := key.serial
                  pageId := oldTag.pageId
                  dataLen := oldTag.dataLen }
              pure (some (b, true))

/-
  Note that a recover ends below a page that is still in the
  dirty list.
-/
def noteDropped (slot i : Nat) : M Unit :=
  noteWhen
    (fun s => (s.buf.group slot).dirty.any fun d =>
      decide (i ≤ (s.buf.entry d).pageId))
    .pagesDropped

/- Note that a page does not hold the tag that is cached. -/
def noteNotStored (block page : Nat) (tag : Tag) : M Unit :=
  noteWhen
    (fun s => (s.flash.page block page).tag != tag)
    .tagNotStored

/-
  The loop of `uffs_BufFlush_Exist_With_BlockRecover` over
  the pages of the new block, from page `i` on.
-/
def recoverFrom
    (slot : Nat)
    (key : GroupKey)
    (bc newBc newBlock timeStamp : Nat) :
    Nat → Nat → Nat → M Recovery
| 0, i, sum =>
    pure { page := i, op := .noErr, succ := true, sum := sum }
| n + 1, i, sum => do
    let old ← getTag newBc i
    let tag := Tag.store key.type timeStamp old.dataLen
      key.serial key.parent i
    setTag newBc i tag
    match ← findBufInDirtyList slot i with
    | some d =>
        let b ← getBuf d
        let sum := if i = 0 then getDirOrFileNameSum b else sum
        let tag := Tag.store key.type timeStamp b.dataLen
          key.serial key.parent i
        setTag newBc i tag
        if b.dataLen = 0 || b.truncTail then
          -- the tail of a file that is being truncated
          if b.dataLen > 0 then
            let op ← flashWritePageCombine newBlock i d tag
            pure { page := i, op := op, succ := true, sum := sum }
          else do
            if !b.truncTail then
              noteDropped slot i
            pure
              { page := i, op := .noErr, succ := true, sum := sum }
        else
          let op ← flashWritePageCombine newBlock i d tag
          if op ≠ .noErr then
            pure
              { page := i, op := op, succ := false, sum := sum }
          else
            recoverFrom slot key bc newBc newBlock timeStamp n
              (i + 1) sum
    | none =>
        match ← findPageInBlockWithPageId bc i with
        | none =>
            -- end of last page, normal break
            noteDropped slot i
            pure
              { page := i, op := .noErr, succ := true, sum := sum }
        | some page =>
            match ← findBestPageInBlock bc page with
            | none =>
                pure
                  { page := i, op := .noErr, succ := false
                    sum := sum }
            | some page =>
                match ← recoverSource key bc page i with
                | none =>
                    pure
                      { page := i, op := .noErr, succ := false
                        sum := sum }
                | some (d, useCloneBuf) =>
                    setBuf d fun x =>
                      { x with
                        dataLen := min x.dataLen pgDataSize }
                    let b ← getBuf d
                    let sum :=
                      if i = 0 then getDirOrFileNameSum b
                      else sum
                    let tag := Tag.store key.type timeStamp
                      b.dataLen key.serial key.parent i
                    setTag newBc i tag
                    let op ← flashWritePageCombine newBlock i d tag
                    let _ ←
                      if useCloneBuf then bufFreeClone d
                      else bufPut d
                    if op ≠ .noErr then
                      pure
                        { page := i, op := op, succ := false
                          sum := sum }
                    else
                      recoverFrom slot key bc newBc newBlock
                        timeStamp n (i + 1) sum

/-
  Take the recovered pages off the dirty list, the pages
  from `i` on.
-/
def cleanDirtyFrom (slot : Nat) : Nat → Nat → M Unit
| 0, _ => pure ()
| n + 1, i => do
    match ← findBufInDirtyList slot i with
    | none => cleanDirtyFrom slot n (i + 1)
    | some d =>
        match ← breakFromDirty d with
        | .fail => cleanDirtyFrom slot n (i + 1)
        | .succ =>
            setBuf d fun b =>
              { b with mark := .valid, truncTail := false }
            moveNodeToHead d
            cleanDirtyFrom slot n (i + 1)

/- Make a node stand for the recovered block. -/
def TreeNode.recovered
    (n : TreeNode)
    (key : GroupKey)
    (newBlock sum : Nat) : TreeNode :=
  match key.type with
  | .dir => .dir newBlock sum key.parent key.serial
  | .file => .file newBlock sum key.parent key.serial n.len
  | .data => .data newBlock key.parent n.len key.serial
  | .resv => n

/-
  The end of `uffs_BufFlush_Exist_With_BlockRecover` when
  all pages are in the new block: swap the blocks of the two
  nodes and dispose of the old block.
-/
def recoverSucc
    (slot : Nat)
    (key : GroupKey)
    (node bc newNode newBlock sum : Nat)
    (badBlock : Bool) : M Unit := do
  cleanDirtyFrom slot pagesPerBlock 0
  setNode node fun n => n.recovered key newBlock sum
  let w ← getInfo bc
  setNode newNode fun n => n.setListBlock w.block
  if badBlock then
    badBlockProcessNode newNode
  else do
    if ← isThisBlockUsed bc then
      treeEraseIgnored newNode
    else
      noteNotBlank w.block .usedTakenForClean
    treeInsertToErasedListTail newNode

/-
  The end of `uffs_BufFlush_Exist_With_BlockRecover` when
  the old block could not be read: give up the new block.
-/
def recoverFail
    (bc newNode newBlock : Nat)
    (badBlock : Bool) : M Unit := do
  let w ← getInfo bc
  if badBlock then
    badBlockPendingRemove w.block
  blockInfoExpireAll bc
  setNode newNode fun n => n.setListBlock newBlock
  treeEraseIgnored newNode
  treeInsertToErasedListTail newNode

/-
  `uffs_BufFlush_Exist_With_BlockRecover` from the label
  `retry` on; `retry` is the jump back to the label.
-/
def recoverOnce
    (slot : Nat)
    (key : GroupKey)
    (node bc : Nat)
    (badBlock : Bool)
    (retry : M URet) : M URet := do
  let _ ← blockInfoLoadAll bc
  match ← treeGetErasedNode with
  | none => pure .fail
  | some newNode =>
      let newBlock := (← getNode newNode).listBlock
      match ← blockInfoGet newBlock with
      | none =>
          insertToErasedListHead newNode
          pure .fail
      | some newBc =>
          let _ ← blockInfoLoadAll newBc
          let timeStamp :=
            getNextBlockTimeStamp (← getBlockTimeStamp bc)
          let r ← recoverFrom slot key bc newBc newBlock
            timeStamp pagesPerBlock 0 0xFFFF
          if r.page ≠ pagesPerBlock then
            -- the tag of the last page may not be written
            blockInfoExpire newBc r.page
          if r.op.isBadBlock then
            badBlockProcessNode newNode
            blockInfoPut newBc
            retry
          else if r.op.haveErr then
            blockInfoPut newBc
            note .retryAfterError
            retry
          else if r.op = .eccOk then
            treeEraseIgnored newNode
            treeInsertToErasedListTail newNode
            blockInfoPut newBc
            retry
          else if r.succ then
            recoverSucc slot key node bc newNode newBlock
              r.sum badBlock
            blockInfoPut newBc
            pure .succ
          else
            recoverFail bc newNode newBlock badBlock
            blockInfoPut newBc
            pure .fail

/- `uffs_BufFlush_Exist_With_BlockRecover`, retries bounded -/
def recoverFuel
    (slot : Nat)
    (key : GroupKey)
    (node bc : Nat)
    (badBlock : Bool) : Nat → M URet
| 0 => recoverOnce slot key node bc badBlock Prog.diverge
| fuel + 1 =>
    recoverOnce slot key node bc badBlock
      (recoverFuel slot key node bc badBlock fuel)

/- The key and type of the first buffer of a dirty list. -/
def dirtyHeadKey (slot : Nat) : M GroupKey :=
  Prog.gets fun s =>
    let b := s.buf.entry ((s.buf.group slot).dirty.headD 0)
    { type := b.type, parent := b.parent, serial := b.serial }

/- Is this a node of the tree of another type? -/
def TreeNode.mismatch (n : TreeNode) (type : BlockType) :
    Bool :=
  match n with
  | .list _ _ _ _ => false
  | .dir _ _ _ _ => type != .dir
  | .file _ _ _ _ _ => type != .file
  | .data _ _ _ _ => type != .data

/- Where the data of a block starts in its file. -/
def dataStart (type : BlockType) (serial : Nat) : Nat :=
  if type = .file then
    0
  else
    (pagesPerBlock - 1) * pgDataSize +
      (serial - 1) * (pgDataSize * pagesPerBlock)

/-
  The end of a page of a block in its file; the head page of
  a FILE block holds no data.
-/
def pageEnd (type : BlockType) (start pageId : Nat) : Nat :=
  if type = .file then
    start + pageId * pgDataSize
  else
    start + (pageId + 1) * pgDataSize

/- The length of the file that a buffer is for. -/
def Tree.bufFileLen (t : Tree) (b : Buf) : Nat :=
  match t.findFileNode
      (if b.type = .file then b.serial else b.parent) with
  | none => 0
  | some n => (t.node n).len

/-
  Does a page of the block that follows the page of `b` hold
  data of the file?  While a truncation is running, data up
  to the length that is asked for counts.
-/
def Dev.dataBehind (s : Dev) (b : Buf) : Bool :=
  decide (b.pageId + 1 < pagesPerBlock) &&
    match s.watch.truncating with
    | some (start, remain) =>
        decide (pageEnd b.type start b.pageId < remain)
    | none =>
        decide (pageEnd b.type (dataStart b.type b.serial)
          b.pageId < s.tree.bufFileLen b)

/- Is there a truncate mark in the group below such a page? -/
def Dev.marksStale (s : Dev) (slot : Nat) : Bool :=
  (s.buf.group slot).dirty.any fun d =>
    (s.buf.entry d).truncTail && s.dataBehind (s.buf.entry d)

/- Watch the truncate marks of a group that is recovered. -/
def watchMarks (slot : Nat) : M Unit :=
  Prog.modify fun s =>
    { s with
      watch := { s.watch with
        staleMark := s.watch.staleMark || s.marksStale slot } }

/- `uffs_BufFlush_Exist_With_BlockRecover` -/
def bufFlushExistWithBlockRecover
    (slot node bc : Nat)
    (badBlock : Bool) : M URet := do
  watchMarks slot
  let key ← dirtyHeadKey slot
  if (← getNode node).mismatch key.type then
    note .mixedGroup
  recoverFuel slot key node bc badBlock Platform.fuel

------------------------------------------------------------
-- Flushing to a New Block
------------------------------------------------------------

/- `_BufFlush_NewBlock` -/
def bufFlushNewBlock (slot : Nat) : M URet := do
  match ← treeGetErasedNode with
  | none => pure .fail
  | some node =>
      match ← blockInfoGet (← getNode node).listBlock with
      | none =>
          insertToErasedListHead node
          pure .fail
      | some bc =>
          let key ← dirtyHeadKey slot
          match ← bufFlushExistWithBlockRecover slot node bc
              false with
          | .succ =>
              insertNodeToTree key.type node
              blockInfoPut bc
              pure .succ
          | .fail =>
              let w ← getInfo bc
              setNode node fun n => n.setListBlock w.block
              treeEraseIgnored node
              treeInsertToErasedListTail node
              blockInfoPut bc
              pure .fail

------------------------------------------------------------
-- Flushing into Free Pages
------------------------------------------------------------

/- The first erased page from `page` on, or the block size. -/
def findErasedPageFrom (bc : Nat) : Nat → Nat → M Nat
| 0, page => pure page
| n + 1, page => do
    if ← isPageErased bc page then
      pure page
    else
      findErasedPageFrom bc n (page + 1)

/-
  The loop of `uffs_BufFlush_Exist_With_Enough_FreePage`
  from `page` on.  The result is `none` at the end of the
  loop and the return value after `goto ext`.
-/
def enoughFrom
    (slot node bc : Nat) : Nat → Nat → M (Option URet)
| 0, _ => pure none
| n + 1, page => do
    let g ← getGroup slot
    if page ≥ pagesPerBlock ∨ g.count ≤ 0 then
      pure none
    else do
      let page ← findErasedPageFrom bc (pagesPerBlock - page) page
      if page ≥ pagesPerBlock then
        pure none
      else do
        match ← findMinimunPageIdFromDirtyList slot with
        | none => pure (some .fail)
        | some d =>
            let b ← getBuf d
            let blockTs ← getBlockTimeStamp bc
            let tag := Tag.store b.type blockTs b.dataLen
              b.serial b.parent b.pageId
            setTag bc page tag
            let w ← getInfo bc
            let x ← flashWritePageCombine w.block page d tag
            noteNotStored w.block page tag
            if x = .ioErr then
              pure (some .fail)
            else if x = .badBlk then do
              let ret ← bufFlushExistWithBlockRecover slot node
                bc true
              pure (some ret)
            else do
              if x.haveErr then
                note .failureTakenForSuccess
              match ← breakFromDirty d with
              | .succ =>
                  setBuf d fun b => { b with mark := .valid }
                  moveNodeToHead d
                  enoughFrom slot node bc n (page + 1)
              | .fail => enoughFrom slot node bc n (page + 1)

/- `uffs_BufFlush_Exist_With_Enough_FreePage` -/
def bufFlushExistWithEnoughFreePage
    (slot node bc : Nat) : M URet := do
  match ← enoughFrom slot node bc pagesPerBlock 1 with
  | some ret => pure ret
  | none =>
      let g ← getGroup slot
      if !g.dirty.isEmpty || g.count ≠ 0 then
        pure .fail
      else
        pure .succ

------------------------------------------------------------
-- Flushing a Group
------------------------------------------------------------

/- `_BufFlush` of a group whose block is in the tree -/
def bufFlushExist
    (slot node : Nat)
    (forceBlockRecover : Bool) : M URet := do
  match ← blockInfoGet (← getNode node).block with
  | none => pure .fail
  | some bc =>
      match ← blockInfoLoadAll bc with
      | .fail =>
          blockInfoPut bc
          pure .fail
      | .succ =>
          let n ← getFreePagesCount bc
          let g ← getGroup slot
          let ret ←
            if (n : Int) ≥ g.count && !forceBlockRecover then
              bufFlushExistWithEnoughFreePage slot node bc
            else
              bufFlushExistWithBlockRecover slot node bc false
          blockInfoPut bc
          pure ret

/- `_BufFlush` -/
def bufFlushSlot
    (forceBlockRecover : Bool)
    (slot : Nat) : M URet := do
  let g ← getGroup slot
  if g.count = 0 then
    pure .succ
  else do
    match ← checkDirtyList slot with
    | .fail => pure .fail
    | .succ =>
        let key ← dirtyHeadKey slot
        if key.type = .resv then
          pure .fail
        else do
          match ← findFromTree key.type key.parent key.serial with
          | none => bufFlushNewBlock slot
          | some node =>
              bufFlushExist slot node forceBlockRecover

/- `_FindMostDirtyGroup` -/
def BufPool.findMostDirtyGroup (p : BufPool) : Option Nat :=
  ((List.range dirtyGroups).foldl
    (fun (best : Option Nat × Int) i =>
      let g := p.group i
      if !g.dirty.isEmpty && g.lock = 0 && g.count > best.2 then
        (some i, g.count)
      else
        best)
    (none, 0)).1

/- `uffs_BufFlushMostDirtyGroup` -/
def bufFlushMostDirtyGroup : M URet := do
  let s ← Prog.get
  match s.buf.findMostDirtyGroup with
  | none => pure .succ
  | some slot => bufFlushSlot false slot

/- `uffs_BufFlushGroupEx` -/
def bufFlushGroupEx
    (parent serial : Nat)
    (forceBlockRecover : Bool) : M URet := do
  match ← bufFindGroupSlot parent serial with
  | none => pure .succ
  | some slot => bufFlushSlot forceBlockRecover slot

/- `uffs_BufFlushGroup` -/
def bufFlushGroup (parent serial : Nat) : M URet :=
  bufFlushGroupEx parent serial false

/- The loop of `uffs_BufFlushGroupMatchParent`. -/
def bufFlushMatchParentFrom
    (parent : Nat) : Nat → Nat → M URet
| 0, _ => pure .succ
| n + 1, slot => do
    let s ← Prog.get
    match (s.buf.group slot).dirty with
    | [] => bufFlushMatchParentFrom parent n (slot + 1)
    | i :: _ =>
        if (s.buf.entry i).parent = parent then
          match ← bufFlushSlot false slot with
          | .fail => pure .fail
          | .succ => bufFlushMatchParentFrom parent n (slot + 1)
        else
          bufFlushMatchParentFrom parent n (slot + 1)

/- `uffs_BufFlushGroupMatchParent` -/
def bufFlushGroupMatchParent (parent : Nat) : M URet :=
  bufFlushMatchParentFrom parent dirtyGroups 0

/- The loop of `uffs_BufFlushAll`. -/
def bufFlushAllFrom : Nat → Nat → M URet
| 0, _ => pure .succ
| n + 1, slot => do
    match ← bufFlushSlot false slot with
    | .fail => pure .fail
    | .succ => bufFlushAllFrom n (slot + 1)

/- `uffs_BufFlushAll` -/
def bufFlushAll : M URet :=
  bufFlushAllFrom dirtyGroups 0

/- `uffs_BufLockGroup` -/
def bufLockGroup (slot : Nat) : M Unit :=
  setGroup slot fun g => { g with lock := g.lock + 1 }

/- `uffs_BufUnLockGroup` -/
def bufUnLockGroup (slot : Nat) : M Unit :=
  setGroup slot fun g => { g with lock := g.lock - 1 }

------------------------------------------------------------
-- Page Buffers of the File Layer
------------------------------------------------------------

/- `_FindFreeBuf`, after a flush when there is none -/
def findFreeBufOrFlush : M (Option Nat) := do
  match ← findFreeBuf with
  | some i => pure (some i)
  | none =>
      let _ ← bufFlushMostDirtyGroup
      findFreeBuf

/- `uffs_BufNew` -/
def bufNew
    (type : BlockType)
    (parent serial pageId : Nat) : M (Option Nat) := do
  match ← bufGet parent serial pageId with
  | some i =>
      let b ← getBuf i
      if b.refCount ≤ 1 then
        setBuf i fun b => { b with dataLen := 0 }
      moveNodeToHead i
      pure (some i)
  | none =>
      match ← findFreeBufOrFlush with
      | none => pure none
      | some i =>
          setBuf i fun b =>
            { b with
              mark := .empty
              type := type
              parent := parent
              serial := serial
              pageId := pageId
              dataLen := 0
              refCount := b.refCount + 1
              data := List.replicate pgDataSize 0xFF }
          moveNodeToHead i
          pure (some i)

/-
  The part of `uffs_BufGetEx` that fills a free buffer from
  flash.
-/
def bufLoad
    (type : BlockType)
    (parent serial pageId : Nat)
    (noEcc : Bool)
    (node i : Nat) : M (Option Nat) := do
  let block := (← getNode node).block
  match ← blockInfoGet block with
  | none => pure none
  | some bc =>
      match ← findPageInBlockWithPageId bc pageId with
      | none =>
          blockInfoPut bc
          pure none
      | some page =>
          match ← findBestPageInBlock bc page with
          | none => pure none
          | some page =>
              blockInfoPut bc
              setBuf i fun b =>
                { b with
                  mark := .empty
                  type := type
                  parent := parent
                  serial := serial
                  pageId := pageId }
              let ret ← flashReadPage block page i noEcc
              let pending ← badBlockAddByFlashResult block ret
              if pending = some .markBad then
                pure none
              else if pending = none && ret.haveErr then
                pure none
              else do
                let tag ← getTag bc page
                setBuf i fun b =>
                  { b with
                    dataLen := tag.dataLen
                    mark := .valid
                    refCount := b.refCount + 1 }
                moveNodeToHead i
                pure (some i)

/- `uffs_BufGetEx`; `noEcc` is the flag `UO_NOECC` -/
def bufGetEx
    (type : BlockType)
    (node pageId : Nat)
    (noEcc : Bool) : M (Option Nat) := do
  if type = .resv then
    pure none
  else do
    let n ← getNode node
    match ← bufFind n.parent n.serial pageId with
    | some i =>
        setBuf i fun b => { b with refCount := b.refCount + 1 }
        pure (some i)
    | none =>
        match ← findFreeBufOrFlush with
        | none => pure none
        | some i =>
            bufLoad type n.parent n.serial pageId noEcc node i

/- The group slot that `uffs_BufWrite` puts a buffer in. -/
def bufWriteSlot (parent serial : Nat) : M (Option Nat) := do
  match ← bufFindGroupSlot parent serial with
  | some slot => pure (some slot)
  | none =>
      match ← bufFindFreeGroupSlot with
      | some slot => pure (some slot)
      | none =>
          match ← bufFlushMostDirtyGroup with
          | .fail => pure none
          | .succ => bufFindFreeGroupSlot

/-
  `uffs_BufWrite`; the source of the bytes is `data`, or
  zeros when the source passes `NULL`.
-/
def bufWrite
    (i : Nat)
    (data : List Byte)
    (ofs : Nat) : M URet := do
  let len := data.length
  if ofs + len > pgDataSize then
    pure .fail
  else do
    let b ← getBuf i
    match ← bufWriteSlot b.parent b.serial with
    | none => pure .fail
    | some slot =>
        setBuf i fun b =>
          { b with
            data := blit b.data ofs data
            dataLen :=
              if ofs + len > b.dataLen then ofs + len
              else b.dataLen }
        let g ← getGroup slot
        if i ∉ g.dirty then
          linkToDirtyList slot i
        let g ← getGroup slot
        if g.count ≥ dirtyBufMax then
          bufFlushGroup b.parent b.serial
        else
          pure .succ

/- `uffs_BufRead` -/
def bufRead (i ofs len : Nat) : M (List Byte) := do
  let b ← getBuf i
  let readSize :=
    if ofs ≥ pgDataSize then 0
    else if ofs + len ≥ pgDataSize then pgDataSize - ofs
    else len
  pure ((b.data.drop ofs).take readSize)

/- `uffs_BufMarkEmpty` -/
def bufMarkEmpty (i : Nat) : M Unit := do
  let b ← getBuf i
  if b.mark ≠ .empty && b.refCount = 0 then
    if b.mark = .dirty then
      let _ ← breakFromDirty i
    setBuf i fun b => { b with mark := .empty }

end Uffs
