import Uffs.Model.Device

/-
  `uffs_flash.c` and `uffs_blockinfo.c`, with the list of
  pending blocks (`uffs_badblock.c`) and the clone buffers
  (`uffs_buf.c`) that they use.

  The driver is the one of the emulator: it provides
  `ReadPage`, `WritePage` and `EraseBlock` and leaves the
  bad block mark and the check of an erased block to UFFS.
  Page write verification is on, the page CRC is off.

  Main declarations:
    * `flashReadPageTag`
    * `flashReadPage`
    * `flashWritePageCombine`
    * `flashEraseBlock`
    * `flashCheckErasedBlock`
    * `blockInfoGet`
    * `blockInfoLoad`
-/

namespace Uffs

variable [Platform]

------------------------------------------------------------
-- Pending Blocks
------------------------------------------------------------

/- The place of a block in the pending list. -/
def Pending.find (p : Pending) (block : Nat) : Option Nat :=
  (List.range p.count).find? fun i =>
    (p.slot i).block == block

/- `uffs_BadBlockAdd` -/
def Pending.add
    (p : Pending)
    (block : Nat)
    (mark : PendingMark) : Pending :=
  if p.blockInRecovery = block then
    p
  else
    match p.find block with
    | some i =>
        if (p.slot i).mark.toNat < mark.toNat then
          { p with
            slot := upd p.slot i
              { block := (p.slot i).block, mark := mark } }
        else
          p
    | none =>
        if p.count ≥ maxPendingBlocks then
          p
        else
          { p with
            count := p.count + 1
            slot := upd p.slot p.count
              { block := block, mark := mark } }

/- `uffs_BadBlockAdd` -/
def badBlockAdd (block : Nat) (mark : PendingMark) : M Unit :=
  Prog.modify fun s =>
    { s with pending := s.pending.add block mark }

/- The mark that a flash result asks for, if any. -/
def pendingType (ret : FlashRet) : Option PendingMark :=
  if ret = .eccOk then
    some .refresh
  else if ret.isNonRecoverBadBlock then
    some .markBad
  else if ret.isBadBlock then
    some .recover
  else
    none

/- `uffs_BadBlockAddByFlashResult` -/
def badBlockAddByFlashResult
    (block : Nat)
    (ret : FlashRet) : M (Option PendingMark) := do
  match pendingType ret with
  | some mark =>
      badBlockAdd block mark
      pure (some mark)
  | none => pure none

/- `uffs_BadBlockPendingNodeGet` -/
def badBlockPendingNodeGet
    (block : Nat) : M (Option PendingBlock) :=
  Prog.gets fun s =>
    (s.pending.find block).map s.pending.slot

/- `uffs_BadBlockPendingRemove` -/
def Pending.remove (p : Pending) (block : Nat) : Pending :=
  match p.find block with
  | some i =>
      { p with
        count := p.count - 1
        slot := fun j =>
          if i ≤ j ∧ j < p.count - 1 then
            p.slot (j + 1)
          else
            p.slot j }
  | none => p

/- `uffs_BadBlockPendingRemove` -/
def badBlockPendingRemove (block : Nat) : M Unit :=
  Prog.modify fun s =>
    { s with pending := s.pending.remove block }

/- `HAVE_BADBLOCK` -/
def haveBadBlock : M Bool :=
  Prog.gets fun s => decide (0 < s.pending.count)

------------------------------------------------------------
-- Clone and Spare Buffers
------------------------------------------------------------

/- `uffs_BufClone` of `NULL` -/
def bufClone : M (Option Nat) := do
  let s ← Prog.get
  match s.buf.clone with
  | [] => pure none
  | i :: rest =>
      Prog.modify fun s =>
        { s with buf := { s.buf with clone := rest } }
      setBuf i fun b => { b with refCount := cloneBufMark }
      pure (some i)

/- `uffs_BufFreeClone` -/
def bufFreeClone (i : Nat) : M URet := do
  let b ← getBuf i
  if b.refCount ≠ cloneBufMark then
    pure .fail
  else do
    setBuf i fun b => { b with refCount := 0, mark := .empty }
    Prog.modify fun s =>
      { s with buf := { s.buf with clone := i :: s.buf.clone } }
    pure .succ

/- `uffs_PoolGet` on the spare pool -/
def spareGet : M Bool := do
  let s ← Prog.get
  if s.spareFree = 0 then
    pure false
  else do
    Prog.modify fun s => { s with spareFree := s.spareFree - 1 }
    pure true

/- `uffs_PoolPut` on the spare pool -/
def sparePut : M Unit :=
  Prog.modify fun s => { s with spareFree := s.spareFree + 1 }

------------------------------------------------------------
-- Reading
------------------------------------------------------------

/- Remember whether the tag of a page could be read. -/
def watchTag (block page : Nat) (failed : Bool) : M Unit :=
  Prog.modify fun s =>
    { s with
      watch := { s.watch with
        tagFailed := upd s.watch.tagFailed block
          (upd (s.watch.tagFailed block) page failed) } }

/-
  `uffs_FlashReadPageTag`.  A failing read leaves garbage in
  the tag; the tag of an unsealed page is not ECC decoded.
-/
def flashReadPageTag
    (block page : Nat)
    (tag : Tag) : M (FlashRet × Tag) := do
  if !(← spareGet) then
    pure (.unknownErr, tag)
  else do
    let a ← nextAnswer
    let s ← Prog.get
    let stored := (s.flash.page block page).tag
    let ret := if stored.sealed then a.ret else a.ret.raw
    sparePut
    if ret.haveErr then do
      watchTag block page true
      pure (ret, (a.junk page).tag)
    else
      pure (ret, stored)

/-
  `uffs_FlashReadPage`.  Without ECC a flipped bit goes
  unnoticed and the raw bytes come back.
-/
def flashReadPage
    (block page buf : Nat)
    (skipEcc : Bool) : M FlashRet := do
  if !(← spareGet) then
    pure .unknownErr
  else do
    let a ← nextAnswer
    let s ← Prog.get
    let ret := if skipEcc then a.ret.raw else a.ret
    let data :=
      if ret.haveErr || (skipEcc && a.ret ≠ .noErr) then
        (a.junk page).data
      else
        (s.flash.page block page).data
    setBuf buf fun b => { b with data := data }
    sparePut
    pure ret

/- `uffs_LoadMiniHeader`: the status byte -/
def loadMiniHeader
    (block page : Nat) : M (Option Nat) := do
  let a ← nextAnswer
  let s ← Prog.get
  if a.ret.raw.haveErr then
    pure none
  else
    pure (some (s.flash.page block page).status)

/- The driver's check of the status byte of one page. -/
def readBadMark (block : Nat) : M Bool := do
  let a ← nextAnswer
  let s ← Prog.get
  pure (a.ret = .badBlk || (a.ret = .noErr && s.flash.bad block))

/- `uffs_FlashIsBadBlock` -/
def flashIsBadBlock (block : Nat) : M Bool := do
  if ← readBadMark block then
    pure true
  else
    readBadMark block

------------------------------------------------------------
-- Writing
------------------------------------------------------------

/-
  The driver's `WritePage`.  A write without an error has
  programmed the page; a failing one may have left anything
  or nothing.
-/
def driverWritePage
    (block page : Nat)
    (content : Page) : M FlashRet := do
  let a ← nextAnswer
  let left :=
    if !a.ret.haveErr then some content
    else if a.done then some (a.junk page)
    else none
  medium (.program block page a.ret left)
  if left.isSome then
    watchTag block page false
  pure a.ret

/-
  The read back of `CONFIG_PAGE_WRITE_VERIFY`: is the block
  bad after all?
-/
def verifyPageData
    (block page : Nat)
    (data : List Byte) : M Bool := do
  match ← bufClone with
  | none => pure false
  | some v =>
      let ret ← flashReadPage block page v false
      let b ← getBuf v
      let ret :=
        if !ret.haveErr && b.data ≠ data then
          FlashRet.badBlk
        else
          ret
      let _ ← bufFreeClone v
      pure ret.isBadBlock

/- `uffs_FlashWritePageCombine` -/
def flashWritePageCombine
    (block page buf : Nat)
    (tag : Tag) : M FlashRet := do
  if !(← spareGet) then
    pure .unknownErr
  else do
    let b ← getBuf buf
    let ret ← driverWritePage block page
      { status := 0, data := b.data, tag := tag }
    if ret.haveErr then do
      sparePut
      pure (if ret.isBadBlock then .badBlk else ret)
    else do
      let isBad ← verifyPageData block page b.data
      let (ret, chk) ← flashReadPageTag block page tag
      let ret :=
        if !ret.haveErr &&
            { chk with sealed := true } ≠
              { tag with sealed := true } then
          FlashRet.badBlk
        else
          ret
      sparePut
      -- a failing tag read leaves before the last bad block test
      if isBad || (ret = .badBlk) then
        pure .badBlk
      else
        pure ret

------------------------------------------------------------
-- Block Info Cache
------------------------------------------------------------

/- `uffs_BlockInfoFindInCache` -/
def blockInfoFindInCache (block : Nat) : M (Option Nat) := do
  let s ← Prog.get
  match s.bc.list.find? fun i =>
      (s.bc.info i).block == block with
  | none => pure none
  | some i =>
      setInfo i fun w => { w with refCount := w.refCount + 1 }
      pure (some i)

/- `_MoveBcToTail` -/
def moveBcToTail (i : Nat) : M Unit :=
  Prog.modify fun s =>
    { s with
      bc := { s.bc with list := s.bc.list.erase i ++ [i] } }

/- `uffs_BlockInfoGet` -/
def blockInfoGet (block : Nat) : M (Option Nat) := do
  match ← blockInfoFindInCache block with
  | some i =>
      moveBcToTail i
      pure (some i)
  | none =>
      let s ← Prog.get
      match s.bc.list.find? fun i =>
          (s.bc.info i).refCount == 0 with
      | none => pure none
      | some i =>
          setInfo i fun w =>
            { block := block
              spares := fun p =>
                { w.spares p with expired := true }
              expiredCount := pagesPerBlock
              refCount := 1 }
          moveBcToTail i
          pure (some i)

/- `uffs_BlockInfoPut` -/
def blockInfoPut (i : Nat) : M Unit :=
  setInfo i fun w => { w with refCount := w.refCount - 1 }

/- The number of pages of a block whose tag has not expired. -/
def BlockInfo.freshCount (w : BlockInfo) : Nat :=
  (List.range pagesPerBlock).countP fun p =>
    !(w.spares p).expired

/- `uffs_BlockInfoExpire` of `UFFS_ALL_PAGES` -/
def blockInfoExpireAll (i : Nat) : M Unit :=
  setInfo i fun w =>
    { w with
      spares := fun p => { w.spares p with expired := true }
      expiredCount := w.expiredCount + w.freshCount }

/- `uffs_BlockInfoExpire` of one page -/
def blockInfoExpire (i page : Nat) : M Unit :=
  setInfo i fun w =>
    if page < pagesPerBlock ∧ !(w.spares page).expired then
      { w with
        spares := upd w.spares page
          { w.spares page with expired := true }
        expiredCount := w.expiredCount + 1 }
    else
      w

/- `uffs_BlockInfoInitErased` -/
def blockInfoInitErased (i : Nat) : M Unit :=
  setInfo i fun w =>
    { w with
      spares := fun _ => { tag := Tag.erased, expired := false }
      expiredCount := 0 }

/- Keep the tag of one page as read. -/
def BlockInfo.refresh
    (w : BlockInfo)
    (page : Nat)
    (tag : Tag) : BlockInfo :=
  { w with
    spares := upd w.spares page { tag := tag, expired := false }
    expiredCount := w.expiredCount - 1 }

/- `uffs_BlockInfoLoad` of one page -/
def blockInfoLoad (i page : Nat) : M URet := do
  if page ≥ pagesPerBlock then
    pure .fail
  else do
    let w ← getInfo i
    if !(w.spares page).expired then
      pure .succ
    else do
      let (ret, tag) ←
        flashReadPageTag w.block page (w.spares page).tag
      let _ ← badBlockAddByFlashResult w.block ret
      if ret.haveErr then do
        setTag i page tag
        pure .fail
      else do
        setInfo i fun w => w.refresh page tag
        pure .succ

/-
  The loop of `uffs_BlockInfoLoad` over the pages from
  `page` on; it returns the number of pages that failed.
-/
def blockInfoLoadFrom
    (i : Nat) : Nat → Nat → Nat → M Nat
| 0, _, nfailed => pure nfailed
| n + 1, page, nfailed => do
    let w ← getInfo i
    if !(w.spares page).expired then
      blockInfoLoadFrom i n (page + 1) nfailed
    else do
      let (ret, tag) ←
        flashReadPageTag w.block page (w.spares page).tag
      let _ ← badBlockAddByFlashResult w.block ret
      if ret.haveErr then do
        setInfo i fun w =>
          w.refresh page { tag with valid := 1 }
        blockInfoLoadFrom i n (page + 1) (nfailed + 1)
      else do
        setInfo i fun w => w.refresh page tag
        blockInfoLoadFrom i n (page + 1) nfailed

/- `uffs_BlockInfoLoad` of `UFFS_ALL_PAGES` -/
def blockInfoLoadAll (i : Nat) : M URet := do
  let nfailed ← blockInfoLoadFrom i pagesPerBlock 0 0
  pure (if nfailed > 0 then .fail else .succ)

------------------------------------------------------------
-- Erasing
------------------------------------------------------------

/-
  The driver's `EraseBlock`.  A failing erase may have left
  anything or nothing.
-/
def driverEraseBlock (block : Nat) : M FlashRet := do
  let a ← nextAnswer
  let left :=
    if !a.ret.haveErr then some fun _ => Page.erased pgDataSize
    else if a.done then some a.junk
    else none
  medium (.erase block a.ret left)
  Prog.modify fun s =>
    { s with
      watch := { s.watch with
        lastErase := upd s.watch.lastErase block a.ret
        tagFailed :=
          if left.isSome then
            upd s.watch.tagFailed block fun _ => false
          else s.watch.tagFailed } }
  pure a.ret

/- Expire what the cache holds of a block. -/
def expireCached (block : Nat) : M Unit := do
  match ← blockInfoFindInCache block with
  | none => pure ()
  | some i =>
      blockInfoExpireAll i
      blockInfoPut i

/- `uffs_FlashEraseBlock` -/
def flashEraseBlock (block : Nat) : M FlashRet := do
  badBlockPendingRemove block
  let ret ← driverEraseBlock block
  expireCached block
  pure ret

/-
  `uffs_FlashMarkBadBlock`: erase the block, then have the
  driver write its bad block mark.
-/
def flashMarkBadBlock (block : Nat) : M Unit := do
  badBlockPendingRemove block
  expireCached block
  let _ ← driverEraseBlock block
  let a ← nextAnswer
  if !a.ret.haveErr || a.done then
    medium (.markBad block)

/- Does every page of a block read as all 0xFF? -/
def Flash.ErasedBlock (F : Flash) (block : Nat) : Prop :=
  F.bad block = false ∧
    ∀ page < pagesPerBlock,
      F.page block page = Page.erased pgDataSize

instance (F : Flash) (block : Nat) :
    Decidable (F.ErasedBlock block) :=
  inferInstanceAs (Decidable (_ ∧ _))

/- An erased block whose last erase reported no error. -/
def Dev.Blank (s : Dev) (block : Nat) : Prop :=
  s.flash.ErasedBlock block ∧
    (s.watch.lastErase block).haveErr = false

instance (s : Dev) (block : Nat) : Decidable (s.Blank block) :=
  inferInstanceAs (Decidable (_ ∧ _))

/- Note that a block is taken for clean that may not be. -/
def noteNotBlank (block : Nat) (n : Note) : M Unit := do
  let s ← Prog.get
  if ¬ s.Blank block then
    note n

/-
  The loop of `uffs_FlashCheckErasedBlock` over the pages
  from `page` on.  An I/O error leaves a page unchecked.
-/
def flashCheckErasedFrom
    (block buf : Nat) : Nat → Nat → M URet
| 0, _ => pure .succ
| n + 1, page => do
    let a ← nextAnswer
    let s ← Prog.get
    let erased := Page.erased pgDataSize
    let content :=
      if a.ret.haveErr then a.junk page
      else s.flash.page block page
    setBuf buf fun b => { b with data := content.data }
    if a.ret ≠ .ioErr ∧
        (content ≠ erased ∨ s.flash.bad block) then
      pure .fail
    else do
      if s.flash.page block page ≠ erased ∨
          s.flash.bad block then
        note .pageNotChecked
      flashCheckErasedFrom block buf n (page + 1)

/- Note that a block is used without a check. -/
def noteUnchecked (block : Nat) : M Unit := do
  let s ← Prog.get
  if ¬ s.flash.ErasedBlock block then
    note .pageNotChecked

/- `uffs_FlashCheckErasedBlock` -/
def flashCheckErasedBlock (block : Nat) : M URet := do
  if !(← spareGet) then
    noteUnchecked block
    pure .succ
  else do
    match ← bufClone with
    | none =>
        sparePut
        noteUnchecked block
        pure .succ
    | some i =>
        let ret ← flashCheckErasedFrom block i pagesPerBlock 0
        sparePut
        let _ ← bufFreeClone i
        pure ret

end Uffs
