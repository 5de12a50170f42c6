import Uffs.Model.Build

/-
  The file layer (`uffs_fs.c`) over one device that is
  mounted at "/".

  Objects are passed and returned by value; the pool of
  objects (`_object_pool`) matters only to the functions
  that take objects from it, which get the list of the
  objects that are in use.

  Main declarations:
    * `Obj`
    * `openObject`, `createObject`, `closeObject`
    * `writeObject`, `readObject`, `seekObject`
    * `truncateObject`, `flushObject`
    * `deleteObject`, `renameObject`
    * `getObjectInfo`
-/

namespace Uffs

variable [Platform]

------------------------------------------------------------
-- Objects
------------------------------------------------------------

/- `UE*` -/
inductive UErr where
| noErr
| acces
| exist
| inval
| mfile
| noent
| badf
| nomem
| ioerr
| notdir
| isdir
| unknown
deriving DecidableEq, Repr

/- `UO_*`; no flag at all is `UO_RDONLY` -/
structure OFlag where
  wronly : Bool := false
  rdwr : Bool := false
  append : Bool := false
  create : Bool := false
  trunc : Bool := false
  excl : Bool := false
  noEcc : Bool := false
  dir : Bool := false
deriving DecidableEq, Repr

/- `UO_RDONLY` -/
def OFlag.rdonly : OFlag := {}

/- `uffs_ObjectSt`; `dev` tells whether `obj->dev` is set -/
structure Obj where
  name : List Byte
  sum : Nat
  dev : Bool
  oflag : OFlag
  type : BlockType
  headPages : Nat
  parent : Nat
  node : Option Nat
  serial : Nat
  err : UErr
  pos : Nat
  openSucc : Bool
deriving DecidableEq, Repr

/- An object as `uffs_ReInitObject` leaves it. -/
def Obj.zero : Obj where
  name := []
  sum := 0
  dev := false
  oflag := OFlag.rdonly
  type := .dir
  headPages := 0
  parent := 0
  node := none
  serial := 0
  err := .noErr
  pos := 0
  openSucc := false

/- `obj->err == UENOERR ? U_SUCC : U_FAIL` -/
def Obj.ret (obj : Obj) : URet :=
  if obj.err = .noErr then .succ else .fail

/- `uffs_PutDevice` -/
def putDevice : M Unit :=
  Prog.modify fun s => { s with refCount := s.refCount - 1 }

/- `do_ReleaseObjectResource` -/
def doReleaseObjectResource (obj : Obj) : M Obj := do
  if obj.dev then do
    recoverIfPending
    putDevice
    pure { obj with dev := false, openSucc := false }
  else
    pure obj

------------------------------------------------------------
-- Flushing an Object
------------------------------------------------------------

/- `do_FlushObject` -/
def doFlushObject (obj : Obj) : M URet := do
  match obj.node with
  | none => pure .succ
  | some node =>
      let n ← getNode node
      if obj.type = .dir then
        bufFlushGroup n.parent n.serial
      else do
        match ← bufFlushGroupMatchParent n.serial with
        | .fail => pure .fail
        | .succ =>
            let n ← getNode node
            bufFlushGroup n.parent n.serial

/- `uffs_FlushObject` -/
def flushObject (obj : Obj) : M (URet × Obj) := do
  if !obj.dev || !obj.openSucc then
    let obj := { obj with err := .badf }
    pure (obj.ret, obj)
  else do
    match ← doFlushObject obj with
    | .succ => pure (obj.ret, obj)
    | .fail =>
        let obj := { obj with err := .ioerr }
        pure (obj.ret, obj)

/- `uffs_CloseObject` -/
def closeObject (obj : Obj) : M (URet × Obj) := do
  if !obj.dev || !obj.openSucc then
    let obj ← doReleaseObjectResource { obj with err := .badf }
    pure (obj.ret, obj)
  else do
    if obj.oflag.wronly || obj.oflag.rdwr || obj.oflag.append ||
        obj.oflag.create || obj.oflag.trunc then
      let _ ← doFlushObject obj
    let obj ← doReleaseObjectResource obj
    pure (obj.ret, obj)

------------------------------------------------------------
-- Offsets
------------------------------------------------------------

/- `GetFdnByOfs` -/
def getFdnByOfs (headPages ofs : Nat) : Nat :=
  if ofs < headPages * pgDataSize then
    0
  else
    ((ofs - headPages * pgDataSize) /
      (pgDataSize * pagesPerBlock) + 1) % 65536

/- `GetStartOfDataBlock` -/
def getStartOfDataBlock (headPages fdn : Nat) : Nat :=
  if fdn = 0 then
    0
  else
    headPages * pgDataSize +
      (fdn - 1) * (pgDataSize * pagesPerBlock)

------------------------------------------------------------
-- Writing
------------------------------------------------------------

/-
  The loop of `do_WriteNewBlock` over the pages from
  `pageId` on; it returns the number of bytes written.
-/
def writeNewBlockFrom
    (fnode parent serial : Nat) :
    Nat → Nat → List Byte → Nat → M Nat
| 0, _, _, wrote => pure wrote
| n + 1, pageId, rest, wrote => do
    let size := min rest.length pgDataSize
    if size = 0 then
      pure wrote
    else do
      match ← bufNew .data parent serial pageId with
      | none => pure wrote
      | some i =>
          let ret ← bufWrite i (rest.take size) 0
          let _ ← bufPut i
          match ret with
          | .fail => pure wrote
          | .succ =>
              setNode fnode fun x => x.setLen (x.len + size)
              writeNewBlockFrom fnode parent serial n
                (pageId + 1) (rest.drop size) (wrote + size)

/- `do_WriteNewBlock` -/
def doWriteNewBlock
    (fnode : Nat)
    (data : List Byte)
    (parent serial : Nat) : M Nat :=
  writeNewBlockFrom fnode parent serial pagesPerBlock 0 data 0

/- The key of the block `fdn` of a file, given its node. -/
def internalKey (n : TreeNode) (fdn : Nat) : GroupKey :=
  if fdn = 0 then
    { type := .file, parent := n.parent, serial := n.serial }
  else
    { type := .data, parent := n.parent, serial := fdn }

/-
  The loop of `do_WriteInternalBlock`; it returns the number
  of bytes written.
-/
def writeInternalFrom
    (obj : Obj)
    (fnode node : Nat)
    (key : GroupKey)
    (fdn : Nat) :
    Nat → Nat → List Byte → Nat → M Nat
| 0, _, _, wrote => pure wrote
| n + 1, blockOfs, rest, wrote => do
    let maxPageId :=
      if fdn = 0 then obj.headPages else pagesPerBlock - 1
    let pageId :=
      blockOfs / pgDataSize + if fdn = 0 then 1 else 0
    if rest.isEmpty || pageId > maxPageId then
      pure wrote
    else do
      let blockStart := getStartOfDataBlock obj.headPages fdn
      let pageOfs := blockOfs % pgDataSize
      let size := min rest.length (pgDataSize - pageOfs)
      let f ← getNode fnode
      let buf ←
        if f.len % pgDataSize = 0 ∧ blockOfs + blockStart = f.len
        then
          bufNew key.type key.parent key.serial pageId
        else
          bufGetEx key.type node pageId obj.oflag.noEcc
      match buf with
      | none => pure wrote
      | some i =>
          let ret ← bufWrite i (rest.take size) pageOfs
          let _ ← bufPut i
          match ret with
          | .fail => pure wrote
          | .succ =>
              setNode fnode fun x =>
                if blockStart + (blockOfs + size) > x.len then
                  x.setLen (blockStart + (blockOfs + size))
                else
                  x
              writeInternalFrom obj fnode node key fdn n
                (blockOfs + size) (rest.drop size) (wrote + size)

/- `do_WriteInternalBlock` -/
def doWriteInternalBlock
    (obj : Obj)
    (fnode node fdn : Nat)
    (data : List Byte)
    (blockOfs : Nat) : M Nat := do
  let n ← getNode node
  writeInternalFrom obj fnode node (internalKey n fdn) fdn
    data.length blockOfs data 0

/-
  The loop of `do_WriteObject` with the bytes `rest` still
  to be written at `start`; it returns the number of bytes
  left and the error code it sets, if any.
-/
def writeObjectFrom
    (obj : Obj)
    (fnode : Nat) :
    Nat → Nat → List Byte → M (Nat × Option UErr)
| 0, _, rest => pure (rest.length, none)
| n + 1, start, rest => do
    let f ← getNode fnode
    if rest.isEmpty || start > f.len then
      pure (rest.length, none)
    else do
      let fdn := getFdnByOfs obj.headPages start
      let blockStart := getStartOfDataBlock obj.headPages fdn
      if start = f.len ∧ fdn > 0 ∧ start = blockStart then
        let s ← Prog.get
        if s.tree.erasedCount < reservedFreeBlocks then
          pure (rest.length, none)
        else do
          let size ← doWriteNewBlock fnode rest f.serial fdn
          -- the previous block of the file is flushed first
          let f ← getNode fnode
          let _ ←
            if fdn > 1 then bufFlushGroup f.serial (fdn - 1)
            else bufFlushGroup f.parent f.serial
          let f ← getNode fnode
          let _ ← bufFlushGroup f.serial fdn
          if size = 0 then
            pure (rest.length, none)
          else
            writeObjectFrom obj fnode n
              ((start + size) % 2 ^ 32) (rest.drop size)
      else do
        let dnode ←
          if fdn = 0 then pure (some fnode)
          else treeFindDataNode f.serial fdn
        match dnode with
        | none => pure (rest.length, some .unknown)
        | some dnode =>
            let size ← doWriteInternalBlock obj fnode dnode fdn
              rest (start - blockStart)
            if size = 0 then
              pure (rest.length, none)
            else
              writeObjectFrom obj fnode n
                ((start + size) % 2 ^ 32) (rest.drop size)

/- `do_WriteObject` of `data` at `obj->pos` -/
def doWriteObject
    (obj : Obj)
    (fnode : Nat)
    (data : List Byte) : M (Nat × Obj) := do
  let (remain, err) ←
    writeObjectFrom obj fnode data.length obj.pos data
  pure (remain, { obj with err := err.getD obj.err })

/-
  `do_WriteObject` of `gap` zeros.  The length is an `int`:
  from 2^31 on it is negative and nothing is written.
-/
def doWriteZeros
    (obj : Obj)
    (fnode gap : Nat) : M (Int × Obj) := do
  if gap < 2 ^ 31 then
    let (remain, obj) ←
      doWriteObject obj fnode (List.replicate gap 0)
    pure (remain, obj)
  else
    pure ((gap : Int) - 2 ^ 32, obj)

/-
  The start of `uffs_WriteObject`: move to the end of the
  file or fill the gap behind it.  The flag tells whether
  the gap could be filled.
-/
def writeObjectSeek
    (obj : Obj)
    (fnode : Nat) : M (Bool × Obj) := do
  let f ← getNode fnode
  if obj.oflag.append then
    pure (true, { obj with pos := f.len })
  else if obj.pos > f.len then
    let pos := obj.pos
    let (remain, obj) ←
      doWriteZeros { obj with pos := f.len } fnode (pos - f.len)
    let obj :=
      { obj with pos := (((pos : Int) - remain) % 2 ^ 32).toNat }
    pure (decide (remain ≤ 0), obj)
  else
    pure (true, obj)

/-
  `uffs_WriteObject`; `data.length` is the argument `len`,
  an `int`.
-/
def writeObject
    (obj : Obj)
    (data : List Byte) : M (Nat × Obj) := do
  if !obj.dev || !obj.openSucc then
    pure (0, { obj with err := .badf })
  else if obj.type = .dir then
    pure (0, { obj with err := .acces })
  else if obj.oflag = OFlag.rdonly then
    pure (0, { obj with err := .acces })
  else do
    match obj.node with
    | none => Prog.diverge
    | some fnode =>
        let (filled, obj) ← writeObjectSeek obj fnode
        if !filled then do
          recoverIfPending
          pure (0, obj)
        else do
          let (remain, obj) ← doWriteObject obj fnode data
          let wrote := data.length - remain
          let obj :=
            { obj with pos := (obj.pos + wrote) % 2 ^ 32 }
          recoverIfPending
          pure (wrote, obj)

------------------------------------------------------------
-- Reading
------------------------------------------------------------

/-
  What a read leaves in `size` bytes of the caller when it
  copies `bytes`; `none` is a byte that is not written.
-/
def copied
    (bytes : List Byte)
    (size : Nat) : List (Option Byte) :=
  (List.range size).map fun k => bytes[k]?

/-
  The loop of `uffs_ReadObject` with `remain` bytes still to
  be read at `start`; it returns the bytes read and the
  error code it sets, if any.  A page whose tag has a length
  behind the end of the page counts bytes that
  `uffs_BufRead` does not copy.
-/
def readObjectFrom
    (obj : Obj)
    (fnode : Nat) :
    Nat → Nat → Nat → M (List (Option Byte) × Option UErr)
| 0, _, _ => pure ([], none)
| n + 1, start, remain => do
    let f ← getNode fnode
    if remain = 0 ∨ start ≥ f.len then
      pure ([], none)
    else do
      let fdn := getFdnByOfs obj.headPages start
      let dnode ←
        if fdn = 0 then pure (some fnode)
        else treeFindDataNode f.serial fdn
      match dnode with
      | none => pure ([], some .unknown)
      | some dnode =>
          let blockOfs := getStartOfDataBlock obj.headPages fdn
          let pageId :=
            (start - blockOfs) / pgDataSize +
              if fdn = 0 then 1 else 0
          match ← bufGetEx (if fdn = 0 then .file else .data)
              dnode (pageId % 65536) obj.oflag.noEcc with
          | none => pure ([], some .ioerr)
          | some i =>
              let pageOfs := start % pgDataSize
              let b ← getBuf i
              if pageOfs ≥ b.dataLen then do
                let _ ← bufPut i
                pure ([], none)
              else do
                let size :=
                  if remain + pageOfs > b.dataLen then
                    b.dataLen - pageOfs
                  else remain
                let bytes ← bufRead i pageOfs size
                let _ ← bufPut i
                let (more, err) ← readObjectFrom obj fnode n
                  ((start + size) % 2 ^ 32) (remain - size)
                pure (copied bytes size ++ more, err)

/-
  `uffs_ReadObject`: the bytes read, as many as the result
  says
-/
def readObject
    (obj : Obj)
    (len : Nat) : M (List (Option Byte) × Obj) := do
  if !obj.dev || !obj.openSucc then
    pure ([], { obj with err := .badf })
  else if obj.type = .dir then
    pure ([], { obj with err := .badf })
  else do
    match obj.node with
    | none => Prog.diverge
    | some fnode =>
        let f ← getNode fnode
        if obj.pos > f.len then
          pure ([], obj)
        else if obj.oflag.wronly then
          pure ([], { obj with err := .acces })
        else do
          let (bytes, err) ←
            readObjectFrom obj fnode len obj.pos len
          recoverIfPending
          pure (bytes,
            { obj with
              err := err.getD obj.err
              pos := (obj.pos + bytes.length) % 2 ^ 32 })

------------------------------------------------------------
-- Seeking
------------------------------------------------------------

/- `USEEK_*` -/
inductive Origin where
| cur
| set
| end
deriving DecidableEq, Repr

/-
  The position an offset is counted from.  The end is that
  of the file of the node, which a file that could not be
  opened does not have.
-/
def seekBase
    (obj : Obj)
    (origin : Origin) : M Nat :=
  match origin with
  | .cur => pure obj.pos
  | .set => pure 0
  | .end =>
      match obj.node with
      | none => Prog.diverge
      | some fnode => do
          let f ← getNode fnode
          pure f.len

/- The move of `uffs_SeekObject` to a position. -/
def Obj.moveTo (obj : Obj) (pos : Int) : Obj :=
  if pos < 0 then
    { obj with err := .inval }
  else
    { obj with pos := (pos % 2 ^ 32).toNat }

/- What `uffs_SeekObject` returns. -/
def Obj.offset (obj : Obj) : Int :=
  if obj.err = .noErr then (obj.pos : Int) else -1

/- `uffs_SeekObject` -/
def seekObject
    (obj : Obj)
    (offset : Int)
    (origin : Origin) : M (Int × Obj) := do
  if obj.type = .dir then
    let obj := { obj with err := .acces }
    pure (obj.offset, obj)
  else do
    let base ← seekBase obj origin
    let obj := obj.moveTo (base + offset)
    pure (obj.offset, obj)

------------------------------------------------------------
-- Truncating
------------------------------------------------------------

/- `eDRY_RUN` and `eREAL_RUN` -/
inductive RunOption where
| dryRun
| realRun
deriving DecidableEq, Repr

/-
  Is some buffer of the pages from `pageId` on held?
  (the dry run of `do_TruncateInternalWithBlockRecover`)
-/
def BufPool.heldFrom
    (p : BufPool)
    (parent serial : Nat) : Nat → Nat → Bool
| 0, _ => false
| n + 1, pageId =>
    match p.find parent serial pageId with
    | some i =>
        (p.entry i).refCount ≠ 0 ||
          p.heldFrom parent serial n (pageId + 1)
    | none => p.heldFrom parent serial n (pageId + 1)

/- Discard the buffers of the pages from `pageId` on. -/
def markEmptyFrom (parent serial : Nat) : Nat → Nat → M Unit
| 0, _ => pure ()
| n + 1, pageId => do
    match ← bufFind parent serial pageId with
    | none => pure ()
    | some i => bufMarkEmpty i
    markEmptyFrom parent serial n (pageId + 1)

/- `buf->data_len` of the last page after a truncation -/
def truncDataLen (remain : Nat) : Nat :=
  if remain = 0 then
    0
  else if remain % pgDataSize = 0 then
    pgDataSize
  else
    remain % pgDataSize

/- Watch the truncation whose flush is running. -/
def watchTruncation (w : Option (Nat × Nat)) : M Unit :=
  Prog.modify fun s =>
    { s with watch := { s.watch with truncating := w } }

/- Is a buffer in a dirty group? -/
def BufPool.linked (p : BufPool) (i : Nat) : Bool :=
  (List.range dirtyGroups).any fun slot =>
    decide (i ∈ (p.group slot).dirty)

/- Is a buffer of page `pageId` in a dirty group? -/
def BufPool.linksPage
    (p : BufPool)
    (i : Nat)
    (type : BlockType)
    (pageId : Nat) : Bool :=
  p.linked i && decide ((p.entry i).type = type) &&
    decide ((p.entry i).pageId = pageId)

/-
  The real run of `do_TruncateInternalWithBlockRecover` on
  the block of `node`.
-/
def truncateInternal
    (obj : Obj)
    (key : GroupKey)
    (node maxPageId blockStart remain : Nat) : M Obj := do
  let block := (← getNode node).block
  let pageId :=
    (remain - blockStart) / pgDataSize +
      if key.type = .file then 1 else 0
  if pageId > maxPageId then
    pure { obj with err := .unknown }
  else do
    let _ ← bufFlushGroup key.parent key.serial
    match ← bufGetEx key.type node pageId obj.oflag.noEcc with
    | none => pure { obj with err := .nomem }
    | some i =>
        -- just make this buf dirty
        let _ ← bufWrite i [] 0
        let slot ← bufFindGroupSlot key.parent key.serial
        match slot with
        | none => pure ()
        | some slot => bufLockGroup slot
        setBuf i fun b =>
          { b with
            dataLen := truncDataLen remain
            truncTail := true }
        let _ ← bufPut i
        markEmptyFrom key.parent key.serial
          (maxPageId - pageId) (pageId + 1)
        -- the flush is meant to write the last page
        noteWhen (fun s => !s.buf.linksPage i key.type pageId)
          .tailNotWritten
        watchTruncation (some (blockStart, remain))
        let _ ← bufFlushGroupEx key.parent key.serial true
        watchTruncation none
        noteWhen (fun s => s.buf.linked i) .tailNotWritten
        match slot with
        | none => pure ()
        | some slot => bufUnLockGroup slot
        match ← blockInfoGet block with
        | none => pure ()
        | some bc =>
            blockInfoExpireAll bc
            blockInfoPut bc
        pure obj

/- `do_TruncateInternalWithBlockRecover` -/
def doTruncateInternalWithBlockRecover
    (obj : Obj)
    (fnode fdn remain : Nat)
    (run : RunOption) : M Obj := do
  let f ← getNode fnode
  let node ←
    if fdn = 0 then pure (some fnode)
    else treeFindDataNode f.serial fdn
  match node with
  | none => pure { obj with err := .ioerr }
  | some node =>
      let n ← getNode node
      let key : GroupKey :=
        { type := if fdn = 0 then .file else .data
          parent := n.parent
          serial := n.serial }
      let maxPageId :=
        if fdn = 0 then obj.headPages else pagesPerBlock - 1
      match run with
      | .dryRun =>
          let s ← Prog.get
          if s.buf.heldFrom key.parent key.serial
              (maxPageId + 1) 0 then
            pure { obj with err := .exist }
          else
            pure obj
      | .realRun =>
          truncateInternal obj key node maxPageId
            (getStartOfDataBlock obj.headPages fdn) remain

/-
  Discard the buffers of a data block that is about to be
  removed; `false` when one of them is held.
-/
def discardBlockFrom
    (parent serial : Nat)
    (run : RunOption) : Nat → Nat → M Bool
| 0, _ => pure true
| n + 1, page => do
    match ← bufFind parent serial page with
    | none => discardBlockFrom parent serial run n (page + 1)
    | some i =>
        let b ← getBuf i
        if b.refCount ≠ 0 then
          pure false
        else do
          if run = .realRun then
            bufMarkEmpty i
          discardBlockFrom parent serial run n (page + 1)

/-
  Remove a whole data block from the tail of a file; the
  result tells whether the truncation may go on.
-/
def truncateBlock
    (obj : Obj)
    (fnode fdn blockStart : Nat)
    (run : RunOption) : M (Bool × Obj) := do
  match ← treeFindDataNode obj.serial fdn with
  | none => pure (false, { obj with err := .ioerr })
  | some node =>
      match ← blockInfoGet (← getNode node).block with
      | none => pure (false, { obj with err := .ioerr })
      | some bc =>
          let f ← getNode fnode
          if !(← discardBlockFrom f.serial fdn run
              pagesPerBlock 0) then do
            blockInfoPut bc
            pure (false, obj)
          else do
            if run = .realRun then
              breakFromEntry .data node
              let w ← getInfo bc
              setNode node fun x =>
                .list none none w.block x.listU
              treeEraseIgnored node
              treeInsertToErasedListTail node
              setNode fnode fun x => x.setLen blockStart
            blockInfoPut bc
            pure (true, obj)

/-
  The loop of `do_TruncateObject` down from `flen`.  A round
  that fails without leaving the loop is repeated for ever.
-/
def truncateFrom
    (fnode remain : Nat)
    (run : RunOption) :
    Nat → Nat → Obj → M (Bool × Obj)
| 0, flen, obj =>
    if flen ≤ remain then pure (true, obj) else Prog.diverge
| n + 1, flen, obj => do
    if flen ≤ remain then
      pure (true, obj)
    else do
      let fdn := getFdnByOfs obj.headPages (flen - 1)
      let blockStart := getStartOfDataBlock obj.headPages fdn
      if remain ≤ blockStart ∧ fdn > 0 then
        let (more, obj) ←
          truncateBlock obj fnode fdn blockStart run
        if more then
          truncateFrom fnode remain run n blockStart obj
        else
          pure (false, obj)
      else do
        let obj ← doTruncateInternalWithBlockRecover obj fnode
          fdn remain run
        match obj.ret with
        | .succ =>
            if run = .realRun then
              setNode fnode fun x => x.setLen remain
            truncateFrom fnode remain run n remain obj
        | .fail => truncateFrom fnode remain run n flen obj

/- `do_TruncateObject` -/
def doTruncateObject
    (obj : Obj)
    (remain : Nat)
    (run : RunOption) : M Obj := do
  let pos := obj.pos
  match obj.node with
  | none => pure { obj with err := .badf }
  | some fnode =>
      if !obj.dev || !obj.openSucc then
        pure { obj with err := .badf }
      else if obj.type = .dir then
        pure { obj with err := .exist }
      else do
        let f ← getNode fnode
        if f.len < remain then
          let obj ←
            match run with
            | .dryRun => pure obj
            | .realRun => do
                let (left, obj) ← doWriteZeros
                  { obj with pos := f.len } fnode (remain - f.len)
                pure
                  (if left > 0 then { obj with err := .ioerr }
                   else obj)
          recoverIfPending
          pure { obj with pos := pos }
        else do
          let (done, obj) ← truncateFrom fnode remain run
            (f.len - remain + Platform.fuel) f.len obj
          if done then
            recoverIfPending
          pure { obj with pos := pos }

/- A dry run and, when it succeeds, the real run. -/
def truncateTwice (obj : Obj) (remain : Nat) : M Obj := do
  let obj ← doTruncateObject obj remain .dryRun
  match obj.ret with
  | .fail => pure obj
  | .succ => doTruncateObject obj remain .realRun

/- `uffs_TruncateObject` -/
def truncateObject
    (obj : Obj)
    (remain : Nat) : M (URet × Obj) := do
  let obj ← truncateTwice obj remain
  let (_, obj) ← flushObject obj
  pure (obj.ret, obj)

------------------------------------------------------------
-- Creating
------------------------------------------------------------

/- The byte '/'. -/
def slash : Byte := 47

/- A name without an ending '/'. -/
def dropEndingSlash (name : List Byte) : List Byte :=
  if name.getLast? = some slash then name.dropLast else name

/- `uffs_TreeFindDirNode` or `uffs_TreeFindFileNode` -/
def treeFindFsNode
    (type : BlockType)
    (serial : Nat) : M (Option Nat) :=
  if type = .dir then treeFindDirNode serial
  else treeFindFileNode serial

/-
  The end of `uffs_CreateObjectEx`: create a DIR or FILE
  block under a free serial number.
-/
def createNew (obj : Obj) : M Obj := do
  match ← findFreeFsnSerial with
  | none =>
      pure
        { obj with serial := invalidUffsSerial, err := .nomem }
  | some serial =>
      let obj := { obj with serial := serial }
      let s ← Prog.get
      if s.tree.erasedCount < reservedFreeBlocks then
        pure { obj with err := .nomem }
      else do
        match ← bufNew obj.type obj.parent obj.serial 0 with
        | none => pure obj
        | some i =>
            let now ← getCurDateTime
            let fi : FileInfo :=
              { attr :=
                  if obj.type = .dir then 0x81 else 0x01
                createTime := now
                lastModify := now
                access := 0
                reserved := 0
                name := obj.name.take (maxFilenameLength - 1) }
            let _ ← bufWrite i fi.bytes 0
            let _ ← bufPut i
            let _ ← bufFlushGroup obj.parent obj.serial
            match ← treeFindFsNode obj.type obj.serial with
            | none =>
                pure { obj with node := none, err := .ioerr }
            | some node =>
                if obj.type = .file then
                  setNode node fun x => x.setLen 0
                recoverIfPending
                pure
                  { obj with node := some node, openSucc := true }

/-
  `uffs_CreateObjectEx`; it looks at the last byte of the
  name, and the name of the root directory is NULL.
-/
def createObjectEx
    (obj : Obj)
    (dir : Nat)
    (name : List Byte)
    (oflag : OFlag) : M (URet × Obj) := do
  let obj : Obj :=
    { obj with
      dev := true
      parent := dir
      type := if oflag.dir then .dir else .file
      name := if oflag.dir then dropEndingSlash name else name }
  if name = [] then
    Prog.diverge
  else if !oflag.dir && name.getLast? = some slash then
    let obj := { obj with err := .noent }
    pure (obj.ret, obj)
  else if obj.name = [] then
    let obj := { obj with err := .noent }
    pure (obj.ret, obj)
  else do
    let obj := { obj with sum := makeSum16 obj.name }
    if oflag.dir then
      match ← treeFindFileNodeByName obj.name obj.sum
          obj.parent with
      | some _ =>
          let obj := { obj with err := .exist }
          pure (obj.ret, obj)
      | none =>
          match ← treeFindDirNodeByName obj.name obj.sum
              obj.parent with
          | some node =>
              let obj :=
                { obj with node := some node, err := .exist }
              pure (obj.ret, obj)
          | none =>
              let obj ← createNew { obj with node := none }
              pure (obj.ret, obj)
    else
      match ← treeFindDirNodeByName obj.name obj.sum
          obj.parent with
      | some _ =>
          let obj := { obj with err := .exist }
          pure (obj.ret, obj)
      | none =>
          match ← treeFindFileNodeByName obj.name obj.sum
              obj.parent with
          | some node =>
              -- file already exists, truncate it to zero length
              let n ← getNode node
              let obj ← truncateTwice
                { obj with
                  node := some node
                  serial := n.serial
                  openSucc := true }
                0
              pure (obj.ret, obj)
          | none =>
              let obj ← createNew { obj with node := none }
              pure (obj.ret, obj)

------------------------------------------------------------
-- Opening
------------------------------------------------------------

/- `uffs_OpenObjectEx` -/
def openObjectEx
    (obj : Obj)
    (dir : Nat)
    (name : List Byte)
    (oflag : OFlag) : M (URet × Obj) := do
  let done := fun (obj : Obj) =>
    let obj := { obj with openSucc := decide (obj.err = .noErr) }
    (obj.ret, obj)
  let obj := { obj with err := .noErr, openSucc := false }
  if oflag.wronly && oflag.rdwr then
    pure (done { obj with err := .inval })
  else do
    let short :=
      if oflag.dir then dropEndingSlash name else name
    let obj : Obj :=
      { obj with
        oflag := oflag
        parent := dir
        type := if oflag.dir then .dir else .file
        pos := 0
        dev := true
        name := short
        sum := if short = [] then 0 else makeSum16 short
        headPages := pagesPerBlock - 1 }
    if oflag.dir && short = [] then
      if dir ≠ parentOfRoot then
        pure (done { obj with err := .inval })
      else
        pure (done { obj with serial := rootDirSerial })
    else do
      let obj : Obj :=
        if !oflag.dir &&
            (name = [] || name.getLast? = some slash) then
          { obj with err := .inval }
        else obj
      let found ←
        if oflag.dir then
          treeFindDirNodeByName obj.name obj.sum obj.parent
        else
          treeFindFileNodeByName obj.name obj.sum obj.parent
      match found with
      | none =>
          let obj := { obj with node := none }
          if oflag.create then
            if obj.name = [] then
              pure (done { obj with err := .exist })
            else do
              let (_, obj) ←
                createObjectEx obj dir obj.name oflag
              pure (done obj)
          else
            pure (done { obj with err := .noent })
      | some node =>
          let obj := { obj with node := some node }
          if oflag.create && oflag.excl then
            pure (done { obj with err := .exist })
          else do
            let n ← getNode node
            let obj :=
              { obj with serial := n.serial, openSucc := true }
            if oflag.trunc then
              let obj ← truncateTwice obj 0
              pure (done obj)
            else
              pure (done obj)

/-
  `GetDirLengthFromPath`: the place of the last '/' of a
  path, an ending '/' aside.
-/
def getDirLengthFromPath (path : List Byte) : Nat :=
  let path := dropEndingSlash path
  ((List.range path.length).reverse.find? fun i =>
    path[i]? == some slash).getD 0

/-
  The loop of `uffs_ParseObject` over the directories of a
  path: `used` bytes are parsed, `rest` is what follows.  It
  returns whether all directories are there, and the last
  one that is.
-/
def parseDirs
    (dLen : Nat) :
    Nat → Nat → List Byte → Nat → M (Bool × Nat)
| 0, _, _, dir => pure (true, dir)
| n + 1, used, rest, dir => do
    if used ≥ dLen then
      pure (true, dir)
    else do
      let part := rest.takeWhile fun c => c != slash
      match ← treeFindDirNodeByName part (makeSum16 part) dir with
      | none => pure (false, dir)
      | some node =>
          let d ← getNode node
          parseDirs dLen n (used + part.length + 1)
            (rest.drop (part.length + 1)) d.serial

/-
  The name that `uffs_ParseObject` takes from the path below
  a mount point.
-/
def nameOfPath (start : List Byte) : List Byte :=
  let dLen := getDirLengthFromPath start
  start.drop (if dLen > 0 then dLen + 1 else 0)

/- `uffs_ParseObject` of a path of a device mounted at "/" -/
def parseObject
    (obj : Obj)
    (path : List Byte) : M (URet × Obj) := do
  if obj.openSucc then
    pure (.fail, obj)
  else do
    let obj := Obj.zero
    match path with
    | [] => pure (.fail, { obj with err := .noent })
    | c :: start =>
        if c ≠ slash then
          pure (.fail, { obj with err := .noent })
        else do
          Prog.modify fun s =>
            { s with refCount := s.refCount + 1 }
          let obj := { obj with dev := true }
          if start = [] then
            pure (.succ, { obj with parent := parentOfRoot })
          else do
            let dLen := getDirLengthFromPath start
            let (found, dir) ←
              parseDirs dLen (dLen + 1) 0 start rootDirSerial
            let obj :=
              { obj with parent := dir, name := nameOfPath start }
            if found then
              pure (.succ, obj)
            else do
              putDevice
              pure (.fail,
                { obj with err := .noent, dev := false })

/- `uffs_OpenObject` -/
def openObject
    (obj : Obj)
    (path : List Byte)
    (oflag : OFlag) : M (URet × Obj) := do
  let (ret, obj) ← parseObject obj path
  let (ret, obj) ←
    match ret with
    | .succ => openObjectEx obj obj.parent obj.name oflag
    | .fail => pure (.fail, obj)
  match ret with
  | .succ => pure (.succ, obj)
  | .fail =>
      let obj ← doReleaseObjectResource obj
      pure (.fail, obj)

/- `uffs_CreateObject` -/
def createObject
    (obj : Obj)
    (path : List Byte)
    (oflag : OFlag) : M (URet × Obj) := do
  let (ret, obj) ← parseObject obj path
  let obj ←
    match ret with
    | .fail => pure obj
    | .succ => do
        let (_, obj) ← createObjectEx obj obj.parent obj.name
          { oflag with create := true }
        pure obj
  if obj.err = .noErr then
    pure (.succ, obj)
  else do
    if obj.dev then
      putDevice
    pure (.fail, { obj with dev := false })

------------------------------------------------------------
-- Deleting
------------------------------------------------------------

/-
  Empty the unheld buffers of one block; `false` when one is
  held (the loops of `_CheckObjBufRef`).
-/
def emptyBuffers
    (parent serial : Nat) : List Nat → M Bool
| [] => pure true
| i :: rest => do
    let b ← getBuf i
    if b.parent = parent ∧ b.serial = serial ∧
        b.mark ≠ .empty then
      if b.refCount > 0 then
        pure false
      else do
        if b.mark = .dirty then
          note .dirtyEmptied
        setBuf i fun b => { b with mark := .empty }
        emptyBuffers parent serial rest
    else
      emptyBuffers parent serial rest

/- Empty the buffers of the data blocks from `serial` on. -/
def emptyDataBuffers (parent : Nat) : Nat → Nat → M Bool
| 0, _ => pure true
| n + 1, serial => do
    let s ← Prog.get
    if ← emptyBuffers parent serial s.buf.list then
      emptyDataBuffers parent n (serial + 1)
    else
      pure false

/- The number of the last data block of a file. -/
def lastSerial (headPages : Nat) (n : TreeNode) : Nat :=
  if n.len > 0 then getFdnByOfs headPages (n.len - 1) else 0

/- `_CheckObjBufRef`: is no buffer of the object held? -/
def checkObjBufRef (obj : Obj) (node : Nat) : M Bool := do
  let s ← Prog.get
  if ← emptyBuffers obj.parent obj.serial s.buf.list then
    let n ← getNode node
    if obj.type = .file then
      emptyDataBuffers obj.serial (lastSerial obj.headPages n) 1
    else
      pure true
  else
    pure false

/- Erase the data blocks of a file from `serial` on. -/
def deleteDataFrom (parent : Nat) : Nat → Nat → M Unit
| 0, _ => pure ()
| n + 1, serial => do
    match ← treeFindDataNode parent serial with
    | none => deleteDataFrom parent n (serial + 1)
    | some d =>
        breakFromEntry .data d
        setNode d fun x => .list none none x.block x.listU
        treeEraseIgnored d
        treeInsertToErasedListTail d
        deleteDataFrom parent n (serial + 1)

/-
  The part of `uffs_DeleteObject` that takes the object out
  of the tree and erases its blocks.
-/
def deleteNode (obj : Obj) (node : Nat) : M Unit := do
  let n ← getNode node
  let last :=
    if obj.type = .file then lastSerial obj.headPages n else 0
  breakFromEntry obj.type node
  setNode node fun x => .list none none x.block x.listU
  treeEraseIgnored node
  -- no one may use the serial number again before the end
  setNode node fun x => x.setListU obj.serial
  treeSuspendAdd node
  deleteDataFrom obj.serial last 1
  treeRemoveSuspendNode node
  treeInsertToErasedListTail node

/-
  The part of `uffs_DeleteObject` after the object has been
  opened; `others` are the nodes of the other objects.
-/
def deleteOpened
    (obj : Obj)
    (others : List (Option Nat)) : M (URet × UErr) := do
  if others.any fun o => o.isSome && o == obj.node then
    pure (.fail, .acces)
  else do
    let busy ←
      if obj.type = .dir then do
        match ← treeFindDirNodeWithParent obj.serial with
        | some _ => pure true
        | none => do
            let f ← treeFindFileNodeWithParent obj.serial
            pure f.isSome
      else
        pure false
    if busy then
      pure (.fail, .acces)
    else do
      let _ ← bufFlushAll
      match obj.node with
      | none => Prog.diverge
      | some node =>
          if ← checkObjBufRef obj node then
            deleteNode obj node
            pure (.succ, .noErr)
          else
            pure (.fail, .acces)

/-
  `uffs_DeleteObject`; `others` are the nodes of the objects
  in use that are attached to the device.
-/
def deleteObject
    (path : List Byte)
    (used : Nat)
    (others : List (Option Nat)) : M (URet × UErr) := do
  if used ≥ maxObjectHandle then
    pure (.fail, .mfile)
  else do
    let (ret, obj) ← openObject Obj.zero path
      { rdwr := true, dir := true }
    let (ret, obj) ←
      match ret with
      | .succ => pure (ret, obj)
      | .fail => openObject obj path { rdwr := true }
    match ret with
    | .fail =>
        let _ ← doReleaseObjectResource obj
        pure (.fail, .noent)
    | .succ =>
        let r ← deleteOpened obj others
        let _ ← doReleaseObjectResource obj
        pure r

------------------------------------------------------------
-- Renaming
------------------------------------------------------------

/- The file header of a page with a new name in it. -/
def renameInfo
    (data name : List Byte)
    (now : Nat) : List Byte :=
  let fi := data.take fileInfoSize
  let fi := blit fi 24 (name ++ [0])
  let fi := blit fi 20 (le32 name.length)
  (blit fi 8 (le32 now)).take fileInfoSize

/-
  Is buffer `i` dirty, or is there another buffer of the
  page that it becomes by moving to a new parent?
-/
def BufPool.clashes
    (p : BufPool)
    (i newParent : Nat) : Bool :=
  (p.entry i).parent != newParent &&
    ((p.entry i).mark == .dirty ||
      (p.find newParent (p.entry i).serial
        (p.entry i).pageId).isSome)

/- `uffs_MoveObjectEx` -/
def moveObjectEx
    (obj : Obj)
    (newParent : Nat)
    (newName : List Byte) : M (URet × Obj) := do
  match obj.node with
  | none =>
      let obj := { obj with err := .badf }
      pure (obj.ret, obj)
  | some node =>
      if !obj.dev || !obj.openSucc then
        let obj := { obj with err := .badf }
        pure (obj.ret, obj)
      else do
        let obj := { obj with parent := newParent }
        let moved ←
          if newName = [] then
            pure (some obj)
          else do
            match ← bufGetEx obj.type node 0 obj.oflag.noEcc with
            | none => pure none
            | some i =>
                let b ← getBuf i
                let name := dropEndingSlash newName
                let now ← getCurDateTime
                let fi := renameInfo b.data name now
                -- the buffer moves to the new parent by hand
                noteWhen (fun s => s.buf.clashes i newParent)
                  .movedOnto
                setBuf i fun b => { b with parent := newParent }
                let _ ← bufWrite i fi 0
                let _ ← bufPut i
                let _ ←
                  bufFlushGroupEx obj.parent obj.serial true
                pure <| some
                  { obj with name := name, sum := makeSum16 name }
        match moved with
        | none =>
            let obj := { obj with err := .ioerr }
            pure (obj.ret, obj)
        | some obj =>
            setNode node fun n => n.setName obj.sum newParent
            pure (obj.ret, obj)

/-
  The part of `uffs_RenameObject` that opens and moves the
  object; `target` is the parsed new name.
-/
def renameTo
    (target : Obj)
    (oldPath : List Byte) : M (URet × UErr) := do
  let (ret, obj) ← openObject Obj.zero oldPath OFlag.rdonly
  let (ret, obj) ←
    match ret with
    | .succ => pure (ret, obj)
    | .fail => openObject obj oldPath { dir := true }
  match ret with
  | .fail => pure (.fail, .acces)
  | .succ =>
      let (ret, obj) ←
        moveObjectEx obj target.parent target.name
      let _ ← closeObject obj
      pure (ret, obj.err)

/- Does a path name a file or a directory? -/
def pathTaken (path : List Byte) : M (Bool × Obj) := do
  let (ret, obj) ← openObject Obj.zero path OFlag.rdonly
  match ret with
  | .succ =>
      let (_, obj) ← closeObject obj
      pure (true, obj)
  | .fail =>
      let (ret, obj) ← openObject obj path { dir := true }
      match ret with
      | .succ =>
          let (_, obj) ← closeObject obj
          pure (true, obj)
      | .fail => pure (false, obj)

/- `uffs_RenameObject` -/
def renameObject
    (oldPath newPath : List Byte)
    (used : Nat) : M (URet × UErr) := do
  if used + 2 > maxObjectHandle then
    pure (.fail, .inval)
  else do
    let (taken, target) ← pathTaken newPath
    if taken then do
      let _ ← doReleaseObjectResource target
      pure (.fail, .exist)
    else do
      let (ret, target) ← parseObject target newPath
      match ret with
      | .fail =>
          let _ ← doReleaseObjectResource target
          pure (.fail, .noent)
      | .succ =>
          if target.name = [] then do
            let _ ← doReleaseObjectResource target
            pure (.fail, .inval)
          else do
            let r ← renameTo target oldPath
            let _ ← doReleaseObjectResource target
            pure r

------------------------------------------------------------
-- Object Information
------------------------------------------------------------

/- `uffs_ObjectInfo`; `info` has the bytes of the file info -/
structure ObjectInfo where
  info : List Byte
  len : Nat
  serial : Nat
deriving DecidableEq, Repr

/- `_LoadObjectInfo` -/
def loadObjectInfo
    (node : Nat)
    (type : BlockType) : M (Option ObjectInfo) := do
  match ← bufGetEx type node 0 false with
  | none => pure none
  | some i =>
      let b ← getBuf i
      let n ← getNode node
      let _ ← bufPut i
      pure <| some
        { info := b.data.take fileInfoSize
          len := if type = .dir then 0 else n.len
          serial := n.serial }

/-
  `uffs_GetObjectInfo`.  The root directory has no node and
  its info is faked.
-/
def getObjectInfo
    (obj : Obj) : M (Option ObjectInfo × UErr) := do
  if !obj.dev then
    pure (none, .inval)
  else if obj.parent = parentOfRoot then
    pure
      (some
        { info := FileInfo.bytes ⟨0x81, 0, 0, 0, 0, []⟩
          len := 0
          serial := obj.serial }, .noErr)
  else
    match obj.node with
    | none => Prog.diverge
    | some node => do
        match ← loadObjectInfo node obj.type with
        | none => pure (none, .nomem)
        | some info => pure (some info, .noErr)

end Uffs
