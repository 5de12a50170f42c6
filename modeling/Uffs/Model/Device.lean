import Uffs.Lib.Prog
import Uffs.Model.Types

/-
  The state of a mounted device (`uffs_DeviceSt`) and what
  it runs on: geometry, partition, configuration and the
  answers of the flash driver.

  Pointers are indices: a page buffer, a block info and a
  tree node are named by their place in the pool that holds
  them.  The LRU lists, the dirty lists and the hash chains
  are lists of such indices, head first.  The erased, bad
  and suspend lists keep their `next` links inside the
  nodes, as in the source.

  Main declarations:
    * `Answer`
    * `Platform`
    * `Event`
    * `Buf`
    * `BlockInfo`
    * `TreeNode`
    * `Dev`
-/

namespace Uffs

------------------------------------------------------------
-- Platform
------------------------------------------------------------

/-
  What the driver (with the ECC decoding of
  `uffs_flash.c`) answers to one call.  `done` says whether
  a failing write or erase changed the medium all the same,
  and `junk` is what such a failure leaves on the medium or,
  for a failing read, in the caller's buffers.  `now` is the
  answer to `uffs_GetCurDateTime`.
-/
structure Answer where
  ret : FlashRet
  done : Bool
  junk : Nat → Page
  now : Nat

/-
  `uffs_StorageAttrSt`, `uffs_PartitionSt` and
  `uffs_ConfigSt` of a device that `uffs_InitDevice`
  accepts, and the answers of its driver, one for each
  call.  A flush follows at most `fuel` of its retry jumps.
-/
class Platform where
  pagesPerBlock : Nat
  pgDataSize : Nat
  parStart : Nat
  parEnd : Nat
  bcCaches : Nat
  pageBuffers : Nat
  dirtyPages : Nat
  dirtyGroups : Nat
  reservedFreeBlocks : Nat
  answer : Nat → Answer
  fuel : Nat
  two_le_pagesPerBlock : 2 ≤ pagesPerBlock
  pagesPerBlock_le : pagesPerBlock ≤ 64
  pgDataSize_pos : 0 < pgDataSize
  pgDataSize_le : pgDataSize ≤ 4095
  parStart_le_parEnd : parStart ≤ parEnd
  parEnd_lt : parEnd < 65534
  two_le_bcCaches : 2 ≤ bcCaches
  five_le_pageBuffers : 5 ≤ pageBuffers
  dirtyPages_pos : 0 < dirtyPages
  dirtyGroups_pos : 0 < dirtyGroups
  dirtyGroups_le : dirtyGroups ≤ 3

export Platform (pagesPerBlock pgDataSize parStart parEnd
  bcCaches pageBuffers dirtyGroups reservedFreeBlocks)

/- `UFFS_INVALID_BLOCK` -/
def invalidBlock : Nat := 0xfffe

/- `PARENT_OF_ROOT` -/
def parentOfRoot : Nat := 0xfffd

/- `ROOT_DIR_SERIAL` -/
def rootDirSerial : Nat := 0

/- `MAX_UFFS_FSN` -/
def maxUffsFsn : Nat := 0x3ff

/- `INVALID_UFFS_SERIAL` -/
def invalidUffsSerial : Nat := 0xffff

/- `CLONE_BUFFERS_THRESHOLD` -/
def cloneBuffersThreshold : Nat := 2

/- `MAX_SPARE_BUFFERS` -/
def maxSpareBuffers : Nat := 5

/- `CONFIG_MAX_PENDING_BLOCKS` -/
def maxPendingBlocks : Nat := 4

/- `MAX_OBJECT_HANDLE` -/
def maxObjectHandle : Nat := 50

/- `dev->buf.dirty_buf_max` -/
def dirtyBufMax [Platform] : Nat :=
  if Platform.dirtyPages > pagesPerBlock then
    pagesPerBlock
  else
    Platform.dirtyPages

/- The number of blocks (and tree nodes) of the partition. -/
def nodeCount [Platform] : Nat :=
  parEnd - parStart + 1

/- Change a function at one point. -/
def upd {α : Type} (f : Nat → α) (i : Nat) (v : α) :
    Nat → α :=
  fun j => if j = i then v else f j

@[simp] theorem upd_same
    {α : Type} (f : Nat → α) (i : Nat) (v : α) :
    upd f i v i = v := by
  simp [upd]

@[simp] theorem upd_other
    {α : Type} (f : Nat → α) {i j : Nat} (v : α)
    (h : j ≠ i) :
    upd f i v j = f j := by
  simp [upd, h]

------------------------------------------------------------
-- The Medium
------------------------------------------------------------

/- The pages of every block, and the blocks marked bad. -/
structure Flash where
  page : Nat → Nat → Page
  bad : Nat → Bool

/-
  Branches of the source in which a failure is passed over.
  They change nothing; a run tells by them which of these
  branches it took.
-/
inductive Note where
| retryAfterError
| uncleanNotErased
| headOfSingle
| resvBlock
| mixedGroup
| eraseIgnored
| pageNotChecked
| usedTakenForClean
| swappedAfterError
| tagNotStored
| pagesDropped
| failureTakenForSuccess
| dirtyEmptied
| movedOnto
| tailNotWritten
deriving DecidableEq, Repr

/-
  What a run emits: the calls of the driver that change the
  medium, with their results and what they left on it, and
  the notes.
-/
inductive Event where
| program (block page : Nat) (ret : FlashRet)
    (content : Option Page)
| erase (block : Nat) (ret : FlashRet)
    (content : Option (Nat → Page))
| markBad (block : Nat)
| note (n : Note)

namespace Event

/- The medium after one event. -/
def apply : Event → Flash → Flash
| .program b p _ (some c), F =>
    { F with page := upd F.page b (upd (F.page b) p c) }
| .erase b _ (some c), F =>
    { page := upd F.page b c, bad := upd F.bad b false }
| .markBad b, F =>
    { F with bad := upd F.bad b true }
| _, F => F

/- The medium after several events. -/
def replay (es : List Event) (F : Flash) : Flash :=
  es.foldl (fun F e => e.apply F) F

end Event

------------------------------------------------------------
-- Block Info Cache
------------------------------------------------------------

/- `uffs_PageSpareSt` -/
structure PageSpare where
  tag : Tag
  expired : Bool
deriving DecidableEq, Repr

/- `uffs_BlockInfoSt` -/
structure BlockInfo where
  block : Nat
  spares : Nat → PageSpare
  expiredCount : Nat
  refCount : Nat

/-
  `uffs_BlockInfoCacheSt`: the entries and their list from
  `head` to `tail`.
-/
structure BcCache where
  info : Nat → BlockInfo
  list : List Nat

------------------------------------------------------------
-- Page Buffers
------------------------------------------------------------

/- `UFFS_BUF_EMPTY`, `UFFS_BUF_VALID`, `UFFS_BUF_DIRTY` -/
inductive BufMark where
| empty
| valid
| dirty
deriving DecidableEq, Repr

/- `CLONE_BUF_MARK` -/
def cloneBufMark : Nat := 0xffff

/- `uffs_BufSt`; `truncTail` is the one bit of `ext_mark` -/
structure Buf where
  type : BlockType
  truncTail : Bool
  parent : Nat
  serial : Nat
  pageId : Nat
  mark : BufMark
  refCount : Nat
  dataLen : Nat
  data : List Byte
deriving DecidableEq, Repr

/- `uffs_DirtyGroupSt`, the dirty list head first -/
structure DirtyGroup where
  dirty : List Nat
  count : Int
  lock : Nat
deriving DecidableEq, Repr

/-
  `uffs_PageBufDescSt`: the buffers, their list from `head`
  to `tail`, the free clone buffers and the dirty groups.
-/
structure BufPool where
  entry : Nat → Buf
  list : List Nat
  clone : List Nat
  group : Nat → DirtyGroup

------------------------------------------------------------
-- Tree Nodes
------------------------------------------------------------

/-
  `uffs_TreeNodeSt`: the members of its union.  The field
  `u` of `list` is the inner union of `serial` (suspend
  list) and `need_check` (erased list).
-/
inductive TreeNode where
| list (next prev : Option Nat) (block u : Nat)
| dir (block checksum parent serial : Nat)
| file (block checksum parent serial len : Nat)
| data (block parent len serial : Nat)
deriving DecidableEq, Repr

namespace TreeNode

/- `node->u.list.next` -/
def next : TreeNode → Option Nat
| .list n _ _ _ => n
| _ => none

/- `node->u.list.prev` -/
def prev : TreeNode → Option Nat
| .list _ p _ _ => p
| _ => none

/- `node->u.list.block` -/
def listBlock : TreeNode → Nat
| .list _ _ b _ => b
| _ => 0

/- `node->u.list.u` -/
def listU : TreeNode → Nat
| .list _ _ _ u => u
| _ => 0

/- Write `node->u.list.next`. -/
def setNext (n : TreeNode) (next : Option Nat) : TreeNode :=
  .list next n.prev n.listBlock n.listU

/- Write `node->u.list.prev`. -/
def setPrev (n : TreeNode) (prev : Option Nat) : TreeNode :=
  .list n.next prev n.listBlock n.listU

/- Write `node->u.list.block`. -/
def setListBlock (n : TreeNode) (b : Nat) : TreeNode :=
  .list n.next n.prev b n.listU

/- Write `node->u.list.u`. -/
def setListU (n : TreeNode) (u : Nat) : TreeNode :=
  .list n.next n.prev n.listBlock u

/- The block that a node stands for. -/
def block : TreeNode → Nat
| .list _ _ b _ => b
| .dir b _ _ _ => b
| .file b _ _ _ _ => b
| .data b _ _ _ => b

/- `u.dir.parent`, `u.file.parent` or `u.data.parent` -/
def parent : TreeNode → Nat
| .list _ _ _ _ => 0
| .dir _ _ p _ => p
| .file _ _ p _ _ => p
| .data _ p _ _ => p

/- `u.dir.serial`, `u.file.serial` or `u.data.serial` -/
def serial : TreeNode → Nat
| .list _ _ _ _ => 0
| .dir _ _ _ s => s
| .file _ _ _ s _ => s
| .data _ _ _ s => s

/- `u.dir.checksum` or `u.file.checksum` -/
def checksum : TreeNode → Nat
| .dir _ c _ _ => c
| .file _ c _ _ _ => c
| _ => 0

/- `u.file.len` or `u.data.len` -/
def len : TreeNode → Nat
| .file _ _ _ _ l => l
| .data _ _ l _ => l
| _ => 0

/- Write `u.file.len`. -/
def setLen (n : TreeNode) (l : Nat) : TreeNode :=
  match n with
  | .file b c p s _ => .file b c p s l
  | .data b p _ s => .data b p l s
  | n => n

/- Write the block of a node that is in the tree. -/
def setBlock (n : TreeNode) (b : Nat) : TreeNode :=
  match n with
  | .list nx pv _ u => .list nx pv b u
  | .dir _ c p s => .dir b c p s
  | .file _ c p s l => .file b c p s l
  | .data _ p l s => .data b p l s

/- Write the name sum and the parent of a DIR or FILE node. -/
def setName (n : TreeNode) (sum parent : Nat) : TreeNode :=
  match n with
  | .dir b _ _ s => .dir b sum parent s
  | .file b _ _ s l => .file b sum parent s l
  | n => n

end TreeNode

/- `uffs_TreeSt`, with the pool of nodes -/
structure Tree where
  node : Nat → TreeNode
  allocated : Nat
  erased : Option Nat
  erasedTail : Option Nat
  erasedCount : Nat
  suspend : Option Nat
  bad : Option Nat
  badCount : Nat
  dirEntry : Nat → List Nat
  fileEntry : Nat → List Nat
  dataEntry : Nat → List Nat

------------------------------------------------------------
-- Pending Blocks
------------------------------------------------------------

/- `UFFS_PENDING_BLK_*` -/
inductive PendingMark where
| refresh
| recover
| cleanup
| markBad
deriving DecidableEq, Repr

/- The number of a mark; a higher mark replaces a lower one. -/
def PendingMark.toNat : PendingMark → Nat
| .refresh => 0
| .recover => 1
| .cleanup => 2
| .markBad => 3

/- `uffs_PendingBlockSt` -/
structure PendingBlock where
  block : Nat
  mark : PendingMark
deriving DecidableEq, Repr

/- `uffs_PendingListSt` -/
structure Pending where
  count : Nat
  slot : Nat → PendingBlock
  blockInRecovery : Nat

------------------------------------------------------------
-- The Device
------------------------------------------------------------

/-
  What a run has shown so far: the result of the last erase
  of each block, whether a block that is not erased has been
  handed out, the pages whose tag could not be read since
  they were last changed, the truncation whose flush is
  running (the start of its block in the file, and the
  length that is asked for), and whether a recover has met a
  truncate mark below the end of the file.  The program
  never reads it.
-/
structure Watch where
  lastErase : Nat → FlashRet
  usedHandedOut : Bool
  tagFailed : Nat → Nat → Bool
  truncating : Option (Nat × Nat)
  staleMark : Bool

/-
  `uffs_DeviceSt`, the medium included.  `clock` counts the
  calls of the driver.
-/
structure Dev where
  flash : Flash
  clock : Nat
  spareFree : Nat
  bc : BcCache
  buf : BufPool
  tree : Tree
  pending : Pending
  refCount : Int
  watch : Watch

/- Programs over a device. -/
abbrev M (α : Type) : Type := Prog Dev Event α

/- The next answer of the driver. -/
def nextAnswer [Platform] : M Answer := do
  let s ← Prog.get
  Prog.modify fun s => { s with clock := s.clock + 1 }
  pure (Platform.answer s.clock)

/- A call of the driver that may change the medium. -/
def medium (e : Event) : M Unit := do
  Prog.modify fun s => { s with flash := e.apply s.flash }
  Prog.emit e

/- Note that a branch is taken. -/
def note (n : Note) : M Unit :=
  Prog.emit (.note n)

/- Note that a branch is taken in a state of some kind. -/
def noteWhen (c : Dev → Bool) (n : Note) : M Unit := do
  let s ← Prog.get
  if c s then
    note n

/- `uffs_GetCurDateTime` -/
def getCurDateTime [Platform] : M Nat := do
  let a ← nextAnswer
  pure a.now

/- Change one page buffer. -/
def setBuf (i : Nat) (f : Buf → Buf) : M Unit :=
  Prog.modify fun s =>
    { s with
      buf := { s.buf with
        entry := upd s.buf.entry i (f (s.buf.entry i)) } }

/- Read one page buffer. -/
def getBuf (i : Nat) : M Buf :=
  Prog.gets fun s => s.buf.entry i

/- Change one dirty group. -/
def setGroup (slot : Nat) (f : DirtyGroup → DirtyGroup) :
    M Unit :=
  Prog.modify fun s =>
    { s with
      buf := { s.buf with
        group := upd s.buf.group slot (f (s.buf.group slot)) } }

/- Read one dirty group. -/
def getGroup (slot : Nat) : M DirtyGroup :=
  Prog.gets fun s => s.buf.group slot

/- Change one block info. -/
def setInfo (i : Nat) (f : BlockInfo → BlockInfo) : M Unit :=
  Prog.modify fun s =>
    { s with
      bc := { s.bc with info := upd s.bc.info i (f (s.bc.info i)) } }

/- Read one block info. -/
def getInfo (i : Nat) : M BlockInfo :=
  Prog.gets fun s => s.bc.info i

/- `GET_TAG` -/
def getTag (bc page : Nat) : M Tag :=
  Prog.gets fun s => ((s.bc.info bc).spares page).tag

/- Write a tag of a block info. -/
def setTag (bc page : Nat) (t : Tag) : M Unit :=
  setInfo bc fun i =>
    { i with
      spares := upd i.spares page
        { i.spares page with tag := t } }

/- Change the tree. -/
def modifyTree (f : Tree → Tree) : M Unit :=
  Prog.modify fun s => { s with tree := f s.tree }

/- Read one tree node. -/
def getNode (n : Nat) : M TreeNode :=
  Prog.gets fun s => s.tree.node n

/- Change one tree node. -/
def setNode (n : Nat) (f : TreeNode → TreeNode) : M Unit :=
  modifyTree fun t =>
    { t with node := upd t.node n (f (t.node n)) }

end Uffs
