import Uffs.Model.Public

/-
  The tree of blocks (`uffs_tree.c`): the hash entries of
  DIR, FILE and DATA nodes and the lists of erased, bad and
  suspended blocks.

  Main declarations:
    * `treeFindDirNode`, `treeFindFileNode`,
      `treeFindDataNode`
    * `insertNodeToTree`, `breakFromEntry`
    * `treeGetErasedNode`, `treeEraseNode`
    * `treeInsertToErasedListTail`,
      `insertToErasedListHead`
    * `badBlockProcessNode`
-/

namespace Uffs

variable [Platform]

------------------------------------------------------------
-- Hash Entries
------------------------------------------------------------

/- `GET_DIR_HASH` -/
def getDirHash (serial : Nat) : Nat := serial % 32

/- `GET_FILE_HASH` -/
def getFileHash (serial : Nat) : Nat := serial % 64

/- `GET_DATA_HASH` -/
def getDataHash (parent serial : Nat) : Nat :=
  (parent + serial) % 512

/- `uffs_TreeFindDirNode` -/
def Tree.findDirNode (t : Tree) (serial : Nat) :
    Option Nat :=
  (t.dirEntry (getDirHash serial)).find? fun x =>
    (t.node x).serial == serial

/- `uffs_TreeFindFileNode` -/
def Tree.findFileNode (t : Tree) (serial : Nat) :
    Option Nat :=
  (t.fileEntry (getFileHash serial)).find? fun x =>
    (t.node x).serial == serial

/- `uffs_TreeFindDataNode` -/
def Tree.findDataNode (t : Tree) (parent serial : Nat) :
    Option Nat :=
  (t.dataEntry (getDataHash parent serial)).find? fun x =>
    (t.node x).parent == parent &&
      (t.node x).serial == serial

/- `uffs_TreeFindDirNode` -/
def treeFindDirNode (serial : Nat) : M (Option Nat) :=
  Prog.gets fun s => s.tree.findDirNode serial

/- `uffs_TreeFindFileNode` -/
def treeFindFileNode (serial : Nat) : M (Option Nat) :=
  Prog.gets fun s => s.tree.findFileNode serial

/- `uffs_TreeFindDataNode` -/
def treeFindDataNode
    (parent serial : Nat) : M (Option Nat) :=
  Prog.gets fun s => s.tree.findDataNode parent serial

/- `uffs_FindFromTree` -/
def findFromTree
    (type : BlockType)
    (parent serial : Nat) : M (Option Nat) :=
  match type with
  | .dir => treeFindDirNode serial
  | .file => treeFindFileNode serial
  | .data => treeFindDataNode parent serial
  | .resv => pure none

/- The DIR nodes, in the order of the hash entries. -/
def Tree.dirNodes (t : Tree) : List Nat :=
  (List.range 32).flatMap t.dirEntry

/- The FILE nodes, in the order of the hash entries. -/
def Tree.fileNodes (t : Tree) : List Nat :=
  (List.range 64).flatMap t.fileEntry

/- The DATA nodes, in the order of the hash entries. -/
def Tree.dataNodes (t : Tree) : List Nat :=
  (List.range 512).flatMap t.dataEntry

/- `uffs_TreeFindDirNodeWithParent` -/
def treeFindDirNodeWithParent
    (parent : Nat) : M (Option Nat) :=
  Prog.gets fun s => s.tree.dirNodes.find? fun x =>
    (s.tree.node x).parent == parent

/- `uffs_TreeFindFileNodeWithParent` -/
def treeFindFileNodeWithParent
    (parent : Nat) : M (Option Nat) :=
  Prog.gets fun s => s.tree.fileNodes.find? fun x =>
    (s.tree.node x).parent == parent

/-
  `uffs_TreeFindNodeByBlock` in the DIR, FILE and DATA
  regions: the node and the region it was found in.
-/
def treeFindNodeByBlock
    (block : Nat) : M (Option (Nat × BlockType)) :=
  Prog.gets fun s =>
    let here := fun x => (s.tree.node x).block == block
    match s.tree.dataNodes.find? here with
    | some x => some (x, .data)
    | none =>
        match s.tree.fileNodes.find? here with
        | some x => some (x, .file)
        | none =>
            match s.tree.dirNodes.find? here with
            | some x => some (x, .dir)
            | none => none

/- `uffs_InsertNodeToTree` -/
def Tree.insertNode (t : Tree) (type : BlockType) (n : Nat) :
    Tree :=
  let node := t.node n
  match type with
  | .dir =>
      let h := getDirHash node.serial
      { t with dirEntry := upd t.dirEntry h (n :: t.dirEntry h) }
  | .file =>
      let h := getFileHash node.serial
      { t with
        fileEntry := upd t.fileEntry h (n :: t.fileEntry h) }
  | .data =>
      let h := getDataHash node.parent node.serial
      { t with
        dataEntry := upd t.dataEntry h (n :: t.dataEntry h) }
  | .resv => t

/- `uffs_InsertNodeToTree` -/
def insertNodeToTree (type : BlockType) (n : Nat) : M Unit :=
  modifyTree fun t => t.insertNode type n

/- `uffs_BreakFromEntry` -/
def Tree.breakNode (t : Tree) (type : BlockType) (n : Nat) :
    Tree :=
  let node := t.node n
  match type with
  | .dir =>
      let h := getDirHash node.serial
      { t with
        dirEntry := upd t.dirEntry h ((t.dirEntry h).erase n) }
  | .file =>
      let h := getFileHash node.serial
      { t with
        fileEntry :=
          upd t.fileEntry h ((t.fileEntry h).erase n) }
  | .data =>
      let h := getDataHash node.parent node.serial
      { t with
        dataEntry :=
          upd t.dataEntry h ((t.dataEntry h).erase n) }
  | .resv => t

/- `uffs_BreakFromEntry` -/
def breakFromEntry (type : BlockType) (n : Nat) : M Unit :=
  modifyTree fun t => t.breakNode type n

------------------------------------------------------------
-- Erased, Bad and Suspended Blocks
------------------------------------------------------------

/- Change one node of a tree. -/
def Tree.setNode
    (t : Tree) (n : Nat) (f : TreeNode → TreeNode) : Tree :=
  { t with node := upd t.node n (f (t.node n)) }

/- `uffs_TreeGetErasedNodeNoCheck` -/
def Tree.popErased (t : Tree) : Option (Nat × Tree) :=
  match t.erased with
  | none => none
  | some n =>
      let next := (t.node n).next
      let t := t.setNode n fun x => x.setPrev none
      some (n,
        { t with
          erased := next
          erasedTail :=
            if next = none then none else t.erasedTail
          erasedCount := t.erasedCount - 1 })

/- `uffs_TreeGetErasedNodeNoCheck` -/
def treeGetErasedNodeNoCheck : M (Option Nat) := do
  let s ← Prog.get
  match s.tree.popErased with
  | none => pure none
  | some (n, t) =>
      modifyTree fun _ => t
      pure (some n)

/- `uffs_InsertToErasedListHead` -/
def Tree.pushErased (t : Tree) (n : Nat) : Tree :=
  let t' := t.setNode n fun x =>
    (x.setNext t.erased).setPrev none
  let t' :=
    match t.erased with
    | none => t'
    | some e => t'.setNode e fun x => x.setPrev (some n)
  { t' with
    erased := some n
    erasedTail :=
      if t.erased = t.erasedTail then some n else t.erasedTail
    erasedCount := t.erasedCount + 1 }

/- Is there exactly one node in the erased list? -/
def Tree.erasedIsSingle (t : Tree) : Bool :=
  t.erased.isSome && t.erased == t.erasedTail

/- `uffs_InsertToErasedListHead` -/
def insertToErasedListHead (n : Nat) : M Unit := do
  let s ← Prog.get
  if s.tree.erasedIsSingle then
    note .headOfSingle
  modifyTree fun t => t.pushErased n

/-
  `uffs_TreeInsertToErasedListTailEx`; `none` keeps the
  `need_check` of the node.
-/
def Tree.appendErased
    (t : Tree)
    (n : Nat)
    (needCheck : Option Nat) : Tree :=
  let t' := t.setNode n fun x =>
    let x :=
      match needCheck with
      | none => x
      | some u => x.setListU u
    (x.setNext none).setPrev t.erasedTail
  let t' :=
    match t.erasedTail with
    | none => t'
    | some e => t'.setNode e fun x => x.setNext (some n)
  { t' with
    erasedTail := some n
    erased :=
      if t.erased = none then some n else t.erased
    erasedCount := t.erasedCount + 1 }

/- `uffs_TreeInsertToErasedListTailEx` -/
def treeInsertToErasedListTailEx
    (n : Nat)
    (needCheck : Option Nat) : M Unit :=
  modifyTree fun t => t.appendErased n needCheck

/- `uffs_TreeInsertToErasedListTail` -/
def treeInsertToErasedListTail (n : Nat) : M Unit :=
  treeInsertToErasedListTailEx n (some 0)

/- `uffs_TreeInsertToBadBlockList` -/
def Tree.pushBad (t : Tree) (n : Nat) : Tree :=
  let t' := t.setNode n fun x =>
    (x.setPrev none).setNext t.bad
  let t' :=
    match t.bad with
    | none => t'
    | some e => t'.setNode e fun x => x.setPrev (some n)
  { t' with
    bad := some n
    badCount := t.badCount + 1 }

/- `uffs_TreeInsertToBadBlockList` -/
def treeInsertToBadBlockList (n : Nat) : M Unit :=
  modifyTree fun t => t.pushBad n

/- `uffs_BadBlockProcessNode` -/
def badBlockProcessNode (n : Nat) : M Unit := do
  let node ← getNode n
  flashMarkBadBlock node.listBlock
  treeInsertToBadBlockList n

/- `uffs_TreeSuspendAdd` -/
def Tree.suspendAdd (t : Tree) (n : Nat) : Tree :=
  let t' := t.setNode n fun x =>
    (x.setNext t.suspend).setPrev none
  let t' :=
    match t.suspend with
    | none => t'
    | some e => t'.setNode e fun x => x.setPrev (some n)
  { t' with suspend := some n }

/- `uffs_TreeSuspendAdd` -/
def treeSuspendAdd (n : Nat) : M Unit :=
  modifyTree fun t => t.suspendAdd n

/-
  `uffs_TreeFindSuspendNode`: is a suspended node with this
  serial among the first `fuel` nodes of the list?
-/
def Tree.findSuspendFrom
    (t : Tree)
    (serial : Nat) : Nat → Option Nat → Bool
| _, none => false
| 0, some _ => false
| fuel + 1, some n =>
    (t.node n).listU == serial ||
      t.findSuspendFrom serial fuel (t.node n).next

/- `uffs_TreeRemoveSuspendNode` -/
def Tree.suspendRemove (t : Tree) (n : Nat) : Tree :=
  let node := t.node n
  let t' :=
    match node.prev with
    | none => t
    | some e => t.setNode e fun x => x.setNext node.next
  let t' :=
    match node.next with
    | none => t'
    | some e => t'.setNode e fun x => x.setPrev node.prev
  { t' with
    suspend := if t.suspend = some n then none else t.suspend }

/- `uffs_TreeRemoveSuspendNode` -/
def treeRemoveSuspendNode (n : Nat) : M Unit :=
  modifyTree fun t => t.suspendRemove n

/- Watch the block that is handed out. -/
def watchHandOut (block : Nat) : M Unit :=
  Prog.modify fun s =>
    { s with
      watch := { s.watch with
        usedHandedOut :=
          s.watch.usedHandedOut ||
            !decide (s.flash.ErasedBlock block) } }

/-
  `uffs_TreeGetErasedNode` and `uffs_TreeEraseNode`, which
  call each other: each call of the first takes one node off
  the erased list, so `fuel` bounds the length of the list.
-/
mutual

/- `uffs_TreeGetErasedNode` -/
def getErasedNodeFuel : Nat → M (Option Nat)
| 0 => Prog.diverge
| fuel + 1 => do
    match ← treeGetErasedNodeNoCheck with
    | none => pure none
    | some n =>
        let node ← getNode n
        if node.listU ≠ 0 then
          match ← flashCheckErasedBlock node.listBlock with
          | .succ => prepareErased n
          | .fail =>
              match ← eraseNodeFuel fuel n with
              | .fail =>
                  note .uncleanNotErased
                  pure none
              | .succ =>
                  setNode n fun x => x.setListU 0
                  prepareErased n
        else
          prepareErased n

/- `uffs_TreeEraseNode` -/
def eraseNodeFuel : Nat → Nat → M URet
| 0, _ => Prog.diverge
| fuel + 1, n => do
    let node ← getNode n
    setNode n fun x => x.setListU 0
    let ret ← flashEraseBlock node.listBlock
    if ret.isBadBlock then
      match ← getErasedNodeFuel fuel with
      | none => pure .fail
      | some new =>
          let good ← getNode new
          let bad ← getNode n
          noteNotBlank good.listBlock .swappedAfterError
          setNode new fun x => x.setListBlock bad.listBlock
          setNode n fun x => x.setListBlock good.listBlock
          setNode n fun x => x.setListU 0
          badBlockProcessNode new
          pure .succ
    else
      pure (if ret.haveErr then .fail else .succ)

/- Have the tags of an erased block in the cache. -/
def prepareErased (n : Nat) : M (Option Nat) := do
  let node ← getNode n
  watchHandOut node.listBlock
  match ← blockInfoGet node.listBlock with
  | none => pure (some n)
  | some i =>
      blockInfoInitErased i
      blockInfoPut i
      pure (some n)

end

/- `uffs_TreeGetErasedNode` -/
def treeGetErasedNode : M (Option Nat) :=
  getErasedNodeFuel (2 * nodeCount + 2)

/- `uffs_TreeEraseNode` -/
def treeEraseNode (n : Nat) : M URet :=
  eraseNodeFuel (2 * nodeCount + 2) n

/- `uffs_TreeEraseNode`, its result ignored -/
def treeEraseIgnored (n : Nat) : M Unit := do
  match ← treeEraseNode n with
  | .succ => pure ()
  | .fail => note .eraseIgnored

------------------------------------------------------------
-- Serial Numbers
------------------------------------------------------------

/- `uffs_FindFreeFsnSerial` -/
def Tree.findFreeFsnSerial (t : Tree) : Option Nat :=
  (List.range' 1 (maxUffsFsn - 1)).find? fun i =>
    (t.findDirNode i).isNone && (t.findFileNode i).isNone &&
      !t.findSuspendFrom i nodeCount t.suspend

/- `uffs_FindFreeFsnSerial` -/
def findFreeFsnSerial : M (Option Nat) :=
  Prog.gets fun s => s.tree.findFreeFsnSerial

end Uffs
