import Uffs.Model.Fs

/-
  Sessions: sequences of operations on a mounted device by
  way of the objects of the object pool, formatting and
  mounting included.

  Main declarations:
    * `formatDevice`
    * `Op`, `Op.exec`
    * `runOps`
-/

namespace Uffs

variable [Platform]

------------------------------------------------------------
-- Formatting
------------------------------------------------------------

/- `uffs_BufIsAllFree` -/
def BufPool.isAllFree (p : BufPool) : Bool :=
  p.list.all fun i => (p.entry i).refCount = 0

/- Is there a dirty page in some group? -/
def BufPool.haveDirty (p : BufPool) : Bool :=
  (List.range dirtyGroups).any fun slot =>
    (p.group slot).count > 0

/- The loop of `uffs_BufSetAllEmpty`. -/
def bufSetEmptyFrom : List Nat → M Unit
| [] => pure ()
| i :: rest => do
    let b ← getBuf i
    if b.mark = .dirty then
      note .dirtyEmptied
    setBuf i fun b => { b with mark := .empty }
    bufSetEmptyFrom rest

/- `uffs_BufSetAllEmpty` -/
def bufSetAllEmpty : M Unit := do
  let s ← Prog.get
  bufSetEmptyFrom s.buf.list

/- `uffs_BlockInfoIsAllFree` -/
def BcCache.isAllFree (c : BcCache) : Bool :=
  c.list.all fun i => (c.info i).refCount = 0

/- The loop of `uffs_BlockInfoExpireAll`. -/
def expireAllFrom : List Nat → M Unit
| [] => pure ()
| i :: rest => do
    blockInfoExpireAll i
    expireAllFrom rest

/- `uffs_BlockInfoExpireAll` -/
def bcExpireAll : M Unit := do
  let s ← Prog.get
  expireAllFrom s.bc.list

/-
  The loop of `uffs_FormatDeviceEx` over the blocks.  It
  passes no node to `uffs_BadBlockProcessNode`, which then
  does nothing.
-/
def eraseAllFrom : Nat → Nat → M Unit
| 0, _ => pure ()
| n + 1, block => do
    if !(← flashIsBadBlock block) then
      let _ ← flashEraseBlock block
    eraseAllFrom n (block + 1)

/-
  `uffs_TreeInit`; the list of suspended nodes is not
  touched.
-/
def treeInit : M Unit :=
  modifyTree fun t => { Tree.init with suspend := t.suspend }

/-
  The part of `uffs_FormatDeviceEx` up to the release of the
  tree.
-/
def formatErase (force : Bool) : M URet := do
  let ret ← bufFlushAll
  let s ← Prog.get
  if ret = .fail || (s.refCount > 1 && !force) then
    pure .fail
  else if !s.buf.isAllFree && !force then
    pure .fail
  else if s.buf.haveDirty && !force then
    pure .fail
  else do
    bufSetAllEmpty
    if !s.bc.isAllFree && !force then
      pure .fail
    else do
      bcExpireAll
      eraseAllFrom nodeCount parStart
      pure .succ

/- How `uffs_FormatDeviceEx` ended. -/
inductive FormatEnd where
| refused
| noTree
| formatted
deriving DecidableEq, Repr

/- `uffs_FormatDeviceEx` -/
def formatDevice (force : Bool) : M FormatEnd := do
  match ← formatErase force with
  | .fail => pure .refused
  | .succ =>
      treeInit
      match ← buildTree with
      | .fail => pure .noTree
      | .succ => pure .formatted

------------------------------------------------------------
-- The Object Pool
------------------------------------------------------------

/- `_object_pool`: the objects in use. -/
abbrev ObjPool : Type := Nat → Option Obj

namespace ObjPool

/- No object is in use. -/
def empty : ObjPool :=
  fun _ => none

/- The number of objects in use. -/
def used (p : ObjPool) : Nat :=
  (List.range maxObjectHandle).countP fun h => (p h).isSome

/- The nodes of the objects attached to the device. -/
def attached (p : ObjPool) : List (Option Nat) :=
  (List.range maxObjectHandle).filterMap fun h =>
    (p h).bind fun obj =>
      if obj.dev then some obj.node else none

/- The first object that is not in use. -/
def free (p : ObjPool) : Option Nat :=
  (List.range maxObjectHandle).find? fun h => (p h).isNone

/- `uffs_PutAllObjectBuf` -/
def putAll (p : ObjPool) : ObjPool :=
  fun h => (p h).bind fun obj =>
    if obj.dev then none else some obj

end ObjPool

------------------------------------------------------------
-- Operations
------------------------------------------------------------

/-
  A call of the file layer.  An object is named by its
  handle, its index in the pool.

  A search in a directory (`uffs_FindObjectFirst` and
  `uffs_FindObjectNext`) comes to some node, whose info is
  loaded.  Which node that is depends on links that nodes
  keep outside of the tree, so `findObject` takes any node.
-/
inductive Op where
| getObject
| putObject (h : Nat)
| openObject (h : Nat) (path : List Byte) (oflag : OFlag)
| createObject (h : Nat) (path : List Byte) (oflag : OFlag)
| closeObject (h : Nat)
| writeObject (h : Nat) (data : List Byte)
| readObject (h len : Nat)
| objectInfo (h : Nat)
| seekObject (h : Nat) (offset : Int) (origin : Origin)
| flushObject (h : Nat)
| truncateObject (h remain : Nat)
| deleteObject (path : List Byte)
| renameObject (oldPath newPath : List Byte)
| findObject (node : Nat) (type : BlockType)
| flushAll
| recover
| format (force : Bool)
| mount
deriving DecidableEq

/- What an operation returns. -/
inductive Reply where
| handle (h : Option Nat)
| ret (r : URet)
| wrote (n : Nat)
| bytes (l : List (Option Byte))
| info (o : Option ObjectInfo) (err : UErr)
| found (o : Option ObjectInfo)
| offset (p : Int)
| nothing
deriving DecidableEq

/- Work on the object `h`, when it is in use. -/
def withObject
    (p : ObjPool)
    (h : Nat)
    (f : Obj → M (Reply × Obj)) : M (Reply × ObjPool) := do
  match p h with
  | none => pure (.nothing, p)
  | some obj =>
      let (reply, obj) ← f obj
      pure (reply, upd p h (some obj))

/- The reply of a function that returns `URET`. -/
def replyRet (q : URet × Obj) : Reply × Obj :=
  (.ret q.1, q.2)

/-
  One operation.  A mount that fails and a format that ends
  without a tree leave no mounted device, so no operation
  follows them.
-/
def Op.exec (p : ObjPool) : Op → M (Reply × ObjPool)
| .getObject =>
    match p.free with
    | none => pure (.handle none, p)
    | some h => pure (.handle (some h), upd p h (some Obj.zero))
| .putObject h =>
    pure (.nothing, upd p h none)
| .openObject h path oflag =>
    withObject p h fun obj => do
      pure (replyRet (← Uffs.openObject obj path oflag))
| .createObject h path oflag =>
    withObject p h fun obj => do
      pure (replyRet (← Uffs.createObject obj path oflag))
| .closeObject h =>
    withObject p h fun obj => do
      pure (replyRet (← Uffs.closeObject obj))
| .writeObject h data =>
    withObject p h fun obj => do
      let (wrote, obj) ← Uffs.writeObject obj data
      pure (.wrote wrote, obj)
| .readObject h len =>
    withObject p h fun obj => do
      let (bytes, obj) ← Uffs.readObject obj len
      pure (.bytes bytes, obj)
| .objectInfo h =>
    withObject p h fun obj => do
      let (info, err) ← getObjectInfo obj
      pure (.info info err, obj)
| .seekObject h offset origin =>
    withObject p h fun obj => do
      let (pos, obj) ← Uffs.seekObject obj offset origin
      pure (.offset pos, obj)
| .flushObject h =>
    withObject p h fun obj => do
      pure (replyRet (← Uffs.flushObject obj))
| .truncateObject h remain =>
    withObject p h fun obj => do
      pure (replyRet (← Uffs.truncateObject obj remain))
| .deleteObject path => do
    let (ret, _) ← Uffs.deleteObject path p.used p.attached
    pure (.ret ret, p)
| .renameObject oldPath newPath => do
    let (ret, _) ← Uffs.renameObject oldPath newPath p.used
    pure (.ret ret, p)
| .findObject node type => do
    let info ← loadObjectInfo node type
    pure (.found info, p)
| .flushAll => do
    let ret ← bufFlushAll
    pure (.ret ret, p)
| .recover => do
    recoverIfPending
    pure (.nothing, p)
| .format force => do
    Prog.modify fun s => { s with refCount := s.refCount + 1 }
    match ← formatDevice force with
    | .refused =>
        putDevice
        pure (.ret .fail, p)
    | .noTree => Prog.diverge
    | .formatted =>
        putDevice
        pure (.ret .succ, if force then p.putAll else p)
| .mount => do
    match ← Uffs.mount with
    | .fail => Prog.diverge
    | .succ => pure (.ret .succ, ObjPool.empty)

/- A sequence of operations and their replies. -/
def runOps : ObjPool → List Op → M (List Reply × ObjPool)
| p, [] => pure ([], p)
| p, op :: rest => do
    let (reply, p) ← op.exec p
    let (replies, p) ← runOps p rest
    pure (reply :: replies, p)

/- A device is mounted and operations are run on it. -/
def session (ops : List Op) : M (List Reply × ObjPool) :=
  runOps ObjPool.empty (.mount :: ops)

------------------------------------------------------------
-- Invariants of Sessions
------------------------------------------------------------

/-
  A property that each operation keeps, and that a mount
  establishes, holds after every session.
-/
theorem runOps_induct
    {ok : Event → Prop}
    {I : Dev → Prop}
    (hStep : ∀ p op s, I s →
      Prog.wlp ok (Op.exec p op) (fun _ t => I t) s)
    (ops : List Op) :
    ∀ p s, I s →
      Prog.wlp ok (runOps p ops) (fun _ t => I t) s := by
  induction ops with
  | nil =>
      intro p s hs
      unfold runOps
      rw [Prog.wlp_pure]
      exact hs
  | cons op rest ih =>
      intro p s hs
      unfold runOps
      refine Prog.wlp_seq (hStep p op s hs) ?_
      intro q t ht
      refine Prog.wlp_seq (ih q.2 t ht) ?_
      intro r u hu
      rw [Prog.wlp_pure]
      exact hu

end Uffs
