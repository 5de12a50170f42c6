import Uffs.Files.Device

/-
  A flush stays within every relation that the functions
  below it stay within.

  Main declarations:
    * `FlushLayer`, `FlushLayer.recoverEnd`
    * `BlockLayer.bufFlushNewBlock`
    * `BlockLayer.bufFlushSlot`
-/

namespace Uffs

open Prog

variable [Platform] {ok : Event → Prop}
  {R : Dev → Dev → Prop} [IsPreorder Dev R]

------------------------------------------------------------
-- Block Recovers
------------------------------------------------------------

/- What the end of a block recover rests on. -/
structure FlushLayer
    (ok : Event → Prop)
    (R : Dev → Dev → Prop) : Prop
    extends BlockLayer ok R where
  pendingRemove : ∀ b, Within ok R (badBlockPendingRemove b)
  cleanDirty : ∀ slot n i,
    Within ok R (cleanDirtyFrom slot n i)

namespace FlushLayer

protected theorem recoverSucc
    (h : FlushLayer ok R)
    (slot : Nat)
    (key : GroupKey)
    (node bc newNode newBlock sum : Nat)
    (badBlock : Bool) :
    Within ok R
      (recoverSucc slot key node bc newNode newBlock sum
        badBlock) := by
  unfold recoverSucc
  apply Within.bind
    (h.cleanDirty _ _ _)
  intro _
  apply Within.bind (h.setNode _ _)
  intro _
  apply Within.bind (Within.gets _)
  intro w
  apply Within.bind (h.setNode _ _)
  intro _
  apply Within.ite (h.badBlockProcessNode _)
  apply Within.bind (h.isThisBlockUsed _)
  intro used
  cases used with
  | true =>
      apply Within.bind (h.treeEraseIgnored _)
      intro _
      exact h.treeInsertToErasedListTail _
  | false =>
      apply Within.bind (BlockLayer.noteNotBlank _ _)
      intro _
      exact h.treeInsertToErasedListTail _

protected theorem recoverFail
    (h : FlushLayer ok R)
    (bc newNode newBlock : Nat)
    (badBlock : Bool) :
    Within ok R
      (recoverFail bc newNode newBlock badBlock) := by
  have hRest : Within ok R (do
      blockInfoExpireAll bc
      setNode newNode fun n => n.setListBlock newBlock
      treeEraseIgnored newNode
      treeInsertToErasedListTail newNode) := by
    apply Within.bind (h.infoExpireAll _)
    intro _
    apply Within.bind (h.setNode _ _)
    intro _
    apply Within.bind (h.treeEraseIgnored _)
    intro _
    exact h.treeInsertToErasedListTail _
  unfold recoverFail
  apply Within.bind (Within.gets _)
  intro w
  apply Within.ite _ hRest
  apply Within.bind (h.pendingRemove _)
  intro _
  exact hRest

/- What becomes of the new block of a block recover. -/
protected theorem recoverEnd
    (h : FlushLayer ok R)
    (slot : Nat)
    (key : GroupKey)
    (node bc newNode newBc newBlock : Nat)
    (badBlock : Bool)
    (r : Recovery)
    {retry : M URet}
    (hRetry : Within ok R retry) :
    Within ok R
      (if r.op.isBadBlock then do
        badBlockProcessNode newNode
        blockInfoPut newBc
        retry
      else if r.op.haveErr then do
        blockInfoPut newBc
        note .retryAfterError
        retry
      else if r.op = .eccOk then do
        treeEraseIgnored newNode
        treeInsertToErasedListTail newNode
        blockInfoPut newBc
        retry
      else if r.succ then do
        recoverSucc slot key node bc newNode newBlock r.sum
          badBlock
        blockInfoPut newBc
        pure .succ
      else do
        recoverFail bc newNode newBlock badBlock
        blockInfoPut newBc
        pure .fail) := by
  have hPut : ∀ {m : M URet}, Within ok R m →
      Within ok R (do
        blockInfoPut newBc
        m) := by
    intro m hm
    apply Within.bind (h.infoPut _)
    intro _
    exact hm
  apply Within.ite
  · apply Within.bind (h.badBlockProcessNode _)
    intro _
    exact hPut hRetry
  apply Within.ite
  · apply hPut
    apply Within.bind (Within.emit _)
    intro _
    exact hRetry
  apply Within.ite
  · apply Within.bind (h.treeEraseIgnored _)
    intro _
    apply Within.bind (h.treeInsertToErasedListTail _)
    intro _
    exact hPut hRetry
  apply Within.ite
  · apply Within.bind (h.recoverSucc _ _ _ _ _ _ _ _)
    intro _
    exact hPut (Within.pure _)
  · apply Within.bind (h.recoverFail _ _ _ _)
    intro _
    exact hPut (Within.pure _)

end FlushLayer

namespace BlockLayer

protected theorem existWithBlockRecover
    (slot node bc : Nat)
    (badBlock : Bool)
    (hWatch : Within ok R (watchMarks slot))
    (hRecover : ∀ key, Within ok R
      (recoverFuel slot key node bc badBlock Platform.fuel)) :
    Within ok R
      (bufFlushExistWithBlockRecover slot node bc badBlock) :=
  by
  unfold bufFlushExistWithBlockRecover
  apply Within.bind hWatch
  intro _
  apply Within.bind (Within.gets _)
  intro key
  apply Within.bind (Within.gets _)
  intro n
  apply Within.ite _ (hRecover key)
  apply Within.bind (Within.emit _)
  intro _
  exact hRecover key

------------------------------------------------------------
-- Groups
------------------------------------------------------------

/- The nodes around a block recover into a new block. -/
protected theorem bufFlushNewBlock
    (h : BlockLayer ok R)
    (slot : Nat)
    (hRecover : ∀ node bc, Within ok R
      (bufFlushExistWithBlockRecover slot node bc false)) :
    Within ok R (bufFlushNewBlock slot) := by
  unfold bufFlushNewBlock
  apply Within.bind h.treeGetErasedNode
  intro o
  cases o with
  | none => exact Within.pure _
  | some node =>
      apply Within.bind (Within.gets _)
      intro n
      apply Within.bind (h.infoGet _)
      intro o
      cases o with
      | none =>
          apply Within.bind (h.insertToErasedListHead _)
          intro _
          exact Within.pure _
      | some bc =>
          apply Within.bind (Within.gets _)
          intro key
          apply Within.bind (hRecover _ _)
          intro r
          cases r with
          | succ =>
              apply Within.bind (h.modifyTree _)
              intro _
              apply Within.bind (h.infoPut _)
              intro _
              exact Within.pure _
          | fail =>
              apply Within.bind (Within.gets _)
              intro w
              apply Within.bind (h.setNode _ _)
              intro _
              apply Within.bind (h.treeEraseIgnored _)
              intro _
              apply Within.bind
                (h.treeInsertToErasedListTail _)
              intro _
              apply Within.bind (h.infoPut _)
              intro _
              exact Within.pure _

protected theorem bufFlushSlot
    {force : Bool}
    {slot : Nat}
    (hNew : Within ok R (bufFlushNewBlock slot))
    (hExist : ∀ node,
      Within ok R (bufFlushExist slot node force)) :
    Within ok R (bufFlushSlot force slot) := by
  unfold Uffs.bufFlushSlot
  apply Within.bind (Within.gets _)
  intro g
  apply Within.ite (Within.pure _)
  apply Within.bind (Within.gets _)
  intro r
  cases r with
  | fail => exact Within.pure _
  | succ =>
      apply Within.bind (Within.gets _)
      intro key
      apply Within.ite (Within.pure _)
      apply Within.bind (DeviceLayer.findFromTree _ _ _)
      intro o
      cases o with
      | none => exact hNew
      | some node => exact hExist node

end BlockLayer

end Uffs
