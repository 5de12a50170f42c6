import Uffs.Files.Buffers
import Uffs.Files.Device
import Uffs.Files.Within
import Uffs.Model.Session

/-
  Operations stay within every relation that the functions
  below them stay within.

  Main declarations:
    * `FileLayer.exec`
    * `SessionLayer`, `SessionLayer.exec`
-/

namespace Uffs

open Prog

variable [Platform] {ok : Event → Prop}

------------------------------------------------------------
-- Emptying All Buffers
------------------------------------------------------------

variable {R : Dev → Dev → Prop} [IsPreorder Dev R]

omit [Platform] in
theorem BufferLayer.bufSetEmptyFrom
    (h : BufferLayer ok R)
    (l : List Nat) :
    Within ok R (bufSetEmptyFrom l) := by
  induction l with
  | nil => exact Within.pure _
  | cons i rest ih =>
      unfold Uffs.bufSetEmptyFrom
      have hRest : Within ok R (do
          setBuf i fun b => { b with mark := .empty }
          Uffs.bufSetEmptyFrom rest) := by
        refine Within.bind (h.rekey i _ fun _ => id) ?_
        intro _
        exact ih
      unfold getBuf
      apply Within.bind (Within.gets _)
      intro b
      apply Within.ite _ hRest
      apply Within.bind (Within.emit _)
      intro _
      exact hRest

omit [Platform] in
theorem BufferLayer.bufSetAllEmpty
    (h : BufferLayer ok R) : Within ok R bufSetAllEmpty := by
  unfold Uffs.bufSetAllEmpty
  apply Within.bind Within.get
  intro s
  exact h.bufSetEmptyFrom _

omit [Platform] in
theorem buffers_bufSetAllEmpty :
    Within ok Buffers bufSetAllEmpty :=
  bufferLayer_buffers.bufSetAllEmpty

------------------------------------------------------------
-- Operations on Objects
------------------------------------------------------------

omit [Platform] in
theorem withObject_within
    (p : ObjPool)
    (h : Nat)
    {f : Obj → M (Reply × Obj)}
    (hf : ∀ obj, Within ok R (f obj)) :
    Within ok R (withObject p h f) := by
  unfold withObject
  cases p h with
  | none => exact Within.pure _
  | some obj =>
      apply Within.bind (hf obj)
      intro _
      exact Within.pure _

/- An operation that neither deletes, formats nor mounts. -/
def Op.plain : Op → Bool
| .deleteObject _ => false
| .format _ => false
| .mount => false
| _ => true

/- The operations that the file layer covers. -/
theorem FileLayer.exec
    (h : FileLayer ok R)
    (p : ObjPool)
    (op : Op)
    (hPlain : op.plain = true) :
    Within ok R (op.exec p) := by
  have hThen : ∀ {α β : Type} {m : M α} (f : α → β),
      Within ok R m → Within ok R (do
        let a ← m
        pure (f a)) := by
    intro α β m f hm
    apply Within.bind hm
    intro a
    exact Within.pure _
  cases op with
  | getObject =>
      unfold Op.exec
      cases p.free with
      | none => exact Within.pure _
      | some i => exact Within.pure _
  | putObject i => exact Within.pure _
  | openObject i path oflag =>
      exact withObject_within p i fun obj =>
        hThen _ (h.openObject obj path oflag)
  | createObject i path oflag =>
      exact withObject_within p i fun obj =>
        hThen _ (h.createObject obj path oflag)
  | closeObject i =>
      exact withObject_within p i fun obj =>
        hThen _ (h.closeObject obj)
  | writeObject i data =>
      exact withObject_within p i fun obj =>
        hThen _ (h.writeObject obj data)
  | readObject i len =>
      exact withObject_within p i fun obj =>
        hThen _ (h.readObject obj len)
  | objectInfo i =>
      exact withObject_within p i fun obj =>
        hThen _ (h.getObjectInfo obj)
  | seekObject i offset origin =>
      exact withObject_within p i fun obj =>
        hThen _ (FileBase.seekObject obj offset origin)
  | flushObject i =>
      exact withObject_within p i fun obj =>
        hThen _ (h.flushObject obj)
  | truncateObject i remain =>
      exact withObject_within p i fun obj =>
        hThen _ (h.truncateObject obj remain)
  | deleteObject path => cases hPlain
  | renameObject oldPath newPath =>
      exact hThen _ (h.renameObject oldPath newPath p.used)
  | findObject node type => exact hThen _ (h.loadInfo node type)
  | flushAll => exact hThen _ h.flushAll
  | recover => exact hThen _ h.recover
  | format force => cases hPlain
  | mount => cases hPlain

------------------------------------------------------------
-- Deleting and Formatting
------------------------------------------------------------

theorem BlockLayer.deleteDataFrom
    (h : BlockLayer ok R)
    (parent n : Nat) :
    ∀ serial, Within ok R (deleteDataFrom parent n serial) := by
  induction n with
  | zero =>
      intro serial
      exact Within.pure _
  | succ n ih =>
      intro serial
      unfold Uffs.deleteDataFrom treeFindDataNode
      apply Within.bind (Within.gets _)
      intro o
      cases o with
      | none => exact ih _
      | some d =>
          apply Within.bind (h.breakFromEntry _ _)
          intro _
          apply Within.bind (h.setNode _ _)
          intro _
          apply Within.bind (h.treeEraseIgnored _)
          intro _
          apply Within.bind (h.treeInsertToErasedListTail _)
          intro _
          exact ih _

theorem BlockLayer.deleteNode
    (h : BlockLayer ok R)
    (obj : Obj)
    (node : Nat) :
    Within ok R (deleteNode obj node) := by
  unfold Uffs.deleteNode
  apply Within.bind (Within.gets _)
  intro n
  apply Within.bind (h.breakFromEntry _ _)
  intro _
  apply Within.bind (h.setNode _ _)
  intro _
  apply Within.bind (h.treeEraseIgnored _)
  intro _
  apply Within.bind (h.setNode _ _)
  intro _
  apply Within.bind (h.modifyTree _)
  intro _
  apply Within.bind (h.deleteDataFrom _ _ _)
  intro _
  apply Within.bind (h.modifyTree _)
  intro _
  exact h.treeInsertToErasedListTail _

/-
  What deleting an open object and formatting rest on: the
  two layers and the two functions that empty buffers.
-/
structure SessionBase
    (ok : Event → Prop)
    (R : Dev → Dev → Prop) : Prop
    extends DeviceLayer ok R where
  base : FileBase ok R
  checkObjBufRef : ∀ obj node,
    Within ok R (checkObjBufRef obj node)
  setAllEmpty : Within ok R bufSetAllEmpty

/- What the operations rest on. -/
structure SessionLayer
    (ok : Event → Prop)
    (R : Dev → Dev → Prop) : Prop
    extends SessionBase ok R where
  refCount : ∀ f : Int → Int, Within ok R
    (Prog.modify fun s => { s with refCount := f s.refCount })

namespace SessionBase

/- A delete, once nothing is known to use the object. -/
theorem deleteUnused
    (h : SessionBase ok R)
    (obj : Obj)
    (busy : Bool) :
    Within ok R
      (if busy then
        pure (URet.fail, UErr.acces)
      else do
        let _ ← bufFlushAll
        match obj.node with
        | none => Prog.diverge
        | some node =>
            if ← Uffs.checkObjBufRef obj node then
              Uffs.deleteNode obj node
              pure (URet.succ, UErr.noErr)
            else
              pure (URet.fail, UErr.acces)) := by
  apply Within.ite (Within.pure _)
  apply Within.bind h.base.flushAll
  intro _
  cases obj.node with
  | none => exact Within.diverge
  | some node =>
      apply Within.bind (h.checkObjBufRef _ _)
      intro free
      apply Within.ite _ (Within.pure _)
      apply Within.bind (h.deleteNode _ _)
      intro _
      exact Within.pure _

theorem deleteOpened
    (h : SessionBase ok R)
    (obj : Obj)
    (others : List (Option Nat)) :
    Within ok R (deleteOpened obj others) := by
  unfold Uffs.deleteOpened treeFindDirNodeWithParent
    treeFindFileNodeWithParent
  apply Within.ite (Within.pure _)
  dsimp only
  apply Within.ite
  · apply Within.bind (Within.gets _)
    intro o
    cases o with
    | some _ =>
        apply Within.pure_bind
        exact h.deleteUnused obj _
    | none =>
        apply Within.bind (Within.gets _)
        intro f
        apply Within.pure_bind
        exact h.deleteUnused obj _
  · apply Within.pure_bind
    exact h.deleteUnused obj _

theorem expireAllFrom
    (h : SessionBase ok R)
    (l : List Nat) :
    Within ok R (expireAllFrom l) := by
  induction l with
  | nil => exact Within.pure _
  | cons i rest ih =>
      unfold Uffs.expireAllFrom
      apply Within.bind (h.infoExpireAll i)
      intro _
      exact ih

theorem eraseAllFrom
    (h : SessionBase ok R)
    (n : Nat) :
    ∀ block, Within ok R (eraseAllFrom n block) := by
  induction n with
  | zero =>
      intro block
      exact Within.pure _
  | succ n ih =>
      intro block
      unfold Uffs.eraseAllFrom
      apply Within.bind (h.flashIsBadBlock block)
      intro bad
      dsimp only
      apply Within.ite
      · apply Within.bind (h.eraseBlock block)
        intro _
        exact ih _
      · exact ih _

theorem formatDevice
    (h : SessionBase ok R)
    (force : Bool) :
    Within ok R (formatDevice force) := by
  have hErase : Within ok R (formatErase force) := by
    unfold formatErase bcExpireAll
    apply Within.bind h.base.flushAll
    intro ret
    apply Within.bind Within.get
    intro s
    apply Within.ite (Within.pure _)
    apply Within.ite (Within.pure _)
    apply Within.ite (Within.pure _)
    apply Within.bind h.setAllEmpty
    intro _
    apply Within.ite (Within.pure _)
    apply Within.bind
    · apply Within.bind Within.get
      intro s
      exact h.expireAllFrom _
    · intro _
      apply Within.bind (h.eraseAllFrom _ _)
      intro _
      exact Within.pure _
  unfold Uffs.formatDevice treeInit
  apply Within.bind hErase
  intro r
  cases r with
  | fail => exact Within.pure _
  | succ =>
      apply Within.bind (h.modifyTree _)
      intro _
      apply Within.bind h.buildTree
      intro r
      cases r with
      | fail => exact Within.pure _
      | succ => exact Within.pure _

end SessionBase

namespace SessionLayer

omit [IsPreorder Dev R] in
theorem files (h : SessionLayer ok R) : FileLayer ok R where
  toFileBase := h.base
  refCount := h.refCount

theorem deleteObject
    (h : SessionLayer ok R)
    (path : List Byte)
    (used : Nat)
    (others : List (Option Nat)) :
    Within ok R (deleteObject path used others) := by
  have hRelease : ∀ obj (r : URet × UErr), Within ok R (do
      let _ ← doReleaseObjectResource obj
      pure r) := by
    intro obj r
    apply Within.bind (h.files.releaseObject obj)
    intro _
    exact Within.pure _
  have hDelete : ∀ obj, Within ok R (do
      let r ← Uffs.deleteOpened obj others
      let _ ← doReleaseObjectResource obj
      pure r) := by
    intro obj
    apply Within.bind (h.deleteOpened obj _)
    exact hRelease obj
  unfold Uffs.deleteObject
  apply Within.ite (Within.pure _)
  apply Within.bind (h.files.openObject _ _ _)
  intro q
  rcases q with ⟨ret, obj⟩
  cases ret with
  | succ =>
      apply Within.pure_bind
      exact hDelete obj
  | fail =>
      apply Within.bind (h.files.openObject _ _ _)
      intro q
      rcases q with ⟨ret, obj⟩
      cases ret with
      | succ => exact hDelete obj
      | fail => exact hRelease obj _

/- Every operation but a mount. -/
theorem exec
    (h : SessionLayer ok R)
    (p : ObjPool)
    (op : Op)
    (hMount : op ≠ .mount) :
    Within ok R (op.exec p) := by
  by_cases hPlain : op.plain = true
  · exact h.files.exec p op hPlain
  cases op with
  | deleteObject path =>
      unfold Op.exec
      apply Within.bind (h.deleteObject _ _ _)
      intro _
      exact Within.pure _
  | format force =>
      unfold Op.exec
      apply Within.bind (h.files.refCount fun c => c + 1)
      intro _
      apply Within.bind (h.formatDevice force)
      intro r
      cases r with
      | refused =>
          apply Within.bind h.files.putDevice
          intro _
          exact Within.pure _
      | noTree => exact Within.diverge
      | formatted =>
          apply Within.bind h.files.putDevice
          intro _
          exact Within.pure _
  | mount => exact absurd rfl hMount
  | _ => exact absurd rfl hPlain

end SessionLayer

end Uffs
