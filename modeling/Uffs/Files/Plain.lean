import Uffs.Files.Steps

/-
  Everything below the opening and closing of objects stays
  within each relation that holds of any two states with the
  same reference count and the same list of cached block
  infos.

  Main declarations:
    * `PlainLayer`
    * `PlainLayer.blockLayer`, `PlainLayer.deviceLayer`
    * `PlainLayer.pageLayer`, `PlainLayer.sessionBase`
-/

namespace Uffs

open Prog

variable [Platform]

/- What all that is below the objects rests on. -/
structure PlainLayer
    (ok : Event → Prop)
    (R : Dev → Dev → Prop) : Prop where
  same : ∀ s t : Dev, t.refCount = s.refCount →
    t.bc.list = s.bc.list → R s t
  infoFind : ∀ b, Within ok R (blockInfoFindInCache b)
  infoGet : ∀ b, Within ok R (blockInfoGet b)

namespace PlainLayer

variable {ok : Event → Prop} {R : Dev → Dev → Prop}
  [IsPreorder Dev R]

omit [IsPreorder Dev R] in
theorem modify
    (h : PlainLayer ok R)
    {f : Dev → Dev}
    (hRef : ∀ s, (f s).refCount = s.refCount)
    (hList : ∀ s, (f s).bc.list = s.bc.list) :
    Within ok R (Prog.modify f) :=
  Within.modify fun s => h.same s _ (hRef s) (hList s)

omit [IsPreorder Dev R] in
theorem buffers
    {α : Type}
    (h : PlainLayer ok R)
    {m : M α}
    (hm : Within ok Buffers m) : Within ok R m := by
  apply hm.mono
  intro s t hEq
  apply h.same
  · rw [hEq]
  · rw [hEq]

omit [IsPreorder Dev R] in
theorem tameLayer (h : PlainLayer ok R) : TameLayer ok R where
  tails s t _ hRef hList := h.same s t hRef hList
  infoFind := h.infoFind
  infoGet := h.infoGet
  rekey _ _ _ := h.modify (fun _ => rfl) fun _ => rfl
  cleanDirty slot n i :=
    h.buffers (buffers_cleanDirtyFrom slot n i)
  setGroup _ _ := h.modify (fun _ => rfl) fun _ => rfl
  watchMarks _ := h.modify (fun _ => rfl) fun _ => rfl

theorem blockLayer (h : PlainLayer ok R) : BlockLayer ok R :=
  h.tameLayer.blockLayer

theorem deviceLayer (h : PlainLayer ok R) :
    DeviceLayer ok R :=
  h.tameLayer.deviceLayer

theorem pageLayer (h : PlainLayer ok R) : PageLayer ok R where
  buffers := h.buffers
  nextAnswer := h.tameLayer.nextAnswer
  setInPlace := h.tameLayer.pageBase.setInPlace
  recover := h.deviceLayer.recoverIfPending
  flushSlot := h.tameLayer.bufFlushSlot
  load := h.tameLayer.bufLoad
  expireBlock b a := by
    have hBlocks : BlockLayer ok R := h.blockLayer
    apply Within.bind (hBlocks.infoGet b)
    intro o
    cases o with
    | none => exact Within.pure _
    | some bc =>
        apply Within.bind (hBlocks.infoExpireAll bc)
        intro _
        apply Within.bind (hBlocks.infoPut bc)
        intro _
        exact Within.pure _
  truncateBlock := h.tameLayer.truncateBlock
  watchTruncation _ := h.modify (fun _ => rfl) fun _ => rfl

theorem sessionBase (h : PlainLayer ok R) : SessionBase ok R :=
  h.tameLayer.sessionBase h.pageLayer.truncateInternal

end PlainLayer

end Uffs
