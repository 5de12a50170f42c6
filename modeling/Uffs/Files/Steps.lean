import Uffs.Files.Flush
import Uffs.Files.Pages
import Uffs.Files.Sessions

/-
  Everything below the opening and closing of objects, in
  the order of what it does to the page buffers.

  Reading, writing and erasing leaves the dirty groups, the
  pages of the buffers and their truncate marks.  Copies and
  block recovers use buffers for other pages, and only take
  marks away.  The rest also breaks buffers from the dirty
  groups, or recovers a group.

  Main declarations:
    * `Tails`
    * `StepLayer`, `StepLayer.blockLayer`
    * `RekeyLayer`, `RekeyLayer.deviceLayer`,
      `RekeyLayer.recoverFuel`
    * `TameLayer`, `TameLayer.sessionBase`
-/

namespace Uffs

open Prog

variable [Platform]

/- What a truncate mark of a buffer depends on. -/
def Buf.tailKey (b : Buf) : Bool × BlockType × Nat :=
  (b.truncTail, b.type, b.pageId)

/-
  The dirty groups, the pages of the buffers and their
  truncate marks are the same, and none was watched.
-/
structure Tails (s t : Dev) : Prop where
  group : t.buf.group = s.buf.group
  tail : ∀ i, (t.buf.entry i).tailKey = (s.buf.entry i).tailKey
  truncating : t.watch.truncating = s.watch.truncating
  staleMark : t.watch.staleMark = s.watch.staleMark

instance : IsPreorder Dev Tails where
  refl _ := ⟨rfl, fun _ => rfl, rfl, rfl⟩
  trans _ _ _ h h' :=
    ⟨h'.group.trans h.group,
      fun i => (h'.tail i).trans (h.tail i),
      h'.truncating.trans h.truncating,
      h'.staleMark.trans h.staleMark⟩

/- What reading, writing and erasing rests on. -/
structure StepLayer
    (ok : Event → Prop)
    (R : Dev → Dev → Prop) : Prop where
  tails : ∀ s t : Dev, Tails s t →
    t.refCount = s.refCount → t.bc.list = s.bc.list → R s t
  infoFind : ∀ b, Within ok R (blockInfoFindInCache b)
  infoGet : ∀ b, Within ok R (blockInfoGet b)

/- What copies and block recovers rest on. -/
structure RekeyLayer
    (ok : Event → Prop)
    (R : Dev → Dev → Prop) : Prop
    extends StepLayer ok R where
  rekey : ∀ i f, Unmarking f → Within ok R (setBuf i f)
  cleanDirty : ∀ slot n i,
    Within ok R (cleanDirtyFrom slot n i)

/- What all that is below the objects rests on. -/
structure TameLayer
    (ok : Event → Prop)
    (R : Dev → Dev → Prop) : Prop
    extends RekeyLayer ok R where
  setGroup : ∀ slot f, Within ok R (setGroup slot f)
  watchMarks : ∀ slot, Within ok R (watchMarks slot)

namespace StepLayer

variable {ok : Event → Prop} {R : Dev → Dev → Prop}
  [IsPreorder Dev R]

/- No buffer changes. -/
omit [IsPreorder Dev R] in
theorem modify
    (h : StepLayer ok R)
    {f : Dev → Dev}
    (hf : ∀ s, (f s).buf = s.buf ∧
      (f s).watch.truncating = s.watch.truncating ∧
      (f s).watch.staleMark = s.watch.staleMark ∧
      (f s).refCount = s.refCount ∧
      (f s).bc.list = s.bc.list) :
    Within ok R (Prog.modify f) := by
  apply Within.modify
  intro s
  rcases hf s with ⟨hBuf, hTruncating, hStale, hRef, hList⟩
  refine h.tails s _ ?_ hRef hList
  constructor
  · rw [hBuf]
  · intro i
    rw [hBuf]
  · exact hTruncating
  · exact hStale

/- The order of the buffers is in no tail. -/
omit [IsPreorder Dev R] in
theorem setLists
    (h : StepLayer ok R)
    (f : BufPool → BufPool)
    (hf : ∀ p, (f p).entry = p.entry ∧ (f p).group = p.group) :
    Within ok R
      (Prog.modify fun s => { s with buf := f s.buf }) := by
  apply Within.modify
  intro s
  refine h.tails s _ ?_ rfl rfl
  constructor
  · exact (hf s.buf).2
  · intro i
    dsimp only
    rw [(hf s.buf).1]
  · rfl
  · rfl

------------------------------------------------------------
-- Reading, Writing and Erasing
------------------------------------------------------------

/- The clock is beside the buffers. -/
protected theorem nextAnswer (h : StepLayer ok R) :
    Within ok R nextAnswer := by
  unfold nextAnswer
  apply Within.bind Within.get
  intro s
  apply Within.bind
  · exact h.modify fun _ => ⟨rfl, rfl, rfl, rfl, rfl⟩
  intro _
  exact Within.pure _

protected theorem spareGet
    (h : StepLayer ok R) : Within ok R spareGet := by
  unfold spareGet
  apply Within.bind Within.get
  intro s
  apply Within.ite (Within.pure _)
  apply Within.bind
  · exact h.modify fun _ => ⟨rfl, rfl, rfl, rfl, rfl⟩
  intro _
  exact Within.pure _

omit [IsPreorder Dev R] in
protected theorem sparePut
    (h : StepLayer ok R) : Within ok R sparePut :=
  h.modify fun _ => ⟨rfl, rfl, rfl, rfl, rfl⟩

omit [IsPreorder Dev R] in
protected theorem setInfo
    (h : StepLayer ok R)
    (i : Nat)
    (f : BlockInfo → BlockInfo) :
    Within ok R (setInfo i f) :=
  h.modify fun _ => ⟨rfl, rfl, rfl, rfl, rfl⟩

/- A buffer stays for its page. -/
omit [IsPreorder Dev R] in
protected theorem setBuf
    (h : StepLayer ok R)
    (i : Nat)
    {f : Buf → Buf}
    (hf : ∀ b, (f b).tailKey = b.tailKey) :
    Within ok R (setBuf i f) := by
  apply Within.modify
  intro s
  refine h.tails s _ ?_ rfl rfl
  constructor
  · rfl
  · intro j
    by_cases hj : j = i
    · subst hj
      dsimp only
      rw [upd_same]
      exact hf _
    · dsimp only
      rw [upd_other _ _ hj]
  · rfl
  · rfl

/-
  What is watched of reads is not what is watched of the
  truncate marks.
-/
omit [IsPreorder Dev R] in
protected theorem watchTag
    (h : StepLayer ok R)
    (b p : Nat)
    (failed : Bool) :
    Within ok R (watchTag b p failed) :=
  h.modify fun _ => ⟨rfl, rfl, rfl, rfl, rfl⟩

/- An event changes the medium. -/
protected theorem medium (h : StepLayer ok R) (e : Event) :
    Within ok R (medium e) := by
  unfold medium
  apply Within.bind
  · exact h.modify fun _ => ⟨rfl, rfl, rfl, rfl, rfl⟩
  intro _
  exact Within.emit _

/- The pending list is beside the buffers. -/
protected theorem badBlockAddByFlashResult
    (h : StepLayer ok R)
    (b : Nat)
    (ret : FlashRet) :
    Within ok R (badBlockAddByFlashResult b ret) := by
  unfold badBlockAddByFlashResult badBlockAdd
  cases pendingType ret with
  | none => exact Within.pure _
  | some mark =>
      apply Within.bind
      · exact h.modify fun _ => ⟨rfl, rfl, rfl, rfl, rfl⟩
      intro _
      exact Within.pure _

omit [IsPreorder Dev R] in
protected theorem badBlockPendingRemove
    (h : StepLayer ok R)
    (b : Nat) :
    Within ok R (badBlockPendingRemove b) :=
  h.modify fun _ => ⟨rfl, rfl, rfl, rfl, rfl⟩

/- Without a spare buffer the driver is not asked. -/
protected theorem flashReadPageTag
    (h : StepLayer ok R)
    (b p : Nat)
    (tag : Tag) :
    Within ok R (flashReadPageTag b p tag) := by
  unfold flashReadPageTag
  apply Within.bind h.spareGet
  intro got
  apply Within.ite (Within.pure _)
  apply Within.bind h.nextAnswer
  intro a
  apply Within.bind Within.get
  intro s
  apply Within.bind h.sparePut
  intro _
  apply Within.ite
  · apply Within.bind (h.watchTag _ _ _)
    intro _
    exact Within.pure _
  · exact Within.pure _

/- The data of the buffer change, and not its page. -/
protected theorem flashReadPage
    (h : StepLayer ok R)
    (b p i : Nat)
    (skipEcc : Bool) :
    Within ok R (flashReadPage b p i skipEcc) := by
  unfold flashReadPage
  apply Within.bind h.spareGet
  intro got
  apply Within.ite (Within.pure _)
  apply Within.bind h.nextAnswer
  intro a
  apply Within.bind Within.get
  intro s
  refine Within.bind (h.setBuf _ fun _ => rfl) ?_
  intro _
  apply Within.bind h.sparePut
  intro _
  exact Within.pure _

/- A clone buffer keeps its page until it is used. -/
protected theorem bufClone
    (h : StepLayer ok R) : Within ok R bufClone := by
  unfold Uffs.bufClone
  apply Within.bind Within.get
  intro s
  cases s.buf.clone with
  | nil => exact Within.pure _
  | cons i rest =>
      apply Within.bind
      · exact h.setLists (fun p => { p with clone := rest })
          fun _ => ⟨rfl, rfl⟩
      · intro _
        refine Within.bind (h.setBuf _ fun _ => rfl) ?_
        intro _
        exact Within.pure _

/- A buffer that is no clone buffer is left alone. -/
protected theorem bufFreeClone
    (h : StepLayer ok R)
    (i : Nat) :
    Within ok R (bufFreeClone i) := by
  unfold Uffs.bufFreeClone getBuf
  apply Within.bind (Within.gets _)
  intro b
  apply Within.ite (Within.pure _)
  refine Within.bind (h.setBuf _ fun _ => rfl) ?_
  intro _
  apply Within.bind
  · exact h.setLists (fun p => { p with clone := i :: p.clone })
      fun _ => ⟨rfl, rfl⟩
  · intro _
    exact Within.pure _

/- The page is read into a clone buffer, if there is one. -/
protected theorem verifyPageData
    (h : StepLayer ok R)
    (b p : Nat)
    (data : List Byte) :
    Within ok R (verifyPageData b p data) := by
  unfold verifyPageData getBuf
  apply Within.bind h.bufClone
  intro o
  cases o with
  | none => exact Within.pure _
  | some v =>
      apply Within.bind (h.flashReadPage _ _ _ _)
      intro ret
      apply Within.bind (Within.gets _)
      intro x
      apply Within.bind (h.bufFreeClone _)
      intro _
      exact Within.pure _

protected theorem driverWritePage
    (h : StepLayer ok R)
    (b p : Nat)
    (content : Page) :
    Within ok R (driverWritePage b p content) := by
  unfold driverWritePage
  apply Within.bind h.nextAnswer
  intro a
  dsimp only
  apply Within.bind (h.medium _)
  intro _
  apply Within.ite
  · apply Within.bind (h.watchTag _ _ _)
    intro _
    exact Within.pure _
  · exact Within.pure _

/-
  The page is written, and then its data and its tag are
  read back.
-/
protected theorem flashWritePageCombine
    (h : StepLayer ok R)
    (b p i : Nat)
    (tag : Tag) :
    Within ok R (flashWritePageCombine b p i tag) := by
  unfold flashWritePageCombine
  apply Within.bind h.spareGet
  intro got
  apply Within.ite (Within.pure _)
  apply Within.bind (Within.gets _)
  intro x
  apply Within.bind (h.driverWritePage _ _ _)
  intro ret
  apply Within.ite
  · apply Within.bind h.sparePut
    intro _
    exact Within.pure _
  · apply Within.bind (h.verifyPageData _ _ _)
    intro bad
    apply Within.bind (h.flashReadPageTag _ _ _)
    intro q
    apply Within.bind h.sparePut
    intro _
    exact Within.ite (Within.pure _) (Within.pure _)

protected theorem blockInfoLoad
    (h : StepLayer ok R)
    (i p : Nat) :
    Within ok R (blockInfoLoad i p) := by
  unfold blockInfoLoad
  apply Within.ite (Within.pure _)
  apply Within.bind (Within.gets _)
  intro w
  apply Within.ite (Within.pure _)
  apply Within.bind (h.flashReadPageTag _ _ _)
  intro q
  apply Within.bind (h.badBlockAddByFlashResult _ _)
  intro _
  apply Within.ite
  · apply Within.bind (h.setInfo _ _)
    intro _
    exact Within.pure _
  · apply Within.bind (h.setInfo _ _)
    intro _
    exact Within.pure _

/- By induction on the pages that are left. -/
protected theorem blockInfoLoadFrom
    (h : StepLayer ok R)
    (i n : Nat) :
    ∀ page nfailed, Within ok R
      (blockInfoLoadFrom i n page nfailed) := by
  induction n with
  | zero =>
      intro page nfailed
      exact Within.pure _
  | succ n ih =>
      intro page nfailed
      unfold blockInfoLoadFrom
      apply Within.bind (Within.gets _)
      intro w
      apply Within.ite (ih _ _)
      apply Within.bind (h.flashReadPageTag _ _ _)
      intro q
      apply Within.bind (h.badBlockAddByFlashResult _ _)
      intro _
      apply Within.ite
      · apply Within.bind (h.setInfo _ _)
        intro _
        exact ih _ _
      · apply Within.bind (h.setInfo _ _)
        intro _
        exact ih _ _

protected theorem driverEraseBlock
    (h : StepLayer ok R)
    (b : Nat) :
    Within ok R (driverEraseBlock b) := by
  unfold driverEraseBlock
  apply Within.bind h.nextAnswer
  intro a
  dsimp only
  apply Within.bind (h.medium _)
  intro _
  apply Within.bind
  · exact h.modify fun _ => ⟨rfl, rfl, rfl, rfl, rfl⟩
  intro _
  exact Within.pure _

/- The block may not be in the cache. -/
protected theorem expireCached
    (h : StepLayer ok R)
    (b : Nat) :
    Within ok R (expireCached b) := by
  unfold expireCached blockInfoExpireAll blockInfoPut
  apply Within.bind (h.infoFind b)
  intro o
  cases o with
  | none => exact Within.pure _
  | some i =>
      apply Within.bind (h.setInfo _ _)
      intro _
      exact h.setInfo _ _

/- The block is erased, and then marked. -/
protected theorem flashMarkBadBlock
    (h : StepLayer ok R)
    (b : Nat) :
    Within ok R (flashMarkBadBlock b) := by
  unfold flashMarkBadBlock
  apply Within.bind (h.badBlockPendingRemove b)
  intro _
  apply Within.bind (h.expireCached b)
  intro _
  apply Within.bind (h.driverEraseBlock b)
  intro _
  apply Within.bind h.nextAnswer
  intro a
  exact Within.ite (h.medium _) (Within.pure _)

protected theorem noteUnchecked
    (b : Nat) :
    Within ok R (noteUnchecked b) := by
  unfold noteUnchecked
  apply Within.bind Within.get
  intro s
  exact Within.ite (Within.emit _) (Within.pure _)

/- By induction on the pages that are left. -/
protected theorem flashCheckErasedFrom
    (h : StepLayer ok R)
    (b i n : Nat) :
    ∀ page, Within ok R
      (flashCheckErasedFrom b i n page) := by
  induction n with
  | zero =>
      intro page
      exact Within.pure _
  | succ n ih =>
      intro page
      unfold flashCheckErasedFrom
      apply Within.bind h.nextAnswer
      intro a
      apply Within.bind Within.get
      intro s
      refine Within.bind (h.setBuf _ fun _ => rfl) ?_
      intro _
      apply Within.ite (Within.pure _)
      apply Within.ite
      · apply Within.bind (Within.emit _)
        intro _
        exact ih _
      · exact ih _

/- Without a spare or a clone buffer the block passes. -/
protected theorem flashCheckErasedBlock
    (h : StepLayer ok R)
    (b : Nat) :
    Within ok R (flashCheckErasedBlock b) := by
  have hNote : ∀ r : URet, Within ok R (do
      noteUnchecked b
      pure r) := by
    intro r
    apply Within.bind (StepLayer.noteUnchecked b)
    intro _
    exact Within.pure _
  unfold flashCheckErasedBlock
  apply Within.bind h.spareGet
  intro got
  apply Within.ite (hNote _)
  apply Within.bind h.bufClone
  intro o
  cases o with
  | none =>
      apply Within.bind h.sparePut
      intro _
      exact hNote _
  | some i =>
      apply Within.bind (h.flashCheckErasedFrom _ _ _ _)
      intro ret
      apply Within.bind h.sparePut
      intro _
      apply Within.bind (h.bufFreeClone _)
      intro _
      exact Within.pure _

/-
  The block info of a block that is handed out is made a
  blank one.
-/
protected theorem prepareErased
    (h : StepLayer ok R)
    (n : Nat) :
    Within ok R (prepareErased n) := by
  unfold prepareErased watchHandOut blockInfoInitErased
    blockInfoPut
  apply Within.bind (Within.gets _)
  intro node
  apply Within.bind
  · exact h.modify fun _ => ⟨rfl, rfl, rfl, rfl, rfl⟩
  intro _
  apply Within.bind (h.infoGet _)
  intro o
  cases o with
  | none => exact Within.pure _
  | some i =>
      apply Within.bind (h.setInfo _ _)
      intro _
      apply Within.bind (h.setInfo _ _)
      intro _
      exact Within.pure _

/- None of these takes a buffer for another page. -/
theorem blockLayer (h : StepLayer ok R) : BlockLayer ok R where
  infoLoad := h.blockInfoLoad
  infoLoadAll i := by
    unfold blockInfoLoadAll
    apply Within.bind (h.blockInfoLoadFrom _ _ _ _)
    intro _
    exact Within.pure _
  modifyTree f := h.modify fun _ => ⟨rfl, rfl, rfl, rfl, rfl⟩
  nextAnswer := h.nextAnswer
  infoGet := h.infoGet
  infoPut i := h.setInfo _ _
  infoExpireAll i := h.setInfo _ _
  eraseBlock b := by
    unfold flashEraseBlock
    apply Within.bind (h.badBlockPendingRemove b)
    intro _
    apply Within.bind (h.driverEraseBlock b)
    intro _
    apply Within.bind (h.expireCached b)
    intro _
    exact Within.pure _
  markBad := h.flashMarkBadBlock
  checkErased := h.flashCheckErasedBlock
  prepareErased := h.prepareErased

/- The buffer moves to the head of the list. -/
protected theorem bufGet
    (h : StepLayer ok R)
    (parent serial pageId : Nat) :
    Within ok R (bufGet parent serial pageId) := by
  unfold Uffs.bufGet bufFind moveNodeToHead
  apply Within.bind (Within.gets _)
  intro o
  cases o with
  | none => exact Within.pure _
  | some i =>
      refine Within.bind (h.setBuf _ fun _ => rfl) ?_
      intro _
      apply Within.bind
      · exact h.setLists
          (fun p => { p with list := i :: p.list.erase i })
          fun _ => ⟨rfl, rfl⟩
      · intro _
        exact Within.pure _

protected theorem bufPut
    (h : StepLayer ok R)
    (i : Nat) :
    Within ok R (bufPut i) := by
  unfold Uffs.bufPut getBuf
  apply Within.bind (Within.gets _)
  intro b
  apply Within.ite (Within.pure _)
  apply Within.ite (h.bufFreeClone i)
  refine Within.bind (h.setBuf _ fun _ => rfl) ?_
  intro _
  exact Within.pure _

end StepLayer

namespace RekeyLayer

variable {ok : Event → Prop} {R : Dev → Dev → Prop}
  [IsPreorder Dev R]

------------------------------------------------------------
-- Copying and Mounting
------------------------------------------------------------

/-
  The copy of a page is a clone buffer with the key of the
  block; the induction is on the pages.
-/
protected theorem copyFrom
    (h : RekeyLayer ok R)
    (bc : Nat)
    (newBc : Option Nat)
    (goodBlock n : Nat) :
    ∀ i dirty, Within ok R
      (copyFrom bc newBc goodBlock n i dirty) := by
  have hBlocks : BlockLayer ok R := h.blockLayer
  induction n with
  | zero =>
      intro i dirty
      exact Within.pure _
  | succ n ih =>
      intro i dirty
      have hWrite : ∀ b newTag, Within ok R (do
          let ret ← flashWritePageCombine goodBlock i b newTag
          let _ ← bufFreeClone b
          if ret.isBadBlock then
            pure .newBad
          else if ret = .ioErr then
            pure (.finished false true)
          else do
            noteNotStored goodBlock i newTag
            copyFrom bc newBc goodBlock n (i + 1) true) := by
        intro b newTag
        apply Within.bind (h.flashWritePageCombine _ _ _ _)
        intro ret
        apply Within.bind (h.bufFreeClone _)
        intro _
        apply Within.ite (Within.pure _)
        apply Within.ite (Within.pure _)
        apply Within.bind (BlockLayer.noteWhen _ _)
        intro _
        exact ih _ _
      unfold copyFrom
      apply Within.bind (hBlocks.findPageInBlockWithPageId _ _)
      intro o
      cases o with
      | none => exact Within.pure _
      | some page =>
      apply Within.bind (hBlocks.findBestPageInBlock _ _)
      intro o
      cases o with
      | none => exact Within.pure _
      | some page =>
      apply Within.bind (Within.gets _)
      intro tag
      apply Within.bind h.bufClone
      intro o
      cases o with
      | none => exact Within.pure _
      | some b =>
      apply Within.bind (Within.gets _)
      intro w
      apply Within.bind (h.flashReadPage _ _ _ _)
      intro ret
      apply Within.ite
      · apply Within.bind (h.bufFreeClone _)
        intro _
        exact Within.pure _
      · refine Within.bind (h.rekey _ _ fun _ => id) ?_
        intro _
        cases newBc with
        | none => exact hWrite b _
        | some c =>
            apply Within.bind (h.setInfo _ _)
            intro _
            exact hWrite b _

/- The clone buffer is freed on every way out. -/
protected theorem loadNameSum
    (h : RekeyLayer ok R)
    (n bc block : Nat) :
    Within ok R (loadNameSum n bc block) := by
  have hBlocks : BlockLayer ok R := h.blockLayer
  have hFree : ∀ (b : Nat) (r : NameSum), Within ok R (do
      let _ ← bufFreeClone b
      pure r) := by
    intro b r
    apply Within.bind (h.bufFreeClone _)
    intro _
    exact Within.pure _
  unfold loadNameSum
  apply Within.bind h.bufClone
  intro o
  cases o with
  | none => exact Within.pure _
  | some b =>
  apply Within.bind (hBlocks.infoLoadAll bc)
  intro r
  cases r with
  | fail =>
      apply Within.bind
        (hBlocks.treeProcessPendingBadBlock n block)
      intro done
      exact hFree b _
  | succ =>
  apply Within.bind (hBlocks.findPageInBlockWithPageId _ _)
  intro o
  cases o with
  | none => exact hFree b _
  | some page =>
  apply Within.bind (hBlocks.findBestPageInBlock _ _)
  intro best
  apply Within.bind (h.flashReadPage _ _ _ _)
  intro ret
  apply Within.bind (h.badBlockAddByFlashResult _ _)
  intro pending
  apply Within.ite (hFree b _)
  apply Within.bind (Within.gets _)
  intro x
  exact hFree b _

/- The copies are what needs more than the steps below. -/
theorem deviceLayer (h : RekeyLayer ok R) : DeviceLayer ok R where
  toBlockLayer := h.blockLayer
  pending f := h.modify fun _ => ⟨rfl, rfl, rfl, rfl, rfl⟩
  pendingOnce k bc bad _ hRetry := by
    apply h.blockLayer.pendingOnce _ _ hRetry
    · exact h.infoFind
    · intro newBc goodBlock
      exact h.copyFrom bc newBc goodBlock _ 0 false
  loadNameSum := h.loadNameSum

------------------------------------------------------------
-- Flushing
------------------------------------------------------------

theorem flushLayer (h : RekeyLayer ok R) : FlushLayer ok R where
  toBlockLayer := h.blockLayer
  pendingRemove := h.badBlockPendingRemove
  cleanDirty := h.cleanDirty

/-
  A cached page is taken as it is; otherwise a clone buffer
  gets its key.
-/
protected theorem recoverSource
    (h : RekeyLayer ok R)
    (key : GroupKey)
    (bc page i : Nat) :
    Within ok R (recoverSource key bc page i) := by
  unfold recoverSource
  apply Within.bind (Within.gets _)
  intro oldTag
  apply Within.bind (h.bufGet _ _ _)
  intro o
  cases o with
  | some b => exact Within.pure _
  | none =>
  apply Within.bind h.bufClone
  intro o
  cases o with
  | none => exact Within.pure _
  | some b =>
  apply Within.bind (Within.gets _)
  intro w
  apply Within.bind (h.flashReadPage _ _ _ _)
  intro ret
  apply Within.bind (h.badBlockAddByFlashResult _ _)
  intro pending
  cases pending with
  | none =>
      apply Within.ite
      · apply Within.bind (h.bufFreeClone _)
        intro _
        exact Within.pure _
      · refine Within.bind (h.rekey _ _ fun _ => id) ?_
        intro _
        exact Within.pure _
  | some _ =>
      refine Within.bind (h.rekey _ _ fun _ => id) ?_
      intro _
      exact Within.pure _

/-
  By induction on the pages of the new block: from the dirty
  list, or from the old block.
-/
protected theorem recoverFrom
    (h : RekeyLayer ok R)
    (slot : Nat)
    (key : GroupKey)
    (bc newBc newBlock timeStamp n : Nat) :
    ∀ i sum, Within ok R
      (recoverFrom slot key bc newBc newBlock timeStamp n i
        sum) := by
  have hBlocks : BlockLayer ok R := h.blockLayer
  have hDropped : ∀ (i : Nat) (r : Recovery),
      Within ok R (do
        noteDropped slot i
        pure r) := by
    intro i r
    apply Within.bind (BlockLayer.noteWhen _ _)
    intro _
    exact Within.pure _
  induction n with
  | zero =>
      intro i sum
      exact Within.pure _
  | succ n ih =>
      intro i sum
      unfold recoverFrom
      apply Within.bind (Within.gets _)
      intro old
      apply Within.bind (h.setInfo _ _)
      intro _
      apply Within.bind (Within.gets _)
      intro o
      cases o with
      | some d =>
          apply Within.bind (Within.gets _)
          intro b
          apply Within.bind (h.setInfo _ _)
          intro _
          apply Within.ite
          · apply Within.ite
            · apply Within.bind
                (h.flashWritePageCombine _ _ _ _)
              intro _
              exact Within.pure _
            · apply Within.ite (hDropped _ _) (Within.pure _)
          · apply Within.bind
              (h.flashWritePageCombine _ _ _ _)
            intro op
            exact Within.ite (Within.pure _) (ih _ _)
      | none =>
          apply Within.bind
            (hBlocks.findPageInBlockWithPageId _ _)
          intro o
          cases o with
          | none => exact hDropped _ _
          | some page =>
          apply Within.bind (hBlocks.findBestPageInBlock _ _)
          intro o
          cases o with
          | none => exact Within.pure _
          | some page =>
          apply Within.bind (h.recoverSource _ _ _ _)
          intro o
          cases o with
          | none => exact Within.pure _
          | some q =>
          refine Within.bind (h.rekey _ _ fun _ => id) ?_
          intro _
          apply Within.bind (Within.gets _)
          intro b
          apply Within.bind (h.setInfo _ _)
          intro _
          apply Within.bind
            (h.flashWritePageCombine _ _ _ _)
          intro op
          dsimp only
          apply Within.ite
          · apply Within.bind (h.bufFreeClone _)
            intro _
            exact Within.ite (Within.pure _) (ih _ _)
          · apply Within.bind (h.bufPut _)
            intro _
            exact Within.ite (Within.pure _) (ih _ _)

/- The group is cleaned when the loop has come to its end. -/
protected theorem recoverOnce
    (h : RekeyLayer ok R)
    (slot : Nat)
    (key : GroupKey)
    (node bc : Nat)
    (badBlock : Bool)
    {retry : M URet}
    (hRetry : Within ok R retry) :
    Within ok R
      (recoverOnce slot key node bc badBlock retry) := by
  have hFlush : FlushLayer ok R := h.flushLayer
  unfold recoverOnce
  apply Within.bind (hFlush.infoLoadAll _)
  intro _
  apply Within.bind hFlush.treeGetErasedNode
  intro o
  cases o with
  | none => exact Within.pure _
  | some newNode =>
  apply Within.bind (Within.gets _)
  intro n
  apply Within.bind (hFlush.infoGet _)
  intro o
  cases o with
  | none =>
      apply Within.bind (hFlush.insertToErasedListHead _)
      intro _
      exact Within.pure _
  | some newBc =>
  apply Within.bind (hFlush.infoLoadAll _)
  intro _
  apply Within.bind (hFlush.getBlockTimeStamp _)
  intro ts
  apply Within.bind (h.recoverFrom _ _ _ _ _ _ _ _ _)
  intro r
  have hEnd := hFlush.recoverEnd slot key node bc newNode newBc
    n.listBlock badBlock r hRetry
  apply Within.ite
  · apply Within.bind (h.setInfo _ _)
    intro _
    exact hEnd
  · exact hEnd

/- By induction on the fuel for new blocks that are bad. -/
protected theorem recoverFuel
    (h : RekeyLayer ok R)
    (slot : Nat)
    (key : GroupKey)
    (node bc : Nat)
    (badBlock : Bool)
    (fuel : Nat) :
    Within ok R
      (recoverFuel slot key node bc badBlock fuel) := by
  induction fuel with
  | zero => exact h.recoverOnce _ _ _ _ _ Within.diverge
  | succ fuel ih => exact h.recoverOnce _ _ _ _ _ ih

end RekeyLayer

namespace TameLayer

variable {ok : Event → Prop} {R : Dev → Dev → Prop}
  [IsPreorder Dev R]

omit [IsPreorder Dev R] in
theorem bufferLayer (h : TameLayer ok R) : BufferLayer ok R where
  rekey := h.rekey
  setGroup := h.setGroup
  setLists := h.setLists

protected theorem bufFlushExistWithBlockRecover
    (h : TameLayer ok R)
    (slot node bc : Nat)
    (badBlock : Bool) :
    Within ok R
      (bufFlushExistWithBlockRecover slot node bc badBlock) := by
  apply BlockLayer.existWithBlockRecover _ _ _ _
    (h.watchMarks slot)
  intro key
  exact h.recoverFuel _ _ _ _ _ _

/- A page has been written, and its buffer is given up. -/
protected theorem breakThen
    (h : TameLayer ok R)
    (d : Nat)
    {next : M (Option URet)}
    (hNext : Within ok R next) :
    Within ok R (do
      match ← breakFromDirty d with
      | .succ =>
          setBuf d fun b => { b with mark := .valid }
          moveNodeToHead d
          next
      | .fail => next) := by
  apply Within.bind (h.bufferLayer.breakFromDirty _)
  intro r
  cases r with
  | succ =>
      refine Within.bind (h.setBuf _ fun _ => rfl) ?_
      intro _
      apply Within.bind (h.bufferLayer.moveNodeToHead _)
      intro _
      exact hNext
  | fail => exact hNext

/-
  By induction on the pages; a write that finds a bad block
  goes over to a recover.
-/
protected theorem enoughFrom
    (h : TameLayer ok R)
    (slot node bc n : Nat) :
    ∀ page, Within ok R
      (enoughFrom slot node bc n page) := by
  have hBlocks : BlockLayer ok R := h.blockLayer
  induction n with
  | zero =>
      intro page
      exact Within.pure _
  | succ n ih =>
      intro page
      unfold enoughFrom
      apply Within.bind (Within.gets _)
      intro g
      apply Within.ite (Within.pure _)
      apply Within.bind (hBlocks.findErasedPageFrom _ _ _)
      intro page'
      apply Within.ite (Within.pure _)
      apply Within.bind (Within.gets _)
      intro o
      cases o with
      | none => exact Within.pure _
      | some d =>
      apply Within.bind (Within.gets _)
      intro b
      apply Within.bind (hBlocks.getBlockTimeStamp _)
      intro ts
      apply Within.bind (h.setInfo _ _)
      intro _
      apply Within.bind (Within.gets _)
      intro w
      apply Within.bind (h.flashWritePageCombine _ _ _ _)
      intro x
      apply Within.bind (BlockLayer.noteWhen _ _)
      intro _
      apply Within.ite (Within.pure _)
      apply Within.ite
      · apply Within.bind
          (h.bufFlushExistWithBlockRecover _ _ _ _)
        intro _
        exact Within.pure _
      apply Within.ite
      · apply Within.bind (Within.emit _)
        intro _
        exact h.breakThen d (ih _)
      · exact h.breakThen d (ih _)

protected theorem existWithEnoughFreePage
    (h : TameLayer ok R)
    (slot node bc : Nat) :
    Within ok R
      (bufFlushExistWithEnoughFreePage slot node bc) := by
  unfold bufFlushExistWithEnoughFreePage
  apply Within.bind (h.enoughFrom _ _ _ _ _)
  intro o
  cases o with
  | some _ => exact Within.pure _
  | none =>
      apply Within.bind (Within.gets _)
      intro g
      exact Within.ite (Within.pure _) (Within.pure _)

/-
  An append if there is room for it and none forces a
  recover.
-/
protected theorem bufFlushExist
    (h : TameLayer ok R)
    (slot node : Nat)
    (force : Bool) :
    Within ok R (bufFlushExist slot node force) := by
  have hBlocks : BlockLayer ok R := h.blockLayer
  unfold bufFlushExist
  apply Within.bind (Within.gets _)
  intro n
  apply Within.bind (hBlocks.infoGet _)
  intro o
  cases o with
  | none => exact Within.pure _
  | some bc =>
  apply Within.bind (hBlocks.infoLoadAll _)
  intro r
  cases r with
  | fail =>
      apply Within.bind (hBlocks.infoPut _)
      intro _
      exact Within.pure _
  | succ =>
  apply Within.bind (hBlocks.getFreePagesCount _)
  intro n
  apply Within.bind (Within.gets _)
  intro g
  have hPut : ∀ ret : URet, Within ok R (do
      blockInfoPut bc
      pure ret) := by
    intro ret
    apply Within.bind (hBlocks.infoPut _)
    intro _
    exact Within.pure _
  dsimp only
  apply Within.ite
  · apply Within.bind (h.existWithEnoughFreePage _ _ _)
    exact hPut
  · apply Within.bind
      (h.bufFlushExistWithBlockRecover _ _ _ _)
    exact hPut

protected theorem bufFlushSlot
    (h : TameLayer ok R)
    (force : Bool)
    (slot : Nat) :
    Within ok R (bufFlushSlot force slot) := by
  apply BlockLayer.bufFlushSlot
  · apply h.blockLayer.bufFlushNewBlock
    intro node bc
    exact h.bufFlushExistWithBlockRecover _ _ _ _
  · intro node
    exact h.bufFlushExist _ _ _

------------------------------------------------------------
-- Files
------------------------------------------------------------

/- The buffer gets its key before the page is read. -/
protected theorem bufLoad
    (h : TameLayer ok R)
    (type : BlockType)
    (parent serial pageId : Nat)
    (noEcc : Bool)
    (node i : Nat) :
    Within ok R
      (bufLoad type parent serial pageId noEcc node i) := by
  have hBlocks : BlockLayer ok R := h.blockLayer
  unfold bufLoad
  apply Within.bind (Within.gets _)
  intro n
  apply Within.bind (hBlocks.infoGet _)
  intro o
  cases o with
  | none => exact Within.pure _
  | some bc =>
  apply Within.bind (hBlocks.findPageInBlockWithPageId _ _)
  intro o
  cases o with
  | none =>
      apply Within.bind (hBlocks.infoPut _)
      intro _
      exact Within.pure _
  | some page =>
  apply Within.bind (hBlocks.findBestPageInBlock _ _)
  intro o
  cases o with
  | none => exact Within.pure _
  | some page =>
  apply Within.bind (hBlocks.infoPut _)
  intro _
  refine Within.bind (h.rekey _ _ fun _ => id) ?_
  intro _
  apply Within.bind (h.flashReadPage _ _ _ _)
  intro ret
  apply Within.bind (h.badBlockAddByFlashResult _ _)
  intro pending
  apply Within.ite (Within.pure _)
  apply Within.ite (Within.pure _)
  apply Within.bind (Within.gets _)
  intro tag
  refine Within.bind (h.rekey _ _ fun _ => id) ?_
  intro _
  apply Within.bind (h.bufferLayer.moveNodeToHead _)
  intro _
  exact Within.pure _

/-
  The buffers of the block are emptied before the block is
  erased.
-/
protected theorem truncateBlock
    (h : TameLayer ok R)
    (obj : Obj)
    (fnode fdn blockStart : Nat)
    (run : RunOption) :
    Within ok R
      (truncateBlock obj fnode fdn blockStart run) := by
  have hBlocks : BlockLayer ok R := h.blockLayer
  have hPut : ∀ bc (q : Bool × Obj), Within ok R (do
      blockInfoPut bc
      pure q) := by
    intro bc q
    apply Within.bind (hBlocks.infoPut _)
    intro _
    exact Within.pure _
  unfold truncateBlock
  apply Within.bind (Within.gets _)
  intro o
  cases o with
  | none => exact Within.pure _
  | some node =>
  apply Within.bind (Within.gets _)
  intro n
  apply Within.bind (hBlocks.infoGet _)
  intro o
  cases o with
  | none => exact Within.pure _
  | some bc =>
  apply Within.bind (Within.gets _)
  intro f
  apply Within.bind
    (h.bufferLayer.discardBlockFrom _ _ _ _ _)
  intro free
  dsimp only
  apply Within.ite (hPut bc _)
  apply Within.ite _ (hPut bc _)
  apply Within.bind (hBlocks.breakFromEntry _ _)
  intro _
  apply Within.bind (Within.gets _)
  intro w
  apply Within.bind (hBlocks.setNode _ _)
  intro _
  apply Within.bind (hBlocks.treeEraseIgnored _)
  intro _
  apply Within.bind (hBlocks.treeInsertToErasedListTail _)
  intro _
  apply Within.bind (hBlocks.setNode _ _)
  intro _
  exact hPut bc _

theorem pageBase (h : TameLayer ok R) : PageBase ok R where
  toBufferLayer := h.bufferLayer
  nextAnswer := h.nextAnswer
  setInPlace n _ _ := h.blockLayer.setNode n _
  recover := h.deviceLayer.recoverIfPending
  flushSlot := h.bufFlushSlot
  load := h.bufLoad
  truncateBlock := h.truncateBlock

/- The blocks of a truncation, apart from the last one. -/
theorem sessionBase
    (h : TameLayer ok R)
    (hTruncate : ∀ obj key node maxPageId start remain,
      Within ok R
        (truncateInternal obj key node maxPageId start
          remain)) : SessionBase ok R where
  toDeviceLayer := h.deviceLayer
  base := h.pageBase.fileBase hTruncate
  checkObjBufRef := h.bufferLayer.checkObjBufRef
  setAllEmpty := h.bufferLayer.bufSetAllEmpty

end TameLayer

end Uffs
