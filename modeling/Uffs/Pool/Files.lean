import Uffs.Files.Sessions
import Uffs.Pool.Hold

/-
  The file layer puts back each buffer that it gets, as long
  as no buffer is moved onto another one.

  Main declarations:
    * `fileLayer_idles`
    * `sessionLayer_idles`
-/

namespace Uffs

open Prog

variable [Platform] {ok : Event → Prop}

theorem deviceLayer_idles : DeviceLayer ok Idles :=
  deviceLayer_of_shuffles fun _ _ => Shuffles.idles

theorem idles_setNode
    (n : Nat)
    (f : TreeNode → TreeNode) :
    Within ok Idles (setNode n f) :=
  deviceLayer_idles.setNode n f

theorem idles_bufFlushGroupEx
    (parent serial : Nat)
    (force : Bool) :
    Within ok Idles (bufFlushGroupEx parent serial force) :=
  Flushes.within_idles (flushes_bufFlushGroupEx _ _ _)

------------------------------------------------------------
-- Reading and Writing
------------------------------------------------------------

theorem idles_writeNewBlockFrom
    (fnode parent serial n : Nat) :
    ∀ pageId rest wrote,
      Within ok Idles
        (writeNewBlockFrom fnode parent serial n pageId rest
          wrote) := by
  induction n with
  | zero =>
      intro pageId rest wrote
      exact Within.pure _
  | succ n ih =>
      intro pageId rest wrote
      unfold writeNewBlockFrom
      apply Within.ite (Within.pure _)
      apply Opens.idles (opens_bufNew _ _ _ _)
      · exact Within.pure _
      · intro i s hs
        apply wlp_thenPut (holds_bufWrite i _ _) _ hs
        intro ret
        cases ret with
        | fail => exact Within.pure _
        | succ =>
            apply Within.bind (idles_setNode _ _)
            intro _
            exact ih _ _ _

/- Write one page of a buffer, put it and go on. -/
theorem wlp_writePage_idle
    (fnode pageOfs wrote : Nat)
    (data : List Byte)
    (f : TreeNode → TreeNode)
    {next : M Nat}
    (hNext : Within ok Idles next)
    {i : Nat}
    {s : Dev}
    (hs : s.buf.Held i) :
    wlp ok (do
      let ret ← bufWrite i data pageOfs
      let _ ← bufPut i
      match ret with
      | .fail => pure wrote
      | .succ =>
          setNode fnode f
          next)
      (fun _ t => t.buf.Idle) s := by
  apply wlp_thenPut (holds_bufWrite i _ _) _ hs
  intro ret
  cases ret with
  | fail => exact Within.pure _
  | succ =>
      apply Within.bind (idles_setNode _ _)
      intro _
      exact hNext

theorem idles_writeInternalFrom
    (obj : Obj)
    (fnode node : Nat)
    (key : GroupKey)
    (fdn n : Nat) :
    ∀ blockOfs rest wrote,
      Within ok Idles
        (writeInternalFrom obj fnode node key fdn n blockOfs
          rest wrote) := by
  induction n with
  | zero =>
      intro blockOfs rest wrote
      exact Within.pure _
  | succ n ih =>
      intro blockOfs rest wrote
      unfold writeInternalFrom
      apply Within.ite (Within.pure _)
      apply Within.bind (Within.gets _)
      intro f
      dsimp only
      apply Within.ite
      · apply Opens.idles (opens_bufNew _ _ _ _)
        · exact Within.pure _
        · intro i s hs
          exact wlp_writePage_idle _ _ _ _ _ (ih _ _ _) hs
      · apply Opens.idles (opens_bufGetEx _ _ _ _)
        · exact Within.pure _
        · intro i s hs
          exact wlp_writePage_idle _ _ _ _ _ (ih _ _ _) hs

/- Read one page, and go on behind what it holds. -/
theorem idles_readPage
    (type : BlockType)
    (dnode pageId : Nat)
    (noEcc : Bool)
    (start remain : Nat)
    (next : Nat → M (List (Option Byte) × Option UErr))
    (hNext : ∀ size, Within ok Idles (next size)) :
    Within ok Idles (do
      match ← bufGetEx type dnode pageId noEcc with
      | none => pure ([], some .ioerr)
      | some i =>
          let pageOfs := start % pgDataSize
          let b ← getBuf i
          if pageOfs ≥ b.dataLen then do
            let _ ← bufPut i
            pure ([], none)
          else do
            let size :=
              if remain + pageOfs > b.dataLen then
                b.dataLen - pageOfs
              else remain
            let bytes ← bufRead i pageOfs size
            let _ ← bufPut i
            let (more, err) ← next size
            pure (copied bytes size ++ more, err)) := by
  apply Opens.idles (opens_bufGetEx _ _ _ _)
  · exact Within.pure _
  · intro i s hs
    unfold getBuf
    dsimp only
    rw [wlp_bind, wlp_gets]
    split
    · rw [wlp_bind]
      refine wlp_mono (wlp_bufPut_idle hs) ?_
      intro _ t ht
      rw [wlp_pure]
      exact ht
    · apply wlp_thenPut _ _ hs
      · unfold bufRead
        apply Within.bind (Within.gets _)
        intro _
        exact Within.pure _
      · intro bytes
        apply Within.bind (hNext _)
        intro _
        exact Within.pure _

theorem idles_readObjectFrom
    (obj : Obj)
    (fnode n : Nat) :
    ∀ start remain,
      Within ok Idles
        (readObjectFrom obj fnode n start remain) := by
  induction n with
  | zero =>
      intro start remain
      exact Within.pure _
  | succ n ih =>
      intro start remain
      unfold readObjectFrom
      apply Within.bind (Within.gets _)
      intro f
      apply Within.ite (Within.pure _)
      have hNext : ∀ size, Within ok Idles
          (readObjectFrom obj fnode n ((start + size) % 2 ^ 32)
            (remain - size)) := by
        intro size
        exact ih _ _
      dsimp only
      apply Within.ite
      · apply Within.pure_bind
        exact idles_readPage _ _ _ _ start remain _ hNext
      · unfold treeFindDataNode
        apply Within.bind (Within.gets _)
        intro o
        cases o with
        | none => exact Within.pure _
        | some dnode =>
            exact idles_readPage _ _ _ _ start remain _ hNext

theorem idles_treeCompareFileName
    (name : List Byte)
    (sum node : Nat)
    (type : BlockType) :
    Within ok Idles
      (treeCompareFileName name sum node type) := by
  unfold treeCompareFileName
  apply Opens.idles (opens_bufGetEx _ _ _ _)
  · exact Within.pure _
  · intro i s hs
    unfold getBuf
    dsimp only
    rw [wlp_bind, wlp_gets, wlp_bind]
    refine wlp_mono (wlp_bufPut_idle hs) ?_
    intro _ t ht
    rw [wlp_pure]
    exact ht

theorem idles_loadObjectInfo
    (node : Nat)
    (type : BlockType) :
    Within ok Idles (loadObjectInfo node type) := by
  unfold loadObjectInfo
  apply Opens.idles (opens_bufGetEx _ _ _ _)
  · exact Within.pure _
  · intro i s hs
    unfold getBuf getNode
    dsimp only
    rw [wlp_bind, wlp_gets, wlp_bind, wlp_gets, wlp_bind]
    refine wlp_mono (wlp_bufPut_idle hs) ?_
    intro _ t ht
    rw [wlp_pure]
    exact ht

------------------------------------------------------------
-- Creating
------------------------------------------------------------

theorem shuffles_getCurDateTime :
    Within ok Shuffles getCurDateTime := by
  unfold getCurDateTime
  apply Within.bind shuffles_nextAnswer
  intro _
  exact Within.pure _

theorem idles_createNew (obj : Obj) :
    Within ok Idles (createNew obj) := by
  have hEnd : ∀ o : Obj, Within ok Idles (do
      recoverIfPending
      pure o) := by
    intro o
    apply Within.bind deviceLayer_idles.recoverIfPending
    intro _
    exact Within.pure _
  unfold createNew findFreeFsnSerial
  apply Within.bind (Within.gets _)
  intro o
  cases o with
  | none => exact Within.pure _
  | some serial =>
  apply Within.bind Within.get
  intro s
  apply Within.ite (Within.pure _)
  apply Opens.idles (opens_bufNew _ _ _ _)
  · exact Within.pure _
  · intro i s hs
    dsimp only
    rw [wlp_bind]
    refine wlp_mono (shuffles_getCurDateTime s) ?_
    intro now t ht
    apply wlp_thenPut (holds_bufWrite i _ _) _
      (ht.flushes.holds hs)
    intro _
    apply Within.bind (idles_bufFlushGroupEx _ _ _)
    intro _
    unfold treeFindFsNode treeFindDirNode treeFindFileNode
    apply Within.bind
      (Within.ite (Within.gets _) (Within.gets _))
    intro o
    cases o with
    | none => exact Within.pure _
    | some node =>
        apply Within.ite
        · apply Within.bind (idles_setNode _ _)
          intro _
          exact hEnd _
        · exact hEnd _

------------------------------------------------------------
-- Renaming
------------------------------------------------------------

/- A held buffer gets the page that no other buffer has. -/
theorem BufPool.Held.move
    {p : BufPool}
    {i newParent : Nat}
    (h : p.Held i)
    (hClash : p.clashes i newParent = false) :
    (p.replace i
      { p.entry i with parent := newParent }).Held i := by
  unfold BufPool.clashes at hClash
  by_cases hParent : (p.entry i).parent = newParent
  · have hEq : p.replace i
        { p.entry i with parent := newParent } = p := by
      unfold BufPool.replace upd
      rw [← hParent]
      congr 1
      funext j
      split
      · rename_i hj
        rw [hj]
      · rfl
    rw [hEq]
    exact h
  · simp only [Bool.and_eq_false_iff, bne_eq_false_iff_eq,
      hParent, false_or, Bool.or_eq_false_iff,
      beq_eq_false_iff_ne, Option.isSome_eq_false_iff,
      Option.isNone_iff_eq_none] at hClash
    have hLacks := BufPool.find_none_lacks hClash.2
    have hAlone : p.Alone i
        { p.entry i with parent := newParent } :=
      hLacks.alone rfl
    constructor
    · refine h.sound.replace h.mem hClash.1 ?_ fun _ => hAlone
      exact hClash.1
    · exact h.mem
    · rw [BufPool.replace_same]
      exact h.held
    · intro j hj hji
      rw [BufPool.replace_other hji]
      exact h.idle j hj hji
    · intro j hj hji hMark
      rw [BufPool.replace_other hji] at hMark ⊢
      rw [BufPool.replace_same]
      exact hAlone j hj hji hMark

theorem idles_moveObjectEx
    (hMoved : ¬ ok (.note .movedOnto))
    (obj : Obj)
    (newParent : Nat)
    (newName : List Byte) :
    Within ok Idles (moveObjectEx obj newParent newName) := by
  unfold moveObjectEx
  cases obj.node with
  | none => exact Within.pure _
  | some node =>
  have hSet : ∀ obj : Obj, Within ok Idles (do
      setNode node fun n => n.setName obj.sum newParent
      pure (obj.ret, obj)) := by
    intro obj
    apply Within.bind (idles_setNode _ _)
    intro _
    exact Within.pure _
  apply Within.ite (Within.pure _)
  dsimp only
  apply Within.ite
  · apply Within.pure_bind
    exact hSet _
  · apply Opens.idles (opens_bufGetEx _ _ _ _)
    · apply Within.pure_bind
      exact Within.pure _
    · intro i s hs
      unfold getBuf noteWhen setBuf note
      dsimp only
      rw [wlp_bind, wlp_gets, wlp_bind]
      refine wlp_mono (shuffles_getCurDateTime s) ?_
      intro now t ht
      have hHeld : t.buf.Held i := ht.flushes.holds hs
      rw [wlp_bind, wlp_bind, wlp_get]
      split
      · rw [wlp_emit]
        intro hOk
        exact absurd hOk hMoved
      · rename_i hClash
        rw [wlp_pure, wlp_bind, wlp_modify]
        apply wlp_thenPut (holds_bufWrite i _ _) _
          (hHeld.move (Bool.eq_false_iff.mpr hClash))
        intro _
        apply Within.bind (idles_bufFlushGroupEx _ _ _)
        intro _
        apply Within.pure_bind
        exact hSet _

------------------------------------------------------------
-- Emptying Buffers
------------------------------------------------------------

theorem BufPool.Idle.replace
    {p : BufPool}
    {i : Nat}
    {b : Buf}
    (h : p.Idle)
    (hi : i ∈ p.list)
    (hClean : (p.entry i).mark ≠ .dirty)
    (hMark : b.mark = .empty)
    (hRef : b.refCount = (p.entry i).refCount) :
    (p.replace i b).Idle where
  sound := by
    apply h.sound.replace hi hClean
    · rw [hMark]
      exact BufMark.noConfusion
    · exact fun hBad => absurd hMark hBad
  idle := fun j hj => by
    by_cases hji : j = i
    · rw [hji, BufPool.replace_same, hRef]
      exact h.idle i hi
    · rw [BufPool.replace_other hji]
      exact h.idle j hj

/- A buffer of the list is emptied. -/
theorem wlp_bufMarkEmpty
    {s : Dev}
    {i : Nat}
    (hs : s.buf.Idle)
    (hi : i ∈ s.buf.list) :
    wlp ok (bufMarkEmpty i)
      (fun _ t => t.buf.Idle) s := by
  unfold bufMarkEmpty getBuf
  dsimp only
  rw [wlp_bind, wlp_gets]
  split
  · split
    · rename_i hDirty
      rcases hs.sound.dirty i hi hDirty with ⟨slot, hSlot⟩
      rw [wlp_bind]
      refine wlp_mono (wlp_breakFromDirty hs.sound hSlot) ?_
      intro r t ht
      have hEmpty : ∀ f : Buf → Buf,
          (∀ b, (f b).pageKey = b.pageKey) →
          (∀ b, (f b).refCount = b.refCount) →
          (∀ b, (f b).mark ≠ .dirty) →
          wlp ok (setBuf i f) (fun _ t => t.buf.Idle) t := by
        intro f hKey hRef hMark
        unfold setBuf
        rw [wlp_modify, ht.2, BufPool.clean_clean]
        constructor
        · exact hs.sound.clean hSlot hKey hMark
        · intro j hj
          unfold BufPool.clean
          dsimp only
          by_cases hji : j = i
          · rw [hji, upd_same, hRef]
            exact hs.idle i hi
          · rw [upd_other _ _ hji]
            exact hs.idle j hj
      apply hEmpty
      · exact fun _ => rfl
      · exact fun _ => rfl
      · exact fun _ => BufMark.noConfusion
    · rename_i hClean
      unfold setBuf
      rw [wlp_modify]
      exact hs.replace hi hClean rfl rfl
  · rw [wlp_pure]
    exact hs

theorem idles_bufMarkFound
    {α : Type}
    (parent serial pageId : Nat)
    {m : M α}
    (hm : Within ok Idles m) :
    Within ok Idles (do
      match ← bufFind parent serial pageId with
      | none => pure ()
      | some i => bufMarkEmpty i
      m) := by
  apply within_idles
  intro s hs
  have hNext : ∀ t : Dev, t.buf.Idle →
      wlp ok m (fun _ t => t.buf.Idle) t := by
    intro t ht
    refine wlp_mono (hm t) ?_
    intro _ u hu
    exact hu ht
  unfold bufFind
  rw [wlp_bind, wlp_gets]
  cases hFind : s.buf.find parent serial pageId with
  | none => exact hNext s hs
  | some i =>
      dsimp only
      rw [wlp_bind]
      refine wlp_mono
        (wlp_bufMarkEmpty hs (BufPool.find_some hFind).1) ?_
      intro _ t ht
      exact hNext t ht

theorem idles_markEmptyFrom
    (parent serial n : Nat) :
    ∀ pageId, Within ok Idles
      (markEmptyFrom parent serial n pageId) := by
  induction n with
  | zero =>
      intro pageId
      exact Within.pure _
  | succ n ih =>
      intro pageId
      unfold markEmptyFrom
      exact idles_bufMarkFound _ _ _ (ih _)

theorem idles_discardBlockFrom
    (parent serial : Nat)
    (run : RunOption)
    (n : Nat) :
    ∀ page, Within ok Idles
      (discardBlockFrom parent serial run n page) := by
  induction n with
  | zero =>
      intro page
      exact Within.pure _
  | succ n ih =>
      intro page
      apply within_idles
      intro s hs
      have hNext : ∀ t : Dev, t.buf.Idle →
          wlp ok
            (discardBlockFrom parent serial run n (page + 1))
            (fun _ t => t.buf.Idle) t := by
        intro t ht
        refine wlp_mono (ih (page + 1) t) ?_
        intro _ u hu
        exact hu ht
      unfold discardBlockFrom bufFind getBuf
      rw [wlp_bind, wlp_gets]
      cases hFind : s.buf.find parent serial page with
      | none => exact hNext s hs
      | some i =>
          dsimp only
          rw [wlp_bind, wlp_gets]
          split
          · rw [wlp_pure]
            exact hs
          split
          · rw [wlp_bind]
            refine wlp_mono
              (wlp_bufMarkEmpty hs (BufPool.find_some hFind).1)
              ?_
            intro _ t ht
            exact hNext t ht
          · exact hNext s hs

/-
  All buffers of a list are looked at, and those that are
  emptied are not dirty.
-/
theorem wlp_emptyBuffers
    (hEmptied : ¬ ok (.note .dirtyEmptied))
    (parent serial : Nat)
    (l : List Nat) :
    ∀ s : Dev, s.buf.Idle → (∀ i ∈ l, i ∈ s.buf.list) →
      wlp ok (emptyBuffers parent serial l)
        (fun _ t => t.buf.Idle ∧ t.buf.list = s.buf.list) s :=
  by
  induction l with
  | nil =>
      intro s hs _
      unfold emptyBuffers
      rw [wlp_pure]
      exact ⟨hs, rfl⟩
  | cons i rest ih =>
      intro s hs hAll
      have hi := hAll i List.mem_cons_self
      have hRest : ∀ j ∈ rest, j ∈ s.buf.list :=
        fun j hj => hAll j (List.mem_cons_of_mem _ hj)
      unfold emptyBuffers getBuf setBuf note
      rw [wlp_bind, wlp_gets]
      split
      · split
        · rw [wlp_pure]
          exact ⟨hs, rfl⟩
        split
        · rw [wlp_bind, wlp_emit]
          intro hOk
          exact absurd hOk hEmptied
        · rename_i hClean
          have hNext : (s.buf.replace i
              { s.buf.entry i with mark := .empty }).Idle :=
            hs.replace hi hClean rfl rfl
          rw [wlp_bind, wlp_modify]
          refine wlp_mono (ih _ hNext hRest) ?_
          intro _ t ht
          exact ht
      · exact ih s hs hRest

theorem idles_emptyDataBuffers
    (hEmptied : ¬ ok (.note .dirtyEmptied))
    (parent n : Nat) :
    ∀ serial, Within ok Idles
      (emptyDataBuffers parent n serial) := by
  induction n with
  | zero =>
      intro serial
      exact Within.pure _
  | succ n ih =>
      intro serial
      apply within_idles
      intro s hs
      unfold emptyDataBuffers
      rw [wlp_bind, wlp_get, wlp_bind]
      refine wlp_mono (wlp_emptyBuffers hEmptied parent serial
        s.buf.list s hs fun _ => id) ?_
      intro free t ht
      cases free with
      | true =>
          refine wlp_mono (ih (serial + 1) t) ?_
          intro _ u hu
          exact hu ht.1
      | false =>
          rw [if_neg Bool.noConfusion, wlp_pure]
          exact ht.1

theorem idles_checkObjBufRef
    (hEmptied : ¬ ok (.note .dirtyEmptied))
    (obj : Obj)
    (node : Nat) :
    Within ok Idles (checkObjBufRef obj node) := by
  apply within_idles
  intro s hs
  unfold checkObjBufRef getNode
  rw [wlp_bind, wlp_get, wlp_bind]
  refine wlp_mono (wlp_emptyBuffers hEmptied obj.parent
    obj.serial s.buf.list s hs fun _ => id) ?_
  intro free t ht
  split
  · rw [wlp_bind, wlp_gets]
    split
    · refine wlp_mono
        (idles_emptyDataBuffers hEmptied _ _ _ t) ?_
      intro _ u hu
      exact hu ht.1
    · rw [wlp_pure]
      exact ht.1
  · rw [wlp_pure]
    exact ht.1

theorem idles_bufSetAllEmpty
    (hEmptied : ¬ ok (.note .dirtyEmptied)) :
    Within ok Idles bufSetAllEmpty := by
  have hFrom : ∀ l (s : Dev), s.buf.Idle →
      (∀ i ∈ l, i ∈ s.buf.list) →
      wlp ok (bufSetEmptyFrom l)
        (fun _ t => t.buf.Idle) s := by
    intro l
    induction l with
    | nil =>
        intro s hs _
        unfold bufSetEmptyFrom
        rw [wlp_pure]
        exact hs
    | cons i rest ih =>
        intro s hs hAll
        unfold bufSetEmptyFrom getBuf setBuf note
        rw [wlp_bind, wlp_gets]
        split
        · rw [wlp_bind, wlp_emit]
          intro hOk
          exact absurd hOk hEmptied
        · rename_i hClean
          have hi := hAll i List.mem_cons_self
          have hNext : (s.buf.replace i
              { s.buf.entry i with mark := .empty }).Idle :=
            hs.replace hi hClean rfl rfl
          rw [wlp_bind, wlp_modify]
          apply ih _ hNext
          exact fun j hj => hAll j (List.mem_cons_of_mem _ hj)
  apply within_idles
  intro s hs
  unfold bufSetAllEmpty
  rw [wlp_bind, wlp_get]
  exact hFrom s.buf.list s hs fun _ => id

------------------------------------------------------------
-- Truncating
------------------------------------------------------------

theorem idles_expireBlock
    {α : Type}
    (block : Nat)
    {m : M α}
    (hm : Within ok Idles m) :
    Within ok Idles (do
      match ← blockInfoGet block with
      | none => pure ()
      | some bc =>
          blockInfoExpireAll bc
          blockInfoPut bc
      m) := by
  apply Within.bind (deviceLayer_idles.infoGet block)
  intro o
  cases o with
  | none => exact hm
  | some bc =>
      apply Within.bind (deviceLayer_idles.infoExpireAll bc)
      intro _
      apply Within.bind (deviceLayer_idles.infoPut bc)
      intro _
      exact hm

theorem idles_watchTruncation (w : Option (Nat × Nat)) :
    Within ok Idles (watchTruncation w) := by
  apply Within.modify
  intro s
  exact (Shuffles.of_eq rfl).idles

theorem idles_truncateInternal
    (obj : Obj)
    (key : GroupKey)
    (node maxPageId blockStart remain : Nat) :
    Within ok Idles
      (truncateInternal obj key node maxPageId blockStart
        remain) := by
  have hTail : ∀ i n pageId last (m : M Obj) (s : Dev),
      Within ok Idles m → s.buf.Held i →
        wlp ok (do
          setBuf i fun b =>
            { b with
              dataLen := truncDataLen remain
              truncTail := true }
          let _ ← bufPut i
          markEmptyFrom key.parent key.serial n pageId
          noteWhen (fun s => !s.buf.linksPage i key.type last)
            .tailNotWritten
          watchTruncation (some (blockStart, remain))
          let _ ← bufFlushGroupEx key.parent key.serial true
          watchTruncation none
          noteWhen (fun s => s.buf.linked i) .tailNotWritten
          m)
          (fun _ t => t.buf.Idle) s := by
    intro i n pageId last m s hm hs
    apply wlp_thenPut _ _ hs
    · exact holds_setBuf i fun _ => ⟨rfl, rfl, rfl⟩
    · intro _
      apply Within.bind (idles_markEmptyFrom _ _ _ _)
      intro _
      apply Within.bind (BlockLayer.noteWhen _ _)
      intro _
      apply Within.bind (idles_watchTruncation _)
      intro _
      apply Within.bind (idles_bufFlushGroupEx _ _ _)
      intro _
      apply Within.bind (idles_watchTruncation _)
      intro _
      apply Within.bind (BlockLayer.noteWhen _ _)
      intro _
      exact hm
  unfold truncateInternal
  apply Within.bind (Within.gets _)
  intro n
  dsimp only
  apply Within.ite (Within.pure _)
  apply Within.bind (idles_bufFlushGroupEx _ _ _)
  intro _
  apply Opens.idles (opens_bufGetEx _ _ _ _)
  · exact Within.pure _
  · intro i s hs
    unfold bufFindGroupSlot
    dsimp only
    rw [wlp_bind]
    refine wlp_mono (holds_bufWrite i _ _ s) ?_
    intro _ t ht
    rw [wlp_bind, wlp_gets]
    cases t.buf.findGroupSlot key.parent key.serial with
    | none =>
        apply hTail _ _ _ _ _ _ _ (ht hs)
        exact idles_expireBlock _ (Within.pure _)
    | some slot =>
        have hLock : Within ok (Holds i) (setGroup slot fun g =>
            { g with lock := g.lock + 1 }) :=
          holds_setGroup slot (fun _ => rfl) (fun _ => rfl)
        have hUnlock : Within ok Idles (setGroup slot fun g =>
            { g with lock := g.lock - 1 }) :=
          idles_setGroup slot (fun _ => rfl) (fun _ => rfl)
        unfold bufLockGroup bufUnLockGroup
        dsimp only
        rw [wlp_bind]
        refine wlp_mono (hLock t) ?_
        intro _ u hu
        apply hTail _ _ _ _ _ _ _ (hu (ht hs))
        apply Within.bind hUnlock
        intro _
        exact idles_expireBlock _ (Within.pure _)

theorem idles_truncateBlock
    (obj : Obj)
    (fnode fdn blockStart : Nat)
    (run : RunOption) :
    Within ok Idles
      (truncateBlock obj fnode fdn blockStart run) := by
  have hBlocks : DeviceLayer ok Idles := deviceLayer_idles
  have hPut : ∀ bc (q : Bool × Obj), Within ok Idles (do
      blockInfoPut bc
      pure q) := by
    intro bc q
    apply Within.bind (hBlocks.infoPut _)
    intro _
    exact Within.pure _
  unfold truncateBlock
  apply Within.bind (Within.gets _)
  intro o
  cases o with
  | none => exact Within.pure _
  | some node =>
  apply Within.bind (Within.gets _)
  intro n
  apply Within.bind (hBlocks.infoGet _)
  intro o
  cases o with
  | none => exact Within.pure _
  | some bc =>
  apply Within.bind (Within.gets _)
  intro f
  apply Within.bind (idles_discardBlockFrom _ _ _ _ _)
  intro free
  dsimp only
  apply Within.ite (hPut bc _)
  apply Within.ite _ (hPut bc _)
  apply Within.bind (hBlocks.breakFromEntry _ _)
  intro _
  apply Within.bind (Within.gets _)
  intro w
  apply Within.bind (hBlocks.setNode _ _)
  intro _
  apply Within.bind (hBlocks.treeEraseIgnored _)
  intro _
  apply Within.bind (hBlocks.treeInsertToErasedListTail _)
  intro _
  apply Within.bind (hBlocks.setNode _ _)
  intro _
  exact hPut bc _

------------------------------------------------------------
-- The File Layer
------------------------------------------------------------

theorem fileLayer_idles
    (hMoved : ¬ ok (.note .movedOnto)) :
    FileLayer ok Idles where
  refCount f := by
    apply Within.mono _ fun _ _ => Shuffles.idles
    exact shuffles_modify fun _ => rfl
  setLen n l := idles_setNode n _
  recover := deviceLayer_idles.recoverIfPending
  flushSlot force slot :=
    Flushes.within_idles (flushes_bufFlushSlot force slot)
  writeNewBlock fnode data parent serial :=
    idles_writeNewBlockFrom _ _ _ _ _ _ _
  writeInternalBlock obj fnode node fdn data ofs := by
    unfold doWriteInternalBlock
    apply Within.bind (Within.gets _)
    intro n
    exact idles_writeInternalFrom _ _ _ _ _ _ _ _ _
  readFrom := idles_readObjectFrom
  compareName := idles_treeCompareFileName
  loadInfo := idles_loadObjectInfo
  truncateInternal := idles_truncateInternal
  truncateBlock := idles_truncateBlock
  createNew := idles_createNew
  moveObjectEx := idles_moveObjectEx hMoved

theorem sessionLayer_idles
    (hMoved : ¬ ok (.note .movedOnto))
    (hEmptied : ¬ ok (.note .dirtyEmptied)) :
    SessionLayer ok Idles where
  toDeviceLayer := deviceLayer_idles
  base := (fileLayer_idles hMoved).toFileBase
  refCount := (fileLayer_idles hMoved).refCount
  checkObjBufRef := idles_checkObjBufRef hEmptied
  setAllEmpty := idles_bufSetAllEmpty hEmptied

end Uffs
