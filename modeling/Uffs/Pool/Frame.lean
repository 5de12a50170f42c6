import Mathlib.Data.List.Nodup
import Mathlib.Data.List.Perm.Basic
import Uffs.Files.Device

/-
  The page buffers while blocks are read, written, erased
  and copied.

  These functions read through clone buffers, which they
  give back.  `Shuffles` says what they leave of the page
  buffers, `Lends` what is true while a clone is out.

  Main declarations:
    * `BufPool.Shuffled`, `Shuffles`
    * `Lends`
    * `blockLayer_shuffles`
    * `shuffles_copyFrom`, `deviceLayer_of_shuffles`
-/

namespace Uffs

open Prog

variable [Platform]

------------------------------------------------------------
-- Page Buffers
------------------------------------------------------------

/- The page that a buffer is for. -/
def Buf.pageKey (b : Buf) : Nat × Nat × Nat :=
  (b.parent, b.serial, b.pageId)

/- The dirty group that a buffer is for. -/
def Buf.groupKey (b : Buf) : Nat × Nat :=
  (b.parent, b.serial)

/- A buffer is for the same page, and used as before. -/
structure Buf.Same (b b' : Buf) : Prop where
  pageKey : b'.pageKey = b.pageKey
  mark : b'.mark = b.mark
  refCount : b'.refCount = b.refCount

omit [Platform] in
theorem Buf.Same.refl (b : Buf) : b.Same b :=
  ⟨rfl, rfl, rfl⟩

omit [Platform] in
theorem Buf.Same.trans
    {b b' b'' : Buf}
    (h : b.Same b')
    (h' : b'.Same b'') : b.Same b'' where
  pageKey := h'.pageKey.trans h.pageKey
  mark := h'.mark.trans h.mark
  refCount := h'.refCount.trans h.refCount

omit [Platform] in
theorem Buf.groupKey_congr
    {b b' : Buf}
    (h : b'.pageKey = b.pageKey) :
    b'.groupKey = b.groupKey := by
  unfold Buf.pageKey at h
  unfold Buf.groupKey
  rw [Prod.mk.injEq, Prod.mk.injEq] at h
  rw [h.1, h.2.1]

/-
  The page buffers are in some order, the clones are free
  again, and the dirty groups are as before.
-/
structure BufPool.Shuffled (p q : BufPool) : Prop where
  list : q.list.Perm p.list
  clone : q.clone = p.clone
  group : q.group = p.group
  entry : ∀ i ∉ p.clone, (p.entry i).Same (q.entry i)
  free : ∀ i ∈ p.clone, (p.entry i).mark = .empty →
    (q.entry i).mark = .empty

/- The clone `c` is taken from the page buffers. -/
structure BufPool.Lent (c : Nat) (p q : BufPool) : Prop where
  list : q.list.Perm p.list
  clone : p.clone = c :: q.clone
  group : q.group = p.group
  entry : ∀ i ∉ p.clone, (p.entry i).Same (q.entry i)
  free : ∀ i ∈ q.clone, (p.entry i).mark = .empty →
    (q.entry i).mark = .empty
  refCount : (q.entry c).refCount = cloneBufMark

/- Every buffer is in one list. -/
def BufPool.Apart (p : BufPool) : Prop :=
  (p.list ++ p.clone).Nodup

/- What is left of the page buffers. -/
def Shuffles (s t : Dev) : Prop :=
  s.buf.Apart → s.buf.Shuffled t.buf

/- The clone `c` is out. -/
def Lends (c : Nat) (s t : Dev) : Prop :=
  s.buf.Apart → s.buf.Lent c t.buf

omit [Platform] in
theorem BufPool.Shuffled.refl (p : BufPool) : p.Shuffled p where
  list := List.Perm.refl _
  clone := rfl
  group := rfl
  entry := fun _ _ => Buf.Same.refl _
  free := fun _ _ => id

omit [Platform] in
theorem BufPool.Shuffled.apart
    {p q : BufPool}
    (h : p.Shuffled q)
    (hp : p.Apart) : q.Apart := by
  unfold BufPool.Apart
  rw [h.clone, (h.list.append_right p.clone).nodup_iff]
  exact hp

omit [Platform] in
theorem BufPool.Shuffled.trans
    {p q r : BufPool}
    (h : p.Shuffled q)
    (h' : q.Shuffled r) : p.Shuffled r where
  list := h'.list.trans h.list
  clone := h'.clone.trans h.clone
  group := h'.group.trans h.group
  entry := fun i hi => by
    apply (h.entry i hi).trans
    apply h'.entry i
    rw [h.clone]
    exact hi
  free := fun i hi hEmpty => by
    apply h'.free i
    · rw [h.clone]
      exact hi
    · exact h.free i hi hEmpty

instance : IsPreorder Dev Shuffles where
  refl s _ := BufPool.Shuffled.refl s.buf
  trans _ _ _ h h' hs :=
    (h hs).trans (h' ((h hs).apart hs))

omit [Platform] in
theorem Shuffles.of_eq
    {s t : Dev}
    (h : t.buf = s.buf) : Shuffles s t := by
  intro _
  rw [h]
  exact BufPool.Shuffled.refl s.buf

omit [Platform] in
theorem BufPool.Lent.apart
    {c : Nat}
    {p q : BufPool}
    (h : p.Lent c q)
    (hp : p.Apart) : q.Apart := by
  unfold BufPool.Apart at hp ⊢
  rw [h.clone] at hp
  rw [(h.list.append_right q.clone).nodup_iff]
  apply List.Nodup.sublist _ hp
  exact List.Sublist.append_left
    (List.sublist_cons_self _ _) _

omit [Platform] in
theorem BufPool.Lent.not_free
    {c : Nat}
    {p q : BufPool}
    (h : p.Lent c q)
    (hp : p.Apart) : c ∉ q.clone := by
  unfold BufPool.Apart at hp
  rw [h.clone] at hp
  exact (List.nodup_cons.mp (List.nodup_append.mp hp).2.1).1

omit [Platform] in
theorem Lends.shuffle
    {c : Nat}
    {s t u : Dev}
    (h : Lends c s t)
    (h' : Shuffles t u) : Lends c s u := by
  intro hs
  have hLent := h hs
  have hNext := h' (hLent.apart hs)
  constructor
  · exact hNext.list.trans hLent.list
  · rw [hNext.clone]
    exact hLent.clone
  · exact hNext.group.trans hLent.group
  · intro i hi
    apply (hLent.entry i hi).trans
    apply hNext.entry i
    intro hMem
    apply hi
    rw [hLent.clone]
    exact List.mem_cons_of_mem _ hMem
  · intro i hi hEmpty
    rw [hNext.clone] at hi
    exact hNext.free i hi (hLent.free i hi hEmpty)
  · rw [(hNext.entry c (hLent.not_free hs)).refCount]
    exact hLent.refCount

/- The clone itself is used. -/
omit [Platform] in
theorem Lends.setBuf
    {ok : Event → Prop}
    {c : Nat}
    {s t : Dev}
    {f : Buf → Buf}
    (h : Lends c s t)
    (hRef : ∀ b, (f b).refCount = b.refCount) :
    wlp ok (setBuf c f) (fun _ u => Lends c s u) t := by
  unfold Uffs.setBuf
  rw [wlp_modify]
  intro hs
  have hLent := h hs
  have hOther : ∀ i, i ≠ c →
      upd t.buf.entry c (f (t.buf.entry c)) i =
        t.buf.entry i :=
    fun i hi => upd_other _ _ hi
  constructor
  · exact hLent.list
  · exact hLent.clone
  · exact hLent.group
  · intro i hi
    dsimp only
    rw [hOther i]
    · exact hLent.entry i hi
    · intro hic
      apply hi
      rw [hLent.clone, hic]
      exact List.mem_cons_self
  · intro i hi
    dsimp only
    rw [hOther i]
    · exact hLent.free i hi
    · intro hic
      rw [hic] at hi
      exact hLent.not_free hs hi
  · dsimp only
    rw [upd_same, hRef]
    exact hLent.refCount

------------------------------------------------------------
-- Clone Buffers
------------------------------------------------------------

section Clones

variable {ok : Event → Prop}

omit [Platform]

theorem shuffles_modify
    {f : Dev → Dev}
    (hBuf : ∀ s, (f s).buf = s.buf) :
    Within ok Shuffles (Prog.modify f) := by
  apply Within.modify
  intro s
  exact Shuffles.of_eq (hBuf s)

theorem shuffles_setBuf
    {f : Buf → Buf}
    (i : Nat)
    (hSame : ∀ b : Buf, b.Same (f b)) :
    Within ok Shuffles (setBuf i f) := by
  apply Within.modify
  intro s _
  have hEntry : ∀ j, (s.buf.entry j).Same
      (upd s.buf.entry i (f (s.buf.entry i)) j) := by
    intro j
    by_cases hj : j = i
    · subst hj
      rw [upd_same]
      exact hSame _
    · rw [upd_other _ _ hj]
      exact Buf.Same.refl _
  constructor
  · exact List.Perm.refl _
  · rfl
  · rfl
  · intro j _
    exact hEntry j
  · intro j _ hEmpty
    exact (hEntry j).mark.trans hEmpty

theorem wlp_bufClone_lends (s : Dev) :
    wlp ok bufClone
      (fun o t =>
        match o with
        | none => Shuffles s t
        | some c => Lends c s t) s := by
  unfold bufClone
  rw [wlp_bind, wlp_get]
  cases hClone : s.buf.clone with
  | nil =>
      rw [wlp_pure]
      exact refl_of Shuffles s
  | cons c rest =>
      unfold setBuf
      rw [wlp_bind, wlp_modify, wlp_bind, wlp_modify, wlp_pure]
      intro hs
      unfold BufPool.Apart at hs
      rw [hClone] at hs
      have hNot : c ∉ rest :=
        (List.nodup_cons.mp (List.nodup_append.mp hs).2.1).1
      have hOther : ∀ i, i ≠ c →
          upd s.buf.entry c
              { s.buf.entry c with refCount := cloneBufMark }
              i = s.buf.entry i :=
        fun i hi => upd_other _ _ hi
      constructor
      · exact List.Perm.refl _
      · exact hClone
      · rfl
      · intro i hi
        dsimp only
        rw [hOther i]
        · exact Buf.Same.refl _
        · intro hic
          apply hi
          rw [hClone, hic]
          exact List.mem_cons_self
      · intro i hi hEmpty
        dsimp only
        rw [hOther i]
        · exact hEmpty
        · intro hic
          rw [hic] at hi
          exact hNot hi
      · dsimp only
        rw [upd_same]

theorem Lends.giveBack
    {c : Nat}
    {s t : Dev}
    (h : Lends c s t) :
    wlp ok (bufFreeClone c) (fun _ u => Shuffles s u) t := by
  unfold bufFreeClone getBuf Uffs.setBuf
  rw [wlp_bind, wlp_gets]
  split
  · rename_i hRef
    rw [wlp_pure]
    intro hs
    exact absurd (h hs).refCount hRef
  · rw [wlp_bind, wlp_modify, wlp_bind, wlp_modify, wlp_pure]
    intro hs
    have hLent := h hs
    constructor
    · exact hLent.list
    · exact hLent.clone.symm
    · exact hLent.group
    · intro i hi
      dsimp only
      rw [upd_other]
      · exact hLent.entry i hi
      · intro hic
        apply hi
        rw [hLent.clone, hic]
        exact List.mem_cons_self
    · intro i hi hEmpty
      dsimp only
      by_cases hic : i = c
      · rw [hic, upd_same]
      · rw [upd_other _ _ hic]
        rw [hLent.clone] at hi
        rcases List.mem_cons.mp hi with hEq | hMem
        · exact absurd hEq hic
        · exact hLent.free i hMem hEmpty

end Clones

------------------------------------------------------------
-- Reading, Writing and Erasing
------------------------------------------------------------

section OnBlocks

variable {ok : Event → Prop}

theorem shuffles_nextAnswer :
    Within ok Shuffles nextAnswer := by
  unfold nextAnswer
  apply Within.bind Within.get
  intro s
  apply Within.bind
  · exact shuffles_modify fun _ => rfl
  intro _
  exact Within.pure _

omit [Platform] in
theorem shuffles_spareGet : Within ok Shuffles spareGet := by
  unfold spareGet
  apply Within.bind Within.get
  intro s
  apply Within.ite (Within.pure _)
  apply Within.bind
  · exact shuffles_modify fun _ => rfl
  intro _
  exact Within.pure _

omit [Platform] in
theorem shuffles_sparePut : Within ok Shuffles sparePut :=
  shuffles_modify fun _ => rfl

omit [Platform] in
theorem shuffles_setInfo (i : Nat) (f : BlockInfo → BlockInfo) :
    Within ok Shuffles (setInfo i f) :=
  shuffles_modify fun _ => rfl

omit [Platform] in
theorem shuffles_watchTag (b p : Nat) (failed : Bool) :
    Within ok Shuffles (watchTag b p failed) :=
  shuffles_modify fun _ => rfl

omit [Platform] in
theorem shuffles_medium (e : Event) :
    Within ok Shuffles (medium e) := by
  unfold medium
  apply Within.bind
  · exact shuffles_modify fun _ => rfl
  intro _
  exact Within.emit _

omit [Platform] in
theorem shuffles_badBlockAddByFlashResult
    (b : Nat)
    (ret : FlashRet) :
    Within ok Shuffles (badBlockAddByFlashResult b ret) := by
  unfold badBlockAddByFlashResult badBlockAdd
  cases pendingType ret with
  | none => exact Within.pure _
  | some mark =>
      apply Within.bind
      · exact shuffles_modify fun _ => rfl
      intro _
      exact Within.pure _

omit [Platform] in
theorem shuffles_badBlockPendingRemove (b : Nat) :
    Within ok Shuffles (badBlockPendingRemove b) :=
  shuffles_modify fun _ => rfl

theorem shuffles_flashReadPageTag
    (b p : Nat)
    (tag : Tag) :
    Within ok Shuffles (flashReadPageTag b p tag) := by
  unfold flashReadPageTag
  apply Within.bind shuffles_spareGet
  intro got
  apply Within.ite (Within.pure _)
  apply Within.bind shuffles_nextAnswer
  intro a
  apply Within.bind Within.get
  intro s
  apply Within.bind shuffles_sparePut
  intro _
  apply Within.ite
  · apply Within.bind (shuffles_watchTag _ _ _)
    intro _
    exact Within.pure _
  · exact Within.pure _

theorem shuffles_flashReadPage
    (b p i : Nat)
    (skipEcc : Bool) :
    Within ok Shuffles (flashReadPage b p i skipEcc) := by
  unfold flashReadPage
  apply Within.bind shuffles_spareGet
  intro got
  apply Within.ite (Within.pure _)
  apply Within.bind shuffles_nextAnswer
  intro a
  apply Within.bind Within.get
  intro s
  apply Within.bind
  · exact shuffles_setBuf i fun _ => ⟨rfl, rfl, rfl⟩
  intro _
  apply Within.bind shuffles_sparePut
  intro _
  exact Within.pure _

theorem shuffles_verifyPageData
    (b p : Nat)
    (data : List Byte) :
    Within ok Shuffles (verifyPageData b p data) := by
  intro s
  unfold verifyPageData getBuf
  rw [wlp_bind]
  refine wlp_mono (wlp_bufClone_lends s) ?_
  intro o t ht
  cases o with
  | none =>
      rw [wlp_pure]
      exact ht
  | some v =>
      dsimp only at ht ⊢
      rw [wlp_bind]
      refine wlp_mono (shuffles_flashReadPage b p v false t) ?_
      intro ret u hu
      rw [wlp_bind, wlp_gets, wlp_bind]
      refine wlp_mono (ht.shuffle hu).giveBack ?_
      intro _ w hw
      rw [wlp_pure]
      exact hw

theorem shuffles_driverWritePage
    (b p : Nat)
    (content : Page) :
    Within ok Shuffles (driverWritePage b p content) := by
  unfold driverWritePage
  apply Within.bind shuffles_nextAnswer
  intro a
  dsimp only
  apply Within.bind (shuffles_medium _)
  intro _
  apply Within.ite
  · apply Within.bind (shuffles_watchTag _ _ _)
    intro _
    exact Within.pure _
  · exact Within.pure _

theorem shuffles_flashWritePageCombine
    (b p i : Nat)
    (tag : Tag) :
    Within ok Shuffles (flashWritePageCombine b p i tag) := by
  unfold flashWritePageCombine
  apply Within.bind shuffles_spareGet
  intro got
  apply Within.ite (Within.pure _)
  apply Within.bind (Within.gets _)
  intro x
  apply Within.bind (shuffles_driverWritePage _ _ _)
  intro ret
  apply Within.ite
  · apply Within.bind shuffles_sparePut
    intro _
    exact Within.pure _
  · apply Within.bind (shuffles_verifyPageData _ _ _)
    intro bad
    apply Within.bind (shuffles_flashReadPageTag _ _ _)
    intro q
    apply Within.bind shuffles_sparePut
    intro _
    exact Within.ite (Within.pure _) (Within.pure _)

omit [Platform] in
theorem shuffles_blockInfoFindInCache (b : Nat) :
    Within ok Shuffles (blockInfoFindInCache b) := by
  unfold blockInfoFindInCache
  apply Within.bind Within.get
  intro s
  cases s.bc.list.find? (fun i => (s.bc.info i).block == b) with
  | none => exact Within.pure _
  | some i =>
      apply Within.bind (shuffles_setInfo _ _)
      intro _
      exact Within.pure _

theorem shuffles_blockInfoGet (b : Nat) :
    Within ok Shuffles (blockInfoGet b) := by
  have hTail : ∀ i, Within ok Shuffles (moveBcToTail i) :=
    fun i => shuffles_modify fun _ => rfl
  unfold blockInfoGet
  apply Within.bind (shuffles_blockInfoFindInCache b)
  intro o
  cases o with
  | some i =>
      apply Within.bind (hTail i)
      intro _
      exact Within.pure _
  | none =>
      apply Within.bind Within.get
      intro s
      cases s.bc.list.find?
          (fun i => (s.bc.info i).refCount == 0) with
      | none => exact Within.pure _
      | some i =>
          apply Within.bind (shuffles_setInfo _ _)
          intro _
          apply Within.bind (hTail i)
          intro _
          exact Within.pure _

theorem shuffles_blockInfoLoad (i p : Nat) :
    Within ok Shuffles (blockInfoLoad i p) := by
  unfold blockInfoLoad
  apply Within.ite (Within.pure _)
  apply Within.bind (Within.gets _)
  intro w
  apply Within.ite (Within.pure _)
  apply Within.bind (shuffles_flashReadPageTag _ _ _)
  intro q
  apply Within.bind (shuffles_badBlockAddByFlashResult _ _)
  intro _
  apply Within.ite
  · apply Within.bind (shuffles_setInfo _ _)
    intro _
    exact Within.pure _
  · apply Within.bind (shuffles_setInfo _ _)
    intro _
    exact Within.pure _

theorem shuffles_blockInfoLoadFrom
    (i n : Nat) :
    ∀ page nfailed, Within ok Shuffles
      (blockInfoLoadFrom i n page nfailed) := by
  induction n with
  | zero =>
      intro page nfailed
      exact Within.pure _
  | succ n ih =>
      intro page nfailed
      unfold blockInfoLoadFrom
      apply Within.bind (Within.gets _)
      intro w
      apply Within.ite (ih _ _)
      apply Within.bind (shuffles_flashReadPageTag _ _ _)
      intro q
      apply Within.bind (shuffles_badBlockAddByFlashResult _ _)
      intro _
      apply Within.ite
      · apply Within.bind (shuffles_setInfo _ _)
        intro _
        exact ih _ _
      · apply Within.bind (shuffles_setInfo _ _)
        intro _
        exact ih _ _

theorem shuffles_driverEraseBlock (b : Nat) :
    Within ok Shuffles (driverEraseBlock b) := by
  unfold driverEraseBlock
  apply Within.bind shuffles_nextAnswer
  intro a
  dsimp only
  apply Within.bind (shuffles_medium _)
  intro _
  apply Within.bind
  · exact shuffles_modify fun _ => rfl
  intro _
  exact Within.pure _

theorem shuffles_expireCached (b : Nat) :
    Within ok Shuffles (expireCached b) := by
  unfold expireCached blockInfoExpireAll blockInfoPut
  apply Within.bind (shuffles_blockInfoFindInCache b)
  intro o
  cases o with
  | none => exact Within.pure _
  | some i =>
      apply Within.bind (shuffles_setInfo _ _)
      intro _
      exact shuffles_setInfo _ _

theorem shuffles_flashMarkBadBlock (b : Nat) :
    Within ok Shuffles (flashMarkBadBlock b) := by
  unfold flashMarkBadBlock
  apply Within.bind (shuffles_badBlockPendingRemove b)
  intro _
  apply Within.bind (shuffles_expireCached b)
  intro _
  apply Within.bind (shuffles_driverEraseBlock b)
  intro _
  apply Within.bind shuffles_nextAnswer
  intro a
  exact Within.ite (shuffles_medium _) (Within.pure _)

theorem shuffles_noteUnchecked (b : Nat) :
    Within ok Shuffles (noteUnchecked b) := by
  unfold noteUnchecked
  apply Within.bind Within.get
  intro s
  exact Within.ite (Within.emit _) (Within.pure _)

theorem shuffles_flashCheckErasedFrom
    (b i n : Nat) :
    ∀ page, Within ok Shuffles
      (flashCheckErasedFrom b i n page) := by
  induction n with
  | zero =>
      intro page
      exact Within.pure _
  | succ n ih =>
      intro page
      unfold flashCheckErasedFrom
      apply Within.bind shuffles_nextAnswer
      intro a
      apply Within.bind Within.get
      intro s
      apply Within.bind
      · exact shuffles_setBuf i fun _ => ⟨rfl, rfl, rfl⟩
      intro _
      apply Within.ite (Within.pure _)
      apply Within.ite
      · apply Within.bind (Within.emit _)
        intro _
        exact ih _
      · exact ih _

theorem shuffles_flashCheckErasedBlock (b : Nat) :
    Within ok Shuffles (flashCheckErasedBlock b) := by
  have hNote : ∀ r : URet, Within ok Shuffles (do
      noteUnchecked b
      pure r) := by
    intro r
    apply Within.bind (shuffles_noteUnchecked b)
    intro _
    exact Within.pure _
  unfold flashCheckErasedBlock
  apply Within.bind shuffles_spareGet
  intro got
  apply Within.ite (hNote _)
  intro s
  rw [wlp_bind]
  refine wlp_mono (wlp_bufClone_lends s) ?_
  intro o t ht
  cases o with
  | none =>
      have hPut : Within ok Shuffles (do
          sparePut
          noteUnchecked b
          pure URet.succ) := by
        apply Within.bind shuffles_sparePut
        intro _
        exact hNote _
      refine wlp_mono (hPut t) ?_
      intro _ u hu
      exact trans_of Shuffles ht hu
  | some i =>
      dsimp only at ht ⊢
      rw [wlp_bind]
      refine wlp_mono
        (shuffles_flashCheckErasedFrom b i _ _ t) ?_
      intro ret u hu
      rw [wlp_bind]
      refine wlp_mono (shuffles_sparePut u) ?_
      intro _ v hv
      rw [wlp_bind]
      refine wlp_mono
        ((ht.shuffle hu).shuffle hv).giveBack ?_
      intro _ w hw
      rw [wlp_pure]
      exact hw

theorem shuffles_prepareErased (n : Nat) :
    Within ok Shuffles (prepareErased n) := by
  unfold prepareErased watchHandOut blockInfoInitErased
    blockInfoPut
  apply Within.bind (Within.gets _)
  intro node
  apply Within.bind
  · exact shuffles_modify fun _ => rfl
  intro _
  apply Within.bind (shuffles_blockInfoGet _)
  intro o
  cases o with
  | none => exact Within.pure _
  | some i =>
      apply Within.bind (shuffles_setInfo _ _)
      intro _
      apply Within.bind (shuffles_setInfo _ _)
      intro _
      exact Within.pure _

theorem blockLayer_shuffles : BlockLayer ok Shuffles where
  infoLoad := shuffles_blockInfoLoad
  infoLoadAll i := by
    unfold blockInfoLoadAll
    apply Within.bind (shuffles_blockInfoLoadFrom _ _ _ _)
    intro _
    exact Within.pure _
  modifyTree f := shuffles_modify fun _ => rfl
  nextAnswer := shuffles_nextAnswer
  infoGet := shuffles_blockInfoGet
  infoPut i := shuffles_setInfo _ _
  infoExpireAll i := shuffles_setInfo _ _
  eraseBlock b := by
    unfold flashEraseBlock
    apply Within.bind (shuffles_badBlockPendingRemove b)
    intro _
    apply Within.bind (shuffles_driverEraseBlock b)
    intro _
    apply Within.bind (shuffles_expireCached b)
    intro _
    exact Within.pure _
  markBad := shuffles_flashMarkBadBlock
  checkErased := shuffles_flashCheckErasedBlock
  prepareErased := shuffles_prepareErased

end OnBlocks

------------------------------------------------------------
-- Copying and Mounting
------------------------------------------------------------

section OnDevice

variable {ok : Event → Prop}

/- A clone is given back at the end. -/
omit [Platform] in
theorem Lends.end
    {α : Type}
    {c : Nat}
    {s t : Dev}
    (h : Lends c s t)
    (a : α) :
    wlp ok (do
        let _ ← bufFreeClone c
        pure a)
      (fun _ u => Shuffles s u) t := by
  rw [wlp_bind]
  refine wlp_mono h.giveBack ?_
  intro _ u hu
  rw [wlp_pure]
  exact hu

omit [Platform] in
theorem shuffles_noteNotStored
    (b p : Nat)
    (tag : Tag) :
    Within ok Shuffles (noteNotStored b p tag) :=
  BlockLayer.noteWhen _ _

/- The part of the copy loop after the page has been read. -/
theorem Lends.copyPage
    {bc goodBlock n i b : Nat}
    {newBc : Option Nat}
    {s t : Dev}
    (h : Lends b s t)
    (tag newTag : Tag)
    (hNext : Within ok Shuffles
      (copyFrom bc newBc goodBlock n (i + 1) true)) :
    wlp ok (do
        Uffs.setBuf b fun x =>
          { x with
            mark := .valid
            dataLen := min tag.dataLen pgDataSize
            parent := tag.parent
            serial := tag.serial
            type := tag.type
            pageId := tag.pageId }
        match newBc with
        | none => pure ()
        | some c => setTag c i newTag
        let ret ← flashWritePageCombine goodBlock i b newTag
        let _ ← bufFreeClone b
        if ret.isBadBlock then
          pure .newBad
        else if ret = .ioErr then
          pure (.finished false true)
        else do
          noteNotStored goodBlock i newTag
          copyFrom bc newBc goodBlock n (i + 1) true)
      (fun _ u => Shuffles s u) t := by
  have hWrite : ∀ u, Lends b s u →
      wlp ok (do
          let ret ← flashWritePageCombine goodBlock i b newTag
          let _ ← bufFreeClone b
          if ret.isBadBlock then
            pure .newBad
          else if ret = .ioErr then
            pure (.finished false true)
          else do
            noteNotStored goodBlock i newTag
            copyFrom bc newBc goodBlock n (i + 1) true)
        (fun _ v => Shuffles s v) u := by
    intro u hu
    rw [wlp_bind]
    refine wlp_mono
      (shuffles_flashWritePageCombine goodBlock i b newTag u) ?_
    intro ret v hv
    rw [wlp_bind]
    refine wlp_mono (hu.shuffle hv).giveBack ?_
    intro _ w hw
    split
    · rw [wlp_pure]
      exact hw
    split
    · rw [wlp_pure]
      exact hw
    rw [wlp_bind]
    refine wlp_mono (shuffles_noteNotStored _ _ _ w) ?_
    intro _ x hx
    refine wlp_mono (hNext x) ?_
    intro _ y hy
    exact trans_of Shuffles (trans_of Shuffles hw hx) hy
  rw [wlp_bind]
  refine wlp_mono (h.setBuf fun _ => rfl) ?_
  intro _ u hu
  cases newBc with
  | none => exact hWrite u hu
  | some c =>
      dsimp only
      rw [wlp_bind]
      refine wlp_mono (shuffles_setInfo c _ u) ?_
      intro _ v hv
      exact hWrite v (hu.shuffle hv)

theorem shuffles_copyFrom
    (bc : Nat)
    (newBc : Option Nat)
    (goodBlock n : Nat) :
    ∀ i dirty, Within ok Shuffles
      (copyFrom bc newBc goodBlock n i dirty) := by
  have hBlocks : BlockLayer ok Shuffles := blockLayer_shuffles
  induction n with
  | zero =>
      intro i dirty
      exact Within.pure _
  | succ n ih =>
      intro i dirty
      unfold copyFrom
      apply Within.bind (hBlocks.findPageInBlockWithPageId _ _)
      intro o
      cases o with
      | none => exact Within.pure _
      | some page =>
      apply Within.bind (hBlocks.findBestPageInBlock _ _)
      intro o
      cases o with
      | none => exact Within.pure _
      | some page =>
      apply Within.bind (Within.gets _)
      intro tag s
      rw [wlp_bind]
      refine wlp_mono (wlp_bufClone_lends s) ?_
      intro o t ht
      cases o with
      | none =>
          rw [wlp_pure]
          exact ht
      | some b =>
      dsimp only at ht ⊢
      unfold getInfo
      rw [wlp_bind, wlp_gets, wlp_bind]
      refine wlp_mono (shuffles_flashReadPage _ _ b _ t) ?_
      intro ret u hu
      have hLent := ht.shuffle hu
      split
      · exact hLent.end _
      · exact hLent.copyPage tag _ (ih _ _)

theorem shuffles_loadNameSum (n bc block : Nat) :
    Within ok Shuffles (loadNameSum n bc block) := by
  have hBlocks : BlockLayer ok Shuffles := blockLayer_shuffles
  intro s
  unfold loadNameSum
  rw [wlp_bind]
  refine wlp_mono (wlp_bufClone_lends s) ?_
  intro o t ht
  cases o with
  | none =>
      rw [wlp_pure]
      exact ht
  | some b =>
  dsimp only at ht ⊢
  rw [wlp_bind]
  refine wlp_mono (hBlocks.infoLoadAll bc t) ?_
  intro r u hu
  have hLent := ht.shuffle hu
  cases r with
  | fail =>
      dsimp only
      rw [wlp_bind]
      refine wlp_mono
        (hBlocks.treeProcessPendingBadBlock n block u) ?_
      intro done v hv
      exact (hLent.shuffle hv).end _
  | succ =>
  dsimp only
  rw [wlp_bind]
  refine wlp_mono
    (hBlocks.findPageInBlockWithPageId bc 0 u) ?_
  intro o v hv
  have hLent := hLent.shuffle hv
  cases o with
  | none => exact hLent.end _
  | some page =>
  dsimp only
  rw [wlp_bind]
  refine wlp_mono (hBlocks.findBestPageInBlock bc page v) ?_
  intro best w hw
  have hLent := hLent.shuffle hw
  rw [wlp_bind]
  refine wlp_mono (shuffles_flashReadPage _ _ b _ w) ?_
  intro ret x hx
  have hLent := hLent.shuffle hx
  rw [wlp_bind]
  refine wlp_mono (shuffles_badBlockAddByFlashResult _ _ x) ?_
  intro pending y hy
  have hLent := hLent.shuffle hy
  split
  · exact hLent.end _
  · unfold getBuf
    rw [wlp_bind, wlp_gets]
    exact hLent.end _

/- Every relation that allows shuffles has a device layer. -/
theorem deviceLayer_of_shuffles
    {R : Dev → Dev → Prop}
    [IsPreorder Dev R]
    (hR : ∀ s t, Shuffles s t → R s t) :
    DeviceLayer ok R where
  toBlockLayer := blockLayer_shuffles.mono hR
  pending f := by
    apply Within.mono _ hR
    exact shuffles_modify fun _ => rfl
  pendingOnce k bc bad _ hRetry := by
    apply (blockLayer_shuffles.mono hR).pendingOnce _ _ hRetry
    · intro b
      exact (shuffles_blockInfoFindInCache b).mono hR
    · intro newBc goodBlock
      exact (shuffles_copyFrom bc newBc goodBlock _ 0
        false).mono hR
  loadNameSum n bc block :=
    (shuffles_loadNameSum n bc block).mono hR

end OnDevice

end Uffs
