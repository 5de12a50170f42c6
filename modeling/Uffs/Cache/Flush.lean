import Uffs.Cache.Frame
import Uffs.Files.Flush
import Uffs.Nodes.Files

/-
  The block info cache during a flush and during a recovery
  of a pending block, whatever the driver answers.

  Both enter the tag of a page in the cache before they
  write the page.  `Leaves X` leaves such pages out until
  they are written, expired or erased.

  Main declarations:
    * `Leaves`, `EntersTag`
    * `leaves_recoverFrom`, `coheres_recoverFuel`
    * `coheres_bufFlushSlot`
    * `coheres_pendingOnce`
-/

namespace Uffs

open Prog

variable [Platform]

------------------------------------------------------------
-- Entering a Tag
------------------------------------------------------------

/- The cache is filled, but it no longer covers `X`. -/
structure Leaves
    (X : Nat → Nat → Prop)
    (s t : Dev) : Prop where
  tree : t.tree = s.tree
  list : t.bc.list = s.bc.list
  block : ∀ i, (t.bc.info i).block = (s.bc.info i).block
  handed : t.watch.usedHandedOut = s.watch.usedHandedOut
  cached : s.Cached noPage → t.Cached X

/- The tag of page `p` of block `b` is entered. -/
structure EntersTag
    (i b p : Nat)
    (tag : Tag)
    (s t : Dev) : Prop where
  leaves : Leaves (onePage b p) s t
  tag : ((t.bc.info i).spares p).tag = tag

section Entering

variable {ok : Event → Prop} {X : Nat → Nat → Prop}
  {s t u : Dev}

theorem infoLayer_fills : InfoLayer ok (Fills X) where
  infoLoad := fills_blockInfoLoad
  infoLoadAll := fills_blockInfoLoadAll

omit [Platform] in
theorem Buffers.touches (h : Buffers s t) : Touches X s t := by
  rw [h]
  exact ⟨rfl, rfl, rfl, rfl, fun _ _ _ => rfl,
    fun _ _ _ h => h⟩

theorem Buffers.within_fills
    {α : Type}
    {m : M α}
    (h : Within ok Buffers m) : Within ok (Fills X) m := by
  apply h.mono
  intro s t hst
  exact (hst.touches (X := X)).fills fun _ _ => id

theorem Fills.leaves (h : Fills noPage s t) : Leaves X s t where
  tree := h.tree
  list := h.list
  block := h.block
  handed := h.handed
  cached := fun hs =>
    (h.cached hs).mono fun _ _ => False.elim

namespace Leaves

theorem fills
    (h : Leaves X s t)
    (h' : Fills X t u) : Leaves X s u where
  tree := h'.tree.trans h.tree
  list := h'.list.trans h.list
  block := fun i => (h'.block i).trans (h.block i)
  handed := h'.handed.trans h.handed
  cached := fun hs => h'.cached (h.cached hs)

theorem after
    (h : Leaves X t u)
    (h' : Fills noPage s t) : Leaves X s u where
  tree := h.tree.trans h'.tree
  list := h.list.trans h'.list
  block := fun i => (h.block i).trans (h'.block i)
  handed := h.handed.trans h'.handed
  cached := fun hs => h.cached (h'.cached hs)

theorem mono
    {Y : Nat → Nat → Prop}
    (h : Leaves X s t)
    (hXY : ∀ b p, X b p → Y b p) : Leaves Y s t where
  tree := h.tree
  list := h.list
  block := h.block
  handed := h.handed
  cached := fun hs => (h.cached hs).mono hXY

end Leaves

/- The tag is on the medium. -/
theorem EntersTag.stored
    {i b p : Nat}
    {tag : Tag}
    (h : EntersTag i b p tag s t)
    (hMem : i ∈ s.bc.list)
    (hBlock : (s.bc.info i).block = b)
    (hTag : (t.flash.page b p).tag = tag) :
    Fills noPage s t where
  tree := h.leaves.tree
  list := h.leaves.list
  block := h.leaves.block
  handed := h.leaves.handed
  cached := fun hs => by
    apply (h.leaves.cached hs).drop
    intro j hj hb q _ _ hX _
    have hji : j = i := by
      rw [h.leaves.list] at hj
      rw [h.leaves.block] at hb hX
      exact hs.sole j hj i hMem (hX.1.trans hBlock.symm) hb
    rw [hX.1, hX.2, hji, h.tag, hTag]

theorem wlp_setTag_enters
    {i b p : Nat}
    (tag : Tag)
    (hBlock : (s.bc.info i).block = b)
    (h : Leaves (onePage b p) s t) :
    wlp ok (setTag i p tag)
      (fun _ u => EntersTag i b p tag s u) t := by
  refine wlp_mono
    (wlp_setTag_cached (X := onePage b p) tag ?_) ?_
  · rw [h.block]
    exact ⟨hBlock, rfl⟩
  · intro _ u hu
    exact ⟨h.fills hu.1, hu.2⟩

theorem EntersTag.touches
    {i b p : Nat}
    {tag : Tag}
    (h : EntersTag i b p tag s t)
    (h' : Touches (onePage b p) t u) :
    EntersTag i b p tag s u where
  leaves := h.leaves.fills (h'.fills fun _ _ => id)
  tag := by
    rw [h'.bc]
    exact h.tag

/- A page is written whose tag has been entered. -/
theorem wlp_writeEntered
    {i b p : Nat}
    {tag : Tag}
    (d : Nat)
    (h : EntersTag i b p tag s t) :
    wlp ok (flashWritePageCombine b p d tag)
      (fun r u => EntersTag i b p tag s u ∧
        (r = .noErr → (u.flash.page b p).tag = tag)) t := by
  refine wlp_mono (wlp_flashWritePageCombine_cached b p d tag t)
    ?_
  intro r u hu
  exact ⟨h.touches hu.1, hu.2⟩

end Entering

------------------------------------------------------------
-- Flushing with a Block Recover
------------------------------------------------------------

section Recovering

variable {ok : Event → Prop} {X : Nat → Nat → Prop}

theorem touches_recoverSource
    (key : GroupKey)
    (bc page i : Nat) :
    Within ok (Touches X) (recoverSource key bc page i) := by
  have hSet : ∀ d f, Within ok (Touches X) (setBuf d f) :=
    touches_setBuf
  unfold recoverSource
  apply Within.bind (Within.gets _)
  intro tag
  apply Within.bind
  · exact (buffers_bufGet _ _ _).mono fun _ _ => Buffers.touches
  intro o
  cases o with
  | some b => exact Within.pure _
  | none =>
      apply Within.bind touches_bufClone
      intro c
      cases c with
      | none => exact Within.pure _
      | some b =>
          apply Within.bind (Within.gets _)
          intro w
          apply Within.bind (touches_flashReadPage _ _ _ _)
          intro ret
          apply Within.bind
            (touches_badBlockAddByFlashResult _ _)
          intro mark
          cases mark with
          | none =>
              apply Within.ite
              · apply Within.bind (touches_bufFreeClone b)
                intro _
                exact Within.pure _
              · apply Within.bind (hSet b _)
                intro _
                exact Within.pure _
          | some mark =>
              apply Within.bind (hSet b _)
              intro _
              exact Within.pure _

omit [Platform] in
theorem touches_noteWhen
    (c : Dev → Bool)
    (n : Note) : Within ok (Touches X) (noteWhen c n) := by
  unfold noteWhen
  apply Within.bind Within.get
  intro s
  exact Within.ite (Within.emit _) (Within.pure _)

/-
  The loop of a block recover covers all pages of the new
  block but the one it stops at.
-/
theorem leaves_recoverFrom
    (slot : Nat)
    (key : GroupKey)
    (bc newBc newBlock timeStamp n : Nat) :
    ∀ i sum s, newBc ∈ s.bc.list →
      (s.bc.info newBc).block = newBlock →
        wlp ok
          (recoverFrom slot key bc newBc newBlock timeStamp n i
            sum)
          (fun r t => Leaves (onePage newBlock r.page) s t)
          s := by
  induction n with
  | zero =>
      intro i sum s _ _
      unfold recoverFrom
      rw [wlp_pure]
      exact (refl_of (Fills noPage) s).leaves
  | succ n ih =>
      intro i sum s hMem hBlock
      have hNext : ∀ k u, Fills noPage s u →
          wlp ok
            (recoverFrom slot key bc newBc newBlock timeStamp n
              (i + 1) k)
            (fun r t => Leaves (onePage newBlock r.page) s t)
            u := by
        intro k u hu
        refine wlp_mono (ih (i + 1) k u ?_ ?_) ?_
        · rw [hu.list]
          exact hMem
        · rw [hu.block]
          exact hBlock
        · intro r t ht
          exact ht.after hu
      have hEnd : ∀ (op : FlashRet) succ sum u,
          Leaves (onePage newBlock i) s u →
            wlp ok
              (pure
                { page := i, op := op, succ := succ
                  sum := sum })
              (fun (r : Recovery) t =>
                Leaves (onePage newBlock r.page) s t) u := by
        intro op succ sum u hu
        rw [wlp_pure]
        exact hu
      unfold recoverFrom getTag findBufInDirtyList getBuf
      rw [wlp_bind, wlp_gets]
      dsimp only
      rw [wlp_bind]
      refine wlp_mono (wlp_setTag_enters _ hBlock
        (refl_of (Fills noPage) s).leaves) ?_
      intro _ t ht
      rw [wlp_bind, wlp_gets]
      split
      · -- the page is dirty
        rename_i d _
        rw [wlp_bind, wlp_gets, wlp_bind]
        refine wlp_mono (wlp_setTag_enters _ hBlock ht.leaves)
          ?_
        intro _ u hu
        split
        · split
          · rw [wlp_bind]
            refine wlp_mono (wlp_writeEntered d hu) ?_
            intro op v hv
            exact hEnd _ _ _ v hv.1.leaves
          · have hPure := hEnd .noErr true
              (if i = 0 then
                getDirOrFileNameSum (t.buf.entry d)
              else sum)
            split
            · unfold noteDropped
              rw [wlp_bind]
              refine wlp_mono (touches_noteWhen
                (X := onePage newBlock i) _ _ u) ?_
              intro _ v hv
              exact hPure v (hu.touches hv).leaves
            · exact hPure u hu.leaves
        · rw [wlp_bind]
          refine wlp_mono (wlp_writeEntered d hu) ?_
          intro op v hv
          split
          · exact hEnd _ _ _ v hv.1.leaves
          · rename_i hOp
            apply hNext
            apply hv.1.stored hMem hBlock
            exact hv.2 (not_not.mp hOp)
      · -- the page comes from the old block
        have hInfos : InfoLayer ok (Fills (onePage newBlock i)) :=
          infoLayer_fills
        rw [wlp_bind]
        refine wlp_mono
          (hInfos.findPageInBlockWithPageId bc i t) ?_
        intro o u hu
        have hLeaves := ht.leaves.fills hu
        cases o with
        | none =>
            unfold noteDropped
            dsimp only
            rw [wlp_bind]
            refine wlp_mono (touches_noteWhen
              (X := onePage newBlock i) _ _ u) ?_
            intro _ v hv
            exact hEnd _ _ _ v
              (hLeaves.fills (hv.fills fun _ _ => id))
        | some page =>
            dsimp only
            rw [wlp_bind]
            refine wlp_mono
              (hInfos.findBestPageInBlock bc page u) ?_
            intro o v hv
            have hLeaves := hLeaves.fills hv
            cases o with
            | none => exact hEnd _ _ _ v hLeaves
            | some page =>
                dsimp only
                rw [wlp_bind]
                refine wlp_mono (touches_recoverSource
                  (X := onePage newBlock i) key bc page i v) ?_
                intro o w hw
                have hLeaves := hLeaves.fills
                  (hw.fills fun _ _ => id)
                rcases o with _ | ⟨d, clone⟩
                · exact hEnd _ _ _ w hLeaves
                · dsimp only
                  rw [wlp_bind]
                  refine wlp_mono (touches_setBuf
                    (W := onePage newBlock i) d _ w) ?_
                  intro _ x hx
                  have hLeaves := hLeaves.fills
                    (hx.fills fun _ _ => id)
                  rw [wlp_bind, wlp_gets, wlp_bind]
                  refine wlp_mono
                    (wlp_setTag_enters _ hBlock hLeaves) ?_
                  intro _ y hy
                  rw [wlp_bind]
                  refine wlp_mono (wlp_writeEntered d hy) ?_
                  intro op z hz
                  generalize (if i = 0 then
                    getDirOrFileNameSum (x.buf.entry d)
                    else sum) = sum'
                  have hRest : ∀ z', Buffers z z' →
                      wlp ok
                        (if op ≠ .noErr then
                          pure
                            { page := i, op := op
                              succ := false, sum := sum' }
                        else
                          recoverFrom slot key bc newBc newBlock
                            timeStamp n (i + 1) sum')
                        (fun r t => Leaves
                          (onePage newBlock r.page) s t)
                        z' := by
                    intro z' hz'
                    have hTouch : Touches (onePage newBlock i) z
                        z' := hz'.touches
                    split
                    · exact hEnd _ _ _ z'
                        (hz.1.touches hTouch).leaves
                    · rename_i hOp
                      apply hNext
                      apply (hz.1.touches hTouch).stored hMem
                        hBlock
                      have hStored := hz.2 (not_not.mp hOp)
                      rw [hz']
                      exact hStored
                  cases clone with
                  | true =>
                      rw [if_pos rfl, wlp_bind]
                      refine wlp_mono
                        (buffers_bufFreeClone d z) ?_
                      intro _ z' hz'
                      exact hRest z' hz'
                  | false =>
                      rw [if_neg Bool.noConfusion, wlp_bind]
                      refine wlp_mono (buffers_bufPut d z) ?_
                      intro _ z' hz'
                      exact hRest z' hz'

/- No page from `pagesPerBlock` on is in the cache. -/
theorem Leaves.beyond
    {s t : Dev}
    {b p : Nat}
    (h : Leaves (onePage b p) s t)
    (hp : pagesPerBlock ≤ p) : Fills noPage s t where
  tree := h.tree
  list := h.list
  block := h.block
  handed := h.handed
  cached := fun hs => by
    apply (h.cached hs).drop
    intro j _ _ q hq _ hX
    have hEq := hX.2
    omega

/- The page that is left out expires. -/
theorem Leaves.expire
    {s t : Dev}
    {i b p : Nat}
    (h : Leaves (onePage b p) s t)
    (hMem : i ∈ s.bc.list)
    (hBlock : (s.bc.info i).block = b) :
    wlp ok (blockInfoExpire i p)
      (fun _ u => Fills noPage s u) t := by
  by_cases hp : p < pagesPerBlock
  · refine wlp_mono (wlp_and
      (fills_blockInfoExpire (X := onePage b p) i p t)
      (Q := fun _ u =>
        ((u.bc.info i).spares p).expired = true) ?_) ?_
    · unfold blockInfoExpire setInfo
      rw [wlp_modify]
      dsimp only
      rw [upd_same]
      split
      · dsimp only
        rw [upd_same]
      · rename_i hFresh
        by_contra hExpired
        exact hFresh ⟨hp, by simpa using hExpired⟩
    · intro _ u hu
      have hAll := h.fills hu.1
      refine ⟨hAll.tree, hAll.list, hAll.block, hAll.handed,
        ?_⟩
      intro hs
      apply (hAll.cached hs).drop
      intro j hj hb q _ hFresh hX _
      have hji : j = i := by
        rw [hAll.list] at hj
        rw [hAll.block] at hb hX
        exact hs.sole j hj i hMem (hX.1.trans hBlock.symm) hb
      rw [hji, hX.2, hu.2] at hFresh
      cases hFresh
  · refine wlp_mono
      (fills_blockInfoExpire (X := onePage b p) i p t) ?_
    intro _ u hu
    exact (h.fills hu).beyond (Nat.le_of_not_lt hp)

end Recovering

section Cohering

variable {ok : Event → Prop}

theorem coheres_modifyTree (f : Tree → Tree) :
    Within ok Coheres (modifyTree f) := by
  apply Within.modify
  intro s
  exact Apart.coheres ⟨rfl, rfl, rfl, rfl⟩

theorem Touches.within_coheres
    {α : Type}
    {m : M α}
    (h : Within ok (Touches noPage) m) :
    Within ok Coheres m :=
  Fills.within_coheres (Touches.within_fills h)

theorem Buffers.within_coheres
    {α : Type}
    {m : M α}
    (h : Within ok Buffers m) : Within ok Coheres m :=
  Fills.within_coheres (Buffers.within_fills h)

theorem blockLayer_coheres : BlockLayer ok Coheres where
  infoLoad := fun i p =>
    Fills.within_coheres (fills_blockInfoLoad i p)
  infoLoadAll := fun i =>
    Fills.within_coheres (fills_blockInfoLoadAll i)
  modifyTree := coheres_modifyTree
  nextAnswer := Touches.within_coheres touches_nextAnswer
  infoGet := fun b s =>
    wlp_mono (wlp_blockInfoGet_cached b s)
      fun _ _ ht => ht.coheres
  infoPut := fun i =>
    Fills.within_coheres (fills_blockInfoPut i)
  infoExpireAll := fun i =>
    Fills.within_coheres (fills_blockInfoExpireAll i)
  eraseBlock := fun b =>
    (clears_flashEraseBlock b).mono fun _ _ => Clears.coheres
  markBad := fun b =>
    (clears_flashMarkBadBlock b).mono fun _ _ => Clears.coheres
  checkErased := fun b =>
    Touches.within_coheres (touches_flashCheckErasedBlock b)
  prepareErased := coheres_prepareErased

theorem flushLayer_coheres : FlushLayer ok Coheres where
  toBlockLayer := blockLayer_coheres
  pendingRemove b :=
    Touches.within_coheres (touches_badBlockPendingRemove b)
  cleanDirty slot n i :=
    Buffers.within_coheres (buffers_cleanDirtyFrom slot n i)

theorem coheres_recoverOnce
    (slot : Nat)
    (key : GroupKey)
    (node bc : Nat)
    (badBlock : Bool)
    {retry : M URet}
    (hRetry : Within ok Coheres retry) :
    Within ok Coheres
      (recoverOnce slot key node bc badBlock retry) := by
  have hBlocks : BlockLayer ok Coheres := blockLayer_coheres
  unfold recoverOnce
  apply Within.bind (hBlocks.infoLoadAll bc)
  intro _
  apply Within.bind hBlocks.treeGetErasedNode
  intro o
  cases o with
  | none => exact Within.pure _
  | some newNode =>
      apply Within.bind (Within.gets _)
      intro n s
      dsimp only
      generalize n.listBlock = newBlock
      rw [wlp_bind]
      refine wlp_mono (wlp_blockInfoGet_cached newBlock s) ?_
      intro o t ht
      have hStart : Coheres s t := ht.coheres
      cases o with
      | none =>
          dsimp only
          rw [wlp_bind]
          refine wlp_mono (hBlocks.insertToErasedListHead _ t) ?_
          intro _ u hu
          rw [wlp_pure]
          exact trans_of Coheres hStart hu
      | some newBc =>
          have hEntry := ht.entry newBc rfl
          have hInfos : InfoLayer ok (Fills noPage) :=
            infoLayer_fills
          dsimp only
          rw [wlp_bind]
          refine wlp_mono (hInfos.infoLoadAll newBc t) ?_
          intro _ u hu
          rw [wlp_bind]
          refine wlp_mono (hInfos.getBlockTimeStamp bc u) ?_
          intro timeStamp v hv
          have htv := trans_of (Fills noPage) hu hv
          have hMem : newBc ∈ v.bc.list := by
            rw [htv.list]
            exact hEntry.1
          have hBlock : (v.bc.info newBc).block = newBlock := by
            rw [htv.block]
            exact hEntry.2
          rw [wlp_bind]
          refine wlp_mono (leaves_recoverFrom slot key bc newBc
            newBlock _ _ 0 0xFFFF v hMem hBlock) ?_
          intro r w hw
          have hJoin : ∀ x, Fills noPage v x → Coheres s x := by
            intro x hx
            apply trans_of Coheres hStart
            exact (trans_of (Fills noPage) htv hx).coheres
          have hFlush : FlushLayer ok Coheres :=
            flushLayer_coheres
          have hEnd := hFlush.recoverEnd slot key node bc
            newNode newBc newBlock badBlock r hRetry
          split
          · rw [wlp_bind]
            refine wlp_mono (hw.expire hMem hBlock) ?_
            intro _ x hx
            refine wlp_mono (hEnd x) ?_
            intro _ y hy
            exact trans_of Coheres (hJoin x hx) hy
          · rename_i hPage
            have hx := hw.beyond
              (Nat.le_of_eq (not_not.mp hPage).symm)
            refine wlp_mono (hEnd w) ?_
            intro _ y hy
            exact trans_of Coheres (hJoin w hx) hy

theorem coheres_recoverFuel
    (slot : Nat)
    (key : GroupKey)
    (node bc : Nat)
    (badBlock : Bool)
    (fuel : Nat) :
    Within ok Coheres
      (recoverFuel slot key node bc badBlock fuel) := by
  induction fuel with
  | zero =>
      exact coheres_recoverOnce slot key node bc badBlock
        Within.diverge
  | succ fuel ih =>
      exact coheres_recoverOnce slot key node bc badBlock ih

/- Nothing is watched that the cache depends on. -/
theorem coheres_watch
    {f : Dev → Watch}
    (hHanded : ∀ s, (f s).usedHandedOut =
      s.watch.usedHandedOut)
    (hFailed : ∀ s, (f s).tagFailed = s.watch.tagFailed) :
    Within ok Coheres
      (Prog.modify fun s => { s with watch := f s }) := by
  apply Touches.within_coheres
  apply Within.modify
  intro s
  constructor
  · rfl
  · rfl
  · rfl
  · exact hHanded s
  · intro b p _
    rfl
  · intro b p _ hFail
    dsimp only at hFail
    rw [hFailed s] at hFail
    exact hFail

theorem coheres_bufFlushExistWithBlockRecover
    (slot node bc : Nat)
    (badBlock : Bool) :
    Within ok Coheres
      (bufFlushExistWithBlockRecover slot node bc badBlock) :=
  by
  apply BlockLayer.existWithBlockRecover
  · apply coheres_watch
    · exact fun _ => rfl
    · exact fun _ => rfl
  · intro key
    exact coheres_recoverFuel slot key node bc badBlock _

------------------------------------------------------------
-- Flushing to a New Block
------------------------------------------------------------

theorem coheres_bufFlushNewBlock (slot : Nat) :
    Within ok Coheres (bufFlushNewBlock slot) := by
  apply blockLayer_coheres.bufFlushNewBlock
  intro node bc
  exact coheres_bufFlushExistWithBlockRecover _ _ _ _

------------------------------------------------------------
-- Flushing into Free Pages
------------------------------------------------------------

omit [Platform] in
theorem wlp_noteNotStored
    (hStored : ¬ ok (.note .tagNotStored))
    (b p : Nat)
    (tag : Tag)
    (s : Dev) :
    wlp ok (noteNotStored b p tag)
      (fun _ t => t = s ∧ (s.flash.page b p).tag = tag) s := by
  unfold noteNotStored noteWhen note
  rw [wlp_bind, wlp_get]
  split
  · rw [wlp_emit]
    intro hOk
    exact absurd hOk hStored
  · rename_i hSame
    rw [wlp_pure]
    refine ⟨rfl, ?_⟩
    simpa using hSame

/- A page has been written, and its buffer is given up. -/
theorem wlp_breakThen_fills
    {next : M (Option URet)}
    {Q : Option URet → Dev → Prop}
    {s : Dev}
    (d : Nat)
    (hNext : ∀ t, Fills noPage s t → wlp ok next Q t) :
    wlp ok (do
      match ← breakFromDirty d with
      | .succ =>
          setBuf d fun b => { b with mark := .valid }
          moveNodeToHead d
          next
      | .fail => next) Q s := by
  rw [wlp_bind]
  refine wlp_mono (Buffers.within_fills (X := noPage)
    (buffers_breakFromDirty d) s) ?_
  intro r t ht
  cases r with
  | fail => exact hNext t ht
  | succ =>
      dsimp only
      rw [wlp_bind]
      refine wlp_mono (Buffers.within_fills (X := noPage)
        (buffers_setBuf d _) t) ?_
      intro _ u hu
      rw [wlp_bind]
      refine wlp_mono (Buffers.within_fills (X := noPage)
        (buffers_moveNodeToHead d) u) ?_
      intro _ v hv
      exact hNext v (trans_of (Fills noPage)
        (trans_of (Fills noPage) ht hu) hv)

theorem coheres_enoughFrom
    (hStored : ¬ ok (.note .tagNotStored))
    (slot node bc n : Nat) :
    ∀ page s, bc ∈ s.bc.list →
      wlp ok (enoughFrom slot node bc n page)
        (fun _ t => Coheres s t) s := by
  induction n with
  | zero =>
      intro page s _
      unfold enoughFrom
      rw [wlp_pure]
      exact refl_of Coheres s
  | succ n ih =>
      intro page s hMem
      have hInfos : InfoLayer ok (Fills noPage) :=
        infoLayer_fills
      have hPure : ∀ (r : Option URet) u, Fills noPage s u →
          wlp ok (pure r) (fun _ t => Coheres s t) u := by
        intro r u hu
        rw [wlp_pure]
        exact hu.coheres
      have hNext : ∀ k u, Fills noPage s u →
          wlp ok (enoughFrom slot node bc n k)
            (fun _ t => Coheres s t) u := by
        intro k u hu
        have hMemU : bc ∈ u.bc.list := by
          rw [hu.list]
          exact hMem
        refine wlp_mono (ih k u hMemU) ?_
        intro _ t ht
        exact trans_of Coheres hu.coheres ht
      unfold enoughFrom getGroup findMinimunPageIdFromDirtyList
        getBuf getInfo
      rw [wlp_bind, wlp_gets]
      split
      · exact hPure _ s (refl_of (Fills noPage) s)
      rw [wlp_bind]
      refine wlp_mono (hInfos.findErasedPageFrom bc _ page s) ?_
      intro page t ht
      split
      · exact hPure _ t ht
      rw [wlp_bind, wlp_gets]
      split
      · exact hPure _ t ht
      rename_i d _
      rw [wlp_bind, wlp_gets, wlp_bind]
      refine wlp_mono (hInfos.getBlockTimeStamp bc t) ?_
      intro blockTs u hu
      have hsu := trans_of (Fills noPage) ht hu
      dsimp only
      generalize Tag.store (t.buf.entry d).type blockTs
        (t.buf.entry d).dataLen (t.buf.entry d).serial
        (t.buf.entry d).parent (t.buf.entry d).pageId = tag
      rw [wlp_bind]
      refine wlp_mono (wlp_setTag_enters tag rfl hsu.leaves) ?_
      intro _ v hv
      have hBlock : (v.bc.info bc).block =
          (s.bc.info bc).block :=
        hv.leaves.block bc
      rw [wlp_bind, wlp_gets, hBlock, wlp_bind]
      refine wlp_mono (wlp_writeEntered d hv) ?_
      intro x w hw
      rw [wlp_bind]
      refine wlp_mono (wlp_noteNotStored hStored _ _ _ w) ?_
      intro _ w' hw'
      cases hw'.1
      have hsw : Fills noPage s w :=
        hw.1.stored hMem rfl hw'.2
      split
      · exact hPure _ w hsw
      split
      · rw [wlp_bind]
        refine wlp_mono (coheres_bufFlushExistWithBlockRecover
          slot node bc true w) ?_
        intro ret y hy
        rw [wlp_pure]
        exact trans_of Coheres hsw.coheres hy
      have hLink : ∀ y, Fills noPage w y →
          wlp ok (enoughFrom slot node bc n (page + 1))
            (fun _ t => Coheres s t) y := by
        intro y hy
        exact hNext _ y (trans_of (Fills noPage) hsw hy)
      split
      · unfold note
        rw [wlp_bind, wlp_emit]
        intro _
        exact wlp_breakThen_fills d hLink
      · exact wlp_breakThen_fills d hLink

theorem coheres_bufFlushExistWithEnoughFreePage
    (hStored : ¬ ok (.note .tagNotStored))
    {slot node bc : Nat}
    {s : Dev}
    (hMem : bc ∈ s.bc.list) :
    wlp ok (bufFlushExistWithEnoughFreePage slot node bc)
      (fun _ t => Coheres s t) s := by
  unfold bufFlushExistWithEnoughFreePage getGroup
  rw [wlp_bind]
  refine wlp_mono
    (coheres_enoughFrom hStored slot node bc _ 1 s hMem) ?_
  intro o t ht
  cases o with
  | some ret =>
      rw [wlp_pure]
      exact ht
  | none =>
      dsimp only
      rw [wlp_bind, wlp_gets]
      split
      · rw [wlp_pure]
        exact ht
      · rw [wlp_pure]
        exact ht

------------------------------------------------------------
-- Flushing a Group
------------------------------------------------------------

theorem coheres_bufFlushExist
    (hStored : ¬ ok (.note .tagNotStored))
    (slot node : Nat)
    (force : Bool) :
    Within ok Coheres (bufFlushExist slot node force) := by
  intro s
  have hBlocks : BlockLayer ok Coheres := blockLayer_coheres
  have hInfos : InfoLayer ok (Fills noPage) := infoLayer_fills
  have hPut : ∀ bc (ret : URet) u, Coheres s u →
      wlp ok (do
          blockInfoPut bc
          pure ret)
        (fun _ t => Coheres s t) u := by
    intro bc ret u hu
    rw [wlp_bind]
    refine wlp_mono (hBlocks.infoPut bc u) ?_
    intro _ v hv
    rw [wlp_pure]
    exact trans_of Coheres hu hv
  unfold bufFlushExist getNode getGroup
  rw [wlp_bind, wlp_gets, wlp_bind]
  refine wlp_mono (wlp_blockInfoGet_cached _ s) ?_
  intro o t ht
  cases o with
  | none =>
      rw [wlp_pure]
      exact ht.coheres
  | some bc =>
      have hMem := (ht.entry bc rfl).1
      dsimp only
      rw [wlp_bind]
      refine wlp_mono (hInfos.infoLoadAll bc t) ?_
      intro r u hu
      have hsu := trans_of Coheres ht.coheres hu.coheres
      cases r with
      | fail => exact hPut bc _ u hsu
      | succ =>
          dsimp only
          rw [wlp_bind]
          refine wlp_mono (hInfos.getFreePagesCount bc u) ?_
          intro k v hv
          have hsv := trans_of Coheres hsu hv.coheres
          have hMemV : bc ∈ v.bc.list := by
            rw [hv.list, hu.list]
            exact hMem
          rw [wlp_bind, wlp_gets]
          split
          · rw [wlp_bind]
            refine wlp_mono
              (coheres_bufFlushExistWithEnoughFreePage hStored
                hMemV) ?_
            intro ret w hw
            exact hPut bc ret w (trans_of Coheres hsv hw)
          · rw [wlp_bind]
            refine wlp_mono
              (coheres_bufFlushExistWithBlockRecover slot node
                bc false v) ?_
            intro ret w hw
            exact hPut bc ret w (trans_of Coheres hsv hw)

theorem coheres_bufFlushSlot
    (hStored : ¬ ok (.note .tagNotStored))
    (force : Bool)
    (slot : Nat) :
    Within ok Coheres (bufFlushSlot force slot) := by
  apply BlockLayer.bufFlushSlot (coheres_bufFlushNewBlock slot)
  intro node
  exact coheres_bufFlushExist hStored slot node force

end Cohering

end Uffs
