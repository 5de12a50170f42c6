import Uffs.Cache.Flush
import Uffs.Files.Sessions
import Uffs.Nodes.Sessions

/-
  The block info cache agrees with the medium after every
  session, whatever the driver answers.

  Main declarations:
    * `leaves_copyFrom`, `coheres_pendingOnce`
    * `deviceLayer_coheres`, `fileLayer_coheres`
    * `cached_session`, `session_cacheAgrees`
-/

namespace Uffs

open Prog

section Operations

variable [Platform] {ok : Event → Prop}

------------------------------------------------------------
-- Pending Blocks
------------------------------------------------------------

/- The entry of a block, if there is one. -/
def Dev.EntryOf (s : Dev) (b : Nat) : Option Nat → Prop
| none => ∀ i ∈ s.bc.list, (s.bc.info i).block ≠ b
| some i => i ∈ s.bc.list ∧ (s.bc.info i).block = b

theorem Fills.entryOf
    {X : Nat → Nat → Prop}
    {s t : Dev}
    {b : Nat}
    {o : Option Nat}
    (h : Fills X s t)
    (ho : s.EntryOf b o) : t.EntryOf b o := by
  cases o with
  | none =>
      intro i hi
      rw [h.list] at hi
      rw [h.block]
      exact ho i hi
  | some i =>
      constructor
      · rw [h.list]
        exact ho.1
      · rw [h.block]
        exact ho.2

/- A tag is entered where its block has an entry. -/
structure EntersIn
    (o : Option Nat)
    (b p : Nat)
    (tag : Tag)
    (s t : Dev) : Prop where
  leaves : Leaves (onePage b p) s t
  tag : ∀ i, o = some i →
    ((t.bc.info i).spares p).tag = tag

namespace EntersIn

variable {o : Option Nat} {b p : Nat} {tag : Tag} {s t u : Dev}

theorem touches
    (h : EntersIn o b p tag s t)
    (h' : Touches (onePage b p) t u) :
    EntersIn o b p tag s u where
  leaves := h.leaves.fills (h'.fills fun _ _ => id)
  tag := by
    rw [h'.bc]
    exact h.tag

theorem stored
    (h : EntersIn o b p tag s t)
    (ho : s.EntryOf b o)
    (hTag : (t.flash.page b p).tag = tag) :
    Fills noPage s t := by
  cases o with
  | some i =>
      have hEnters : EntersTag i b p tag s t :=
        ⟨h.leaves, h.tag i rfl⟩
      exact hEnters.stored ho.1 ho.2 hTag
  | none =>
      refine ⟨h.leaves.tree, h.leaves.list, h.leaves.block,
        h.leaves.handed, ?_⟩
      intro hs
      apply (h.leaves.cached hs).drop
      intro j hj _ _ _ _ hX
      rw [h.leaves.list] at hj
      rw [h.leaves.block] at hX
      exact absurd hX.1 (ho j hj)

end EntersIn

theorem wlp_enterTag
    {o : Option Nat}
    {b p : Nat}
    {s t : Dev}
    (tag : Tag)
    (h : Fills noPage s t)
    (ho : s.EntryOf b o) :
    wlp ok
      (match o with
        | none => pure ()
        | some c => setTag c p tag)
      (fun _ u => EntersIn o b p tag s u) t := by
  cases o with
  | none =>
      rw [wlp_pure]
      constructor
      · exact h.leaves
      · intro i hi
        cases hi
  | some i =>
      refine wlp_mono (wlp_setTag_enters tag ho.2 h.leaves) ?_
      intro _ u hu
      constructor
      · exact hu.leaves
      · intro j hj
        cases hj
        exact hu.tag

/-
  How the copies of a pending block end: when not all pages
  are copied, the cache does not cover the good block.
-/
def CopyEnd.Covers
    (goodBlock : Nat)
    (s t : Dev) : CopyEnd → Prop
| .finished true _ => Fills noPage s t
| .finished false false => Fills noPage s t
| .finished false true => Leaves (pagesOf goodBlock) s t
| .newBad => Leaves (pagesOf goodBlock) s t

theorem CopyEnd.Covers.of_fills
    {goodBlock : Nat}
    {s t : Dev}
    (h : Fills noPage s t)
    (e : CopyEnd) : e.Covers goodBlock s t := by
  rcases e with ⟨_ | _, _ | _⟩ | _
  · exact h
  · exact h.leaves
  · exact h
  · exact h
  · exact h.leaves

theorem CopyEnd.Covers.after
    {goodBlock : Nat}
    {s t u : Dev}
    {e : CopyEnd}
    (h : e.Covers goodBlock t u)
    (h' : Fills noPage s t) : e.Covers goodBlock s u := by
  rcases e with ⟨_ | _, _ | _⟩ | _
  · exact trans_of (Fills noPage) h' h
  · exact Leaves.after h h'
  · exact trans_of (Fills noPage) h' h
  · exact trans_of (Fills noPage) h' h
  · exact Leaves.after h h'

theorem leaves_copyFrom
    (hStored : ¬ ok (.note .tagNotStored))
    (bc : Nat)
    (newBc : Option Nat)
    (goodBlock n : Nat) :
    ∀ i dirty s, s.EntryOf goodBlock newBc →
      wlp ok (copyFrom bc newBc goodBlock n i dirty)
        (fun e t => e.Covers goodBlock s t) s := by
  induction n with
  | zero =>
      intro i dirty s _
      unfold copyFrom
      rw [wlp_pure]
      exact refl_of (Fills noPage) s
  | succ n ih =>
      intro i dirty s hEntry
      have hInfos : InfoLayer ok (Fills noPage) :=
        infoLayer_fills
      have hPure : ∀ (e : CopyEnd) u, Fills noPage s u →
          wlp ok (pure e)
            (fun e t => e.Covers goodBlock s t) u := by
        intro e u hu
        rw [wlp_pure]
        exact CopyEnd.Covers.of_fills hu e
      unfold copyFrom getTag getInfo
      rw [wlp_bind]
      refine wlp_mono (hInfos.findPageInBlockWithPageId bc i s)
        ?_
      intro o t ht
      cases o with
      | none => exact hPure _ t ht
      | some page =>
      dsimp only
      rw [wlp_bind]
      refine wlp_mono (hInfos.findBestPageInBlock bc page t) ?_
      intro o u hu
      have hsu := trans_of (Fills noPage) ht hu
      cases o with
      | none => exact hPure _ u hsu
      | some page =>
      dsimp only
      rw [wlp_bind, wlp_gets, wlp_bind]
      refine wlp_mono (touches_bufClone (W := noPage) u) ?_
      intro o v hv
      have hsv := trans_of (Fills noPage) hsu
        (hv.fills fun _ _ => id)
      cases o with
      | none => exact hPure _ v hsv
      | some b =>
      dsimp only
      rw [wlp_bind, wlp_gets, wlp_bind]
      refine wlp_mono (touches_flashReadPage (W := noPage) _ _ b
        _ v) ?_
      intro ret w hw
      have hsw := trans_of (Fills noPage) hsv
        (hw.fills fun _ _ => id)
      split
      · rw [wlp_bind]
        refine wlp_mono (touches_bufFreeClone (W := noPage) b w)
          ?_
        intro _ x hx
        exact hPure _ x (trans_of (Fills noPage) hsw
          (hx.fills fun _ _ => id))
      rw [wlp_bind]
      refine wlp_mono (touches_setBuf (W := noPage) b _ w) ?_
      intro _ x hx
      have hsx := trans_of (Fills noPage) hsw
        (hx.fills fun _ _ => id)
      generalize hTag :
        ({ ((u.bc.info bc).spares page).tag with
          blockTs := getNextBlockTimeStamp
            ((u.bc.info bc).spares page).tag.blockTs } : Tag) =
        newTag
      have hWrite : ∀ y, EntersIn newBc goodBlock i newTag s y →
          wlp ok (do
              let ret ←
                flashWritePageCombine goodBlock i b newTag
              let _ ← bufFreeClone b
              if ret.isBadBlock then
                pure .newBad
              else if ret = .ioErr then
                pure (.finished false true)
              else do
                noteNotStored goodBlock i newTag
                copyFrom bc newBc goodBlock n (i + 1) true)
            (fun e t => e.Covers goodBlock s t) y := by
        intro y hy
        rw [wlp_bind]
        refine wlp_mono (wlp_flashWritePageCombine_cached
          goodBlock i b newTag y) ?_
        intro ret z hz
        rw [wlp_bind]
        refine wlp_mono (touches_bufFreeClone
          (W := onePage goodBlock i) b z) ?_
        intro _ z' hz'
        have hEnters := (hy.touches hz.1).touches hz'
        have hLeaves : Leaves (pagesOf goodBlock) s z' :=
          hEnters.leaves.mono fun _ _ hb => hb.1
        split
        · rw [wlp_pure]
          exact hLeaves
        split
        · rw [wlp_pure]
          exact hLeaves
        rw [wlp_bind]
        refine wlp_mono
          (wlp_noteNotStored hStored _ _ _ z') ?_
        intro _ z'' hz''
        cases hz''.1
        have hFills := hEnters.stored hEntry hz''.2
        refine wlp_mono (ih (i + 1) true z'
          (hFills.entryOf hEntry)) ?_
        intro e a ha
        exact ha.after hFills
      have hEnter : wlp ok
          (match newBc with
            | none => pure ()
            | some c => setTag c i newTag)
          (fun _ y => EntersIn newBc goodBlock i newTag s y) x :=
        wlp_enterTag newTag hsx hEntry
      cases newBc with
      | none =>
          apply hWrite
          rw [wlp_pure] at hEnter
          exact hEnter
      | some c =>
          dsimp only at hEnter ⊢
          rw [wlp_bind]
          refine wlp_mono hEnter ?_
          intro _ y hy
          exact hWrite y hy

/- The cache covers the medium again. -/
structure Restores
    (X : Nat → Nat → Prop)
    (s t : Dev) : Prop where
  handed : t.watch.usedHandedOut = false →
    s.watch.usedHandedOut = false
  cached : t.watch.usedHandedOut = false →
    s.Cached X → t.Cached noPage

namespace Restores

variable {X : Nat → Nat → Prop} {s t u : Dev}

theorem of_clears
    {b : Nat}
    (h : Clears b s t) : Restores (pagesOf b) s t :=
  ⟨fun hu => h.handed.symm.trans hu, fun _ => h.cached⟩

theorem before
    (h : Restores X s t)
    (h' : Coheres t u) : Restores X s u :=
  ⟨fun hu => h.handed (h'.handed hu),
    fun hu hs => h'.cached hu (h.cached (h'.handed hu) hs)⟩

theorem apart
    (h : Restores X t u)
    (h' : Apart s t) : Restores X s u := by
  constructor
  · intro hu
    rw [← h'.watch]
    exact h.handed hu
  · exact fun hu hs => h.cached hu (h'.cached hs)

theorem coheres
    (h : Restores X t u)
    (h' : Leaves X s t) : Coheres s u := by
  constructor
  · intro hu
    rw [← h'.handed]
    exact h.handed hu
  · exact fun hu hs => h.cached hu (h'.cached hs)

end Restores

theorem restores_eraseNodeFuel
    (fuel n : Nat)
    (s : Dev) :
    wlp ok (eraseNodeFuel fuel n)
      (fun _ t =>
        Restores (pagesOf (s.tree.node n).listBlock) s t) s := by
  have hBlocks : BlockLayer ok Coheres := blockLayer_coheres
  cases fuel with
  | zero =>
      unfold eraseNodeFuel
      rw [wlp_diverge]
      trivial
  | succ fuel =>
      unfold eraseNodeFuel getNode setNode modifyTree
      rw [wlp_bind, wlp_gets, wlp_bind, wlp_modify, wlp_bind]
      refine wlp_mono (clears_flashEraseBlock _ _) ?_
      intro ret t ht
      have hStart : Restores
          (pagesOf (s.tree.node n).listBlock) s t :=
        Restores.apart (.of_clears ht) ⟨rfl, rfl, rfl, rfl⟩
      have hGet : Within ok Coheres (getErasedNodeFuel fuel) :=
        (hBlocks.erasedFuel fuel).1
      split
      · rw [wlp_bind]
        refine wlp_mono (hGet t) ?_
        intro o u hu
        have hRest := hStart.before hu
        cases o with
        | none =>
            rw [wlp_pure]
            exact hRest
        | some new =>
            have hSwap : Within ok Coheres (do
                let good ← getNode new
                let bad ← getNode n
                noteNotBlank good.listBlock .swappedAfterError
                setNode new fun x =>
                  x.setListBlock bad.listBlock
                setNode n fun x => x.setListBlock good.listBlock
                setNode n fun x => x.setListU 0
                badBlockProcessNode new
                pure URet.succ) := by
              apply Within.bind (Within.gets _)
              intro good
              apply Within.bind (Within.gets _)
              intro bad
              apply Within.bind (BlockLayer.noteNotBlank _ _)
              intro _
              apply Within.bind (hBlocks.setNode _ _)
              intro _
              apply Within.bind (hBlocks.setNode _ _)
              intro _
              apply Within.bind (hBlocks.setNode _ _)
              intro _
              apply Within.bind (hBlocks.badBlockProcessNode _)
              intro _
              exact Within.pure _
            refine wlp_mono (hSwap u) ?_
            intro _ v hv
            exact hRest.before hv
      · rw [wlp_pure]
        exact hStart

theorem restores_treeEraseIgnored
    (n : Nat)
    (s : Dev) :
    wlp ok (treeEraseIgnored n)
      (fun _ t =>
        Restores (pagesOf (s.tree.node n).listBlock) s t) s := by
  unfold treeEraseIgnored treeEraseNode note
  rw [wlp_bind]
  refine wlp_mono (restores_eraseNodeFuel _ n s) ?_
  intro r t ht
  cases r with
  | succ =>
      rw [wlp_pure]
      exact ht
  | fail =>
      rw [wlp_emit]
      exact fun _ => ht

theorem restores_badBlockProcessNode
    (n : Nat)
    (s : Dev) :
    wlp ok (badBlockProcessNode n)
      (fun _ t =>
        Restores (pagesOf (s.tree.node n).listBlock) s t) s := by
  unfold badBlockProcessNode getNode
  rw [wlp_bind, wlp_gets, wlp_bind]
  refine wlp_mono (clears_flashMarkBadBlock _ s) ?_
  intro _ t ht
  refine wlp_mono (coheres_modifyTree _ t) ?_
  intro _ u hu
  exact (Restores.of_clears ht).before hu

theorem fills_putIfCached
    {X : Nat → Nat → Prop}
    (o : Option Nat) :
    Within ok (Fills X) (putIfCached o) := by
  unfold putIfCached
  cases o with
  | none => exact Within.pure _
  | some c => exact fills_blockInfoPut c

theorem coheres_pendingOnce
    (hStored : ¬ ok (.note .tagNotStored))
    (k bc bad : Nat)
    {retry : M Unit}
    (hRetry : Within ok Coheres retry) :
    Within ok Coheres (pendingOnce k bc bad retry) := by
  have hBlocks : BlockLayer ok Coheres := blockLayer_coheres
  have hInfos : InfoLayer ok (Fills noPage) := infoLayer_fills
  unfold pendingOnce
  apply Within.bind hBlocks.treeGetErasedNode
  intro o
  cases o with
  | none => exact hBlocks.infoPut bc
  | some good =>
      intro s
      unfold getNode
      dsimp only
      rw [wlp_bind, wlp_gets]
      generalize hGood : (s.tree.node good).listBlock = goodBlock
      have hTail : ∀ u, Coheres s u →
          wlp ok (do
              treeInsertToErasedListTail good
              blockInfoPut bc)
            (fun _ t => Coheres s t) u := by
        intro u hu
        rw [wlp_bind]
        refine wlp_mono
          (hBlocks.treeInsertToErasedListTail good u) ?_
        intro _ v hv
        refine wlp_mono (hBlocks.infoPut bc v) ?_
        intro _ w hw
        exact trans_of Coheres (trans_of Coheres hu hv) hw
      rw [wlp_bind]
      refine wlp_mono (wlp_blockInfoFindInCache_cached
        (X := noPage) goodBlock s) ?_
      intro newBc t ht
      have hEntry : t.EntryOf goodBlock newBc := by
        apply ht.1.entryOf
        cases newBc with
        | none => exact ht.2
        | some c => exact ht.2
      rw [wlp_bind]
      refine wlp_mono (hInfos.infoLoadAll bc t) ?_
      intro _ u hu
      have hsu := trans_of (Fills noPage) ht.1 hu
      rw [wlp_bind]
      refine wlp_mono (leaves_copyFrom hStored bc newBc goodBlock
        pagesPerBlock 0 false u (hu.entryOf hEntry)) ?_
      intro e v hv
      have hCovers : e.Covers goodBlock s v := hv.after hsu
      have hLeaves : ∀ w, Leaves (pagesOf goodBlock) s v →
          Fills (pagesOf goodBlock) v w →
            Leaves (pagesOf (w.tree.node good).listBlock) s w :=
        by
        intro w hLeft hvw
        have hAll := hLeft.fills hvw
        rw [hAll.tree, hGood]
        exact hAll
      rcases e with ⟨succ, dirty⟩ | _
      · cases succ with
        | true =>
            dsimp only
            rw [wlp_bind]
            refine wlp_mono
              (fills_putIfCached (X := noPage) newBc v) ?_
            intro _ w hw
            have hsw := trans_of (Fills noPage) hCovers hw
            rw [if_pos rfl, wlp_bind]
            refine wlp_mono (hBlocks.pendingSucc k bc bad good w)
              ?_
            intro _ x hx
            refine wlp_mono (hBlocks.infoPut bc x) ?_
            intro _ y hy
            exact trans_of Coheres
              (trans_of Coheres hsw.coheres hx) hy
        | false =>
            cases dirty with
            | false =>
                dsimp only
                rw [wlp_bind]
                refine wlp_mono
                  (fills_putIfCached (X := noPage) newBc v) ?_
                intro _ w hw
                have hsw := trans_of (Fills noPage) hCovers hw
                rw [if_neg Bool.noConfusion,
                  if_neg Bool.noConfusion, wlp_bind]
                have hNote : Within ok Coheres
                    (noteNotBlank goodBlock
                      .usedTakenForClean) :=
                  BlockLayer.noteNotBlank _ _
                refine wlp_mono (hNote w) ?_
                intro _ x hx
                exact hTail x (trans_of Coheres hsw.coheres hx)
            | true =>
                dsimp only
                rw [wlp_bind]
                refine wlp_mono (fills_putIfCached
                  (X := pagesOf goodBlock) newBc v) ?_
                intro _ w hw
                rw [if_neg Bool.noConfusion, if_pos rfl,
                  wlp_bind]
                refine wlp_mono
                  (restores_treeEraseIgnored good w) ?_
                intro _ x hx
                exact hTail x (hx.coheres
                  (hLeaves w hCovers hw))
      · dsimp only
        rw [wlp_bind]
        refine wlp_mono (fills_putIfCached
          (X := pagesOf goodBlock) newBc v) ?_
        intro _ w hw
        rw [wlp_bind]
        refine wlp_mono (restores_badBlockProcessNode good w) ?_
        intro _ x hx
        refine wlp_mono (hRetry x) ?_
        intro _ y hy
        exact trans_of Coheres
          (hx.coheres (hLeaves w hCovers hw)) hy

------------------------------------------------------------
-- Mounting
------------------------------------------------------------

theorem coheres_loadNameSum (n bc block : Nat) :
    Within ok Coheres (loadNameSum n bc block) := by
  have hBlocks : BlockLayer ok Coheres := blockLayer_coheres
  have hClone : Within ok Coheres bufClone :=
    Touches.within_coheres touches_bufClone
  have hFree : ∀ b, Within ok Coheres (bufFreeClone b) :=
    fun b => Touches.within_coheres (touches_bufFreeClone b)
  unfold loadNameSum
  apply Within.bind hClone
  intro o
  cases o with
  | none => exact Within.pure _
  | some b =>
  apply Within.bind (hBlocks.infoLoadAll bc)
  intro r
  cases r with
  | fail =>
      apply Within.bind (hBlocks.treeProcessPendingBadBlock _ _)
      intro done
      apply Within.bind (hFree b)
      intro _
      exact Within.pure _
  | succ =>
  apply Within.bind (hBlocks.findPageInBlockWithPageId _ _)
  intro o
  cases o with
  | none =>
      apply Within.bind (hFree b)
      intro _
      exact Within.pure _
  | some page =>
  apply Within.bind (hBlocks.findBestPageInBlock _ _)
  intro best
  apply Within.bind
    (Touches.within_coheres (touches_flashReadPage _ _ _ _))
  intro ret
  apply Within.bind (Touches.within_coheres
    (touches_badBlockAddByFlashResult _ _))
  intro pending
  apply Within.ite
  · apply Within.bind (hFree b)
    intro _
    exact Within.pure _
  · apply Within.bind (Within.gets _)
    intro x
    apply Within.bind (hFree b)
    intro _
    exact Within.pure _

theorem deviceLayer_coheres
    (hStored : ¬ ok (.note .tagNotStored)) :
    DeviceLayer ok Coheres where
  toBlockLayer := blockLayer_coheres
  pending := by
    intro f
    apply Within.modify
    intro s
    exact Apart.coheres ⟨rfl, rfl, rfl, rfl⟩
  pendingOnce := fun k bc bad _ hRetry =>
    coheres_pendingOnce hStored k bc bad hRetry
  loadNameSum := coheres_loadNameSum

------------------------------------------------------------
-- The File Layer
------------------------------------------------------------

theorem coheres_bufLoad
    (type : BlockType)
    (parent serial pageId : Nat)
    (noEcc : Bool)
    (node i : Nat) :
    Within ok Coheres
      (bufLoad type parent serial pageId noEcc node i) := by
  have hBlocks : BlockLayer ok Coheres := blockLayer_coheres
  unfold bufLoad
  apply Within.bind (Within.gets _)
  intro n
  apply Within.bind (hBlocks.infoGet _)
  intro o
  cases o with
  | none => exact Within.pure _
  | some bc =>
  apply Within.bind (hBlocks.findPageInBlockWithPageId _ _)
  intro o
  cases o with
  | none =>
      apply Within.bind (hBlocks.infoPut _)
      intro _
      exact Within.pure _
  | some page =>
  apply Within.bind (hBlocks.findBestPageInBlock _ _)
  intro o
  cases o with
  | none => exact Within.pure _
  | some page =>
  apply Within.bind (hBlocks.infoPut _)
  intro _
  apply Within.bind (Buffers.within_coheres (buffers_setBuf _ _))
  intro _
  apply Within.bind
    (Touches.within_coheres (touches_flashReadPage _ _ _ _))
  intro ret
  apply Within.bind (Touches.within_coheres
    (touches_badBlockAddByFlashResult _ _))
  intro pending
  apply Within.ite (Within.pure _)
  apply Within.ite (Within.pure _)
  apply Within.bind (Within.gets _)
  intro tag
  apply Within.bind (Buffers.within_coheres (buffers_setBuf _ _))
  intro _
  apply Within.bind
    (Buffers.within_coheres (buffers_moveNodeToHead _))
  intro _
  exact Within.pure _

theorem coheres_truncateBlock
    (obj : Obj)
    (fnode fdn blockStart : Nat)
    (run : RunOption) :
    Within ok Coheres
      (truncateBlock obj fnode fdn blockStart run) := by
  have hBlocks : BlockLayer ok Coheres := blockLayer_coheres
  have hPut : ∀ bc (q : Bool × Obj), Within ok Coheres (do
      blockInfoPut bc
      pure q) := by
    intro bc q
    apply Within.bind (hBlocks.infoPut _)
    intro _
    exact Within.pure _
  unfold truncateBlock
  apply Within.bind (Within.gets _)
  intro o
  cases o with
  | none => exact Within.pure _
  | some node =>
  apply Within.bind (Within.gets _)
  intro n
  apply Within.bind (hBlocks.infoGet _)
  intro o
  cases o with
  | none => exact Within.pure _
  | some bc =>
  apply Within.bind (Within.gets _)
  intro f
  apply Within.bind
    (Buffers.within_coheres (buffers_discardBlockFrom _ _ _ _ _))
  intro free
  dsimp only
  apply Within.ite (hPut bc _)
  apply Within.ite _ (hPut bc _)
  apply Within.bind (hBlocks.breakFromEntry _ _)
  intro _
  apply Within.bind (Within.gets _)
  intro w
  apply Within.bind (hBlocks.setNode _ _)
  intro _
  apply Within.bind (hBlocks.treeEraseIgnored _)
  intro _
  apply Within.bind (hBlocks.treeInsertToErasedListTail _)
  intro _
  apply Within.bind (hBlocks.setNode _ _)
  intro _
  exact hPut bc _

theorem pageLayer_coheres
    (hStored : ¬ ok (.note .tagNotStored)) :
    PageLayer ok Coheres where
  buffers := Buffers.within_coheres
  nextAnswer := Touches.within_coheres touches_nextAnswer
  setInPlace n _ _ := blockLayer_coheres.setNode n _
  recover := (deviceLayer_coheres hStored).recoverIfPending
  flushSlot := coheres_bufFlushSlot hStored
  load := coheres_bufLoad
  expireBlock b a := by
    have hBlocks : BlockLayer ok Coheres := blockLayer_coheres
    apply Within.bind (hBlocks.infoGet b)
    intro o
    cases o with
    | none => exact Within.pure _
    | some bc =>
        apply Within.bind (hBlocks.infoExpireAll bc)
        intro _
        apply Within.bind (hBlocks.infoPut bc)
        intro _
        exact Within.pure _
  truncateBlock := coheres_truncateBlock
  watchTruncation _ :=
    coheres_watch (fun _ => rfl) fun _ => rfl

theorem fileLayer_coheres
    (hStored : ¬ ok (.note .tagNotStored)) :
    FileLayer ok Coheres where
  toFileBase := (pageLayer_coheres hStored).fileBase
  refCount f := by
    apply Within.modify
    intro s
    exact Apart.coheres ⟨rfl, rfl, rfl, rfl⟩

theorem sessionLayer_coheres
    (hStored : ¬ ok (.note .tagNotStored)) :
    SessionLayer ok Coheres where
  toDeviceLayer := deviceLayer_coheres hStored
  base := (pageLayer_coheres hStored).fileBase
  refCount := (fileLayer_coheres hStored).refCount
  checkObjBufRef obj node :=
    Buffers.within_coheres (buffers_checkObjBufRef obj node)
  setAllEmpty := Buffers.within_coheres buffers_bufSetAllEmpty

------------------------------------------------------------
-- Sessions
------------------------------------------------------------

/- Before a mount nothing is in the cache. -/
theorem Dev.cached_init
    (F : Flash)
    (clock : Nat)
    (w : Watch) :
    Dev.Cached noPage { Dev.init F clock with watch := w } where
  nodup := List.nodup_range
  sole := fun i _ j _ _ hb => absurd rfl hb
  count := fun i _ => by
    rw [BlockInfo.expiredPages_of_all]
    · rfl
    · intro p
      rfl
  tag := fun i _ hb => absurd rfl hb
  spare := by
    have hSpare : 0 < maxSpareBuffers := by decide
    exact hSpare

/-
  After a mount, and as long as no used block has been
  handed out, the cache agrees with the medium.
-/
def Dev.CachedUnlessUsed (s : Dev) : Prop :=
  s.watch.usedHandedOut = false → s.Cached noPage

theorem Coheres.keep
    {s t : Dev}
    (h : Coheres s t)
    (hs : s.CachedUnlessUsed) : t.CachedUnlessUsed :=
  fun hu => h.cached hu (hs (h.handed hu))

theorem cached_exec
    (hStored : ¬ ok (.note .tagNotStored))
    (p : ObjPool)
    (op : Op)
    (s : Dev)
    (hs : op ≠ .mount → s.CachedUnlessUsed) :
    wlp ok (op.exec p) (fun _ t => t.CachedUnlessUsed) s := by
  have hLayer := sessionLayer_coheres hStored
  by_cases hMount : op = .mount
  · subst hMount
    unfold Op.exec mount
    rw [wlp_bind, wlp_bind, wlp_modify]
    refine wlp_mono (hLayer.buildTree _) ?_
    intro r t ht
    have hKeep : t.CachedUnlessUsed :=
      ht.keep fun _ => Dev.cached_init _ _ _
    cases r with
    | fail =>
        dsimp only
        rw [wlp_diverge]
        trivial
    | succ =>
        dsimp only
        rw [wlp_pure]
        exact hKeep
  · refine wlp_mono (hLayer.exec p op hMount s) ?_
    intro _ t ht
    exact ht.keep (hs hMount)

theorem cached_session
    (hStored : ¬ ok (.note .tagNotStored))
    (ops : List Op)
    (s : Dev) :
    wlp ok (session ops) (fun _ t => t.CachedUnlessUsed) s := by
  have hRun := runOps_induct
    (fun p op s (hs : s.CachedUnlessUsed) =>
      cached_exec hStored p op s fun _ => hs)
    ops
  unfold session runOps
  refine wlp_seq (cached_exec hStored _ .mount s ?_) ?_
  · exact fun h => absurd rfl h
  intro q t ht
  refine wlp_seq (hRun q.2 t ht) ?_
  intro r u hu
  rw [wlp_pure]
  exact hu

end Operations

------------------------------------------------------------
-- The Cache Agrees with the Medium
------------------------------------------------------------

section Agreeing

variable [Platform]

/-
  A block has at most one entry in the cache, an entry
  counts its expired pages, and its tag of a page that has
  not expired is what reading the tag of that page gives.
  Pages whose tag could not be read are left out.
-/
structure Dev.CacheAgrees (s : Dev) : Prop where
  nodup : s.bc.list.Nodup
  sole : ∀ i ∈ s.bc.list, ∀ j ∈ s.bc.list,
    (s.bc.info i).block = (s.bc.info j).block →
      (s.bc.info i).block ≠ invalidBlock → i = j
  count : ∀ i ∈ s.bc.list,
    (s.bc.info i).expiredCount = (s.bc.info i).expiredPages
  fresh : ∀ i ∈ s.bc.list,
    (s.bc.info i).block ≠ invalidBlock →
      ∀ p < pagesPerBlock,
        ((s.bc.info i).spares p).expired = false →
          s.watch.tagFailed (s.bc.info i).block p = false →
            ∀ old ret tag es t,
              flashReadPageTag (s.bc.info i).block p old s =
                  some ((ret, tag), es, t) →
                ret.haveErr = false →
                  ((s.bc.info i).spares p).tag = tag

theorem Dev.Cached.agrees
    {s : Dev}
    (h : s.Cached noPage) : s.CacheAgrees where
  nodup := h.nodup
  sole := h.sole
  count := h.count
  fresh := fun i hi hb p hp hFresh hFail old ret tag es t hRun
      hErr => by
    have hWlp : wlp (fun _ => True)
        (flashReadPageTag (s.bc.info i).block p old)
        (fun q t => ReadsTag (s.bc.info i).block p q s t) s :=
      wlp_flashReadPageTag_cached _ p old s
    have hRead := hWlp (ret, tag) es t hRun fun _ _ => trivial
    exact (h.tag i hi hb p hp hFresh id hFail).trans
      (hRead.tag hErr).symm

/-
  After every session in which each tag that is entered
  ahead of a page write is on the medium after it, and in
  which no used block is handed out, whatever the driver
  answers.
-/
theorem session_cacheAgrees
    (F : Flash)
    (clock : Nat)
    (ops : List Op)
    {replies : List Reply × ObjPool}
    {es : List Event}
    {t : Dev}
    (hRun : session ops (Dev.init F clock) =
      some (replies, es, t))
    (hStored : .note .tagNotStored ∉ es)
    (hHanded : t.watch.usedHandedOut = false) :
    t.CacheAgrees := by
  have hCached := cached_session
    (fun h : Event.note .tagNotStored ≠ .note .tagNotStored =>
      h rfl)
    ops (Dev.init F clock) replies es t hRun
    (fun e he hEq => hStored (hEq ▸ he))
  exact (hCached hHanded).agrees

/- Does reading some tag give another one than the cache? -/
def Dev.phantomTag (s : Dev) : Bool :=
  s.bc.list.any fun i =>
    let w := s.bc.info i
    (List.range pagesPerBlock).any fun p =>
      w.block != invalidBlock && !(w.spares p).expired &&
        !s.watch.tagFailed w.block p &&
        (flashReadPageTag w.block p Tag.erased).check
          (fun q _ _ => !q.1.haveErr && (w.spares p).tag != q.2)
          s

theorem Dev.CacheAgrees.no_phantom
    {s : Dev}
    (h : s.CacheAgrees) : s.phantomTag = false := by
  by_contra hPhantom
  rw [Bool.not_eq_false] at hPhantom
  rcases List.any_eq_true.mp hPhantom with ⟨i, hi, hPage⟩
  rcases List.any_eq_true.mp hPage with ⟨p, hp, hTest⟩
  simp only [Bool.and_eq_true, bne_iff_ne, ne_eq,
    Bool.not_eq_true'] at hTest
  rcases hTest with ⟨⟨⟨hb, hFresh⟩, hFail⟩, hCheck⟩
  rcases wp_of_check hCheck with ⟨q, es, t, hRun, hRead⟩
  simp only [Bool.and_eq_true, bne_iff_ne, ne_eq,
    Bool.not_eq_true'] at hRead
  exact hRead.2 (h.fresh i hi hb p (List.mem_range.mp hp)
    hFresh hFail Tag.erased q.1 q.2 es t hRun hRead.1)

/- The property for every session. -/
def SessionsCacheAgrees : Prop :=
  ∀ (F : Flash) (clock : Nat) (ops : List Op) q es t,
    session ops (Dev.init F clock) = some (q, es, t) →
      t.CacheAgrees

end Agreeing

theorem session_cacheAgrees_appendA :
    letI := emulator alwaysOk
    ∃ q es t,
      session appendA (Dev.init Flash.blank 0) =
          some (q, es, t) ∧
        t.CacheAgrees := by
  let _ := emulator alwaysOk
  have hCheck : (session appendA).check
      (fun _ es t => noNotes es && !t.watch.usedHandedOut)
      (Dev.init Flash.blank 0) = true := by
    decide +kernel
  rcases wp_of_check hCheck with ⟨q, es, t, hRun, hTest⟩
  rw [Bool.and_eq_true, Bool.not_eq_true'] at hTest
  have hAgrees := session_cacheAgrees Flash.blank 0 appendA hRun
    (fun hNote => by
      have hNone := List.all_eq_true.mp hTest.1 _ hNote
      cases hNone)
    hTest.2
  exact ⟨q, es, t, hRun, hAgrees⟩

/-
  When the page write of an append reports an I/O error, the
  cache has the tag of a page that is still erased.
-/
theorem sessionsCacheAgrees_false :
    ¬ @SessionsCacheAgrees (emulator (failAt 54 .ioErr)) := by
  let _ := emulator (failAt 54 .ioErr)
  intro hAll
  have hCheck : (session appendA).check
      (fun _ _ t => t.phantomTag)
      (Dev.init Flash.blank 0) = true := by
    decide +kernel
  rcases wp_of_check hCheck with ⟨q, es, t, hRun, hPhantom⟩
  have hAgrees := hAll _ _ _ _ _ _ hRun
  rw [hAgrees.no_phantom] at hPhantom
  cases hPhantom

end Uffs
