import Uffs.Good.Scan

/-
  The scan of the whole partition (`_BuildTreeStepOne`) on a
  flash where every operation succeeds: each round does to
  flash and tree what `Disk.mountBlock` says.

  Main declarations:
    * `wp_buildValidTreeNode`
    * `wp_stepOneBlock`
    * `wp_stepOneFrom`
-/

namespace Uffs

open Prog

variable [Platform]

------------------------------------------------------------
-- Two Blocks with One Key
------------------------------------------------------------

/- The reference counts when only entry `i` is held. -/
def holds (i : Nat) : Nat → Nat :=
  upd (fun _ => 0) i 1

namespace Stands

variable {s t : Dev} {i j b x : Nat} {H : Nat → Nat} {d : Disk}

/- Another entry is taken. -/
theorem gets
    (h : Stands s i b H d)
    (hji : j ≠ i)
    (hst : Gets j x s t) :
    Stands t i b (upd H j (H j + 1)) d where
  mounting := by
    have hs := h.mounting
    refine ⟨hst.calm hs.toCalm, ?_, ?_, ?_, ?_⟩
    · rw [hst.pending]
      exact hs.noPending
    · rw [hst.pending]
      exact hs.noRecovery
    · rw [hst.buf]
      exact hs.bufs
    · rw [hst.buf]
      exact hs.empty
  mem := hst.perm.mem_iff.mpr h.mem
  block := by
    rw [hst.other i (fun hEq => hji hEq.symm)]
    exact h.block
  flash := hst.flash.trans h.flash
  tree := hst.tree.trans h.tree

/- Tags of another entry are loaded. -/
theorem readsOther
    (h : Stands s i b H d)
    (hji : j ≠ i)
    (hMem : j ∈ s.bc.list)
    (hst : Reads j s t) : Stands t i b H d where
  mounting := (Looks.of_reads hst).mounting hMem h.mounting
  mem := by
    rw [hst.list]
    exact h.mem
  block := by
    rw [hst.other i (fun hEq => hji hEq.symm)]
    exact h.block
  flash := hst.flash.trans h.flash
  tree := hst.tree.trans h.tree

end Stands

/- Putting back an entry. -/
theorem wp_blockInfoPut
    {s : Dev}
    {i b : Nat}
    {H : Nat → Nat}
    {d : Disk}
    (j : Nat)
    (h : Stands s i b H d) :
    wp (blockInfoPut j)
      (fun _ _ t =>
        Stands t i b (upd H j (H j - 1)) d ∧
          (t.bc.info i).spares = (s.bc.info i).spares) s := by
  have hs := h.mounting
  refine wp_mono (calm_blockInfoPut hs.toCalm) ?_
  rintro _ _ t ⟨_, hCalm, hRest, hList, hBlock, hSpares⟩
  refine ⟨⟨⟨hCalm, ?_, ?_, ?_, ?_⟩, ?_, ?_, ?_, ?_⟩,
    hSpares i⟩
  · rw [hRest]
    exact hs.noPending
  · rw [hRest]
    exact hs.noRecovery
  · rw [hRest]
    exact hs.bufs
  · rw [hRest]
    exact hs.empty
  · rw [hList]
    exact h.mem
  · exact (hBlock i).trans h.block
  · rw [hRest]
    exact h.flash
  · rw [hRest]
    exact h.tree

omit [Platform] in
theorem upd_upd_same
    {α : Type}
    (f : Nat → α)
    (i : Nat)
    (v : α) :
    upd (upd f i v) i (f i) = f := by
  funext j
  by_cases hj : j = i
  · subst hj
    simp
  · rw [upd_other _ _ hj, upd_other _ _ hj]

/- The search of the tree by a tag. -/
omit [Platform] in
theorem wp_findFromTree
    {s : Dev}
    (tag : Tag) :
    wp (findFromTree tag.type tag.parent tag.serial)
      (fun r es t => r = s.tree.findTag tag ∧ es = [] ∧ t = s)
      s := by
  unfold findFromTree Tree.findTag
  cases tag.type with
  | dir => simp only [treeFindDirNode, wp_gets, and_self]
  | file => simp only [treeFindFileNode, wp_gets, and_self]
  | data => simp only [treeFindDataNode, wp_gets, and_self]
  | resv => simp only [wp_pure, and_self]

/- A free entry besides the one that is held. -/
theorem Stands.free
    {s : Dev}
    {i b : Nat}
    {d : Disk}
    (h : Stands s i b (holds i) d) :
    ∃ j ∈ s.bc.list, holds i j = 0 := by
  have hCalm := h.mounting.toCalm
  have hTwo := hCalm.two
  have hNodup := hCalm.nodup
  by_contra hNone
  have hAll : ∀ j ∈ s.bc.list, j = i := by
    intro j hj
    by_contra hji
    refine hNone ⟨j, hj, ?_⟩
    unfold holds
    rw [upd_other _ _ hji]
  cases hList : s.bc.list with
  | nil => simp [hList] at hTwo
  | cons x l =>
      cases l with
      | nil => simp [hList] at hTwo
      | cons y l =>
          rw [hList] at hAll hNodup
          have hx := hAll x (by simp)
          have hy := hAll y (by simp)
          simp [hx, hy] at hNodup

/-
  The choice between a block and the one of node `alt`.
-/
theorem wp_resolve
    {s : Dev}
    {i b alt : Nat}
    {d : Disk}
    (n : Nat)
    (h : Stands s i b (holds i) d)
    (hb : b ≠ invalidBlock)
    (hKept : ((s.bc.info i).spares 0).expired = false)
    (hAlt : (d.tree.node alt).block < invalidBlock)
    (hOther : (d.tree.node alt).block ≠ b) :
    wp (do
        let blockAlt := (← getNode alt).block
        if blockAlt = invalidUffsSerial then
          pure .fail
        else do
          match ← blockInfoGet blockAlt with
          | none => pure .fail
          | some bcAlt =>
              let _ ← blockInfoLoad bcAlt 0
              let tagAlt ← getTag bcAlt 0
              if isSrcNewerThanObj (d.flash.tags b 0).blockTs
                  tagAlt.blockTs then do
                eraseAndFile n b
                blockInfoPut bcAlt
                pure .succ
              else do
                eraseAndFile n blockAlt
                blockInfoPut bcAlt
                breakFromEntry (d.flash.tags b 0).type alt
                loadValidNode alt i b (d.flash.tags b 0))
      (fun r _ t =>
        r = .succ ∧
          Stands t i b (holds i) (d.resolve n b alt)) s := by
  have hTwo := Platform.two_le_pagesPerBlock
  simp only [getNode, wp_bind, wp_gets, h.tree]
  rw [if_neg (by unfold invalidUffsSerial; unfold invalidBlock at hAlt; omega)]
  rw [wp_bind]
  refine wp_mono (wp_blockInfoGet _ h.mounting.toCalm h.free) ?_
  rintro r es s₁ ⟨rfl, j, rfl, hGets⟩
  have hji : j ≠ i := by
    rintro rfl
    rcases hGets.kept with ⟨hBlock, _⟩ | ⟨hZero, _, _⟩
    · exact hOther (hBlock.symm.trans h.block)
    · rw [h.mounting.refs j h.mem] at hZero
      simp [holds] at hZero
  have h₁ := h.gets hji hGets
  have hMem₁ := hGets.memAfter
  have hKept₁ : ((s₁.bc.info i).spares 0).expired = false := by
    rw [hGets.other i (fun hEq => hji hEq.symm)]
    exact hKept
  have hReady₁ : Readable s₁ j :=
    h₁.mounting.toCalm.readable hMem₁
  rw [wp_bind]
  refine wp_mono (wp_blockInfoLoad hReady₁ (by omega)) ?_
  rintro r es s₂ ⟨rfl, rfl, hReads, hTag⟩
  have h₂ := h₁.readsOther hji hMem₁ hReads
  have hKept₂ : ((s₂.bc.info i).spares 0).expired = false := by
    rw [hReads.other i (fun hEq => hji hEq.symm)]
    exact hKept₁
  have hTagAlt : s₁.tags j 0 =
      d.flash.tags (d.tree.node alt).block 0 := by
    unfold Dev.tags Flash.tags
    rw [hGets.block, h₁.flash]
  simp only [getTag, wp_bind, wp_gets, hTag, hTagAlt]
  have hZero : holds i j = 0 := by
    unfold holds
    rw [upd_other _ _ hji]
  have hBack : upd (upd (holds i) j (holds i j + 1)) j
      (upd (holds i) j (holds i j + 1) j - 1) = holds i := by
    rw [upd_same, hZero]
    have hSame := upd_upd_same (holds i) j 1
    rw [hZero] at hSame
    exact hSame
  unfold Disk.resolve
  dsimp only
  by_cases hNewer :
      isSrcNewerThanObj (d.flash.tags b 0).blockTs
        (d.flash.tags (d.tree.node alt).block 0).blockTs = true
  · rw [if_pos hNewer, if_pos hNewer]
    rw [wp_bind]
    refine wp_mono (wp_eraseAndFile h₂ hb) ?_
    rintro _ es s₃ ⟨h₃, _⟩
    rw [wp_bind]
    refine wp_mono (wp_blockInfoPut j h₃) ?_
    rintro _ es s₄ ⟨h₄, _⟩
    rw [wp_pure]
    rw [hBack] at h₄
    exact ⟨rfl, h₄⟩
  · rw [if_neg hNewer, if_neg hNewer]
    rw [wp_bind]
    refine wp_mono (wp_eraseAndFile h₂ (by omega)) ?_
    rintro _ es s₃ ⟨h₃, hSpares₃⟩
    have hKept₃ :
        ((s₃.bc.info i).spares 0).expired = false := by
      rw [hSpares₃ hOther]
      exact hKept₂
    rw [wp_bind]
    refine wp_mono (wp_blockInfoPut j h₃) ?_
    rintro _ es s₄ ⟨h₄, hSpares₄⟩
    have hKept₄ :
        ((s₄.bc.info i).spares 0).expired = false := by
      rw [hSpares₄]
      exact hKept₃
    rw [hBack] at h₄
    simp only [breakFromEntry, modifyTree, wp_bind, wp_modify]
    have h₅ := h₄.setTree fun t =>
      t.breakNode (d.flash.tags b 0).type alt
    have hSame : (d.erase n
        (d.tree.node alt).block).flash.tags b 0 =
          d.flash.tags b 0 := by
      unfold Flash.tags Disk.erase Flash.eraseBlock
      simp only [upd_other _ _ (fun hEq => hOther hEq.symm)]
    have hLoad := wp_loadValidNode alt h₅ hb hKept₄
    simp only [hSame] at hLoad
    exact hLoad

------------------------------------------------------------
-- One Round
------------------------------------------------------------

/- What a step gives when the scan may fail. -/
def Gives (o : Option Disk) (r : URet) (P : Disk → Prop) :
    Prop :=
  match o with
  | none => r = .fail
  | some d => r = .succ ∧ P d

/- The nodes that the tag search finds can be compared. -/
def Disk.Alternative (d : Disk) (b : Nat) : Prop :=
  ∀ alt, d.tree.findTag (d.flash.tags b 0) = some alt →
    (d.tree.node alt).block < invalidBlock ∧
      (d.tree.node alt).block ≠ b

theorem wp_buildValidTreeNode
    {s : Dev}
    {i b : Nat}
    {d : Disk}
    (n : Nat)
    (h : Stands s i b (holds i) d)
    (hb : b ≠ invalidBlock)
    (hAlt : d.Alternative b) :
    wp (buildValidTreeNode n i)
      (fun r _ t =>
        Gives (d.mountValid n b) r fun d' =>
          Stands t i b (holds i) d') s := by
  have hTwo := Platform.two_le_pagesPerBlock
  unfold buildValidTreeNode
  simp only [getInfo, wp_bind, wp_gets, h.block]
  refine wp_mono (wp_blockInfoLoad h.readable (by omega)) ?_
  rintro _ _ t ⟨rfl, rfl, hst, hTag⟩
  have ht := h.reads hst
  have hKept : ((t.bc.info i).spares 0).expired = false := by
    rw [hTag]
  simp only [getTag, wp_bind, wp_gets, hTag, h.tags]
  unfold Disk.mountValid
  dsimp only
  by_cases hDirty : (!(d.flash.tags b 0).isDirty) = true
  · rw [if_pos hDirty, if_pos hDirty, wp_pure]
    exact rfl
  rw [if_neg hDirty, if_neg hDirty]
  by_cases hGood : (!(d.flash.tags b 0).isGood) = true
  · rw [if_pos hGood, if_pos hGood, wp_bind]
    refine wp_mono (wp_eraseAndFile ht hb) ?_
    rintro _ _ u ⟨hu, _⟩
    rw [wp_pure]
    exact ⟨rfl, hu⟩
  rw [if_neg hGood, if_neg hGood, wp_bind]
  refine wp_mono (wp_findFromTree (d.flash.tags b 0)) ?_
  rintro r _ _ ⟨hr, rfl, rfl⟩
  rw [ht.tree] at hr
  subst hr
  cases hFind : d.tree.findTag (d.flash.tags b 0) with
  | none =>
      refine wp_mono (wp_loadValidNode n ht hb hKept) ?_
      rintro r _ u hu
      exact hu
  | some alt =>
      have hBlock := hAlt alt hFind
      refine wp_mono
        (wp_resolve n ht hb hKept hBlock.1 hBlock.2) ?_
      rintro r _ u hu
      exact hu

/- A block with a page that is used. -/
theorem wp_stepOneUsed
    {s : Dev}
    {i b : Nat}
    {d : Disk}
    (n : Nat)
    (h : Stands s i b (holds i) d)
    (hb : b ≠ invalidBlock)
    (hAlt : d.Alternative b) :
    wp (stepOneUsed n i b)
      (fun r _ t =>
        Gives
          (if d.flash.unclean b (pagesPerBlock - 1) then
            some (d.erase n b)
          else
            d.mountValid n b) r fun d' =>
          Stands t i b (holds i) d') s := by
  have hPpb := Platform.two_le_pagesPerBlock
  unfold stepOneUsed
  refine wp_seq (wp_treeProcessPendingBadBlock n b
    h.mounting.noPending) ?_
  rintro _ _ _ ⟨rfl, rfl, rfl⟩
  unfold scanAndFixUnCleanPage
  simp only [Bool.false_eq_true, if_false, getInfo, wp_bind,
    wp_gets, h.block]
  refine wp_mono (wp_scanFrom (pagesPerBlock - 1) _ h
    (by omega)) ?_
  rintro _ _ t ⟨ht, rfl⟩
  by_cases hUnclean :
      d.flash.unclean b (pagesPerBlock - 1) = true
  · simp only [hUnclean, if_true, badBlockAdd, wp_bind,
      wp_modify, wp_pure]
    refine wp_mono (wp_cleanup n ht hb) ?_
    rintro _ _ u ⟨rfl, hu⟩
    simp only [if_true, wp_pure]
    exact ⟨rfl, hu⟩
  · simp only [hUnclean, if_false, wp_pure, Bool.false_eq_true,
      wp_bind]
    refine wp_mono (wp_treeProcessPendingBadBlock n b
      ht.mounting.noPending) ?_
    rintro _ _ _ ⟨rfl, rfl, rfl⟩
    simp only [Bool.false_eq_true, if_false]
    refine wp_mono (wp_buildValidTreeNode n ht hb hAlt) ?_
    rintro r _ u hu
    exact hu

/- A block whose first page looks erased. -/
theorem wp_stepOneErased
    {s : Dev}
    {i b : Nat}
    {d : Disk}
    (n : Nat)
    (h : Stands s i b (holds i) d)
    (hb : b ≠ invalidBlock) :
    wp (stepOneErased n b)
      (fun r _ t =>
        r = .succ ∧
          Stands t i b (holds i) (d.mountErased n b)) s := by
  unfold stepOneErased
  refine wp_seq (wp_loadMiniHeader b 0 h.readable.good) ?_
  rintro _ _ t ⟨rfl, rfl, hst⟩
  have ht : Stands t i b (holds i) d := by
    apply h.looks
    apply Looks.of_reads
    rw [hst]
    exact ⟨rfl, Nat.le_succ _, rfl, fun _ _ => rfl, rfl, rfl,
      fun h => h, fun _ _ => rfl⟩
  rw [h.flash]
  dsimp only
  -- the node is filed after the block may have been erased
  have hFile : ∀ u : Dev, ∀ F : Flash,
      Stands u i b (holds i) { flash := F, tree := d.tree } →
      wp (do
          setNode n fun x => x.setListBlock b
          if FlashRet.noErr.isBadBlock then
            badBlockProcessNode n
          else
            treeInsertToErasedListTailEx n (some 1)
          pure URet.succ)
        (fun r _ t => r = .succ ∧
          Stands t i b (holds i)
            { flash := F
              tree := (d.tree.setNode n fun x =>
                x.setListBlock b).appendErased n (some 1) })
        u := by
    intro u F hu
    simp only [setNode, FlashRet.isBadBlock,
      treeInsertToErasedListTailEx, modifyTree, wp_bind,
      wp_modify, wp_pure, Bool.false_eq_true, if_false,
      true_and]
    have hSet := (hu.setTree fun t => t.setNode n fun x =>
      x.setListBlock b).setTree fun t =>
        t.appendErased n (some 1)
    exact hSet
  by_cases hStatus : (d.flash.page b 0).status ≠ 0xFF
  · rw [if_pos hStatus, wp_bind]
    refine wp_mono (wp_flashEraseBlock ht.mounting.toCalm hb) ?_
    rintro _ _ u ⟨rfl, rfl, hErase⟩
    have hu : Stands u i b (holds i)
        { flash := d.flash.eraseBlock b, tree := d.tree } := by
      have hm := ht.mounting
      have hPending : u.pending = t.pending := by
        rw [hErase.rest]
        exact Pending.remove_of_empty hm.noPending b
      have hBuf : u.buf = t.buf := by
        rw [hErase.rest]
      refine ⟨⟨hErase.calm hm.toCalm, ?_, ?_, ?_, ?_⟩, ?_, ?_,
        ?_, ?_⟩
      · rw [hPending]
        exact hm.noPending
      · rw [hPending]
        exact hm.noRecovery
      · rw [hBuf]
        exact hm.bufs
      · rw [hBuf]
        exact hm.empty
      · rw [hErase.list]
        exact ht.mem
      · exact (hErase.block i).trans ht.block
      · rw [hErase.rest, ← ht.flash]
      · rw [hErase.rest]
        exact ht.tree
    unfold Disk.mountErased
    rw [if_pos hStatus]
    refine wp_mono (hFile u _ hu) ?_
    rintro r _ v hv
    exact hv
  · rw [if_neg hStatus, wp_bind, wp_pure]
    unfold Disk.mountErased
    rw [if_neg hStatus]
    refine wp_mono (hFile t _ ht) ?_
    rintro r _ v hv
    exact hv

/- No entry is held. -/
def idle : Nat → Nat := fun _ => 0

/- A device between two rounds shows the disk `d`. -/
structure Rests (s : Dev) (d : Disk) : Prop where
  mounting : Mounting s idle
  flash : s.flash = d.flash
  tree : s.tree = d.tree

/- A free entry of a resting device. -/
theorem Rests.free
    {s : Dev}
    {d : Disk}
    (h : Rests s d) : ∃ j ∈ s.bc.list, idle j = 0 := by
  have hTwo := h.mounting.toCalm.two
  cases hList : s.bc.list with
  | nil => simp [hList] at hTwo
  | cons j l => exact ⟨j, by simp, rfl⟩

theorem Rests.gets
    {s t : Dev}
    {d : Disk}
    {i b : Nat}
    (h : Rests s d)
    (hst : Gets i b s t) : Stands t i b (holds i) d where
  mounting := by
    have hs := h.mounting
    refine ⟨hst.calm hs.toCalm, ?_, ?_, ?_, ?_⟩
    · rw [hst.pending]
      exact hs.noPending
    · rw [hst.pending]
      exact hs.noRecovery
    · rw [hst.buf]
      exact hs.bufs
    · rw [hst.buf]
      exact hs.empty
  mem := hst.memAfter
  block := hst.block
  flash := hst.flash.trans h.flash
  tree := hst.tree.trans h.tree

/- Putting back the one entry that is held. -/
theorem wp_blockInfoPut_rests
    {s : Dev}
    {d : Disk}
    {i b : Nat}
    (h : Stands s i b (holds i) d) :
    wp (blockInfoPut i) (fun _ _ t => Rests t d) s := by
  refine wp_mono (wp_blockInfoPut i h) ?_
  intro _ _ t ht
  rcases ht with ⟨ht, _⟩
  have hIdle : upd (holds i) i (holds i i - 1) = idle := by
    unfold holds
    rw [upd_same]
    exact upd_upd_same idle i 1
  rw [hIdle] at ht
  exact ⟨ht.mounting, ht.flash, ht.tree⟩

/- The disk when the node of the next block is allocated. -/
def Disk.alloc (d : Disk) : Disk :=
  { d with
    tree := { d.tree with allocated := d.tree.allocated + 1 } }

theorem Stands.alloc
    {s : Dev}
    {d : Disk}
    {i b : Nat}
    {H : Nat → Nat}
    (h : Stands s i b H d) :
    Stands { s with tree := { s.tree with
        allocated := s.tree.allocated + 1 } } i b H d.alloc :=
  h.setTree fun t => { t with allocated := t.allocated + 1 }

theorem wp_stepOneNode
    {s : Dev}
    {d : Disk}
    {i b : Nat}
    (h : Stands s i b (holds i) d)
    (hb : b ≠ invalidBlock)
    (hAlt : d.Alternative b)
    (hAllocated : d.tree.allocated < nodeCount) :
    wp (stepOneNode i b)
      (fun r _ t =>
        Gives (d.mountBlock b) r fun d' =>
          Stands t i b (holds i) d') s := by
  have hTwo := Platform.two_le_pagesPerBlock
  have hTree : s.tree.allocated = d.tree.allocated := by
    rw [h.tree]
  have h₂ := h.alloc
  unfold stepOneNode
  simp only [treeNodeGet, wp_bind, wp_get, hTree,
    if_pos hAllocated, modifyTree, wp_modify, wp_pure]
  rw [hTree] at h₂
  refine wp_mono (wp_flashIsBadBlock b h₂.readable.good) ?_
  intro _ _ s₃ hBad
  rcases hBad with ⟨rfl, rfl, k, hk, hs₃⟩
  have h₃ : Stands s₃ i b (holds i) d.alloc := by
    apply h₂.looks
    apply Looks.of_reads
    rw [hs₃]
    exact ⟨rfl, hk, rfl, fun _ _ => rfl, rfl, rfl, fun h => h,
      fun _ _ => rfl⟩
  rw [h₂.flash]
  have hAlt₃ : d.alloc.Alternative b := hAlt
  change wp _ (fun r _ t => Gives
    (if d.alloc.flash.bad b then
      some (d.alloc.mountBad d.tree.allocated b)
    else if (d.alloc.flash.tags b 0).isErased then
      some (d.alloc.mountErased d.tree.allocated b)
    else if d.alloc.flash.unclean b (pagesPerBlock - 1) then
      some (d.alloc.erase d.tree.allocated b)
    else
      d.alloc.mountValid d.tree.allocated b) r
    fun d' => Stands t i b (holds i) d') s₃
  by_cases hBad : d.alloc.flash.bad b = true
  · rw [if_pos hBad, if_pos hBad]
    simp only [setNode, treeInsertToBadBlockList, modifyTree,
      wp_bind, wp_modify, wp_pure]
    have hSet := (h₃.setTree fun t =>
      t.setNode d.tree.allocated fun x =>
        x.setListBlock b).setTree fun t =>
          t.pushBad d.tree.allocated
    exact ⟨rfl, hSet⟩
  rw [if_neg hBad, if_neg hBad]
  refine wp_seq (yields_isPageErased h₃.readable
    (by omega : 0 < pagesPerBlock)) ?_
  intro _ _ s₄ hErased
  rcases hErased with ⟨rfl, rfl, hReads⟩
  have h₄ := h₃.reads hReads
  rw [h₃.tags]
  by_cases hErased :
      (d.alloc.flash.tags b 0).isErased = true
  · rw [if_pos hErased, if_pos hErased]
    refine wp_mono (wp_stepOneErased d.tree.allocated h₄ hb) ?_
    intro r _ t ht
    exact ht
  · rw [if_neg hErased, if_neg hErased]
    refine wp_mono
      (wp_stepOneUsed d.tree.allocated h₄ hb hAlt₃) ?_
    intro r _ t ht
    exact ht

/- One round. -/
theorem wp_stepOneBlock
    {s : Dev}
    {d : Disk}
    {b : Nat}
    (h : Rests s d)
    (hb : b ≠ invalidBlock)
    (hAlt : d.Alternative b)
    (hAllocated : d.tree.allocated < nodeCount) :
    wp (stepOneBlock b)
      (fun r _ t =>
        Gives (d.mountBlock b) r fun d' => Rests t d') s := by
  have hTwo := Platform.two_le_pagesPerBlock
  unfold stepOneBlock
  refine wp_seq (wp_blockInfoGet b h.mounting.toCalm h.free) ?_
  intro _ _ s₁ hGet
  rcases hGet with ⟨rfl, i, rfl, hGets⟩
  have h₁ := h.gets hGets
  refine wp_seq (wp_stepOneNode h₁ hb hAlt hAllocated) ?_
  intro r _ u hGives
  cases hBlock : d.mountBlock b with
  | none =>
      rw [hBlock] at hGives
      simp only [blockInfoPut, setInfo, wp_bind, wp_modify,
        wp_pure]
      exact hGives
  | some d' =>
      rw [hBlock] at hGives
      rcases hGives with ⟨rfl, hu⟩
      refine wp_seq (wp_blockInfoPut_rests hu) ?_
      intro _ _ t ht
      rw [wp_pure]
      exact ⟨rfl, ht⟩

/-
  The search finds only nodes of blocks that the scan has
  passed.
-/
theorem Disk.Scanned.alternative
    {F : Flash}
    {d : Disk}
    {b : Nat}
    (h : d.Scanned F b)
    (hb : b < invalidBlock) : d.Alternative b := by
  intro alt hFind
  rcases h.parts with ⟨E, B, H, own, hParts⟩
  have hIn := Tree.region_subset (hParts.findTag_some hFind).1
  rcases h.filed.entry alt hIn with
    ⟨x, _, hLt, _, _, _, hStands⟩
  rw [hStands.block.1]
  exact ⟨by omega, by omega⟩

/- The loop over the partition. -/
theorem wp_stepOneFrom
    {F : Flash}
    (k : Nat) :
    ∀ (s : Dev) (d : Disk) (b : Nat),
      Rests s d →
      d.Scanned F b →
      b + k = parStart + nodeCount →
      wp (stepOneFrom k b)
        (fun r _ t =>
          Gives (d.mountFrom k b) r fun d' => Rests t d') s := by
  induction k with
  | zero =>
      intro s d b h _ _
      simp only [stepOneFrom, wp_pure]
      exact ⟨rfl, h⟩
  | succ k ih =>
      intro s d b h hScanned hSum
      have hEnd := Platform.parEnd_lt
      have hOrder := Platform.parStart_le_parEnd
      have hCount : parStart + nodeCount = parEnd + 1 := by
        unfold nodeCount
        omega
      have hb : b < invalidBlock := by
        unfold invalidBlock
        omega
      have hAllocated : d.tree.allocated < nodeCount := by
        have hEq := hScanned.allocated
        omega
      unfold stepOneFrom Disk.mountFrom
      refine wp_seq (wp_stepOneBlock h (Nat.ne_of_lt hb)
        (hScanned.alternative hb) hAllocated) ?_
      intro r _ t hGives
      cases hBlock : d.mountBlock b with
      | none =>
          rw [hBlock] at hGives
          cases hGives
          simp only [wp_pure]
          exact rfl
      | some d' =>
          rw [hBlock] at hGives
          rcases hGives with ⟨rfl, ht⟩
          refine wp_mono (ih t d' (b + 1) ht
            (hScanned.mountBlock hBlock) (by omega)) ?_
          intro _ _ u hu
          exact hu

end Uffs
