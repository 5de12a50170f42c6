import Uffs.Good.Append
import Uffs.Good.StepOne

/-
  Handing out an erased block on a flash where every
  operation succeeds.

  Main declarations:
    * `wp_flashCheckErasedBlock`
    * `HandsOut`
    * `wp_treeGetErasedNode`
-/

namespace Uffs

open Prog

variable [Platform]

------------------------------------------------------------
-- Checking an Erased Block
------------------------------------------------------------

/- At most the buffer `c` and the clock have changed. -/
structure Scribbles (c : Nat) (s t : Dev) : Prop where
  rest : t =
    { s with
      clock := t.clock
      buf := { s.buf with entry := t.buf.entry } }
  clock : s.clock ≤ t.clock
  entry : ∀ j, j ≠ c → t.buf.entry j = s.buf.entry j

omit [Platform] in
theorem Scribbles.trans
    {c : Nat}
    {s t u : Dev}
    (h : Scribbles c s t)
    (h' : Scribbles c t u) : Scribbles c s u where
  rest := by
    have hRest := h'.rest
    rw [h.rest] at hRest
    exact hRest
  clock := Nat.le_trans h.clock h'.clock
  entry := fun j hj => (h'.entry j hj).trans (h.entry j hj)

theorem wp_flashCheckErasedFrom
    {b c : Nat}
    (n : Nat) :
    ∀ (s : Dev) (page : Nat),
      GoodFrom s.clock →
      s.flash.ErasedBlock b →
      page + n = pagesPerBlock →
      wp (flashCheckErasedFrom b c n page)
        (fun r es t => r = .succ ∧ es = [] ∧ Scribbles c s t ∧
          (t.buf.entry c).refCount = (s.buf.entry c).refCount)
        s := by
  induction n with
  | zero =>
      intro s page _ _ _
      unfold flashCheckErasedFrom
      rw [wp_pure]
      exact ⟨rfl, rfl, ⟨rfl, Nat.le_refl _, fun _ _ => rfl⟩, rfl⟩
  | succ n ih =>
      intro s page hGood hErased hEnd
      have hRet := hGood s.clock (Nat.le_refl _)
      have hPage := hErased.2 page (by omega)
      unfold flashCheckErasedFrom
      simp only [nextAnswer, setBuf, wp_bind, wp_get, wp_modify,
        wp_pure, hRet, FlashRet.haveErr, Bool.false_eq_true,
        if_false, hPage, hErased.1, ne_eq, reduceCtorEq,
        not_false_eq_true, not_true_eq_false, or_self, and_false]
      refine wp_mono (ih _ (page + 1) (hGood.mono
        (Nat.le_succ _)) hErased (by omega)) ?_
      intro r es t ht
      rcases ht with ⟨hr, hEs, hst, hRef⟩
      refine ⟨hr, ?_, ?_, ?_⟩
      · rw [hEs]
        rfl
      · apply Scribbles.trans _ hst
        refine ⟨rfl, Nat.le_succ _, ?_⟩
        intro j hj
        exact upd_other _ _ hj
      · rw [hRef]
        dsimp only
        rw [upd_same]

/- The check of a block that is erased. -/
theorem wp_flashCheckErasedBlock
    {s : Dev}
    {b c : Nat}
    {rest : List Nat}
    (hGood : GoodFrom s.clock)
    (hSpare : 0 < s.spareFree)
    (hClone : s.buf.clone = c :: rest)
    (hErased : s.flash.ErasedBlock b) :
    wp (flashCheckErasedBlock b)
      (fun r es t => r = .succ ∧ es = [] ∧ Scribbles c s t ∧
        (t.buf.entry c).mark = .empty) s := by
  have hNe : s.spareFree ≠ 0 := by omega
  have hBack : s.spareFree - 1 + 1 = s.spareFree := by omega
  unfold flashCheckErasedBlock
  simp only [spareGet, wp_bind, wp_get, wp_modify, wp_pure, hNe,
    if_false, Bool.not_true, Bool.false_eq_true]
  refine wp_mono (wp_bufClone hClone) ?_
  intro o _ s₁ h₁
  rcases h₁ with ⟨ho, hEs, hs₁⟩
  subst ho hEs
  dsimp only
  rw [wp_bind]
  have hGood₁ : GoodFrom s₁.clock := by
    rw [hs₁]
    exact hGood
  have hErased₁ : s₁.flash.ErasedBlock b := by
    rw [hs₁]
    exact hErased
  refine wp_mono (wp_flashCheckErasedFrom pagesPerBlock s₁ 0
    hGood₁ hErased₁ (by omega)) ?_
  intro r _ s₂ h₂
  rcases h₂ with ⟨hr, hEs, hst, hRef⟩
  subst hr hEs
  have hMark : (s₂.buf.entry c).refCount = cloneBufMark := by
    rw [hRef, hs₁]
    dsimp only
    rw [upd_same]
  simp only [sparePut, wp_bind, wp_modify]
  refine wp_mono (wp_bufFreeClone hMark) ?_
  intro _ _ t ht
  rcases ht with ⟨_, hEs, ht⟩
  subst hEs
  refine (wp_pure _ _ _).mpr ⟨rfl, rfl, ?_, ?_⟩
  · have hRest := hst.rest
    constructor
    · rw [ht, hRest, hs₁]
      dsimp only
      rw [hBack, hClone]
    · rw [ht]
      have hClock := hst.clock
      rw [hs₁] at hClock
      exact hClock
    · intro j hj
      rw [ht]
      dsimp only
      rw [upd_other _ _ hj, hst.entry j hj, hs₁]
      dsimp only
      rw [upd_other _ _ hj]
  · rw [ht]
    dsimp only
    rw [upd_same]

------------------------------------------------------------
-- Handing Out a Block
------------------------------------------------------------

/-
  The node `n` is taken from the erased list, which leaves
  the tree `T`; the cache knows that its block is erased.
-/
structure HandsOut
    (H : Nat → Nat)
    (n : Nat)
    (T : Tree)
    (s t : Dev) : Prop where
  rest : t =
    { s with
      clock := t.clock
      bc := t.bc
      buf := t.buf
      tree := T
      watch := t.watch }
  calm : Calm t H
  buf : s.buf.Untouched t.buf
  list : t.bc.list.Perm s.bc.list
  held : ∀ j ∈ s.bc.list, 0 < H j →
    (t.bc.info j).block = (s.bc.info j).block
  kept : ∀ j ∈ s.bc.list, 0 < H j →
    (s.bc.info j).block ≠ (T.node n).listBlock →
      (t.bc.info j).spares = (s.bc.info j).spares

/- The clones are apart from the other buffers. -/
theorem Scribbles.untouched
    {c : Nat}
    {s t : Dev}
    (h : Scribbles c s t)
    (hs : s.buf.Sound)
    (hc : c ∈ s.buf.clone)
    (hEmpty : (t.buf.entry c).mark = .empty) :
    s.buf.Untouched t.buf := by
  have hBuf : t.buf = { s.buf with entry := t.buf.entry } := by
    rw [h.rest]
  constructor
  · rw [hBuf]
  · rw [hBuf]
  · rw [hBuf]
  · intro j hj
    apply h.entry
    intro hEq
    rw [hEq] at hj
    exact hs.not_free hj hc
  · intro j hj hMark
    by_cases hjc : j = c
    · rw [hjc]
      exact hEmpty
    · rw [h.entry j hjc]
      exact hMark

/- New tags of an entry that are those of its block. -/
theorem Calm.setSpares
    {s : Dev}
    {H : Nat → Nat}
    {i : Nat}
    {f : Nat → PageSpare}
    (h : Calm s H)
    (c : Nat)
    (hFresh : BlockInfo.Fresh
      { s.bc.info i with spares := f } s.flash) :
    Calm { s with bc := { s.bc with
      info := upd s.bc.info i
        { s.bc.info i with
          spares := f
          expiredCount := c } } } H := by
  have hBlock : ∀ j,
      (upd s.bc.info i
        { s.bc.info i with
          spares := f
          expiredCount := c } j).block =
        (s.bc.info j).block := by
    intro j
    by_cases hji : j = i
    · rw [hji, upd_same]
    · rw [upd_other _ _ hji]
  refine ⟨h.good, h.spare, h.clone, h.two, h.nodup, ?_, ?_, ?_⟩
  · intro j hj
    dsimp only
    by_cases hji : j = i
    · rw [hji, upd_same]
      exact hFresh
    · rw [upd_other _ _ hji]
      exact h.fresh j hj
  · intro j hj k hk hEq hValid
    dsimp only at hEq hValid
    rw [hBlock] at hEq hValid
    rw [hBlock] at hEq
    exact h.unique j hj k hk hEq hValid
  · intro j hj
    dsimp only
    by_cases hji : j = i
    · rw [hji, upd_same]
      rw [hji] at hj
      exact h.refs i hj
    · rw [upd_other _ _ hji]
      exact h.refs j hj

/- The tags of an erased block are put into the cache. -/
theorem wp_prepareErased
    {s : Dev}
    {H : Nat → Nat}
    {n : Nat}
    (hCalm : Calm s H)
    (hErased : s.flash.ErasedBlock (s.tree.node n).listBlock)
    (hFree : ∃ j ∈ s.bc.list, H j = 0) :
    wp (prepareErased n)
      (fun r es t => r = some n ∧ es = [] ∧
        HandsOut H n s.tree s t) s := by
  simp only [prepareErased, getNode, watchHandOut, wp_bind,
    wp_gets, wp_modify]
  have hCalm₁ : Calm { s with watch := { s.watch with
      usedHandedOut := s.watch.usedHandedOut ||
        !decide (s.flash.ErasedBlock
          (s.tree.node n).listBlock) } } H :=
    hCalm.congr (Nat.le_refl _) rfl rfl rfl rfl
  refine wp_mono (wp_blockInfoGet _ hCalm₁ hFree) ?_
  intro o _ s₂ h₂
  rcases h₂ with ⟨hEs, i, ho, hGets⟩
  subst ho hEs
  have hCalm₂ := hGets.calm hCalm₁
  have hFlash : s₂.flash = s.flash := hGets.flash
  simp only [blockInfoInitErased, setInfo, wp_bind, wp_modify]
  have hFresh : BlockInfo.Fresh
      { s₂.bc.info i with
        spares := fun _ =>
          { tag := Tag.erased, expired := false } }
      s₂.flash := by
    intro p hp _
    dsimp only
    rw [hFlash, hGets.block, hErased.2 p hp]
    rfl
  refine wp_mono (calm_blockInfoPut
    (hCalm₂.setSpares 0 hFresh)) ?_
  intro _ _ t ht
  rcases ht with ⟨hEs, hCalm, hRest, hList, hBlock, hSpares⟩
  subst hEs
  refine (wp_pure _ _ _).mpr ⟨rfl, rfl, ?_⟩
  have hBack : upd (upd H i (H i + 1)) i
      (upd H i (H i + 1) i - 1) = H := by
    rw [upd_same, Nat.add_sub_cancel]
    exact upd_upd_same H i _
  rw [hBack] at hCalm
  have hGetsRest := hGets.rest
  constructor
  · rw [hRest, hGetsRest]
  · exact hCalm
  · rw [hRest]
    dsimp only
    rw [hGets.buf]
    exact BufPool.Untouched.refl _
  · rw [hList]
    exact hGets.perm
  · intro j hj hHeld
    rw [hBlock]
    have hRef : 0 < (s.bc.info j).refCount := by
      rw [hCalm₁.refs j hj]
      exact hHeld
    rw [← hGets.held hRef]
    dsimp only
    by_cases hji : j = i
    · rw [hji, upd_same]
    · rw [upd_other _ _ hji]
  · intro j hj hHeld hOther
    rw [hSpares]
    have hRef : 0 < (s.bc.info j).refCount := by
      rw [hCalm₁.refs j hj]
      exact hHeld
    have hji : j ≠ i := by
      intro hEq
      apply hOther
      rw [← hGets.held hRef, hEq]
      exact hGets.block
    dsimp only
    rw [upd_other _ _ hji, hGets.other j hji]

/-
  `uffs_TreeGetErasedNode` when the first block of the erased
  list is erased.
-/
theorem wp_treeGetErasedNode
    {s : Dev}
    {H : Nat → Nat}
    {n : Nat}
    {T : Tree}
    (hCalm : Calm s H)
    (hSound : s.buf.Sound)
    (hPop : s.tree.popErased = some (n, T))
    (hErased : s.flash.ErasedBlock (T.node n).listBlock)
    (hFree : ∃ j ∈ s.bc.list, H j = 0) :
    wp treeGetErasedNode
      (fun r es t => r = some n ∧ es = [] ∧ HandsOut H n T s t)
      s := by
  unfold treeGetErasedNode getErasedNodeFuel
  simp only [treeGetErasedNodeNoCheck, modifyTree, getNode,
    wp_bind, wp_get, wp_modify, wp_pure, wp_gets, hPop]
  have hCalm₁ : Calm { s with tree := T } H :=
    hCalm.congr (Nat.le_refl _) rfl rfl rfl rfl
  by_cases hCheck : (T.node n).listU ≠ 0
  · rw [if_pos hCheck, wp_bind]
    rcases hCalm.clone_cons with ⟨c, rest, hClone⟩
    have hIn : c ∈ s.buf.clone := by
      rw [hClone]
      exact List.mem_cons_self
    have hPos : 0 < s.spareFree :=
      Nat.lt_of_lt_of_le (by decide) hCalm.spare
    have hChecked : wp (flashCheckErasedBlock
        (T.node n).listBlock)
        (fun r es t => r = .succ ∧ es = [] ∧
          Scribbles c { s with tree := T } t ∧
          (t.buf.entry c).mark = .empty)
        { s with tree := T } :=
      wp_flashCheckErasedBlock hCalm.good hPos hClone hErased
    refine wp_mono hChecked ?_
    intro r _ u hu
    rcases hu with ⟨hr, hEs, hst, hEmpty⟩
    subst hr hEs
    dsimp only
    have hRest := hst.rest
    have hBuf : s.buf.Untouched u.buf :=
      hst.untouched hSound hIn hEmpty
    have hCalmU : Calm u H := by
      apply hCalm₁.congr hst.clock
      · rw [hRest]
      · rw [hRest]
      · rw [hRest]
      · rw [hRest]
    have hTree : u.tree = T := by
      rw [hRest]
    have hErasedU : u.flash.ErasedBlock
        (u.tree.node n).listBlock := by
      rw [hTree, hRest]
      exact hErased
    have hFreeU : ∃ j ∈ u.bc.list, H j = 0 := by
      rw [hRest]
      exact hFree
    refine wp_mono (wp_prepareErased hCalmU hErasedU hFreeU) ?_
    intro r es t ht
    rcases ht with ⟨hr, hEs, hOut⟩
    subst hr hEs
    refine ⟨rfl, rfl, ?_, hOut.calm, hBuf.trans hOut.buf, ?_, ?_,
      ?_⟩
    · rw [hOut.rest, hRest]
    · have hList := hOut.list
      rw [hRest] at hList
      exact hList
    · intro j hj hHeld
      have hBlock := hOut.held j
      rw [hRest] at hBlock
      exact hBlock hj hHeld
    · intro j hj hHeld hOther
      have hKept := hOut.kept j
      rw [hRest] at hKept
      exact hKept hj hHeld hOther
  · rw [if_neg hCheck]
    have hPrepared : wp (prepareErased n)
        (fun r es t => r = some n ∧ es = [] ∧
          HandsOut H n T { s with tree := T } t)
        { s with tree := T } :=
      wp_prepareErased hCalm₁ hErased hFree
    refine wp_mono hPrepared ?_
    intro r es t ht
    rcases ht with ⟨hr, hEs, hOut⟩
    subst hr hEs
    exact ⟨rfl, rfl, hOut.rest, hOut.calm, hOut.buf, hOut.list,
      hOut.held, hOut.kept⟩

end Uffs
