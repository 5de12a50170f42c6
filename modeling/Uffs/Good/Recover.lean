import Uffs.Good.Copy

/-
  Replacing a block with a dirty group on a flash where every
  operation succeeds: the new block is written, the node is
  made to stand for it, and the old block is erased.

  Main declarations:
    * `Swapped`, `wp_recoverSucc`
    * `Replaceable`, `Replaces`
    * `wp_recoverOnce`
    * `wp_bufFlushExistWithBlockRecover`
-/

namespace Uffs

open Prog

variable [Platform]

------------------------------------------------------------
-- The End of the Recover
------------------------------------------------------------

/-
  Every page of the group whose page id is met is taken off
  its dirty list.
-/
theorem wp_cleanDirtyFrom
    {slot : Nat}
    (n : Nat) :
    ∀ (s : Dev) (i : Nat),
      s.buf.Sound →
      wp (cleanDirtyFrom slot n i)
        (fun _ es t => es = [] ∧ t = { s with buf := t.buf } ∧
          t.buf.Sound ∧ t.buf.clone = s.buf.clone ∧
          ((∀ d ∈ (s.buf.group slot).dirty,
              i ≤ (s.buf.entry d).pageId ∧
                (s.buf.entry d).pageId < i + n) →
            (t.buf.group slot).dirty = [])) s := by
  induction n with
  | zero =>
      intro s i hs
      unfold cleanDirtyFrom
      rw [wp_pure]
      refine ⟨rfl, rfl, hs, rfl, ?_⟩
      intro hRange
      rw [List.eq_nil_iff_forall_not_mem]
      intro d hd
      have hLt := hRange d hd
      omega
  | succ n ih =>
      intro s i hs
      unfold cleanDirtyFrom findBufInDirtyList
      rw [wp_bind, wp_gets]
      cases hFind : (s.buf.group slot).dirty.find? fun d =>
          (s.buf.entry d).pageId == i with
      | none =>
          refine wp_mono (ih s (i + 1) hs) ?_
          intro _ es t ht
          rcases ht with ⟨hEs, hRest, hSound, hClone, hNil⟩
          refine ⟨hEs, hRest, hSound, hClone, ?_⟩
          intro hRange
          apply hNil
          intro d hd
          have hNot := List.find?_eq_none.mp hFind d hd
          rw [beq_iff_eq] at hNot
          have hLt := hRange d hd
          omega
      | some d =>
          have hd := List.mem_of_find?_eq_some hFind
          have hId := List.find?_some hFind
          rw [beq_iff_eq] at hId
          dsimp only
          refine wp_cleanAndMove hs hd
            (BufPool.Untouched.refl _) rfl ?_
          intro u hu hUntouched
          have hClean := hs.clean hd
            (f := fun b => { b with
              mark := .valid, truncTail := false })
            (fun _ => rfl)
            (fun _ hMark => BufMark.noConfusion hMark)
          have hSound := hUntouched.sound hClean
          refine wp_mono (ih u (i + 1) hSound) ?_
          intro r es t ht
          rcases ht with ⟨hEs, hRest, hEnd, hClone, hNil⟩
          refine ⟨hEs, ?_, hEnd, ?_, ?_⟩
          · rw [hRest, hu]
          · rw [hClone, hUntouched.clone]
            rfl
          · intro hRange
            apply hNil
            intro e he
            rw [hUntouched.dirty hClean
              (by rw [← hUntouched.group]; exact he)]
            rw [hUntouched.group] at he
            have hOld := BufPool.clean_mem_dirty hs he
            have hNe := hOld.2 hd
            have hLt := hRange e hOld.1
            have hEntry : (s.buf.clean slot d fun b =>
                { b with mark := .valid
                         truncTail := false }).entry e =
                s.buf.entry e := upd_other _ _ hNe
            rw [hEntry]
            have hOther : (s.buf.entry e).pageId ≠ i := by
              intro hEq
              have hFindD := hs.content_of_mem hd
              have hFindE := hs.content_of_mem hOld.1
              rw [hEq, ← hId, hFindD] at hFindE
              cases hFindE
              exact hNe rfl
            omega

/- The event of a successful erase of a block. -/
def Event.erased (b : Nat) : Event :=
  .erase b .noErr (some fun _ => Page.erased pgDataSize)

/- The block of a node is erased. -/
theorem wp_treeEraseIgnored
    {s : Dev}
    {H : Nat → Nat}
    {n b : Nat}
    (hCalm : Calm s H)
    (hNode : (s.tree.node n).listBlock = b)
    (hb : b ≠ invalidBlock) :
    wp (treeEraseIgnored n)
      (fun _ es t => es = [.erased b] ∧
        Erases b
          { s with tree :=
            s.tree.setNode n fun x => x.setListU 0 } t) s := by
  unfold treeEraseIgnored treeEraseNode eraseNodeFuel getNode
    setNode modifyTree
  rw [wp_bind, wp_bind, wp_gets, wp_bind, wp_modify, wp_bind,
    hNode]
  have hCalm' : Calm
      { s with
        tree := s.tree.setNode n fun x => x.setListU 0 } H :=
    hCalm.congr (Nat.le_refl _) rfl rfl rfl rfl
  refine wp_mono (wp_flashEraseBlock hCalm' hb) ?_
  intro r es t ht
  rcases ht with ⟨hr, hEs, hErases⟩
  subst hr hEs
  rw [if_neg (by decide), if_neg (by decide), wp_pure]
  dsimp only
  rw [wp_pure]
  exact ⟨rfl, hErases⟩

/- A good tag is dirty. -/
omit [Platform] in
theorem Tag.isDirty_of_isGood
    {t : Tag}
    (h : t.isGood = true) : t.isDirty = true := by
  unfold Tag.isGood Tag.isValid at h
  rw [Bool.and_eq_true, beq_iff_eq] at h
  unfold Tag.isDirty
  rw [h.2]
  simp

/- What the node and the old block are after the recover. -/
structure Swapped
    (slot node newNode b y : Nat)
    (key : GroupKey)
    (s t : Dev) : Prop where
  flash : t.flash = s.flash.eraseBlock b
  sound : t.buf.Sound
  dirty : (∀ d ∈ (s.buf.group slot).dirty,
      (s.buf.entry d).pageId < pagesPerBlock) →
    (t.buf.group slot).dirty = []
  tree : ∃ sum u, t.tree =
    (((s.tree.setNode node fun x => x.recovered key y sum).setNode
      newNode fun x => x.setListBlock b).setNode
        newNode fun x => x.setListU u).appendErased newNode
          (some 0)

/-
  The end of `uffs_BufFlush_Exist_With_BlockRecover`: the
  node stands for the new block, and the old one is erased.
-/
theorem wp_recoverSucc
    {s : Dev}
    {H : Nat → Nat}
    {slot node newNode i b y sum : Nat}
    {key : GroupKey}
    (hCalm : Calm s H)
    (hMem : i ∈ s.bc.list)
    (hBlock : (s.bc.info i).block = b)
    (hb : b ≠ invalidBlock)
    (hSound : s.buf.Sound)
    (hUsed : (s.flash.tags b 0).isGood) :
    wp (recoverSucc slot key node i newNode y sum false)
      (fun _ es t => es = [.erased b] ∧
        Swapped slot node newNode b y key s t) s := by
  unfold recoverSucc
  refine wp_seq (wp_cleanDirtyFrom pagesPerBlock s 0 hSound) ?_
  intro _ es t ht
  rcases ht with ⟨hEs, hRest, hEnd, hClone, hNil⟩
  subst hEs
  have hBc : t.bc = s.bc := by
    rw [hRest]
  have hFlash : t.flash = s.flash := by
    rw [hRest]
  have hTree : t.tree = s.tree := by
    rw [hRest]
  have hCalmT : Calm t H := by
    apply hCalm.congr _ _ hClone hBc hFlash
    · rw [hRest]
    · rw [hRest]
  have hBlockT : (t.bc.info i).block = b := by
    rw [hBc]
    exact hBlock
  have hMemT : i ∈ t.bc.list := by
    rw [hBc]
    exact hMem
  have hUsedT : (t.flash.tags b 0).isGood := by
    rw [hFlash]
    exact hUsed
  unfold setNode modifyTree getInfo
  rw [wp_bind, wp_modify, wp_bind, wp_gets, wp_bind, wp_modify]
  dsimp only
  rw [if_neg Bool.false_ne_true, wp_bind, hBlockT]
  obtain ⟨T, hT⟩ : ∃ T, T =
      (t.tree.setNode node fun x =>
        x.recovered key y sum).setNode newNode
          fun x => x.setListBlock b := ⟨_, rfl⟩
  have hCalmU : Calm { t with tree := T } H :=
    hCalmT.congr (Nat.le_refl _) rfl rfl rfl rfl
  have hLoad : Yields i (isThisBlockUsed i)
      (Dev.tags { t with tree := T } i 0).isDirty
      { t with tree := T } :=
    yields_isThisBlockUsed (hCalmU.readable hMemT)
  rw [hT] at hLoad
  refine wp_mono hLoad ?_
  rw [← hT]
  intro r _ u hu
  rcases hu with ⟨hr, hEs, hReads⟩
  have hDirty : (Dev.tags { t with tree := T } i 0).isDirty =
      true := by
    apply Tag.isDirty_of_isGood
    unfold Dev.tags
    dsimp only
    rw [hBlockT]
    exact hUsedT
  subst hr hEs
  rw [hDirty, if_pos rfl, wp_bind]
  have hTreeU : u.tree = T := hReads.tree
  have hCalmV : Calm u H := hCalmU.reads hMemT hReads
  have hNode : (u.tree.node newNode).listBlock = b := by
    rw [hTreeU, hT, Tree.setNode_same]
    rfl
  refine wp_mono (wp_treeEraseIgnored hCalmV hNode hb) ?_
  intro _ _ v hv
  rcases hv with ⟨hEs, hErases⟩
  subst hEs
  unfold treeInsertToErasedListTail treeInsertToErasedListTailEx
    modifyTree
  rw [wp_modify]
  refine ⟨rfl, ?_⟩
  have hRestV := hErases.rest
  have hBufV : v.buf = t.buf := by
    rw [hRestV]
    exact hReads.buf
  constructor
  · dsimp only
    rw [hRestV]
    dsimp only
    rw [hReads.flash]
    exact congrArg (Flash.eraseBlock · b) hFlash
  · dsimp only
    rw [hBufV]
    exact hEnd
  · intro hRange
    dsimp only
    rw [hBufV]
    apply hNil
    intro d hd
    have hLt := hRange d hd
    omega
  · refine ⟨sum, 0, ?_⟩
    dsimp only
    rw [hRestV]
    dsimp only
    rw [hTreeU, hT, hTree]

------------------------------------------------------------
-- The Whole Recover
------------------------------------------------------------

/- A page that is not trusted is expired. -/
theorem Calm.of_forget
    {s : Dev}
    {H : Nat → Nat}
    {i p : Nat}
    (hCalm : Calm (s.forget i p) H)
    (hGone : p < pagesPerBlock →
      ((s.bc.info i).spares p).expired = true) : Calm s H := by
  rcases hCalm.forgotten with ⟨hFresh, hUnique, hRefs⟩
  refine ⟨hCalm.good, hCalm.spare, hCalm.clone, hCalm.two,
    hCalm.nodup, ?_, hUnique, hRefs⟩
  intro j hj q hq hKept
  apply hFresh j hj q hq _ hKept
  intro hji hqp
  rw [hji, hqp] at hKept
  rw [hqp] at hq
  rw [hGone hq] at hKept
  cases hKept

/- The page after the copied ones is expired. -/
theorem wp_blockInfoExpire
    {s : Dev}
    {H : Nat → Nat}
    {i p : Nat}
    (hCalm : Calm (s.forget i p) H) :
    wp (blockInfoExpire i p)
      (fun _ es t => es = [] ∧ Calm t H ∧
        t = { s with bc := t.bc } ∧ t.bc.list = s.bc.list ∧
        ∀ j, (t.bc.info j).block = (s.bc.info j).block) s := by
  unfold blockInfoExpire setInfo
  rw [wp_modify]
  dsimp only
  by_cases hKept : p < pagesPerBlock ∧
      (!((s.bc.info i).spares p).expired) = true
  · have hBlock : ∀ j,
        (upd s.bc.info i
          { s.bc.info i with
            spares := upd (s.bc.info i).spares p
              { (s.bc.info i).spares p with expired := true }
            expiredCount :=
              (s.bc.info i).expiredCount + 1 } j).block =
          (s.bc.info j).block := by
      intro j
      by_cases hji : j = i
      · rw [hji, upd_same]
      · rw [upd_other _ _ hji]
    rw [if_pos hKept]
    refine ⟨rfl, ?_, rfl, rfl, hBlock⟩
    apply Calm.of_forget
    · apply hCalm.forget_of
      · exact Nat.le_refl s.clock
      · rfl
      · exact hCalm.clone
      · rfl
      · rfl
      · intro j hj
        exact upd_other _ _ hj
      · exact hBlock i
      · dsimp only
        rw [upd_same]
      · intro q hq
        dsimp only
        rw [upd_same]
        exact upd_other _ _ hq
    · intro _
      dsimp only
      rw [upd_same]
      dsimp only
      rw [upd_same]
  · rw [if_neg hKept]
    have hSame : upd s.bc.info i (s.bc.info i) = s.bc.info := by
      funext j
      by_cases hji : j = i
      · rw [hji, upd_same]
      · rw [upd_other _ _ hji]
    rw [hSame]
    refine ⟨rfl, ?_, rfl, rfl, fun _ => rfl⟩
    apply hCalm.of_forget
    intro hp
    by_contra hNot
    apply hKept
    rw [Bool.not_eq_true] at hNot
    rw [hNot]
    exact ⟨hp, rfl⟩

/- A block with a dirty group can be replaced. -/
structure Replaceable
    (s : Dev)
    (H : Nat → Nat)
    (slot i b newNode y : Nat)
    (key : GroupKey)
    (ok : Nat → List Byte → Nat → Prop)
    (T : Tree) : Prop where
  copies : MayCopy s slot b key ok
  calm : Calm s H
  mem : i ∈ s.bc.list
  block : (s.bc.info i).block = b
  held : 0 < H i
  free : ∃ j ∈ s.bc.list, H j = 0
  used : (s.flash.tags b 0).isGood
  pop : s.tree.popErased = some (newNode, T)
  newBlock : (T.node newNode).listBlock = y
  erased : s.flash.ErasedBlock y
  oldValid : b ≠ invalidBlock
  newValid : y ≠ invalidBlock
  ne : b ≠ y

/-
  What a recover leaves: `F` is the flash with `m` pages of
  the new block written, before the old one is erased.
-/
structure Replaces
    (slot node newNode b y : Nat)
    (key : GroupKey)
    (ok : Nat → List Byte → Nat → Prop)
    (T : Tree)
    (s : Dev)
    (F : Flash)
    (page m : Nat)
    (es : List Event)
    (t : Dev) : Prop where
  copied : F.Copied y key
    (getNextBlockTimeStamp (blockStamp (s.flash.tags b))) ok m
  ends : Ends s slot b page m
  other : ∀ x, x ≠ y → F.page x = s.flash.page x
  bad : F.bad = s.flash.bad
  events : ∃ notes : List Note,
    es = (List.range m).map (fun p => .wrote y p (F.page y p)) ++
      notes.map .note ++ [.erased b]
  flash : t.flash = F.eraseBlock b
  sound : t.buf.Sound
  dirty : (∀ d ∈ (s.buf.group slot).dirty,
      (s.buf.entry d).pageId < pagesPerBlock) →
    (t.buf.group slot).dirty = []
  tree : ∃ sum u, t.tree =
    (((T.setNode node fun x => x.recovered key y sum).setNode
      newNode fun x => x.setListBlock b).setNode
        newNode fun x => x.setListU u).appendErased newNode
          (some 0)

/- The loop starts with nothing copied. -/
theorem Flash.copied_zero
    {F : Flash}
    {y stamp : Nat}
    {key : GroupKey}
    {ok : Nat → List Byte → Nat → Prop}
    (h : F.ErasedBlock y) : F.Copied y key stamp ok 0 where
  le := Nat.zero_le _
  page := fun _ hp => absurd hp (Nat.not_lt_zero _)
  erased := fun p _ hp => h.2 p hp

section Congr

variable {s t : Dev} {slot b : Nat} {key : GroupKey}
  {ok : Nat → List Byte → Nat → Prop}

/- The same buffers and the same flash. -/
theorem MayCopy.congr
    (h : MayCopy s slot b key ok)
    (hBuf : s.buf.Untouched t.buf)
    (hFlash : t.flash = s.flash) : MayCopy t slot b key ok where
  sound := hBuf.sound h.sound
  few := hBuf.few h.few
  two := by
    rw [hBuf.clone]
    exact h.two
  dirty := by
    intro d hd
    rw [hBuf.group] at hd
    rw [hBuf.dirty h.sound hd]
    exact h.dirty d hd
  cached := by
    intro j hj hMark hNot hKey
    have hIn := hBuf.list.mem_iff.mp hj
    rw [hBuf.entry j hIn] at hMark hKey ⊢
    rw [hBuf.group] at hNot
    exact h.cached j hIn hMark hNot hKey
  read := by
    intro n p hClean
    unfold BufPool.NoDirty at hClean
    rw [hBuf.find_dirty h.sound] at hClean
    rw [hFlash]
    exact h.read n p hClean

theorem Ends.congr
    {n m : Nat}
    (h : Ends t slot b n m)
    (hSound : s.buf.Sound)
    (hBuf : s.buf.Untouched t.buf)
    (hFlash : t.flash = s.flash) : Ends s slot b n m := by
  have hDirty : ∀ {d}, d ∈ (t.buf.group slot).dirty →
      d ∈ (s.buf.group slot).dirty ∧
        t.buf.entry d = s.buf.entry d := by
    intro d hd
    rw [hBuf.group] at hd
    exact ⟨hd, hBuf.dirty hSound hd⟩
  cases h with
  | full hAll => exact Ends.full hAll
  | last hClean hNone =>
      apply Ends.last
      · unfold BufPool.NoDirty at hClean ⊢
        rw [hBuf.find_dirty hSound] at hClean
        exact hClean
      · rw [← hFlash]
        exact hNone
  | empty d hd hPage hLen =>
      rw [(hDirty hd).2] at hPage hLen
      exact Ends.empty d (hDirty hd).1 hPage hLen
  | tail d hd hPage hTail hLen =>
      rw [(hDirty hd).2] at hPage hTail hLen
      exact Ends.tail d (hDirty hd).1 hPage hTail hLen

end Congr

/-
  `uffs_BufFlush_Exist_With_BlockRecover` copies the block
  and erases the old one.
-/
theorem wp_recoverOnce
    {s : Dev}
    {H : Nat → Nat}
    {slot node i b newNode y : Nat}
    {key : GroupKey}
    {ok : Nat → List Byte → Nat → Prop}
    {T : Tree}
    {retry : M URet}
    (h : Replaceable s H slot i b newNode y key ok T) :
    wp (recoverOnce slot key node i false retry)
      (fun r es t => r = .succ ∧ ∃ F page m,
        Replaces slot node newNode b y key ok T s F page m es t)
      s := by
  unfold recoverOnce
  rw [wp_bind]
  refine wp_mono (wp_blockInfoLoadAll (h.calm.readable h.mem))
    ?_
  intro _ _ s₁ h₁
  rcases h₁ with ⟨_, hEs, hReads, hLoaded⟩
  subst hEs
  have hCalm₁ := h.calm.reads h.mem hReads
  have hBuf₁ : s₁.buf = s.buf := hReads.buf
  have hFlash₁ : s₁.flash = s.flash := hReads.flash
  rw [wp_bind]
  refine wp_mono (wp_treeGetErasedNode (n := newNode) (T := T)
    hCalm₁ ?_ ?_ ?_ ?_) ?_
  · rw [hBuf₁]
    exact h.copies.sound
  · rw [hReads.tree]
    exact h.pop
  · rw [hFlash₁, h.newBlock]
    exact h.erased
  · rw [hReads.list]
    exact h.free
  intro o _ s₂ h₂
  rcases h₂ with ⟨ho, hEs, hOut⟩
  subst ho hEs
  have hTree₂ : s₂.tree = T := by
    rw [hOut.rest]
  have hFlash₂ : s₂.flash = s.flash := by
    rw [hOut.rest]
    exact hFlash₁
  unfold getNode
  dsimp only
  rw [wp_bind, wp_gets, hTree₂, h.newBlock, wp_bind]
  have hMem₁ : i ∈ s₁.bc.list := by
    rw [hReads.list]
    exact h.mem
  have hMem₂ : i ∈ s₂.bc.list := hOut.list.mem_iff.mpr hMem₁
  refine wp_mono (wp_blockInfoGet y hOut.calm ?_) ?_
  · rcases h.free with ⟨j, hj, hZero⟩
    refine ⟨j, ?_, hZero⟩
    rw [hOut.list.mem_iff, hReads.list]
    exact hj
  intro o _ s₃ h₃
  rcases h₃ with ⟨hEs, c, ho, hGets⟩
  subst ho hEs
  have hBlock₁ : (s₁.bc.info i).block = b :=
    hReads.block.trans h.block
  have hBlock₂ : (s₂.bc.info i).block = b :=
    (hOut.held i hMem₁ h.held).trans hBlock₁
  have hSpares₂ : (s₂.bc.info i).spares =
      (s₁.bc.info i).spares := by
    apply hOut.kept i hMem₁ h.held
    rw [hBlock₁, h.newBlock]
    exact h.ne
  have hRef₂ : 0 < (s₂.bc.info i).refCount := by
    rw [hOut.calm.refs i hMem₂]
    exact h.held
  have hBlock₃ : (s₃.bc.info i).block = b :=
    (hGets.held hRef₂).trans hBlock₂
  have hic : i ≠ c := by
    intro hEq
    apply h.ne
    rw [← hBlock₃, hEq]
    exact hGets.block
  have hLoaded₃ : (s₃.bc.info i).Loaded := by
    rw [hGets.other i hic]
    intro p hp
    rw [hSpares₂]
    exact hLoaded p hp
  have hCalm₃ := hGets.calm hOut.calm
  have hMem₃ : i ∈ s₃.bc.list := hGets.perm.mem_iff.mpr hMem₂
  dsimp only
  rw [wp_bind]
  refine wp_mono (wp_blockInfoLoadAll
    (hCalm₃.readable hGets.memAfter)) ?_
  intro _ _ s₄ h₄
  rcases h₄ with ⟨_, hEs, hReads₄, _⟩
  subst hEs
  have hCalm₄ := hCalm₃.reads hGets.memAfter hReads₄
  have hMem₄ : i ∈ s₄.bc.list := by
    rw [hReads₄.list]
    exact hMem₃
  have hInfo₄ : s₄.bc.info i = s₃.bc.info i :=
    hReads₄.other i hic
  rw [wp_bind]
  refine wp_mono (yields_getBlockTimeStamp
    (hCalm₄.readable hMem₄)) ?_
  intro stamp _ s₅ h₅
  rcases h₅ with ⟨hStamp, hEs, hReads₅⟩
  subst hEs
  have hCalm₅ := hCalm₄.reads hMem₄ hReads₅
  have hFlash₅ : s₅.flash = s.flash := by
    rw [hReads₅.flash, hReads₄.flash, hGets.flash, hFlash₂]
  have hTree₅ : s₅.tree = T := by
    rw [hReads₅.tree, hReads₄.tree, hGets.tree, hTree₂]
  have hBuf₅ : s.buf.Untouched s₅.buf := by
    rw [hReads₅.buf, hReads₄.buf, hGets.buf, ← hBuf₁]
    exact hOut.buf
  have hTags₄ : s₄.tags i = s.flash.tags b := by
    unfold Dev.tags Flash.tags
    rw [hInfo₄, hBlock₃, hReads₄.flash, hGets.flash, hFlash₂]
  rw [hTags₄] at hStamp
  subst hStamp
  have hCopy : Copying (upd H c (H c + 1)) i b c y key
      (getNextBlockTimeStamp (blockStamp (s.flash.tags b)))
      ok 0 s₅ s₅ := by
    constructor
    · exact hCalm₅.forget c 0
    · rw [hReads₅.list]
      exact hMem₄
    · rw [hReads₅.list, hReads₄.list]
      exact hGets.memAfter
    · rw [hReads₅.block, hInfo₄]
      exact hBlock₃
    · rw [hReads₅.other c (Ne.symm hic), hReads₄.block]
      exact hGets.block
    · apply hReads₅.loaded
      rw [hInfo₄]
      exact hLoaded₃
    · rfl
    · intro x _
      rfl
    · rfl
    · apply Flash.copied_zero
      rw [hFlash₅]
      exact h.erased
  rw [wp_bind]
  refine wp_mono (wp_recoverFrom
    (h.copies.congr hBuf₅ hFlash₅) h.ne h.newValid pagesPerBlock
    s₅ 0 0xFFFF (Nat.zero_add _) hCopy
    (BufPool.Untouched.refl _)) ?_
  intro r es t ht
  rcases ht with ⟨m, ht⟩
  simp only [ht.op, ht.succ, FlashRet.isBadBlock,
    FlashRet.haveErr, Bool.false_eq_true, if_false,
    reduceCtorEq, if_true]
  have hCopied := ht.copying
  have hBufT := hBuf₅.trans ht.buf
  have hUsed : (t.flash.tags b 0).isGood := by
    have hSame := hCopied.other b h.ne
    unfold Flash.tags
    rw [hSame, hFlash₅]
    exact h.used
  have hTail : ∀ u, Calm u (upd H c (H c + 1)) →
      u = { t with bc := u.bc } → u.bc.list = t.bc.list →
      (u.bc.info i).block = (t.bc.info i).block →
      wp (do
        recoverSucc slot key node i newNode y r.sum false
        blockInfoPut c
        pure URet.succ)
        (fun o fs v => o = .succ ∧ ∃ F page m,
          Replaces slot node newNode b y key ok T s F page m
            (es ++ fs) v) u := by
    intro u hCalm hRest hList hBlock
    have hFlashU : u.flash = t.flash := by
      rw [hRest]
    have hBufU : u.buf = t.buf := by
      rw [hRest]
    have hTreeU : u.tree = T := by
      rw [hRest]
      exact hCopied.tree.trans hTree₅
    refine wp_seq (wp_recoverSucc hCalm ?_ ?_ h.oldValid ?_ ?_)
      ?_
    · rw [hList]
      exact hCopied.memOld
    · rw [hBlock]
      exact hCopied.blockOld
    · rw [hBufU]
      exact hBufT.sound h.copies.sound
    · rw [hFlashU]
      exact hUsed
    intro _ fs v hv
    rcases hv with ⟨hEs, hSwapped⟩
    subst hEs
    unfold blockInfoPut setInfo
    rw [wp_bind, wp_modify, wp_pure]
    refine ⟨rfl, t.flash, r.page, m, ?_⟩
    rcases hSwapped.tree with ⟨sum, x, hTree⟩
    rcases ht.events with ⟨notes, hEvents⟩
    constructor
    · exact hCopied.copied
    · exact ht.ends.congr h.copies.sound hBuf₅ hFlash₅
    · intro z hz
      rw [hCopied.other z hz, hFlash₅]
    · rw [hCopied.bad, hFlash₅]
    · refine ⟨notes, ?_⟩
      rw [hEvents, Nat.sub_zero, List.range_eq_range']
      rfl
    · rw [← hFlashU]
      exact hSwapped.flash
    · exact hSwapped.sound
    · intro hRange
      apply hSwapped.dirty
      intro d hd
      rw [hBufU] at hd ⊢
      rw [hBufT.group] at hd
      rw [hBufT.dirty h.copies.sound hd]
      exact hRange d hd
    · refine ⟨sum, x, ?_⟩
      rw [← hTreeU]
      exact hTree
  by_cases hEnd : r.page = pagesPerBlock
  · rw [if_neg (not_not_intro hEnd)]
    refine hTail t ?_ rfl rfl rfl
    apply ht.calm.of_forget
    intro hLt
    omega
  · rw [if_pos hEnd, wp_bind]
    refine wp_mono (wp_blockInfoExpire ht.calm) ?_
    intro _ _ u hu
    rcases hu with ⟨hEs, hCalm, hRest, hList, hBlock⟩
    subst hEs
    exact hTail u hCalm hRest hList (hBlock i)

/- The key and the type of the first dirty page. -/
def Dev.headKey (s : Dev) (slot : Nat) : GroupKey :=
  let b := s.buf.entry ((s.buf.group slot).dirty.headD 0)
  { type := b.type, parent := b.parent, serial := b.serial }

section Watch

variable {s : Dev} {w : Watch} {H : Nat → Nat}
  {slot node i b newNode y : Nat} {key : GroupKey}
  {ok : Nat → List Byte → Nat → Prop} {T : Tree}

/- What is watched does not matter. -/
theorem Replaceable.of_watch
    (h : Replaceable s H slot i b newNode y key ok T) :
    Replaceable { s with watch := w } H slot i b newNode y key
      ok T :=
  { h with
    copies := h.copies.congr (.refl _) rfl
    calm := { h.calm with } }

theorem Replaces.of_watch
    {F : Flash}
    {page m : Nat}
    {es : List Event}
    {t : Dev}
    (h : Replaces slot node newNode b y key ok T
      { s with watch := w } F page m es t)
    (hSound : s.buf.Sound) :
    Replaces slot node newNode b y key ok T s F page m es t :=
  { h with ends := h.ends.congr hSound (.refl _) rfl }

end Watch

/- `uffs_BufFlush_Exist_With_BlockRecover` -/
theorem wp_bufFlushExistWithBlockRecover
    {s : Dev}
    {H : Nat → Nat}
    {slot node i b newNode y : Nat}
    {ok : Nat → List Byte → Nat → Prop}
    {T : Tree}
    (h : Replaceable s H slot i b newNode y (s.headKey slot) ok
      T)
    (hNode : (s.tree.node node).mismatch (s.headKey slot).type =
      false) :
    wp (bufFlushExistWithBlockRecover slot node i false)
      (fun r es t => r = .succ ∧ ∃ F page m,
        Replaces slot node newNode b y (s.headKey slot) ok T s F
          page m es t) s := by
  have hOnce : ∀ (w : Watch) (retry : M URet),
      wp (recoverOnce slot (s.headKey slot) node i false retry)
        (fun r es t => r = .succ ∧ ∃ F page m,
          Replaces slot node newNode b y (s.headKey slot) ok T s F
            page m es t) { s with watch := w } := by
    intro w retry
    refine wp_mono (wp_recoverOnce h.of_watch) ?_
    intro r es t ht
    rcases ht with ⟨hr, F, page, m, ht⟩
    exact ⟨hr, F, page, m, ht.of_watch h.copies.sound⟩
  have hHead : ∀ u : Dev, wp (dirtyHeadKey slot)
      (fun r es t => r = u.headKey slot ∧ es = [] ∧ u = t) u := by
    intro u
    unfold dirtyHeadKey
    rw [wp_gets]
    exact ⟨rfl, rfl, rfl⟩
  unfold bufFlushExistWithBlockRecover watchMarks
  rw [wp_bind, wp_modify]
  refine wp_seq (hHead _) ?_
  intro r es t ht
  rcases ht with ⟨hr, hEs, ht⟩
  subst hr hEs ht
  unfold getNode
  rw [wp_bind, wp_gets]
  dsimp only
  rw [if_neg (by rw [Bool.not_eq_true]; exact hNode)]
  cases Platform.fuel with
  | zero => exact hOnce _ _
  | succ fuel => exact hOnce _ _

end Uffs
