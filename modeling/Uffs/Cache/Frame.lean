import Uffs.Files.Device

/-
  The block info cache agrees with the medium, whatever the
  driver answers.

  `Cached X` leaves out the pages of `X`, whose tags are in
  the cache before they are on the medium.  `Touches` bounds
  what a function does to the medium and `Fills` what it
  does to the cache.

  Main declarations:
    * `Dev.Cached`
    * `Touches`, `Fills`
    * `fills_blockInfoLoad`
    * `clears_flashEraseBlock`, `coheres_prepareErased`
-/

namespace Uffs

open Prog

variable [Platform]

------------------------------------------------------------
-- Cached Tags
------------------------------------------------------------

/- The number of pages of a block info that have expired. -/
def BlockInfo.expiredPages (w : BlockInfo) : Nat :=
  (List.range pagesPerBlock).countP fun p =>
    (w.spares p).expired

/-
  Every block has at most one entry, the entries count their
  expired pages, and a tag that has not expired is the one
  on the medium, unless the page is in `X` or its tag could
  not be read.
-/
structure Dev.Cached
    (X : Nat → Nat → Prop)
    (s : Dev) : Prop where
  nodup : s.bc.list.Nodup
  sole : ∀ i ∈ s.bc.list, ∀ j ∈ s.bc.list,
    (s.bc.info i).block = (s.bc.info j).block →
      (s.bc.info i).block ≠ invalidBlock → i = j
  count : ∀ i ∈ s.bc.list,
    (s.bc.info i).expiredCount = (s.bc.info i).expiredPages
  tag : ∀ i ∈ s.bc.list,
    (s.bc.info i).block ≠ invalidBlock →
      ∀ p < pagesPerBlock,
        ((s.bc.info i).spares p).expired = false →
          ¬ X (s.bc.info i).block p →
            s.watch.tagFailed (s.bc.info i).block p = false →
              ((s.bc.info i).spares p).tag =
                (s.flash.page (s.bc.info i).block p).tag
  spare : 0 < s.spareFree

/- No page. -/
def noPage : Nat → Nat → Prop := fun _ _ => False

/- Page `p` of block `b`. -/
def onePage (b p : Nat) : Nat → Nat → Prop :=
  fun b' p' => b' = b ∧ p' = p

/- The pages of block `b`. -/
def pagesOf (b : Nat) : Nat → Nat → Prop :=
  fun b' _ => b' = b

/- The medium changes in the pages of `W` only. -/
structure Touches
    (W : Nat → Nat → Prop)
    (s t : Dev) : Prop where
  tree : t.tree = s.tree
  bc : t.bc = s.bc
  spare : t.spareFree = s.spareFree
  handed : t.watch.usedHandedOut = s.watch.usedHandedOut
  tag : ∀ b p, ¬ W b p →
    (t.flash.page b p).tag = (s.flash.page b p).tag
  failed : ∀ b p, ¬ W b p →
    t.watch.tagFailed b p = false →
      s.watch.tagFailed b p = false

/- The cache is filled for the blocks that it is for. -/
structure Fills
    (X : Nat → Nat → Prop)
    (s t : Dev) : Prop where
  tree : t.tree = s.tree
  list : t.bc.list = s.bc.list
  block : ∀ i, (t.bc.info i).block = (s.bc.info i).block
  handed : t.watch.usedHandedOut = s.watch.usedHandedOut
  cached : s.Cached X → t.Cached X

/- As long as no used block is handed out. -/
structure Coheres (s t : Dev) : Prop where
  handed : t.watch.usedHandedOut = false →
    s.watch.usedHandedOut = false
  cached : t.watch.usedHandedOut = false →
    s.Cached noPage → t.Cached noPage

instance {W : Nat → Nat → Prop} :
    IsPreorder Dev (Touches W) where
  refl _ :=
    ⟨rfl, rfl, rfl, rfl, fun _ _ _ => rfl, fun _ _ _ h => h⟩
  trans _ _ _ h h' :=
    ⟨h'.tree.trans h.tree, h'.bc.trans h.bc,
      h'.spare.trans h.spare, h'.handed.trans h.handed,
      fun b p hb => (h'.tag b p hb).trans (h.tag b p hb),
      fun b p hb hFail =>
        h.failed b p hb (h'.failed b p hb hFail)⟩

instance {X : Nat → Nat → Prop} :
    IsPreorder Dev (Fills X) where
  refl _ := ⟨rfl, rfl, fun _ => rfl, rfl, id⟩
  trans _ _ _ h h' :=
    ⟨h'.tree.trans h.tree, h'.list.trans h.list,
      fun i => (h'.block i).trans (h.block i),
      h'.handed.trans h.handed,
      fun hs => h'.cached (h.cached hs)⟩

instance : IsPreorder Dev Coheres where
  refl _ := ⟨id, fun _ => id⟩
  trans _ _ _ h h' :=
    ⟨fun hu => h.handed (h'.handed hu),
      fun hu hs =>
        h'.cached hu (h.cached (h'.handed hu) hs)⟩

namespace Dev.Cached

variable {X Y : Nat → Nat → Prop} {s t : Dev}

theorem mono
    (h : s.Cached X)
    (hXY : ∀ b p, X b p → Y b p) : s.Cached Y where
  nodup := h.nodup
  sole := h.sole
  count := h.count
  tag := fun i hi hb p hp hFresh hY =>
    h.tag i hi hb p hp hFresh (fun hX => hY (hXY _ _ hX))
  spare := h.spare

/- The medium changes in pages that are left out. -/
theorem touch
    {W : Nat → Nat → Prop}
    (h : s.Cached X)
    (hst : Touches W s t)
    (hWX : ∀ b p, W b p → X b p) : t.Cached X := by
  constructor
  · rw [hst.bc]
    exact h.nodup
  · rw [hst.bc]
    exact h.sole
  · rw [hst.bc]
    exact h.count
  · rw [hst.bc]
    intro i hi hb p hp hFresh hX hFail
    have hW : ¬ W (s.bc.info i).block p :=
      fun hW => hX (hWX _ _ hW)
    rw [hst.tag _ _ hW]
    exact h.tag i hi hb p hp hFresh hX
      (hst.failed _ _ hW hFail)
  · rw [hst.spare]
    exact h.spare

/-
  A page need not be left out when the entries of its block
  have its tag.
-/
theorem drop
    (h : s.Cached X)
    (hXY : ∀ i ∈ s.bc.list,
      (s.bc.info i).block ≠ invalidBlock →
        ∀ p < pagesPerBlock,
          ((s.bc.info i).spares p).expired = false →
            X (s.bc.info i).block p → ¬ Y (s.bc.info i).block p →
              ((s.bc.info i).spares p).tag =
                (s.flash.page (s.bc.info i).block p).tag) :
    s.Cached Y where
  nodup := h.nodup
  sole := h.sole
  count := h.count
  tag := fun i hi hb p hp hFresh hY hFail => by
    by_cases hX : X (s.bc.info i).block p
    · exact hXY i hi hb p hp hFresh hX hY
    · exact h.tag i hi hb p hp hFresh hX hFail
  spare := h.spare

/- One entry changes and stays with its block. -/
theorem setInfo
    {i : Nat}
    {w : BlockInfo}
    (h : s.Cached X)
    (hBlock : w.block = (s.bc.info i).block)
    (hCount : i ∈ s.bc.list →
      w.expiredCount = w.expiredPages)
    (hTag : i ∈ s.bc.list → w.block ≠ invalidBlock →
      ∀ p < pagesPerBlock, (w.spares p).expired = false →
        ¬ X w.block p → s.watch.tagFailed w.block p = false →
          (w.spares p).tag = (s.flash.page w.block p).tag) :
    Dev.Cached X
      { s with bc := { s.bc with info := upd s.bc.info i w } }
    := by
  have hSame : ∀ j, (upd s.bc.info i w j).block =
      (s.bc.info j).block := by
    intro j
    by_cases hj : j = i
    · subst hj
      rw [upd_same]
      exact hBlock
    · rw [upd_other _ _ hj]
  constructor
  · exact h.nodup
  · intro j hj k hk hEq hb
    rw [hSame j, hSame k] at hEq
    rw [hSame j] at hb
    exact h.sole j hj k hk hEq hb
  · intro j hj
    by_cases hji : j = i
    · subst hji
      dsimp only
      rw [upd_same]
      exact hCount hj
    · dsimp only
      rw [upd_other _ _ hji]
      exact h.count j hj
  · intro j hj
    by_cases hji : j = i
    · subst hji
      dsimp only
      rw [upd_same]
      exact hTag hj
    · dsimp only
      rw [upd_other _ _ hji]
      exact h.tag j hj
  · exact h.spare

end Dev.Cached

namespace Touches

variable {W W' : Nat → Nat → Prop} {s t : Dev}

omit [Platform] in
theorem mono
    (h : Touches W s t)
    (hW : ∀ b p, W b p → W' b p) : Touches W' s t where
  tree := h.tree
  bc := h.bc
  spare := h.spare
  handed := h.handed
  tag := fun b p hb => h.tag b p (fun hw => hb (hW b p hw))
  failed := fun b p hb =>
    h.failed b p (fun hw => hb (hW b p hw))

theorem fills
    {X : Nat → Nat → Prop}
    (h : Touches W s t)
    (hWX : ∀ b p, W b p → X b p) : Fills X s t where
  tree := h.tree
  list := by rw [h.bc]
  block := fun i => by rw [h.bc]
  handed := h.handed
  cached := fun hs => hs.touch h hWX

end Touches

theorem Fills.coheres
    {s t : Dev}
    (h : Fills noPage s t) : Coheres s t :=
  ⟨fun hu => h.handed.symm.trans hu, fun _ => h.cached⟩

/- Nothing that the cache depends on changes. -/
structure Apart (s t : Dev) : Prop where
  bc : t.bc = s.bc
  flash : t.flash = s.flash
  watch : t.watch = s.watch
  spare : t.spareFree = s.spareFree

theorem Apart.cached
    {X : Nat → Nat → Prop}
    {s t : Dev}
    (h : Apart s t)
    (hs : s.Cached X) : t.Cached X := by
  constructor
  · rw [h.bc]
    exact hs.nodup
  · rw [h.bc]
    exact hs.sole
  · rw [h.bc]
    exact hs.count
  · rw [h.bc, h.flash, h.watch]
    exact hs.tag
  · rw [h.spare]
    exact hs.spare

theorem Apart.coheres
    {s t : Dev}
    (h : Apart s t) : Coheres s t := by
  constructor
  · rw [h.watch]
    exact id
  · exact fun _ => h.cached

section Support

variable {ok : Event → Prop} {α : Type} {m : M α}
  {W X : Nat → Nat → Prop}

theorem Touches.within_fills
    (h : Within ok (Touches noPage) m) :
    Within ok (Fills X) m :=
  h.mono fun _ _ hst => hst.fills fun _ _ => False.elim

theorem Fills.within_coheres
    (h : Within ok (Fills noPage) m) :
    Within ok Coheres m :=
  h.mono fun _ _ => Fills.coheres

end Support

------------------------------------------------------------
-- Reading the Medium
------------------------------------------------------------

section Reading

variable {ok : Event → Prop} {W : Nat → Nat → Prop}

/- A change of what the cache does not depend on. -/
omit [Platform] in
theorem touches_modify
    {f : Dev → Dev}
    (hTree : ∀ s, (f s).tree = s.tree)
    (hBc : ∀ s, (f s).bc = s.bc)
    (hSpare : ∀ s, (f s).spareFree = s.spareFree)
    (hWatch : ∀ s, (f s).watch = s.watch)
    (hFlash : ∀ s, (f s).flash = s.flash) :
    Within ok (Touches W) (Prog.modify f) := by
  apply Within.modify
  intro s
  refine ⟨hTree s, hBc s, hSpare s, ?_, ?_, ?_⟩
  · rw [hWatch]
  · intro b p _
    rw [hFlash]
  · intro b p _ hFail
    rw [hWatch] at hFail
    exact hFail

omit [Platform] in
theorem touches_setBuf (i : Nat) (f : Buf → Buf) :
    Within ok (Touches W) (setBuf i f) :=
  touches_modify (fun _ => rfl) (fun _ => rfl) (fun _ => rfl)
    (fun _ => rfl) (fun _ => rfl)

theorem touches_nextAnswer :
    Within ok (Touches W) nextAnswer := by
  unfold nextAnswer
  apply Within.bind Within.get
  intro s
  apply Within.bind
  · exact touches_modify (fun _ => rfl) (fun _ => rfl)
      (fun _ => rfl) (fun _ => rfl) (fun _ => rfl)
  · intro _
    exact Within.pure _

omit [Platform] in
theorem touches_bufClone :
    Within ok (Touches W) bufClone := by
  unfold bufClone
  apply Within.bind Within.get
  intro s
  cases s.buf.clone with
  | nil => exact Within.pure _
  | cons i rest =>
      apply Within.bind
      · exact touches_modify (fun _ => rfl) (fun _ => rfl)
          (fun _ => rfl) (fun _ => rfl) (fun _ => rfl)
      · intro _
        apply Within.bind (touches_setBuf i _)
        intro _
        exact Within.pure _

omit [Platform] in
theorem touches_bufFreeClone (i : Nat) :
    Within ok (Touches W) (bufFreeClone i) := by
  unfold bufFreeClone getBuf
  apply Within.bind (Within.gets _)
  intro b
  apply Within.ite (Within.pure _)
  apply Within.bind (touches_setBuf i _)
  intro _
  apply Within.bind
  · exact touches_modify (fun _ => rfl) (fun _ => rfl)
      (fun _ => rfl) (fun _ => rfl) (fun _ => rfl)
  · intro _
    exact Within.pure _

/- What reading a tag gives. -/
structure ReadsTag
    (b p : Nat)
    (q : FlashRet × Tag)
    (s t : Dev) : Prop where
  touches : Touches noPage s t
  tag : q.1.haveErr = false →
    q.2 = (s.flash.page b p).tag
  failed : 0 < s.spareFree → q.1.haveErr = true →
    t.watch.tagFailed b p = true

theorem wlp_flashReadPageTag_cached
    (b p : Nat)
    (tag : Tag)
    (s : Dev) :
    wlp ok (flashReadPageTag b p tag)
      (fun q t => ReadsTag b p q s t) s := by
  unfold flashReadPageTag spareGet sparePut nextAnswer
  rw [wlp_bind, wlp_bind, wlp_get]
  split
  · rename_i hNone
    rw [wlp_pure, if_pos (by simp), wlp_pure]
    refine ⟨refl_of (Touches noPage) s, ?_, ?_⟩
    · intro hErr
      cases hErr
    · intro hSpare
      omega
  · rename_i hSome
    have hBack : s.spareFree - 1 + 1 = s.spareFree := by omega
    rw [wlp_bind, wlp_modify, wlp_pure, if_neg (by simp)]
    rw [wlp_bind, wlp_bind, wlp_get, wlp_bind, wlp_modify,
      wlp_pure, wlp_bind, wlp_get, wlp_bind, wlp_modify]
    dsimp only
    generalize (if (s.flash.page b p).tag.sealed then
      (Platform.answer s.clock).ret
      else (Platform.answer s.clock).ret.raw) = ret
    split
    · rename_i hErr
      unfold watchTag
      rw [wlp_bind, wlp_modify, wlp_pure]
      refine ⟨⟨rfl, rfl, hBack, rfl, fun _ _ _ => rfl, ?_⟩, ?_,
        ?_⟩
      · intro b' p' _ hFail
        dsimp only at hFail
        by_cases hb : b' = b
        · subst hb
          rw [upd_same] at hFail
          by_cases hp : p' = p
          · subst hp
            rw [upd_same] at hFail
            cases hFail
          · rw [upd_other _ _ hp] at hFail
            exact hFail
        · rw [upd_other _ _ hb] at hFail
          exact hFail
      · intro hOk
        rw [hErr] at hOk
        cases hOk
      · intro _ _
        simp
    · rename_i hErr
      rw [wlp_pure]
      refine ⟨⟨rfl, rfl, hBack, rfl, fun _ _ _ => rfl,
        fun _ _ _ h => h⟩, fun _ => rfl, ?_⟩
      intro _ hBad
      exact absurd hBad hErr

theorem touches_flashReadPageTag
    (b p : Nat)
    (tag : Tag) :
    Within ok (Touches noPage) (flashReadPageTag b p tag) := by
  intro s
  refine wlp_mono (wlp_flashReadPageTag_cached b p tag s) ?_
  intro q t hq
  exact hq.touches

theorem touches_flashReadPage
    (b p i : Nat)
    (skipEcc : Bool) :
    Within ok (Touches W) (flashReadPage b p i skipEcc) := by
  intro s
  unfold flashReadPage spareGet sparePut nextAnswer setBuf
  rw [wlp_bind, wlp_bind, wlp_get]
  split
  · rw [wlp_pure, if_pos (by simp), wlp_pure]
    exact refl_of (Touches W) s
  · rename_i hSome
    have hBack : s.spareFree - 1 + 1 = s.spareFree := by omega
    rw [wlp_bind, wlp_modify, wlp_pure, if_neg (by simp)]
    rw [wlp_bind, wlp_bind, wlp_get, wlp_bind, wlp_modify,
      wlp_pure, wlp_bind, wlp_get]
    dsimp only
    rw [wlp_bind, wlp_modify, wlp_bind, wlp_modify, wlp_pure]
    exact ⟨rfl, rfl, hBack, rfl, fun _ _ _ => rfl,
      fun _ _ _ h => h⟩

theorem touches_verifyPageData
    (b p : Nat)
    (data : List Byte) :
    Within ok (Touches W) (verifyPageData b p data) := by
  unfold verifyPageData getBuf
  apply Within.bind touches_bufClone
  intro o
  cases o with
  | none => exact Within.pure _
  | some v =>
      apply Within.bind (touches_flashReadPage b p v false)
      intro ret
      apply Within.bind (Within.gets _)
      intro x
      apply Within.bind (touches_bufFreeClone v)
      intro _
      exact Within.pure _

theorem touches_noteUnchecked (b : Nat) :
    Within ok (Touches W) (noteUnchecked b) := by
  unfold noteUnchecked
  apply Within.bind Within.get
  intro s
  exact Within.ite (Within.emit _) (Within.pure _)

theorem touches_flashCheckErasedFrom
    (b i n : Nat) :
    ∀ page, Within ok (Touches W)
      (flashCheckErasedFrom b i n page) := by
  induction n with
  | zero =>
      intro page
      exact Within.pure _
  | succ n ih =>
      intro page
      unfold flashCheckErasedFrom
      apply Within.bind touches_nextAnswer
      intro a
      apply Within.bind Within.get
      intro s
      apply Within.bind (touches_setBuf i _)
      intro _
      apply Within.ite (Within.pure _)
      apply Within.ite
      · apply Within.bind (Within.emit _)
        intro _
        exact ih _
      · exact ih _

theorem touches_flashCheckErasedBlock (b : Nat) :
    Within ok (Touches W) (flashCheckErasedBlock b) := by
  intro s
  unfold flashCheckErasedBlock spareGet
  rw [wlp_bind, wlp_bind, wlp_get]
  split
  · rw [wlp_pure, if_pos (by simp), wlp_bind]
    refine wlp_mono (touches_noteUnchecked (W := W) b s) ?_
    intro _ t ht
    rw [wlp_pure]
    exact ht
  · rename_i hSome
    rw [wlp_bind, wlp_modify, wlp_pure, if_neg (by simp)]
    have hBack : ∀ t,
        Touches W { s with spareFree := s.spareFree - 1 } t →
          Touches W s { t with spareFree := t.spareFree + 1 } := by
      intro t ht
      have hSpare := ht.spare
      refine ⟨ht.tree, ht.bc, ?_, ht.handed, ht.tag, ht.failed⟩
      dsimp only at hSpare ⊢
      omega
    rw [wlp_bind]
    refine wlp_mono (touches_bufClone (W := W) _) ?_
    intro o t ht
    unfold sparePut
    cases o with
    | none =>
        dsimp only
        rw [wlp_bind, wlp_modify, wlp_bind]
        refine wlp_mono (touches_noteUnchecked (W := W) b _) ?_
        intro _ u hu
        rw [wlp_pure]
        exact trans_of (Touches W) (hBack t ht) hu
    | some i =>
        dsimp only
        rw [wlp_bind]
        refine wlp_mono
          (touches_flashCheckErasedFrom (W := W) b i _ _ t) ?_
        intro ret u hu
        rw [wlp_bind, wlp_modify, wlp_bind]
        refine wlp_mono (touches_bufFreeClone (W := W) i _) ?_
        intro _ v hv
        rw [wlp_pure]
        exact trans_of (Touches W)
          (hBack u (trans_of (Touches W) ht hu)) hv

end Reading

------------------------------------------------------------
-- Changing the Medium
------------------------------------------------------------

section Writing

variable {ok : Event → Prop}

omit [Platform] in
theorem Event.apply_program_other
    (F : Flash)
    (b p : Nat)
    (ret : FlashRet)
    (c : Option Page)
    {b' p' : Nat}
    (h : ¬ onePage b p b' p') :
    ((Event.program b p ret c).apply F).page b' p' =
      F.page b' p' := by
  cases c with
  | none => rfl
  | some c =>
      unfold Event.apply
      dsimp only
      by_cases hb : b' = b
      · subst hb
        have hp : p' ≠ p := fun hp => h ⟨rfl, hp⟩
        rw [upd_same, upd_other _ _ hp]
      · rw [upd_other _ _ hb]

omit [Platform] in
theorem Event.apply_erase_other
    (F : Flash)
    (b : Nat)
    (ret : FlashRet)
    (c : Option (Nat → Page))
    {b' : Nat}
    (h : b' ≠ b) :
    ((Event.erase b ret c).apply F).page b' = F.page b' := by
  cases c with
  | none => rfl
  | some c => exact upd_other _ _ h

/- A page write that reports no error has left its tag. -/
theorem wlp_driverWritePage_cached
    (b p : Nat)
    (content : Page)
    (s : Dev) :
    wlp ok (driverWritePage b p content)
      (fun r t =>
        Touches (onePage b p) s t ∧
          (r.haveErr = false →
            (t.flash.page b p).tag = content.tag)) s := by
  unfold driverWritePage nextAnswer medium
  rw [wlp_bind, wlp_bind, wlp_get, wlp_bind, wlp_modify,
    wlp_pure]
  dsimp only
  have hTag : ∀ b' p', ¬ onePage b p b' p' → ∀ ret c,
      (((Event.program b p ret c).apply s.flash).page b'
        p').tag = (s.flash.page b' p').tag := by
    intro b' p' hOther ret c
    rw [Event.apply_program_other s.flash b p ret c hOther]
  generalize hLeft :
    (if !(Platform.answer s.clock).ret.haveErr then
      some content
    else if (Platform.answer s.clock).done then
      some ((Platform.answer s.clock).junk p)
    else none) = left
  rw [wlp_bind, wlp_bind, wlp_modify, wlp_emit]
  intro _
  have hStored : (Platform.answer s.clock).ret.haveErr = false →
      (((Event.program b p (Platform.answer s.clock).ret
        left).apply s.flash).page b p).tag = content.tag := by
    intro hErr
    rw [hErr] at hLeft
    subst hLeft
    simp [Event.apply]
  split
  · unfold watchTag
    rw [wlp_bind, wlp_modify, wlp_pure]
    refine ⟨⟨rfl, rfl, rfl, rfl, ?_, ?_⟩, hStored⟩
    · intro b' p' hOther
      exact hTag b' p' hOther _ _
    · intro b' p' hOther hFail
      dsimp only at hFail
      by_cases hb : b' = b
      · subst hb
        have hp : p' ≠ p := fun hp => hOther ⟨rfl, hp⟩
        rw [upd_same, upd_other _ _ hp] at hFail
        exact hFail
      · rw [upd_other _ _ hb] at hFail
        exact hFail
  · rw [wlp_pure]
    refine ⟨⟨rfl, rfl, rfl, rfl, ?_, fun _ _ _ h => h⟩,
      hStored⟩
    intro b' p' hOther
    exact hTag b' p' hOther _ _

theorem wlp_flashWritePageCombine_cached
    (b p i : Nat)
    (tag : Tag)
    (s : Dev) :
    wlp ok (flashWritePageCombine b p i tag)
      (fun r t =>
        Touches (onePage b p) s t ∧
          (r = .noErr → (t.flash.page b p).tag = tag)) s := by
  unfold flashWritePageCombine spareGet sparePut getBuf
  rw [wlp_bind, wlp_bind, wlp_get]
  split
  · rw [wlp_pure, if_pos (by simp), wlp_pure]
    refine ⟨refl_of (Touches (onePage b p)) s, ?_⟩
    intro hRet
    cases hRet
  · rename_i hSome
    rw [wlp_bind, wlp_modify, wlp_pure, if_neg (by simp),
      wlp_bind, wlp_gets, wlp_bind]
    have hBack : ∀ t, Touches (onePage b p)
        { s with spareFree := s.spareFree - 1 } t →
          Touches (onePage b p) s
            { t with spareFree := t.spareFree + 1 } := by
      intro t ht
      have hSpare := ht.spare
      refine ⟨ht.tree, ht.bc, ?_, ht.handed, ht.tag, ht.failed⟩
      dsimp only at hSpare ⊢
      omega
    refine wlp_mono (wlp_driverWritePage_cached b p _ _) ?_
    intro ret t ht
    split
    · rename_i hErr
      rw [wlp_bind, wlp_modify, wlp_pure]
      refine ⟨hBack t ht.1, ?_⟩
      intro hRet
      split at hRet
      · cases hRet
      · rw [hRet] at hErr
        cases hErr
    · rename_i hErr
      have hStored := ht.2 (by simpa using hErr)
      rw [wlp_bind]
      refine wlp_mono (touches_verifyPageData (W := noPage) b p
        _ t) ?_
      intro bad u hu
      rw [wlp_bind]
      refine wlp_mono (touches_flashReadPageTag b p tag u) ?_
      intro q v hv
      have hRead := trans_of (Touches noPage) hu hv
      have hAll : Touches (onePage b p)
          { s with spareFree := s.spareFree - 1 } v :=
        trans_of (Touches (onePage b p)) ht.1
          (hRead.mono fun _ _ => False.elim)
      have hTag : (v.flash.page b p).tag = tag :=
        (hRead.tag b p id).trans hStored
      have hEnd : ∀ r, wlp ok (pure r)
          (fun r t =>
            Touches (onePage b p) s t ∧
              (r = FlashRet.noErr →
                (t.flash.page b p).tag = tag))
          { v with spareFree := v.spareFree + 1 } := by
        intro r
        rw [wlp_pure]
        exact ⟨hBack v hAll, fun _ => hTag⟩
      rw [wlp_bind, wlp_modify]
      generalize (if !q.1.haveErr &&
          { q.2 with sealed := true } ≠ { tag with sealed := true }
        then FlashRet.badBlk else q.1) = ret'
      split
      · exact hEnd _
      · exact hEnd _

theorem touches_driverEraseBlock (b : Nat) :
    Within ok (Touches (pagesOf b)) (driverEraseBlock b) := by
  intro s
  unfold driverEraseBlock nextAnswer medium
  rw [wlp_bind, wlp_bind, wlp_get, wlp_bind, wlp_modify,
    wlp_pure]
  dsimp only
  generalize
    (if !(Platform.answer s.clock).ret.haveErr then
      some fun _ => Page.erased pgDataSize
    else if (Platform.answer s.clock).done then
      some (Platform.answer s.clock).junk
    else none) = left
  rw [wlp_bind, wlp_bind, wlp_modify, wlp_emit]
  intro _
  rw [wlp_bind, wlp_modify, wlp_pure]
  refine ⟨rfl, rfl, rfl, rfl, ?_, ?_⟩
  · intro b' p' hOther
    dsimp only
    rw [Event.apply_erase_other s.flash b _ _ hOther]
  · intro b' p' hOther hFail
    dsimp only at hFail
    cases left with
    | none => exact hFail
    | some c =>
        rw [Option.isSome_some, if_pos rfl,
          upd_other _ _ hOther] at hFail
        exact hFail

end Writing

------------------------------------------------------------
-- Block Infos
------------------------------------------------------------

section Infos

variable {ok : Event → Prop} {X : Nat → Nat → Prop}

/- A value of a table changes at one place. -/
omit [Platform] in
theorem countP_range_upd
    {α : Type}
    (f : Nat → α)
    (test : α → Bool)
    {n p : Nat}
    (v : α)
    (hp : p < n) :
    ((List.range n).countP fun q => test (upd f p v q)) +
        (if test (f p) then 1 else 0) =
      ((List.range n).countP fun q => test (f q)) +
        (if test v then 1 else 0) := by
  induction n with
  | zero => omega
  | succ n ih =>
      rw [List.range_succ, List.countP_append,
        List.countP_append]
      by_cases hEq : p = n
      · subst hEq
        have hSame :
            ((List.range p).countP fun q =>
              test (upd f p v q)) =
              (List.range p).countP fun q => test (f q) := by
          apply List.countP_congr
          intro q hq
          rw [upd_other _ _ (Nat.ne_of_lt (List.mem_range.mp hq))]
        rw [hSame]
        simp only [List.countP_singleton, upd_same]
        omega
      · have hNext := ih (by omega)
        simp only [List.countP_singleton,
          upd_other _ _ (fun h : n = p => hEq h.symm)]
        omega

theorem BlockInfo.expiredPages_of_all
    {w : BlockInfo}
    (h : ∀ p, (w.spares p).expired = true) :
    w.expiredPages = pagesPerBlock := by
  unfold BlockInfo.expiredPages
  rw [List.countP_eq_length.mpr]
  · exact List.length_range
  · intro p _
    exact h p

theorem BlockInfo.expired_add_fresh (w : BlockInfo) :
    w.expiredPages + w.freshCount = pagesPerBlock := by
  unfold BlockInfo.expiredPages BlockInfo.freshCount
  have hSum := List.length_eq_countP_add_countP
    (fun p => (w.spares p).expired) (l := List.range pagesPerBlock)
  rw [List.length_range] at hSum
  have hFresh : ((List.range pagesPerBlock).countP fun p =>
      !(w.spares p).expired) =
      (List.range pagesPerBlock).countP fun p =>
        decide ¬(w.spares p).expired = true := by
    apply List.countP_congr
    intro p _
    simp
  rw [hFresh]
  exact hSum.symm

/- The tag of an expired page is kept as read. -/
theorem BlockInfo.refresh_expiredPages
    {w : BlockInfo}
    {p : Nat}
    (tag : Tag)
    (hp : p < pagesPerBlock)
    (hExpired : (w.spares p).expired = true) :
    (w.refresh p tag).expiredPages = w.expiredPages - 1 := by
  have hUpd := countP_range_upd w.spares PageSpare.expired
    { tag := tag, expired := false } hp
  rw [if_pos hExpired, if_neg (by simp)] at hUpd
  unfold BlockInfo.expiredPages BlockInfo.refresh
  dsimp only
  omega

/- One entry changes and stays with its block. -/
theorem Fills.setInfo
    {s : Dev}
    {i : Nat}
    {w : BlockInfo}
    (hBlock : w.block = (s.bc.info i).block)
    (hCount : (s.bc.info i).expiredCount =
        (s.bc.info i).expiredPages →
      w.expiredCount = w.expiredPages)
    (hTag : 0 < s.spareFree → ∀ p < pagesPerBlock,
      (w.spares p).expired = false →
        ((s.bc.info i).spares p = w.spares p) ∨
          X w.block p ∨
          s.watch.tagFailed w.block p = true ∨
          (w.spares p).tag = (s.flash.page w.block p).tag) :
    Fills X s
      { s with bc := { s.bc with info := upd s.bc.info i w } }
    where
  tree := rfl
  list := rfl
  block := fun j => by
    by_cases hj : j = i
    · subst hj
      dsimp only
      rw [upd_same]
      exact hBlock
    · dsimp only
      rw [upd_other _ _ hj]
  handed := rfl
  cached := fun hs => by
    apply hs.setInfo hBlock
    · intro hi
      exact hCount (hs.count i hi)
    · intro hi hb p hp hFresh hX hFail
      rcases hTag hs.spare p hp hFresh with hOld | hIn | hBad | hTag
      · rw [hBlock] at hb hX hFail ⊢
        rw [← hOld] at hFresh ⊢
        exact hs.tag i hi hb p hp hFresh hX hFail
      · exact absurd hIn hX
      · rw [hFail] at hBad
        cases hBad
      · exact hTag

theorem fills_setRef (i : Nat) (f : Nat → Nat) :
    Within ok (Fills X)
      (setInfo i fun w => { w with refCount := f w.refCount })
    := by
  apply Within.modify
  intro s
  apply Fills.setInfo
  · rfl
  · exact id
  · intro _ p _ _
    exact Or.inl rfl

theorem fills_blockInfoPut (i : Nat) :
    Within ok (Fills X) (blockInfoPut i) :=
  fills_setRef i fun c => c - 1

theorem fills_blockInfoExpireAll (i : Nat) :
    Within ok (Fills X) (blockInfoExpireAll i) := by
  apply Within.modify
  intro s
  apply Fills.setInfo
  · rfl
  · intro hCount
    dsimp only
    rw [hCount, BlockInfo.expired_add_fresh,
      BlockInfo.expiredPages_of_all]
    intro p
    rfl
  · intro _ p _ hFresh
    cases hFresh

theorem fills_blockInfoExpire (i page : Nat) :
    Within ok (Fills X) (blockInfoExpire i page) := by
  apply Within.modify
  intro s
  dsimp only
  split
  · rename_i hFresh
    apply Fills.setInfo
    · rfl
    · intro hCount
      have hUpd := countP_range_upd (s.bc.info i).spares
        PageSpare.expired
        { (s.bc.info i).spares page with expired := true }
        hFresh.1
      rw [if_neg (by simpa using hFresh.2), if_pos rfl] at hUpd
      dsimp only
      rw [hCount]
      exact hUpd.symm
    · intro _ p _ hp
      by_cases hEq : p = page
      · subst hEq
        dsimp only at hp
        rw [upd_same] at hp
        cases hp
      · dsimp only
        rw [upd_other _ _ hEq]
        exact Or.inl rfl
  · apply Fills.setInfo
    · rfl
    · exact id
    · intro _ p _ _
      exact Or.inl rfl

/- The tag of a page that is left out is set. -/
theorem wlp_setTag_cached
    {s : Dev}
    {i p : Nat}
    (tag : Tag)
    (hX : X (s.bc.info i).block p) :
    wlp ok (setTag i p tag)
      (fun _ t => Fills X s t ∧
        ((t.bc.info i).spares p).tag = tag) s := by
  unfold setTag Uffs.setInfo
  rw [wlp_modify]
  constructor
  · apply Fills.setInfo
    · rfl
    · intro hCount
      dsimp only
      rw [hCount]
      unfold BlockInfo.expiredPages
      apply List.countP_congr
      intro q _
      by_cases hq : q = p
      · subst hq
        simp
      · simp [upd_other _ _ hq]
    · intro _ q _ _
      by_cases hq : q = p
      · subst hq
        exact Or.inr (Or.inl hX)
      · dsimp only
        rw [upd_other _ _ hq]
        exact Or.inl rfl
  · simp

/- The tag of an expired page may be set to anything. -/
theorem Fills.setExpired
    {s : Dev}
    {i p : Nat}
    (tag : Tag)
    (hExpired : ((s.bc.info i).spares p).expired = true) :
    Fills X s
      { s with bc := { s.bc with
          info := upd s.bc.info i
            { s.bc.info i with
              spares := upd (s.bc.info i).spares p
                { (s.bc.info i).spares p with
                  tag := tag } } } } := by
  apply Fills.setInfo
  · rfl
  · intro hCount
    dsimp only
    rw [hCount]
    unfold BlockInfo.expiredPages
    apply List.countP_congr
    intro q _
    by_cases hq : q = p
    · subst hq
      simp
    · simp [upd_other _ _ hq]
  · intro _ q _ hFresh
    by_cases hq : q = p
    · subst hq
      dsimp only at hFresh
      rw [upd_same, hExpired] at hFresh
      cases hFresh
    · dsimp only
      rw [upd_other _ _ hq]
      exact Or.inl rfl

/- The tag of a page is kept as it was read, or as failed. -/
theorem Fills.refresh
    {s : Dev}
    {i p : Nat}
    (tag : Tag)
    (hp : p < pagesPerBlock)
    (hExpired : ((s.bc.info i).spares p).expired = true)
    (hTag : 0 < s.spareFree →
      s.watch.tagFailed (s.bc.info i).block p = true ∨
        tag = (s.flash.page (s.bc.info i).block p).tag) :
    Fills X s
      { s with bc := { s.bc with
          info := upd s.bc.info i
            ((s.bc.info i).refresh p tag) } } := by
  apply Fills.setInfo
  · rfl
  · intro hCount
    rw [BlockInfo.refresh_expiredPages tag hp hExpired,
      ← hCount]
    rfl
  · intro hSpare q _ _
    unfold BlockInfo.refresh
    dsimp only
    by_cases hq : q = p
    · subst hq
      rw [upd_same]
      exact Or.inr (Or.inr (hTag hSpare))
    · rw [upd_other _ _ hq]
      exact Or.inl rfl

omit [Platform] in
theorem touches_badBlockAddByFlashResult
    (b : Nat)
    (ret : FlashRet) :
    Within ok (Touches X) (badBlockAddByFlashResult b ret) := by
  unfold badBlockAddByFlashResult badBlockAdd
  cases pendingType ret with
  | none => exact Within.pure _
  | some mark =>
      apply Within.bind
      · exact touches_modify (fun _ => rfl) (fun _ => rfl)
          (fun _ => rfl) (fun _ => rfl) (fun _ => rfl)
      · intro _
        exact Within.pure _

/- What is read of a tag is reported. -/
omit [Platform] in
theorem ReadsTag.report
    {s t : Dev}
    {b p : Nat}
    {q : FlashRet × Tag}
    (h : ReadsTag b p q s t) :
    wlp ok (badBlockAddByFlashResult b q.1)
      (fun _ u => ReadsTag b p q s u) t := by
  have hAdd : wlp ok (badBlockAddByFlashResult b q.1)
      (fun _ u => Touches noPage t u ∧
        u.watch = t.watch) t := by
    unfold badBlockAddByFlashResult badBlockAdd
    cases pendingType q.1 with
    | none =>
        rw [wlp_pure]
        exact ⟨refl_of (Touches noPage) t, rfl⟩
    | some mark =>
        rw [wlp_bind, wlp_modify, wlp_pure]
        exact ⟨⟨rfl, rfl, rfl, rfl, fun _ _ _ => rfl,
          fun _ _ _ h => h⟩, rfl⟩
  refine wlp_mono hAdd ?_
  intro _ u hu
  refine ⟨trans_of (Touches noPage) h.touches hu.1, h.tag, ?_⟩
  intro hSpare hErr
  rw [hu.2]
  exact h.failed hSpare hErr

/- The tag is kept as it was read, or as failed. -/
theorem ReadsTag.refresh
    {s t : Dev}
    {i p : Nat}
    {q : FlashRet × Tag}
    {tag : Tag}
    (h : ReadsTag (s.bc.info i).block p q s t)
    (hp : p < pagesPerBlock)
    (hExpired : ((s.bc.info i).spares p).expired = true)
    (hTag : q.1.haveErr = false → tag = q.2) :
    wlp ok (setInfo i fun w => w.refresh p tag)
      (fun _ u => Fills X s u) t := by
  have hBc := h.touches.bc
  have hFills : Fills X s t :=
    h.touches.fills fun _ _ => False.elim
  unfold Uffs.setInfo
  rw [wlp_modify]
  apply trans_of (Fills X) hFills
  apply Fills.refresh tag hp
  · rw [hBc]
    exact hExpired
  · intro hSpare
    rw [hBc]
    cases hErr : q.1.haveErr with
    | true =>
        rw [h.touches.spare] at hSpare
        exact Or.inl (h.failed hSpare hErr)
    | false =>
        rw [hTag hErr, h.tag hErr, h.touches.tag _ _ id]
        exact Or.inr rfl

theorem fills_blockInfoLoad (i page : Nat) :
    Within ok (Fills X) (blockInfoLoad i page) := by
  intro s
  unfold blockInfoLoad getInfo
  split
  · rw [wlp_pure]
    exact refl_of (Fills X) s
  · rename_i hPage
    rw [wlp_bind, wlp_gets]
    split
    · rw [wlp_pure]
      exact refl_of (Fills X) s
    · rename_i hFresh
      have hExpired : ((s.bc.info i).spares page).expired =
          true := by
        simpa using hFresh
      rw [wlp_bind]
      refine wlp_mono (wlp_flashReadPageTag_cached _ page _ s) ?_
      intro q t hq
      dsimp only
      rw [wlp_bind]
      refine wlp_mono hq.report ?_
      intro _ u hu
      split
      · unfold setTag Uffs.setInfo
        rw [wlp_bind, wlp_modify, wlp_pure]
        have hFills : Fills X s u :=
          hu.touches.fills fun _ _ => False.elim
        apply trans_of (Fills X) hFills
        apply Fills.setExpired
        rw [hu.touches.bc]
        exact hExpired
      · rw [wlp_bind]
        refine wlp_mono (hu.refresh (X := X) (by omega) hExpired
          (fun _ => rfl)) ?_
        intro _ v hv
        rw [wlp_pure]
        exact hv

theorem fills_blockInfoLoadFrom
    (i n : Nat) :
    ∀ page nfailed, page + n ≤ pagesPerBlock →
      Within ok (Fills X)
        (blockInfoLoadFrom i n page nfailed) := by
  induction n with
  | zero =>
      intro page nfailed _
      exact Within.pure _
  | succ n ih =>
      intro page nfailed hLe s
      unfold blockInfoLoadFrom getInfo
      rw [wlp_bind, wlp_gets]
      split
      · exact ih _ _ (by omega) s
      · rename_i hFresh
        have hExpired : ((s.bc.info i).spares page).expired =
            true := by
          simpa using hFresh
        have hNext : ∀ k t, Fills X s t →
            wlp ok (blockInfoLoadFrom i n (page + 1) k)
              (fun _ u => Fills X s u) t := by
          intro k t ht
          refine wlp_mono (ih (page + 1) k (by omega) t) ?_
          intro _ u hu
          exact trans_of (Fills X) ht hu
        rw [wlp_bind]
        refine wlp_mono
          (wlp_flashReadPageTag_cached _ page _ s) ?_
        intro q t hq
        dsimp only
        rw [wlp_bind]
        refine wlp_mono hq.report ?_
        intro _ u hu
        split
        · rename_i hErr
          rw [wlp_bind]
          refine wlp_mono (hu.refresh (X := X) (by omega)
            hExpired ?_) ?_
          · intro hOk
            rw [hErr] at hOk
            cases hOk
          · intro _ v hv
            exact hNext _ v hv
        · rw [wlp_bind]
          refine wlp_mono (hu.refresh (X := X) (by omega)
            hExpired (fun _ => rfl)) ?_
          intro _ v hv
          exact hNext _ v hv

theorem fills_blockInfoLoadAll (i : Nat) :
    Within ok (Fills X) (blockInfoLoadAll i) := by
  unfold blockInfoLoadAll
  apply Within.bind (fills_blockInfoLoadFrom i _ 0 0 (by omega))
  intro nfailed
  exact Within.pure _

/- The entry of a block, when the block is cached. -/
theorem wlp_blockInfoFindInCache_cached
    (b : Nat)
    (s : Dev) :
    wlp ok (blockInfoFindInCache b)
      (fun o t => Fills X s t ∧
        match o with
        | none => ∀ i ∈ s.bc.list, (s.bc.info i).block ≠ b
        | some i => i ∈ s.bc.list ∧ (s.bc.info i).block = b)
      s := by
  unfold blockInfoFindInCache
  rw [wlp_bind, wlp_get]
  cases hFind : s.bc.list.find?
      (fun i => (s.bc.info i).block == b) with
  | none =>
      rw [wlp_pure]
      refine ⟨refl_of (Fills X) s, ?_⟩
      intro i hi
      simpa using List.find?_eq_none.mp hFind i hi
  | some i =>
      rw [wlp_bind]
      refine wlp_mono (fills_setRef (X := X) i _ s) ?_
      intro _ t ht
      rw [wlp_pure]
      refine ⟨ht, List.mem_of_find?_eq_some hFind, ?_⟩
      simpa using List.find?_some hFind

/- A block info is taken from the cache. -/
structure TakesInfo
    (b : Nat)
    (o : Option Nat)
    (s t : Dev) : Prop where
  tree : t.tree = s.tree
  flash : t.flash = s.flash
  watch : t.watch = s.watch
  cached : ∀ X, s.Cached X → t.Cached X
  entry : ∀ i, o = some i →
    i ∈ t.bc.list ∧ (t.bc.info i).block = b

theorem TakesInfo.coheres
    {s t : Dev}
    {b : Nat}
    {o : Option Nat}
    (h : TakesInfo b o s t) : Coheres s t :=
  ⟨fun hu => by rw [← h.watch]; exact hu,
    fun _ => h.cached noPage⟩

/- The order of the entries does not matter. -/
theorem Dev.Cached.setList
    {s : Dev}
    {l : List Nat}
    (h : s.Cached X)
    (hPerm : l.Perm s.bc.list) :
    Dev.Cached X { s with bc := { s.bc with list := l } } where
  nodup := hPerm.nodup_iff.mpr h.nodup
  sole := fun i hi j hj =>
    h.sole i (hPerm.mem_iff.mp hi) j (hPerm.mem_iff.mp hj)
  count := fun i hi => h.count i (hPerm.mem_iff.mp hi)
  tag := fun i hi => h.tag i (hPerm.mem_iff.mp hi)
  spare := h.spare

omit [Platform] in
theorem erase_append_perm
    {l : List Nat}
    {i : Nat}
    (hi : i ∈ l) : (l.erase i ++ [i]).Perm l := by
  refine List.perm_append_comm.trans ?_
  exact (List.perm_cons_erase hi).symm

/- An entry is used for a block that has none. -/
theorem Dev.Cached.recycle
    {s : Dev}
    {i b : Nat}
    {w : BlockInfo}
    (h : s.Cached X)
    (hNone : ∀ j ∈ s.bc.list, (s.bc.info j).block ≠ b)
    (hBlock : w.block = b)
    (hCount : w.expiredCount = pagesPerBlock)
    (hExpired : ∀ p, (w.spares p).expired = true) :
    Dev.Cached X
      { s with bc := { s.bc with info := upd s.bc.info i w } }
    := by
  constructor
  · exact h.nodup
  · intro j hj k hk hEq hb
    by_cases hji : j = i
    · subst hji
      by_cases hkj : k = j
      · exact hkj.symm
      · dsimp only at hEq
        rw [upd_same, upd_other _ _ hkj, hBlock] at hEq
        exact absurd hEq.symm (hNone k hk)
    · by_cases hki : k = i
      · subst hki
        dsimp only at hEq
        rw [upd_same, upd_other _ _ hji, hBlock] at hEq
        exact absurd hEq (hNone j hj)
      · dsimp only at hEq hb
        rw [upd_other _ _ hji, upd_other _ _ hki] at hEq
        rw [upd_other _ _ hji] at hb
        exact h.sole j hj k hk hEq hb
  · intro j hj
    by_cases hji : j = i
    · subst hji
      dsimp only
      rw [upd_same, hCount,
        BlockInfo.expiredPages_of_all hExpired]
    · dsimp only
      rw [upd_other _ _ hji]
      exact h.count j hj
  · intro j hj
    by_cases hji : j = i
    · subst hji
      dsimp only
      rw [upd_same]
      intro _ p _ hFresh
      rw [hExpired p] at hFresh
      cases hFresh
    · dsimp only
      rw [upd_other _ _ hji]
      exact h.tag j hj
  · exact h.spare

theorem wlp_blockInfoGet_cached
    (b : Nat)
    (s : Dev) :
    wlp ok (blockInfoGet b)
      (fun o t => TakesInfo b o s t) s := by
  unfold blockInfoGet blockInfoFindInCache moveBcToTail
    Uffs.setInfo
  rw [wlp_bind, wlp_bind, wlp_get]
  cases hFind : s.bc.list.find?
      (fun i => (s.bc.info i).block == b) with
  | some i =>
      have hMem := List.mem_of_find?_eq_some hFind
      have hBlock : (s.bc.info i).block = b := by
        simpa using List.find?_some hFind
      dsimp only
      rw [wlp_bind, wlp_modify, wlp_pure, wlp_bind, wlp_modify,
        wlp_pure]
      refine ⟨rfl, rfl, rfl, ?_, ?_⟩
      · intro X hs
        have hRef := hs.setInfo (i := i)
          (w := { s.bc.info i with
            refCount := (s.bc.info i).refCount + 1 })
          rfl (hs.count i) (hs.tag i)
        exact hRef.setList (erase_append_perm hMem)
      · intro j hj
        cases hj
        refine ⟨?_, ?_⟩
        · exact (erase_append_perm hMem).mem_iff.mpr hMem
        · dsimp only
          rw [upd_same]
          exact hBlock
  | none =>
      have hNone : ∀ j ∈ s.bc.list, (s.bc.info j).block ≠ b := by
        intro j hj
        simpa using List.find?_eq_none.mp hFind j hj
      dsimp only
      rw [wlp_pure, wlp_bind, wlp_get]
      cases hFree : s.bc.list.find?
          (fun i => (s.bc.info i).refCount == 0) with
      | none =>
          rw [wlp_pure]
          refine ⟨rfl, rfl, rfl, fun _ => id, ?_⟩
          intro j hj
          cases hj
      | some i =>
          have hMem := List.mem_of_find?_eq_some hFree
          dsimp only
          rw [wlp_bind, wlp_modify, wlp_bind, wlp_modify,
            wlp_pure]
          refine ⟨rfl, rfl, rfl, ?_, ?_⟩
          · intro X hs
            have hNew := hs.recycle (i := i)
              (w :=
                { block := b
                  spares := fun p =>
                    { (s.bc.info i).spares p with
                      expired := true }
                  expiredCount := pagesPerBlock
                  refCount := 1 })
              hNone rfl rfl (fun _ => rfl)
            exact hNew.setList (erase_append_perm hMem)
          · intro j hj
            cases hj
            refine ⟨?_, ?_⟩
            · exact (erase_append_perm hMem).mem_iff.mpr hMem
            · dsimp only
              rw [upd_same]

/- What the cache holds of an erased block is erased. -/
theorem Fills.initErased
    {s : Dev}
    {i : Nat}
    (hErased : ∀ p < pagesPerBlock,
      (s.flash.page (s.bc.info i).block p).tag = Tag.erased) :
    wlp ok (blockInfoInitErased i)
      (fun _ t => Fills X s t) s := by
  unfold blockInfoInitErased Uffs.setInfo
  rw [wlp_modify]
  apply Fills.setInfo
  · rfl
  · intro _
    unfold BlockInfo.expiredPages
    dsimp only
    rw [List.countP_eq_zero.mpr]
    intro p _
    simp
  · intro _ p hp _
    exact Or.inr (Or.inr (Or.inr (hErased p hp).symm))

/- The entry of a block expires. -/
theorem wlp_expireCached_cached
    (b : Nat)
    (s : Dev) :
    wlp ok (expireCached b)
      (fun _ t => Fills X s t ∧
        (s.Cached X → ∀ i ∈ t.bc.list, (t.bc.info i).block = b →
          b ≠ invalidBlock →
            ∀ p, ((t.bc.info i).spares p).expired = true)) s :=
  by
  unfold expireCached
  rw [wlp_bind]
  refine wlp_mono (wlp_blockInfoFindInCache_cached (X := X) b s)
    ?_
  intro o t ht
  cases o with
  | none =>
      rw [wlp_pure]
      refine ⟨ht.1, ?_⟩
      intro _ i hi hBlock
      rw [ht.1.list] at hi
      rw [ht.1.block] at hBlock
      exact absurd hBlock (ht.2 i hi)
  | some i =>
      have hMem := ht.2
      dsimp only at hMem ⊢
      rw [wlp_bind]
      refine wlp_mono (wlp_and
        (fills_blockInfoExpireAll (X := X) i t)
        (Q := fun _ u =>
          ∀ p, ((u.bc.info i).spares p).expired = true) ?_) ?_
      · unfold blockInfoExpireAll Uffs.setInfo
        rw [wlp_modify]
        intro p
        dsimp only
        rw [upd_same]
      intro _ u hu
      refine wlp_mono (wlp_and (fills_blockInfoPut (X := X) i u)
        (Q := fun _ v =>
          ∀ p, ((v.bc.info i).spares p).expired = true) ?_) ?_
      · unfold blockInfoPut Uffs.setInfo
        rw [wlp_modify]
        intro p
        dsimp only
        rw [upd_same]
        exact hu.2 p
      intro _ v hv
      have hAll := trans_of (Fills X)
        (trans_of (Fills X) ht.1 hu.1) hv.1
      refine ⟨hAll, ?_⟩
      intro hs j hj hBlock hb p
      rw [hAll.list] at hj
      rw [hAll.block] at hBlock
      have hji := hs.sole j hj i hMem.1
        (hBlock.trans hMem.2.symm) (by rw [hBlock]; exact hb)
      rw [hji]
      exact hv.2 p

end Infos

------------------------------------------------------------
-- Erasing
------------------------------------------------------------

section Erasing

variable {ok : Event → Prop}

/- The block `b` is out of the cache and off the medium. -/
structure Clears (b : Nat) (s t : Dev) : Prop where
  tree : t.tree = s.tree
  handed : t.watch.usedHandedOut = s.watch.usedHandedOut
  cached : s.Cached (pagesOf b) → t.Cached noPage

theorem Clears.coheres
    {b : Nat}
    {s t : Dev}
    (h : Clears b s t) : Coheres s t :=
  ⟨fun hu => h.handed.symm.trans hu,
    fun _ hs => h.cached (hs.mono fun _ _ => False.elim)⟩

theorem Dev.Cached.forget
    {b : Nat}
    {s : Dev}
    (h : s.Cached (pagesOf b))
    (hExpired : ∀ i ∈ s.bc.list, (s.bc.info i).block = b →
      b ≠ invalidBlock →
        ∀ p, ((s.bc.info i).spares p).expired = true) :
    s.Cached noPage := by
  apply h.drop
  intro i hi hb p _ hFresh hX _
  rw [hX] at hb
  rw [hExpired i hi hX hb p] at hFresh
  cases hFresh

omit [Platform] in
theorem touches_badBlockPendingRemove
    {W : Nat → Nat → Prop}
    (b : Nat) :
    Within ok (Touches W) (badBlockPendingRemove b) :=
  touches_modify (fun _ => rfl) (fun _ => rfl) (fun _ => rfl)
    (fun _ => rfl) (fun _ => rfl)

theorem clears_flashEraseBlock (b : Nat) :
    Within ok (Clears b) (flashEraseBlock b) := by
  intro s
  unfold flashEraseBlock
  rw [wlp_bind]
  refine wlp_mono (touches_badBlockPendingRemove (W := pagesOf b) b s) ?_
  intro _ t ht
  rw [wlp_bind]
  refine wlp_mono (touches_driverEraseBlock b t) ?_
  intro ret u hu
  have hTouches := trans_of (Touches (pagesOf b)) ht hu
  have hFills : Fills (pagesOf b) s u :=
    hTouches.fills fun _ _ => id
  rw [wlp_bind]
  refine wlp_mono (wlp_expireCached_cached (X := pagesOf b) b u)
    ?_
  intro _ v hv
  rw [wlp_pure]
  have hAll := trans_of (Fills (pagesOf b)) hFills hv.1
  refine ⟨hAll.tree, hAll.handed, ?_⟩
  intro hs
  exact (hAll.cached hs).forget (hv.2 (hFills.cached hs))

theorem clears_flashMarkBadBlock (b : Nat) :
    Within ok (Clears b) (flashMarkBadBlock b) := by
  intro s
  unfold flashMarkBadBlock medium
  rw [wlp_bind]
  refine wlp_mono (touches_badBlockPendingRemove
    (W := pagesOf b) b s) ?_
  intro _ t ht
  have hFills : Fills (pagesOf b) s t := ht.fills fun _ _ => id
  rw [wlp_bind]
  refine wlp_mono (wlp_expireCached_cached (X := pagesOf b) b t)
    ?_
  intro _ u hu
  rw [wlp_bind]
  refine wlp_mono (touches_driverEraseBlock b u) ?_
  intro ret v hv
  rw [wlp_bind]
  refine wlp_mono (touches_nextAnswer (W := pagesOf b) v) ?_
  intro a w hw
  have hErase := trans_of (Touches (pagesOf b)) hv hw
  have hEnd : ∀ x, Touches (pagesOf b) u x → Clears b s x := by
    intro x hx
    have hAll := trans_of (Fills (pagesOf b))
      (trans_of (Fills (pagesOf b)) hFills hu.1)
      (hx.fills fun _ _ => id)
    refine ⟨hAll.tree, hAll.handed, ?_⟩
    intro hs
    apply (hAll.cached hs).forget
    rw [hx.bc]
    exact hu.2 (hFills.cached hs)
  split
  · rw [wlp_bind, wlp_modify, wlp_emit]
    intro _
    apply hEnd
    apply trans_of (Touches (pagesOf b)) hErase
    exact ⟨rfl, rfl, rfl, rfl, fun _ _ _ => rfl,
      fun _ _ _ h => h⟩
  · rw [wlp_pure]
    exact hEnd w hErase

/- A block that is handed out was erased. -/
theorem coheres_prepareErased (n : Nat) :
    Within ok Coheres (prepareErased n) := by
  intro s
  unfold prepareErased watchHandOut getNode
  rw [wlp_bind, wlp_gets, wlp_bind, wlp_modify, wlp_bind]
  generalize hb : (s.tree.node n).listBlock = b
  refine wlp_mono (wlp_blockInfoGet_cached b _) ?_
  intro o t ht
  have hUsed : t.watch.usedHandedOut = false →
      s.watch.usedHandedOut = false ∧
        s.flash.ErasedBlock b := by
    intro hHanded
    rw [ht.watch] at hHanded
    simpa using hHanded
  have hStart : Coheres s t := by
    constructor
    · exact fun hHanded => (hUsed hHanded).1
    · intro _ hs
      apply ht.cached noPage
      exact ⟨hs.nodup, hs.sole, hs.count, hs.tag, hs.spare⟩
  cases o with
  | none =>
      rw [wlp_pure]
      exact hStart
  | some i =>
      have hBlock := (ht.entry i rfl).2
      dsimp only
      rw [wlp_bind]
      by_cases hHanded : t.watch.usedHandedOut = false
      · have hErased := (hUsed hHanded).2
        refine wlp_mono (Fills.initErased (X := noPage) ?_) ?_
        · intro p hp
          rw [hBlock, ht.flash]
          dsimp only
          rw [hErased.2 p hp]
          rfl
        · intro _ u hu
          rw [wlp_bind]
          refine wlp_mono (fills_blockInfoPut (X := noPage) i u) ?_
          intro _ v hv
          rw [wlp_pure]
          exact trans_of Coheres hStart
            (trans_of (Fills noPage) hu hv).coheres
      · unfold blockInfoInitErased blockInfoPut Uffs.setInfo
        rw [wlp_modify, wlp_bind, wlp_modify, wlp_pure]
        constructor
        · exact fun hu => absurd hu hHanded
        · exact fun hu => absurd hu hHanded

end Erasing

end Uffs
