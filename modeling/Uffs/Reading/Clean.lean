import Uffs.Good.BuildTree
import Uffs.Good.Content
import Uffs.Reading.Files

/-
  Devices without dirty pages.

  When no buffer is dirty, on a flash where every operation
  succeeds, a page buffer shows what the flash has: a page
  that is cached is the newest copy of its page id in the
  block of its node, and any other one is loaded.

  Main declarations:
    * `wp_bufLoad`
    * `Tree.Apart`
    * `Clean`
    * `Clean.bufGetEx`
    * `clean_serving`
-/

namespace Uffs

open Prog

variable [Platform]

------------------------------------------------------------
-- The Tag of the Page That Is Found
------------------------------------------------------------

theorem wp_findBestFrom_kept
    {i page : Nat}
    {old : Tag}
    (n : Nat) :
    ∀ s : Dev,
      Readable s i →
      page + n < pagesPerBlock →
      ((s.bc.info i).spares page).expired = false →
      wp (findBestFrom i old page n)
        (fun r _ t => ((t.bc.info i).spares r).expired = false)
        s := by
  induction n with
  | zero =>
      intro s _ _ hKept
      unfold findBestFrom
      rw [wp_pure]
      exact hKept
  | succ n ih =>
      intro s hReady hLt hKept
      unfold findBestFrom
      refine wp_seq (wp_blockInfoLoad hReady hLt) ?_
      intro _ _ t ht
      rcases ht with ⟨_, _, hst, hTag⟩
      simp only [getTag, wp_bind, wp_gets]
      split
      · rw [wp_pure, hTag]
      · apply ih t (hst.readable hReady) (by omega)
        rw [hst.kept page hKept]
        exact hKept

/- The page that the search returns has a tag in the cache. -/
theorem wp_findBestPageInBlock_kept
    {s : Dev}
    {i page : Nat}
    (hReady : Readable s i)
    (hPage : page < pagesPerBlock) :
    wp (findBestPageInBlock i page)
      (fun r _ t => ∀ q, r = some q →
        ((t.bc.info i).spares q).expired = false) s := by
  have hLast : pagesPerBlock - 1 < pagesPerBlock := by omega
  unfold findBestPageInBlock
  refine wp_seq (wp_blockInfoLoad hReady hPage) ?_
  intro _ _ t ht
  rcases ht with ⟨_, _, hst, hTag⟩
  have hKept : ((t.bc.info i).spares page).expired = false := by
    rw [hTag]
  simp only [getTag, wp_bind, wp_gets]
  split
  · rw [wp_pure]
    intro q hq
    cases hq
  · split
    · rw [wp_pure]
      intro q hq
      cases hq
      exact hKept
    · have hReady' := hst.readable hReady
      refine wp_seq (wp_blockInfoLoad hReady' hLast) ?_
      intro _ _ u hu
      rcases hu with ⟨_, _, htu, _⟩
      have hStill :
          ((u.bc.info i).spares page).expired = false := by
        rw [htu.kept page hKept]
        exact hKept
      simp only [wp_bind, wp_gets]
      split
      · rw [wp_pure]
        intro q hq
        cases hq
        exact hStill
      · refine wp_seq (wp_findBestFrom_kept _ u
          (htu.readable hReady') (by omega) hStill) ?_
        intro r _ w hw
        rw [wp_pure]
        intro q hq
        cases hq
        exact hw

/- A page with a good tag has a best copy. -/
theorem bestPage_isSome
    {τ : Nat → Tag}
    {page : Nat}
    (hGood : (τ page).isGood = true) :
    (bestPage τ page).isSome = true := by
  unfold bestPage
  rw [hGood, Bool.not_true, if_neg Bool.false_ne_true]
  split
  · rfl
  · split
    · rfl
    · rfl

------------------------------------------------------------
-- Loading a Page
------------------------------------------------------------

/- Only the block infos and the clock change. -/
def Dev.Aside (s t : Dev) : Prop :=
  t = { s with clock := t.clock, bc := t.bc }

namespace Dev.Aside

variable {s t u : Dev}

omit [Platform]

theorem of_bc (h : t = { s with bc := t.bc }) : s.Aside t := by
  have hClock : t.clock = s.clock := by rw [h]
  unfold Dev.Aside
  rw [hClock]
  exact h

theorem trans (hst : s.Aside t) (htu : t.Aside u) :
    s.Aside u := by
  unfold Dev.Aside at hst htu ⊢
  rw [hst] at htu
  exact htu

end Dev.Aside

/- A buffer that is filled with a page from flash. -/
def Buf.fill
    (b : Buf)
    (type : BlockType)
    (parent serial id : Nat)
    (c : List Byte × Nat) : Buf where
  type := type
  truncTail := b.truncTail
  parent := parent
  serial := serial
  pageId := id
  mark := .valid
  refCount := b.refCount + 1
  dataLen := c.2
  data := c.1

/- A buffer is changed and moved to the head of the list. -/
def BufPool.front (p : BufPool) (i : Nat) (b : Buf) : BufPool :=
  { p with
    list := i :: p.list.erase i
    entry := upd p.entry i b }

/-
  What becomes of a buffer that is to be filled with the
  content `c`, or left alone when there is none.
-/
def LoadEnds
    (s : Dev)
    (i : Nat)
    (b : List Byte × Nat → Buf)
    (c : Option (List Byte × Nat))
    (r : Option Nat)
    (t : Dev) : Prop :=
  match c with
  | none => r = none ∧ s.Aside t
  | some c =>
      r = some i ∧
        Dev.Aside { s with buf := s.buf.front i (b c) } t

/- A free buffer is filled with a page, or left alone. -/
theorem wp_bufLoad
    {s : Dev}
    {type : BlockType}
    {parent serial id n i : Nat}
    {noEcc : Bool}
    (hCalm : Calm s idle) :
    wp (bufLoad type parent serial id noEcc n i)
      (fun r _ t => Calm t idle ∧
        LoadEnds s i
          ((s.buf.entry i).fill type parent serial id)
          (s.flash.content (s.tree.node n).block id) r t)
      s := by
  have hFree : ∃ j ∈ s.bc.list, idle j = 0 := by
    have hTwo := hCalm.two
    cases hList : s.bc.list with
    | nil =>
        rw [hList] at hTwo
        exact absurd hTwo (by decide)
    | cons j l => exact ⟨j, List.mem_cons_self, rfl⟩
  have hBack : ∀ w,
      upd (upd idle w (idle w + 1)) w
        (upd idle w (idle w + 1) w - 1) = idle := by
    intro w
    rw [upd_same]
    exact upd_upd_same idle w _
  have hUpd : ∀ (f : Nat → Buf) (a b : Buf),
      upd (upd f i a) i b = upd f i b := by
    intro f a b
    funext j
    unfold upd
    split
    · rfl
    · rfl
  unfold bufLoad
  simp only [getNode, wp_bind, wp_gets]
  refine wp_mono (wp_blockInfoGet _ hCalm hFree) ?_
  intro _ _ t ht
  rcases ht with ⟨_, w, rfl, hGets⟩
  have hCalmT := hGets.calm hCalm
  have hMemT := hGets.memAfter
  have hTags : t.tags w = s.flash.tags (s.tree.node n).block := by
    funext p
    unfold Dev.tags Flash.tags
    rw [hGets.flash, hGets.block]
  dsimp only
  refine wp_seq (yields_findPageInBlockWithPageId id
    (hCalmT.readable hMemT)) ?_
  intro r _ u hu
  rcases hu with ⟨rfl, _, hReads⟩
  have hCalmU := hCalmT.reads hMemT hReads
  have hMemU : w ∈ u.bc.list := by
    rw [hReads.list]
    exact hMemT
  have hAside : s.Aside u :=
    (Dev.Aside.of_bc hGets.rest).trans hReads.rest
  rw [hTags]
  cases hFind : pageWithId
      (s.flash.tags (s.tree.node n).block) id with
  | none =>
      dsimp only
      refine wp_seq (calm_blockInfoPut hCalmU) ?_
      intro _ _ x hx
      rcases hx with ⟨_, hCalmX, hRest, _⟩
      rw [hBack] at hCalmX
      rw [wp_pure]
      unfold LoadEnds Flash.content newestPage
      rw [hFind]
      exact ⟨hCalmX, rfl, hAside.trans (.of_bc hRest)⟩
  | some page =>
      have hPage := (pageWithId_lt hFind).2
      have hGood := (pageWithIdFrom_eq_some _ hFind).1
      dsimp only
      refine wp_seq (wp_conj
        (yields_findBestPageInBlock (hCalmU.readable hMemU)
          hPage)
        (wp_findBestPageInBlock_kept (hCalmU.readable hMemU)
          hPage)) ?_
      intro r _ x hx
      rcases hx with ⟨⟨rfl, _, hReads'⟩, hKept⟩
      have hTagsU : u.tags w =
          s.flash.tags (s.tree.node n).block := by
        rw [hReads.tags, hTags]
      rw [hTagsU] at hKept ⊢
      rcases Option.isSome_iff_exists.mp
        (bestPage_isSome hGood) with ⟨best, hBest⟩
      rw [hBest] at hKept ⊢
      have hCalmX := hCalmU.reads hMemU hReads'
      have hAsideX := hAside.trans hReads'.rest
      dsimp only
      refine wp_seq (calm_blockInfoPut hCalmX) ?_
      intro _ _ y hy
      rcases hy with
        ⟨_, hCalmY, hRest, hList, hBlock, hSpares⟩
      rw [hBack] at hCalmY
      have hAsideY : s.Aside y := hAsideX.trans (.of_bc hRest)
      have hFlash : y.flash = s.flash := by rw [hAsideY]
      have hBuf : y.buf = s.buf := by rw [hAsideY]
      have hMemY : w ∈ y.bc.list := by
        rw [hList, hReads'.list]
        exact hMemU
      have hBest' := bestPage_lt hPage hBest
      have hTag : ((y.bc.info w).spares best).tag =
          s.flash.tags (s.tree.node n).block best := by
        have hFresh := hCalmY.fresh w hMemY best hBest'
        rw [hSpares] at hFresh
        have hTagY := hFresh (hKept best rfl)
        rw [hSpares, hTagY, hFlash, hBlock, hReads'.block,
          hReads.block, hGets.block]
        rfl
      simp only [Uffs.setBuf, wp_bind, wp_modify]
      refine wp_mono (wp_flashReadPage _ best i noEcc
        hCalmY.good (Nat.lt_of_lt_of_le (by decide)
          hCalmY.spare)) ?_
      intro _ _ z hz
      rcases hz with ⟨rfl, _, rfl⟩
      simp only [badBlockAddByFlashResult, pendingType,
        FlashRet.isNonRecoverBadBlock, FlashRet.isBadBlock,
        FlashRet.haveErr, reduceCtorEq, if_false, wp_pure,
        Bool.false_eq_true, Bool.and_false, wp_bind, getTag,
        wp_gets, wp_modify, moveNodeToHead, upd_same, hUpd]
      have hContent : s.flash.content (s.tree.node n).block id =
          some ((s.flash.page (s.tree.node n).block best).data,
            (s.flash.tags (s.tree.node n).block best).dataLen) := by
        unfold Flash.content newestPage
        rw [hFind, Option.bind_some, hBest]
        rfl
      rw [hContent]
      refine ⟨?_, ?_⟩
      · exact hCalmY.congr (Nat.le_succ _) rfl rfl rfl rfl
      · refine ⟨rfl, ?_⟩
        unfold Dev.Aside at hAsideY ⊢
        rw [hTag, hFlash, hBuf]
        rw [hAsideY]
        rfl

------------------------------------------------------------
-- Clean Devices
------------------------------------------------------------

/- The volume of a flash and a tree. -/
def Flash.volume (F : Flash) (T : Tree) : Volume where
  tree := T
  page := fun n id => F.content (T.node n).block id

/- Page buffers tell the nodes apart. -/
def Tree.Apart (T : Tree) : Prop :=
  ∀ n ∈ T.entryNodes, ∀ m ∈ T.entryNodes,
    (T.node n).parent = (T.node m).parent →
      (T.node n).serial = (T.node m).serial → n = m

/-
  No page is dirty, no block pending, and each page that is
  cached is on flash.  The buffers are held as `R` says.
-/
structure Clean
    (F : Flash)
    (T : Tree)
    (R : Nat → Nat)
    (s : Dev) : Prop where
  calm : Calm s idle
  flash : s.flash = F
  tree : s.tree = T
  noPending : s.pending.count = 0
  groups : ∀ slot, (s.buf.group slot).dirty = [] ∧
    (s.buf.group slot).count = 0
  list : s.buf.list ≠ []
  held : ∀ i, R i ≠ 0 → i ∈ s.buf.list
  refs : ∀ i ∈ s.buf.list, (s.buf.entry i).refCount = R i
  clean : ∀ i ∈ s.buf.list, (s.buf.entry i).mark ≠ .dirty
  shows : ∀ i ∈ s.buf.list, (s.buf.entry i).mark ≠ .empty →
    ∃ n ∈ T.entryNodes,
      (T.node n).parent = (s.buf.entry i).parent ∧
      (T.node n).serial = (s.buf.entry i).serial ∧
      F.content (T.node n).block (s.buf.entry i).pageId =
        some ((s.buf.entry i).data, (s.buf.entry i).dataLen)

namespace Clean

variable {F : Flash} {T : Tree} {R : Nat → Nat} {s t : Dev}

/- Only the parts named here matter. -/
theorem congr
    (h : Clean F T R s)
    (hCalm : Calm t idle)
    (hFlash : t.flash = s.flash)
    (hTree : t.tree = s.tree)
    (hPending : t.pending = s.pending)
    (hBuf : t.buf = s.buf) : Clean F T R t where
  calm := hCalm
  flash := hFlash.trans h.flash
  tree := hTree.trans h.tree
  noPending := by
    rw [hPending]
    exact h.noPending
  groups := by
    rw [hBuf]
    exact h.groups
  list := by
    rw [hBuf]
    exact h.list
  held := by
    rw [hBuf]
    exact h.held
  refs := by
    rw [hBuf]
    exact h.refs
  clean := by
    rw [hBuf]
    exact h.clean
  shows := by
    rw [hBuf]
    exact h.shows

/- The buffers after one is changed and perhaps moved. -/
theorem setBuf
    {i k : Nat}
    {b : Buf}
    {p : BufPool}
    (h : Clean F T R s)
    (hMem : i ∈ s.buf.list)
    (hRef : b.refCount = k)
    (hClean : b.mark ≠ .dirty)
    (hShows : b.mark ≠ .empty → ∃ n ∈ T.entryNodes,
      (T.node n).parent = b.parent ∧
      (T.node n).serial = b.serial ∧
      F.content (T.node n).block b.pageId =
        some (b.data, b.dataLen))
    (hEntry : p.entry = upd s.buf.entry i b)
    (hGroup : p.group = s.buf.group)
    (hClone : p.clone = s.buf.clone)
    (hList : ∀ j, j ∈ p.list ↔ j ∈ s.buf.list) :
    Clean F T (upd R i k) { s with buf := p } where
  calm := h.calm.congr (Nat.le_refl _) rfl hClone rfl rfl
  flash := h.flash
  tree := h.tree
  noPending := h.noPending
  groups := by
    intro slot
    dsimp only
    rw [hGroup]
    exact h.groups slot
  list := by
    intro hEmpty
    have hIn := (hList i).mpr hMem
    dsimp only at hEmpty
    rw [hEmpty] at hIn
    cases hIn
  held := by
    intro j hj
    apply (hList j).mpr
    by_cases hji : j = i
    · rw [hji]
      exact hMem
    · rw [upd_other _ _ hji] at hj
      exact h.held j hj
  refs := by
    intro j hj
    dsimp only
    rw [hEntry]
    by_cases hji : j = i
    · rw [hji, upd_same, upd_same]
      exact hRef
    · rw [upd_other _ _ hji, upd_other _ _ hji]
      exact h.refs j ((hList j).mp hj)
  clean := by
    intro j hj
    dsimp only
    rw [hEntry]
    by_cases hji : j = i
    · rw [hji, upd_same]
      exact hClean
    · rw [upd_other _ _ hji]
      exact h.clean j ((hList j).mp hj)
  shows := by
    intro j hj
    dsimp only
    rw [hEntry]
    by_cases hji : j = i
    · rw [hji, upd_same]
      exact hShows
    · rw [upd_other _ _ hji]
      exact h.shows j ((hList j).mp hj)

/- A buffer that is free can be found. -/
theorem findFreeBuf
    (h : Clean F T idle s) :
    ∃ i ∈ s.buf.list, wp findFreeBufOrFlush
      (fun r _ t => r = some i ∧ t = s) s := by
  unfold findFreeBufOrFlush Uffs.findFreeBuf
  simp only [wp_bind, wp_gets]
  cases hFind : s.buf.list.reverse.find? fun i =>
      (s.buf.entry i).isFree with
  | none =>
      exfalso
      rcases List.exists_mem_of_ne_nil _ h.list with ⟨i, hMem⟩
      have hBusy := List.find?_eq_none.mp hFind i
        (List.mem_reverse.mpr hMem)
      apply hBusy
      unfold Buf.isFree
      rw [h.refs i hMem, Bool.and_eq_true, bne_iff_ne]
      exact ⟨rfl, h.clean i hMem⟩
  | some i =>
      have hMem := List.mem_of_find?_eq_some hFind
      refine ⟨i, List.mem_reverse.mp hMem, ?_⟩
      rw [wp_pure]
      exact ⟨rfl, rfl⟩

/- A page that is cached is the one that is asked for. -/
theorem find_shows
    {n id i : Nat}
    (h : Clean F T R s)
    (hApart : T.Apart)
    (hMem : n ∈ T.entryNodes)
    (hFind : s.buf.find (T.node n).parent (T.node n).serial
      id = some i) :
    i ∈ s.buf.list ∧ (s.buf.entry i).mark ≠ .empty ∧
      F.content (T.node n).block id =
        some ((s.buf.entry i).data, (s.buf.entry i).dataLen) := by
  have hIn := List.mem_of_find?_eq_some hFind
  have hTest := List.find?_some hFind
  simp only [Bool.and_eq_true, beq_iff_eq, bne_iff_ne] at hTest
  rcases hTest with ⟨⟨⟨hParent, hSerial⟩, hId⟩, hMark⟩
  refine ⟨hIn, hMark, ?_⟩
  rcases h.shows i hIn hMark with
    ⟨m, hm, hmParent, hmSerial, hContent⟩
  have hSame : m = n :=
    hApart m hm n hMem (hmParent.trans hParent)
      (hmSerial.trans hSerial)
  rw [hSame, hId] at hContent
  exact hContent

/- A page buffer shows what is on flash. -/
theorem bufGetEx
    {type : BlockType}
    {n id : Nat}
    {noEcc : Bool}
    (h : Clean F T idle s)
    (hApart : T.Apart)
    (hType : type ≠ .resv)
    (hMem : n ∈ T.entryNodes) :
    wp (bufGetEx type n id noEcc)
      (fun r _ t =>
        (F.volume T).Serves (Clean F T) n id r t) s := by
  have hMove : ∀ {i j : Nat}, i ∈ s.buf.list →
      (j ∈ i :: s.buf.list.erase i ↔ j ∈ s.buf.list) :=
    fun hi => (List.perm_cons_erase hi).mem_iff.symm
  unfold Uffs.bufGetEx
  rw [if_neg hType]
  simp only [getNode, bufFind, wp_bind, wp_gets, h.tree]
  unfold Volume.Serves Flash.volume
  dsimp only
  cases hFind : s.buf.find (T.node n).parent
      (T.node n).serial id with
  | some i =>
      rcases h.find_shows hApart hMem hFind with
        ⟨hIn, hMark, hContent⟩
      simp only [Uffs.setBuf, wp_bind, wp_modify, wp_pure]
      rw [hContent]
      refine ⟨i, rfl, ?_, ?_⟩
      · refine h.setBuf (k := 1)
          (b := { s.buf.entry i with
            refCount := (s.buf.entry i).refCount + 1 })
          hIn ?_ (h.clean i hIn) (h.shows i hIn) rfl rfl rfl
          fun _ => Iff.rfl
        dsimp only
        rw [h.refs i hIn]
        rfl
      · rw [upd_same]
        exact ⟨rfl, rfl⟩
  | none =>
      rcases h.findFreeBuf with ⟨i, hIn, hFree⟩
      dsimp only
      refine wp_seq hFree ?_
      intro _ _ t ht
      rcases ht with ⟨rfl, rfl⟩
      dsimp only
      refine wp_mono (wp_bufLoad h.calm) ?_
      intro r _ u hu
      rcases hu with ⟨hCalm, hEnds⟩
      have hPage : t.flash.content (t.tree.node n).block id =
          F.content (T.node n).block id := by
        rw [h.flash, h.tree]
      unfold LoadEnds at hEnds
      rw [hPage] at hEnds
      cases hContent : F.content (T.node n).block id with
      | none =>
          rw [hContent] at hEnds
          rcases hEnds with ⟨rfl, hAside⟩
          refine ⟨rfl, h.congr hCalm ?_ ?_ ?_ ?_⟩
          · rw [hAside]
          · rw [hAside]
          · rw [hAside]
          · rw [hAside]
      | some c =>
          rw [hContent] at hEnds
          rcases hEnds with ⟨rfl, hAside⟩
          have hFront := h.setBuf (k := 1)
            (b := (t.buf.entry i).fill type (T.node n).parent
              (T.node n).serial id c)
            (p := t.buf.front i _) hIn
            (by
              unfold Buf.fill
              rw [h.refs i hIn]
              rfl)
            (fun hDirty => BufMark.noConfusion hDirty)
            (fun _ => ⟨n, hMem, rfl, rfl, hContent⟩)
            rfl rfl rfl (fun _ => hMove hIn)
          refine ⟨i, rfl, hFront.congr hCalm ?_ ?_ ?_ ?_, ?_⟩
          · rw [hAside]
          · rw [hAside]
          · rw [hAside]
          · rw [hAside]
          · rw [hAside]
            unfold BufPool.front
            dsimp only
            rw [upd_same]
            exact ⟨rfl, rfl⟩

/- The buffer that is held is given back. -/
theorem bufPut
    {i : Nat}
    (h : Clean F T (holds i) s) :
    wp (bufPut i) (fun _ _ t => Clean F T idle t) s := by
  have hOne : holds i i = 1 := upd_same _ i 1
  have hIn : i ∈ s.buf.list := by
    apply h.held i
    rw [hOne]
    decide
  have hRef : (s.buf.entry i).refCount = 1 := by
    rw [h.refs i hIn, hOne]
  unfold Uffs.bufPut
  simp only [getBuf, wp_bind, wp_gets, hRef, cloneBufMark,
    Nat.one_ne_zero, if_false, Uffs.setBuf,
    wp_modify, wp_pure, Nat.reduceEqDiff]
  have hBack : upd (holds i) i 0 = idle :=
    upd_upd_same idle i 1
  rw [← hBack]
  refine h.setBuf (k := 0)
    (b := { s.buf.entry i with refCount := 0 }) hIn rfl
    (h.clean i hIn) (h.shows i hIn) rfl rfl rfl
    fun _ => Iff.rfl

/- There is nothing to flush. -/
theorem bufFlushGroup
    (h : Clean F T R s)
    (parent serial : Nat) :
    wp (bufFlushGroup parent serial)
      (fun r _ t => r = .succ ∧ t = s) s := by
  have hNone : s.buf.findGroupSlot parent serial = none := by
    unfold BufPool.findGroupSlot
    rw [List.find?_eq_none]
    intro slot _
    rw [(h.groups slot).1]
    exact Bool.false_ne_true
  unfold Uffs.bufFlushGroup bufFlushGroupEx bufFindGroupSlot
  simp only [wp_bind, wp_gets, hNone, wp_pure, and_self]

theorem bufFlushMatchParentFrom
    (h : Clean F T R s)
    (parent n : Nat) :
    ∀ slot, wp (bufFlushMatchParentFrom parent n slot)
      (fun r _ t => r = .succ ∧ t = s) s := by
  induction n with
  | zero =>
      intro slot
      unfold Uffs.bufFlushMatchParentFrom
      rw [wp_pure]
      exact ⟨rfl, rfl⟩
  | succ n ih =>
      intro slot
      unfold Uffs.bufFlushMatchParentFrom
      simp only [wp_bind, wp_get, (h.groups slot).1]
      exact ih (slot + 1)

theorem bufFlushAllFrom
    (h : Clean F T R s)
    (n : Nat) :
    ∀ slot, wp (bufFlushAllFrom n slot)
      (fun r _ t => r = .succ ∧ t = s) s := by
  induction n with
  | zero =>
      intro slot
      unfold Uffs.bufFlushAllFrom
      rw [wp_pure]
      exact ⟨rfl, rfl⟩
  | succ n ih =>
      intro slot
      unfold Uffs.bufFlushAllFrom bufFlushSlot
      simp only [getGroup, wp_bind, wp_gets,
        (h.groups slot).2, if_true, wp_pure]
      exact ih (slot + 1)

end Clean

/- Clean devices serve the pages of the flash. -/
theorem clean_serving
    {F : Flash}
    {T : Tree}
    (hApart : T.Apart)
    (hSums : (F.volume T).Summed) :
    (F.volume T).Serving (Clean F T) where
  sums := hSums
  tree := by
    intro R s h
    rw [h.tree]
    exact Tree.Alike.refl T
  count := by
    intro R s k h
    exact h.congr
      (h.calm.congr (Nat.le_refl _) rfl rfl rfl rfl)
      rfl rfl rfl rfl
  get := by
    intro s type n id noEcc h hType hMem
    exact h.bufGetEx hApart hType hMem
  put := by
    intro s i h
    exact h.bufPut
  flushGroup := by
    intro s parent serial h
    refine wp_mono (h.bufFlushGroup parent serial) ?_
    intro r _ t ht
    rw [ht.2]
    exact ⟨ht.1, h⟩
  flushMatchParent := by
    intro s parent h
    unfold bufFlushGroupMatchParent
    refine wp_mono (h.bufFlushMatchParentFrom parent _ 0) ?_
    intro r _ t ht
    rw [ht.2]
    exact ⟨ht.1, h⟩
  flushAll := by
    intro s h
    unfold bufFlushAll
    refine wp_mono (h.bufFlushAllFrom _ 0) ?_
    intro r _ t ht
    rw [ht.2]
    exact ⟨ht.1, h⟩
  recover := by
    intro s h
    refine wp_mono (wp_recoverIfPending h.noPending) ?_
    intro _ _ t ht
    rw [ht.2]
    exact h

end Uffs
