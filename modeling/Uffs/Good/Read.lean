import Mathlib.Tactic.Common
import Uffs.Model.Public

/-
  Reading the tags of a block on a flash where every
  operation succeeds.

  The searches of `uffs_public.c` load tags into a block
  info as they go on.  Here each of them is shown to return
  what a pure function computes from the tags on flash, and
  to change nothing but the block info it loads.

  Main declarations:
    * `GoodFrom`, `Readable`, `Reads`, `Yields`
    * `bestPage`, `pageWithId`, `blockLength`
    * `yields_findBestPageInBlock`,
      `yields_findPageInBlockWithPageId`,
      `yields_getBlockFileDataLength`
-/

namespace Uffs

open Prog

variable [Platform]

------------------------------------------------------------
-- Loading Tags
------------------------------------------------------------

/- From call `n` on, every call of the driver succeeds. -/
def GoodFrom (n : Nat) : Prop :=
  ∀ k, n ≤ k → (Platform.answer k).ret = .noErr

theorem GoodFrom.mono
    {n m : Nat}
    (hGood : GoodFrom n)
    (hLe : n ≤ m) : GoodFrom m := by
  intro k hk
  exact hGood k (Nat.le_trans hLe hk)

/- The tags that an entry keeps are those of its block. -/
def BlockInfo.Fresh (w : BlockInfo) (F : Flash) : Prop :=
  ∀ p < pagesPerBlock,
    (w.spares p).expired = false →
      (w.spares p).tag = (F.page w.block p).tag

/- The tags of the block of an entry, as they are on flash. -/
def Dev.tags (s : Dev) (i : Nat) : Nat → Tag := fun p =>
  (s.flash.page (s.bc.info i).block p).tag

/- The tags of an entry can be loaded. -/
structure Readable (s : Dev) (i : Nat) : Prop where
  good : GoodFrom s.clock
  spare : 0 < s.spareFree
  fresh : (s.bc.info i).Fresh s.flash

/-
  From `s` to `t` some tags are loaded into entry `i`, and
  nothing else happens.
-/
structure Reads (i : Nat) (s t : Dev) : Prop where
  rest : t = { s with clock := t.clock, bc := t.bc }
  clock : s.clock ≤ t.clock
  list : t.bc.list = s.bc.list
  other : ∀ j, j ≠ i → t.bc.info j = s.bc.info j
  block : (t.bc.info i).block = (s.bc.info i).block
  refCount : (t.bc.info i).refCount = (s.bc.info i).refCount
  fresh : (s.bc.info i).Fresh s.flash →
    (t.bc.info i).Fresh s.flash
  kept : ∀ p, ((s.bc.info i).spares p).expired = false →
    (t.bc.info i).spares p = (s.bc.info i).spares p

namespace Reads

variable {i : Nat} {s t u : Dev}

theorem refl (i : Nat) (s : Dev) : Reads i s s where
  rest := rfl
  clock := Nat.le_refl _
  list := rfl
  other := fun _ _ => rfl
  block := rfl
  refCount := rfl
  fresh := fun h => h
  kept := fun _ _ => rfl

theorem flash (h : Reads i s t) : t.flash = s.flash := by
  rw [h.rest]

theorem spareFree (h : Reads i s t) :
    t.spareFree = s.spareFree := by
  rw [h.rest]

theorem buf (h : Reads i s t) : t.buf = s.buf := by
  rw [h.rest]

theorem tree (h : Reads i s t) : t.tree = s.tree := by
  rw [h.rest]

theorem pending (h : Reads i s t) : t.pending = s.pending := by
  rw [h.rest]

theorem trans
    (hst : Reads i s t)
    (htu : Reads i t u) : Reads i s u where
  rest := by
    have h := htu.rest
    rw [hst.rest] at h
    exact h
  clock := Nat.le_trans hst.clock htu.clock
  list := htu.list.trans hst.list
  other := fun j hj => (htu.other j hj).trans (hst.other j hj)
  block := htu.block.trans hst.block
  refCount := htu.refCount.trans hst.refCount
  fresh := by
    intro h
    have hFresh := htu.fresh
    rw [hst.flash] at hFresh
    exact hFresh (hst.fresh h)
  kept := by
    intro p hp
    have hKept := hst.kept p hp
    have hp' : ((t.bc.info i).spares p).expired = false := by
      rw [hKept]
      exact hp
    exact (htu.kept p hp').trans hKept

theorem tags (h : Reads i s t) : t.tags i = s.tags i := by
  funext p
  unfold Dev.tags
  rw [h.flash, h.block]

theorem readable
    (h : Reads i s t)
    (hReady : Readable s i) : Readable t i where
  good := hReady.good.mono h.clock
  spare := by
    rw [h.spareFree]
    exact hReady.spare
  fresh := by
    rw [h.flash]
    exact h.fresh hReady.fresh

end Reads

/-
  The program returns `v`, emits nothing, and does not more
  than load tags into entry `i`.
-/
def Yields
    {α : Type}
    (i : Nat)
    (m : M α)
    (v : α)
    (s : Dev) : Prop :=
  wp m (fun r es t => r = v ∧ es = [] ∧ Reads i s t) s

namespace Yields

variable {α β : Type} {i : Nat} {s : Dev}

theorem pure (v : α) : Yields i (Pure.pure v) v s := by
  unfold Yields
  rw [wp_pure]
  exact ⟨rfl, rfl, Reads.refl i s⟩

theorem bind
    {m : M α}
    {f : α → M β}
    {v : α}
    {w : β}
    (hm : Yields i m v s)
    (hf : ∀ t, Reads i s t → Yields i (f v) w t) :
    Yields i (m >>= f) w s := by
  unfold Yields
  refine wp_seq hm ?_
  rintro a es t ⟨rfl, rfl, hst⟩
  refine wp_mono (hf t hst) ?_
  rintro b fs u ⟨rfl, rfl, htu⟩
  exact ⟨rfl, rfl, hst.trans htu⟩

/- A program that yields after some reads. -/
theorem after
    {m : M α}
    {v : α}
    {t : Dev}
    (hst : Reads i s t)
    (h : Yields i m v t) :
    wp m (fun r es u => r = v ∧ es = [] ∧ Reads i s u) t := by
  refine wp_mono h ?_
  rintro r es u ⟨rfl, rfl, htu⟩
  exact ⟨rfl, rfl, hst.trans htu⟩

end Yields

/- A read of a tag returns the tag. -/
theorem wp_flashReadPageTag
    {s : Dev}
    (block page : Nat)
    (tag : Tag)
    (hGood : GoodFrom s.clock)
    (hSpare : 0 < s.spareFree) :
    wp (flashReadPageTag block page tag)
      (fun r es t =>
        r = (.noErr, (s.flash.page block page).tag) ∧
          es = [] ∧ t = { s with clock := s.clock + 1 }) s := by
  have hRet := hGood s.clock (Nat.le_refl _)
  have hNe : s.spareFree ≠ 0 := Nat.pos_iff_ne_zero.mp hSpare
  have hBack : s.spareFree - 1 + 1 = s.spareFree :=
    Nat.sub_add_cancel hSpare
  simp only [flashReadPageTag, spareGet, sparePut, nextAnswer,
    wp_bind, wp_get, wp_modify, wp_pure, hNe, if_false,
    Bool.not_true, Bool.false_eq_true, hRet, FlashRet.raw,
    ite_self, FlashRet.haveErr, hBack, List.append_nil,
    and_self]

/- Keeping the tag of flash in an entry is a read. -/
theorem reads_refresh
    {s : Dev}
    {i page : Nat}
    (hExpired : ((s.bc.info i).spares page).expired = true) :
    Reads i s
      { s with
        clock := s.clock + 1
        bc := { s.bc with
          info := upd s.bc.info i
            ((s.bc.info i).refresh page (s.tags i page)) } } := by
  refine ⟨rfl, Nat.le_succ _, rfl, ?_, ?_, ?_, ?_, ?_⟩
  · intro j hj
    exact upd_other _ _ hj
  · simp [BlockInfo.refresh]
  · simp [BlockInfo.refresh]
  · intro hFresh p hp
    by_cases hpp : p = page
    · subst hpp
      intro _
      simp [BlockInfo.refresh, Dev.tags]
    · simp only [upd_same, BlockInfo.refresh,
        upd_other _ _ hpp]
      exact hFresh p hp
  · intro p hp
    have hpp : p ≠ page := by
      rintro rfl
      rw [hExpired] at hp
      cases hp
    simp only [upd_same, BlockInfo.refresh, upd_other _ _ hpp]

/- Loading the tag of a page, and the tag it leaves. -/
theorem wp_blockInfoLoad
    {s : Dev}
    {i page : Nat}
    (hReady : Readable s i)
    (hPage : page < pagesPerBlock) :
    wp (blockInfoLoad i page)
      (fun r es t =>
        r = .succ ∧ es = [] ∧ Reads i s t ∧
          (t.bc.info i).spares page =
            { tag := s.tags i page, expired := false }) s := by
  have hNot : ¬ page ≥ pagesPerBlock := Nat.not_le.mpr hPage
  unfold blockInfoLoad
  rw [if_neg hNot]
  simp only [getInfo, wp_bind, wp_gets]
  by_cases hExpired :
      ((s.bc.info i).spares page).expired = true
  · simp only [hExpired, Bool.not_true, Bool.false_eq_true,
      if_false, wp_bind]
    refine wp_mono (wp_flashReadPageTag _ page _ hReady.good
      hReady.spare) ?_
    rintro ⟨ret, tag⟩ es t ⟨hRet, rfl, rfl⟩
    cases hRet
    simp only [badBlockAddByFlashResult, pendingType,
      FlashRet.isNonRecoverBadBlock, FlashRet.isBadBlock,
      FlashRet.haveErr, reduceCtorEq, if_false, wp_pure,
      Bool.false_eq_true, setInfo, wp_bind, wp_modify,
      List.append_nil, true_and]
    refine ⟨reads_refresh hExpired, ?_⟩
    simp [BlockInfo.refresh, Dev.tags]
  · have hKept :
        ((s.bc.info i).spares page).expired = false := by
      simpa using hExpired
    simp only [hKept, Bool.not_false, if_true, wp_pure,
      List.append_nil, true_and]
    refine ⟨Reads.refl i s, ?_⟩
    have hTag := hReady.fresh page hPage hKept
    cases hSpare : (s.bc.info i).spares page with
    | mk tag expired =>
        rw [hSpare] at hTag hKept
        simp only at hTag hKept
        rw [hKept, hTag]
        rfl

/- A tag is loaded and then looked at. -/
theorem Yields.loadTag_bind
    {β : Type}
    {s : Dev}
    {i page : Nat}
    {f : Tag → M β}
    {w : β}
    (hReady : Readable s i)
    (hPage : page < pagesPerBlock)
    (hf : ∀ t, Reads i s t →
      Yields i (f (s.tags i page)) w t) :
    Yields i
      (blockInfoLoad i page >>= fun _ => getTag i page >>= f)
      w s := by
  unfold Yields
  refine wp_seq (wp_blockInfoLoad hReady hPage) ?_
  rintro r es t ⟨rfl, rfl, hst, hTag⟩
  simp only [getTag, wp_bind, wp_gets, hTag]
  exact (hf t hst).after hst

/- A tag that is loaded already is looked at. -/
theorem Yields.getTag_bind
    {β : Type}
    {s : Dev}
    {i page : Nat}
    {f : Tag → M β}
    {w : β}
    (hReady : Readable s i)
    (hPage : page < pagesPerBlock)
    (hKept : ((s.bc.info i).spares page).expired = false)
    (hf : Yields i (f (s.tags i page)) w s) :
    Yields i (getTag i page >>= f) w s := by
  have hTag := hReady.fresh page hPage hKept
  unfold Yields
  simp only [getTag, wp_bind, wp_gets, hTag]
  exact hf

/- Every tag of an entry is loaded. -/
def BlockInfo.Loaded (w : BlockInfo) : Prop :=
  ∀ p < pagesPerBlock, (w.spares p).expired = false

theorem Reads.loaded
    {i : Nat}
    {s t : Dev}
    (h : Reads i s t)
    (hLoaded : (s.bc.info i).Loaded) :
    (t.bc.info i).Loaded := by
  intro p hp
  rw [h.kept p (hLoaded p hp)]
  exact hLoaded p hp

/- Loading all tags from `page` on. -/
theorem wp_blockInfoLoadFrom
    (i n : Nat) :
    ∀ (s : Dev) (page : Nat),
      Readable s i →
      page + n = pagesPerBlock →
      wp (blockInfoLoadFrom i n page 0)
        (fun r es t =>
          r = 0 ∧ es = [] ∧ Reads i s t ∧
            ∀ p, page ≤ p → p < pagesPerBlock →
              ((t.bc.info i).spares p).expired = false) s := by
  induction n with
  | zero =>
      intro s page _ hEnd
      unfold blockInfoLoadFrom
      rw [wp_pure]
      refine ⟨rfl, rfl, Reads.refl i s, ?_⟩
      intro p hLe hLt
      omega
  | succ n ih =>
      intro s page hReady hEnd
      have hPage : page < pagesPerBlock := by omega
      unfold blockInfoLoadFrom
      simp only [getInfo, wp_bind, wp_gets]
      by_cases hExpired :
          ((s.bc.info i).spares page).expired = true
      · simp only [hExpired, Bool.not_true, Bool.false_eq_true,
          if_false, wp_bind]
        refine wp_mono (wp_flashReadPageTag _ page _
          hReady.good hReady.spare) ?_
        rintro ⟨ret, tag⟩ es t ⟨hRet, rfl, rfl⟩
        cases hRet
        simp only [badBlockAddByFlashResult, pendingType,
          FlashRet.isNonRecoverBadBlock, FlashRet.isBadBlock,
          FlashRet.haveErr, reduceCtorEq, if_false, wp_pure,
          Bool.false_eq_true, setInfo, wp_bind, wp_modify]
        have hStep := reads_refresh hExpired
        refine wp_mono (ih _ (page + 1)
          (hStep.readable hReady) (by omega)) ?_
        rintro r fs u ⟨rfl, rfl, htu, hAll⟩
        refine ⟨rfl, rfl, hStep.trans htu, ?_⟩
        intro p hLe hLt
        by_cases hpp : p = page
        · subst hpp
          rw [htu.kept p (by simp [BlockInfo.refresh])]
          simp [BlockInfo.refresh]
        · exact hAll p (by omega) hLt
      · have hKept :
            ((s.bc.info i).spares page).expired = false := by
          simpa using hExpired
        simp only [hKept, Bool.not_false, if_true]
        refine wp_mono (ih s (page + 1) hReady (by omega)) ?_
        rintro r fs u ⟨rfl, rfl, htu, hAll⟩
        refine ⟨rfl, rfl, htu, ?_⟩
        intro p hLe hLt
        by_cases hpp : p = page
        · subst hpp
          rw [htu.kept p hKept]
          exact hKept
        · exact hAll p (by omega) hLt

/- Loading all tags of a block. -/
theorem wp_blockInfoLoadAll
    {s : Dev}
    {i : Nat}
    (hReady : Readable s i) :
    wp (blockInfoLoadAll i)
      (fun r es t =>
        r = .succ ∧ es = [] ∧ Reads i s t ∧
          (t.bc.info i).Loaded) s := by
  unfold blockInfoLoadAll
  refine wp_seq (wp_blockInfoLoadFrom i pagesPerBlock s 0
    hReady (by omega)) ?_
  rintro r es t ⟨rfl, rfl, hst, hAll⟩
  rw [wp_pure]
  refine ⟨rfl, rfl, hst, ?_⟩
  intro p hp
  exact hAll p (Nat.zero_le p) hp

------------------------------------------------------------
-- Searches over Tags
------------------------------------------------------------

/-
  The highest page above `page`, and at most `page + n`,
  that carries the page of the tag `old`.
-/
def bestFrom
    (τ : Nat → Tag)
    (old : Tag)
    (page : Nat) : Nat → Nat
| 0 => page
| n + 1 =>
    if (τ (page + (n + 1))).isGood &&
        (τ (page + (n + 1))).pageId == old.pageId &&
        (τ (page + (n + 1))).parent == old.parent &&
        (τ (page + (n + 1))).serial == old.serial then
      page + (n + 1)
    else
      bestFrom τ old page n

/- Is the last page in its own place? -/
def isFull (τ : Nat → Tag) : Bool :=
  (τ (pagesPerBlock - 1)).isGood &&
    (τ (pagesPerBlock - 1)).pageId == pagesPerBlock - 1

/- `uffs_FindBestPageInBlock` on the tags of a block -/
def bestPage (τ : Nat → Tag) (page : Nat) : Option Nat :=
  if !(τ page).isGood then
    none
  else if page = pagesPerBlock - 1 then
    some page
  else if isFull τ then
    some page
  else
    some (bestFrom τ (τ page) page (pagesPerBlock - 1 - page))

/- The loop of `uffs_FindPageInBlockWithPageId` on tags. -/
def pageWithIdFrom
    (τ : Nat → Tag)
    (pageId : Nat) : Nat → Nat → Option Nat
| 0, _ => none
| n + 1, page =>
    if (τ page).isGood && (τ page).pageId == pageId then
      some page
    else
      pageWithIdFrom τ pageId n (page + 1)

/- `uffs_FindPageInBlockWithPageId` on the tags of a block -/
def pageWithId (τ : Nat → Tag) (pageId : Nat) : Option Nat :=
  pageWithIdFrom τ pageId (pagesPerBlock - pageId) pageId

/- `uffs_IsPageErased` on a tag -/
def Tag.isErased (t : Tag) : Bool :=
  !t.sealed && !t.isDirty && !t.isValid

/- The scan of `uffs_GetBlockFileDataLength` on tags. -/
def lengthFrom
    (τ : Nat → Tag) : Nat → Nat → Nat → Nat → Nat
| 0, _, _, size => size
| n + 1, i, pageId, size =>
    if (τ i).isGood && (τ i).pageId == pageId then
      match bestPage τ i with
      | none => lengthFrom τ n (i + 1) pageId size
      | some page =>
          lengthFrom τ n (i + 1) (pageId + 1)
            (size + (τ page).dataLen)
    else
      lengthFrom τ n (i + 1) pageId size

/- `uffs_GetBlockFileDataLength` on the tags of a block -/
def blockLength (τ : Nat → Tag) (type : BlockType) : Nat :=
  if isFull τ && type = .file then
    pgDataSize * (pagesPerBlock - 2) +
      (τ (pagesPerBlock - 1)).dataLen
  else if isFull τ && type = .data then
    pgDataSize * (pagesPerBlock - 1) +
      (τ (pagesPerBlock - 1)).dataLen
  else if !(τ 0).isGood then
    0
  else if (τ 0).type = .file then
    lengthFrom τ (pagesPerBlock - 1) 1 1 0
  else
    lengthFrom τ pagesPerBlock 0 0 0

/- The best page is a page of the block. -/
omit [Platform] in
theorem bestFrom_le
    (τ : Nat → Tag)
    (old : Tag)
    (page n : Nat) : bestFrom τ old page n ≤ page + n := by
  induction n with
  | zero => exact Nat.le_refl _
  | succ n ih =>
      unfold bestFrom
      split
      · exact Nat.le_refl _
      · omega

theorem bestPage_lt
    {τ : Nat → Tag}
    {page q : Nat}
    (hPage : page < pagesPerBlock)
    (h : bestPage τ page = some q) : q < pagesPerBlock := by
  unfold bestPage at h
  split at h
  · cases h
  · split at h
    · cases h
      exact hPage
    · split at h
      · cases h
        exact hPage
      · cases h
        have hLe := bestFrom_le τ (τ page) page
          (pagesPerBlock - 1 - page)
        omega

omit [Platform] in
theorem pageWithIdFrom_lt
    {τ : Nat → Tag}
    {pageId : Nat}
    (n : Nat) :
    ∀ {page q : Nat},
      pageWithIdFrom τ pageId n page = some q →
        page ≤ q ∧ q < page + n := by
  induction n with
  | zero =>
      intro page q h
      cases h
  | succ n ih =>
      intro page q h
      unfold pageWithIdFrom at h
      split at h
      · cases h
        omega
      · have hLt := ih h
        omega

theorem pageWithId_lt
    {τ : Nat → Tag}
    {pageId q : Nat}
    (h : pageWithId τ pageId = some q) :
    pageId ≤ q ∧ q < pagesPerBlock := by
  have hLt := pageWithIdFrom_lt _ h
  omega

------------------------------------------------------------
-- The Searches Yield What the Tags Say
------------------------------------------------------------

theorem yields_findBestFrom
    (i page : Nat)
    (old : Tag)
    (n : Nat) :
    ∀ s : Dev,
      Readable s i →
      page + n < pagesPerBlock →
      Yields i (findBestFrom i old page n)
        (bestFrom (s.tags i) old page n) s := by
  induction n with
  | zero =>
      intro s _ _
      exact Yields.pure _
  | succ n ih =>
      intro s hReady hLt
      unfold findBestFrom bestFrom
      refine Yields.loadTag_bind hReady hLt ?_
      intro t hst
      split
      · exact Yields.pure _
      · rw [← hst.tags]
        exact ih t (hst.readable hReady) (by omega)

theorem yields_findBestPageInBlock
    {s : Dev}
    {i page : Nat}
    (hReady : Readable s i)
    (hPage : page < pagesPerBlock) :
    Yields i (findBestPageInBlock i page)
      (bestPage (s.tags i) page) s := by
  have hLast : pagesPerBlock - 1 < pagesPerBlock := by omega
  unfold findBestPageInBlock bestPage
  refine Yields.loadTag_bind hReady hPage ?_
  intro t hst
  split
  · exact Yields.pure _
  · split
    · exact Yields.pure _
    · refine Yields.loadTag_bind (hst.readable hReady) hLast ?_
      intro u htu
      rw [hst.tags]
      unfold isFull
      split
      · exact Yields.pure _
      · have hsu := hst.trans htu
        refine Yields.bind (yields_findBestFrom i page _ _ u
          (hsu.readable hReady) (by omega)) ?_
        intro v _
        rw [hsu.tags]
        exact Yields.pure _

theorem yields_findPageFrom
    (i pageId n : Nat) :
    ∀ (s : Dev) (page : Nat),
      Readable s i →
      page + n ≤ pagesPerBlock →
      Yields i (findPageFrom i pageId n page)
        (pageWithIdFrom (s.tags i) pageId n page) s := by
  induction n with
  | zero =>
      intro s page _ _
      exact Yields.pure _
  | succ n ih =>
      intro s page hReady hLe
      unfold findPageFrom pageWithIdFrom
      refine Yields.loadTag_bind hReady (by omega) ?_
      intro t hst
      split
      · exact Yields.pure _
      · rw [← hst.tags]
        exact ih t (page + 1) (hst.readable hReady) (by omega)

theorem yields_findPageInBlockWithPageId
    {s : Dev}
    {i : Nat}
    (pageId : Nat)
    (hReady : Readable s i) :
    Yields i (findPageInBlockWithPageId i pageId)
      (pageWithId (s.tags i) pageId) s := by
  unfold findPageInBlockWithPageId pageWithId
  by_cases hLe : pageId ≤ pagesPerBlock
  · exact yields_findPageFrom i pageId _ s pageId hReady
      (by omega)
  · have hZero : pagesPerBlock - pageId = 0 := by omega
    rw [hZero]
    exact Yields.pure _

theorem yields_isThisBlockUsed
    {s : Dev}
    {i : Nat}
    (hReady : Readable s i) :
    Yields i (isThisBlockUsed i) (s.tags i 0).isDirty s := by
  have hTwo := Platform.two_le_pagesPerBlock
  unfold isThisBlockUsed
  refine Yields.loadTag_bind hReady (by omega) ?_
  intro t _
  exact Yields.pure _

/- The time stamp of a block: 0 for an unused block. -/
def blockStamp (τ : Nat → Tag) : Nat :=
  if !(τ 0).isDirty then
    getFirstBlockTimeStamp
  else
    (τ 0).blockTs

theorem yields_getBlockTimeStamp
    {s : Dev}
    {i : Nat}
    (hReady : Readable s i) :
    Yields i (getBlockTimeStamp i) (blockStamp (s.tags i)) s := by
  have hTwo := Platform.two_le_pagesPerBlock
  unfold getBlockTimeStamp blockStamp
  refine Yields.bind (yields_isThisBlockUsed hReady) ?_
  intro t hst
  split
  · exact Yields.pure _
  · refine Yields.loadTag_bind (hst.readable hReady)
      (by omega) ?_
    intro u _
    rw [hst.tags]
    exact Yields.pure _

theorem yields_isPageErased
    {s : Dev}
    {i page : Nat}
    (hReady : Readable s i)
    (hPage : page < pagesPerBlock) :
    Yields i (isPageErased i page)
      (s.tags i page).isErased s := by
  unfold isPageErased Yields
  refine wp_seq (wp_blockInfoLoad hReady hPage) ?_
  rintro r es t ⟨rfl, rfl, hst, hTag⟩
  simp only [getTag, wp_bind, wp_gets, wp_pure, hTag]
  exact ⟨rfl, rfl, hst⟩

theorem yields_blockLengthFrom
    (i n : Nat) :
    ∀ (s : Dev) (k pageId size : Nat),
      Readable s i →
      (s.bc.info i).Loaded →
      k + n ≤ pagesPerBlock →
      Yields i (blockLengthFrom i n k pageId size)
        (lengthFrom (s.tags i) n k pageId size) s := by
  induction n with
  | zero =>
      intro s k pageId size _ _ _
      exact Yields.pure _
  | succ n ih =>
      intro s k pageId size hReady hLoaded hLe
      have hLt : k < pagesPerBlock := by omega
      unfold blockLengthFrom lengthFrom
      refine Yields.getTag_bind hReady hLt (hLoaded k hLt) ?_
      split
      · refine Yields.bind
          (yields_findBestPageInBlock hReady hLt) ?_
        intro t hst
        have hReady' := hst.readable hReady
        have hLoaded' := hst.loaded hLoaded
        cases hBest : bestPage (s.tags i) k with
        | none =>
            simp only
            rw [← hst.tags]
            exact ih t _ _ _ hReady' hLoaded' (by omega)
        | some q =>
            have hq := bestPage_lt hLt hBest
            simp only
            refine Yields.getTag_bind hReady' hq
              (hLoaded' q hq) ?_
            rw [← hst.tags]
            exact ih t _ _ _ hReady' hLoaded' (by omega)
      · exact ih s _ _ _ hReady hLoaded (by omega)

theorem yields_getBlockFileDataLength
    {s : Dev}
    {i : Nat}
    (type : BlockType)
    (hReady : Readable s i) :
    Yields i (getBlockFileDataLength i type)
      (blockLength (s.tags i) type) s := by
  have hTwo := Platform.two_le_pagesPerBlock
  unfold getBlockFileDataLength blockLength
  refine Yields.loadTag_bind hReady (by omega) ?_
  intro t hst
  have hReady' := hst.readable hReady
  unfold isFull
  dsimp only
  split
  · exact Yields.pure _
  · split
    · exact Yields.pure _
    · unfold Yields
      refine wp_seq (wp_blockInfoLoadAll hReady') ?_
      rintro r es u ⟨rfl, rfl, htu, hLoaded⟩
      have hReady'' := htu.readable hReady'
      refine Yields.after htu ?_
      refine Yields.getTag_bind hReady'' (by omega)
        (hLoaded 0 (by omega)) ?_
      rw [← hst.tags, ← htu.tags]
      split
      · exact Yields.pure _
      · split
        · exact yields_blockLengthFrom i _ u 1 1 0 hReady''
            hLoaded (by omega)
        · exact yields_blockLengthFrom i _ u 0 0 0 hReady''
            hLoaded (by omega)

end Uffs
