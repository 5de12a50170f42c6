import Uffs.Good.Mount
import Uffs.Model.Buf

/-
  Writing pages on a flash where every operation succeeds.

  Main declarations:
    * `Flash.write`
    * `wp_flashWritePageCombine`
    * `Appending`
    * `wp_bufFlushExistWithEnoughFreePage_events`
-/

namespace Uffs

open Prog

variable [Platform]

------------------------------------------------------------
-- One Page
------------------------------------------------------------

/- The flash with one page programmed. -/
def Flash.write (F : Flash) (b p : Nat) (c : Page) : Flash :=
  { F with page := upd F.page b (upd (F.page b) p c) }

/- What a buffer leaves on a page that gets the tag `tag`. -/
def Buf.image (b : Buf) (tag : Tag) : Page where
  status := 0
  data := b.data
  tag := tag

/- The event of a successful page write. -/
def Event.wrote (b p : Nat) (c : Page) : Event :=
  .program b p .noErr (some c)

omit [Platform] in
@[simp] theorem Flash.write_same
    (F : Flash)
    (b p : Nat)
    (c : Page) : (F.write b p c).page b p = c := by
  simp [Flash.write]

/- What one page write leaves of the device. -/
structure Writes (b p c : Nat) (x : Page) (s t : Dev) : Prop
    where
  rest : t =
    { s with
      flash := s.flash.write b p x
      clock := s.clock + 3
      buf := { s.buf with entry := t.buf.entry }
      watch := t.watch }
  entry : ∀ j, j ≠ c → t.buf.entry j = s.buf.entry j
  empty : (t.buf.entry c).mark = .empty ∧
    (t.buf.entry c).refCount = 0

/- The read back of a page that holds the right data. -/
theorem wp_verifyPageData
    {s : Dev}
    {c : Nat}
    {rest : List Nat}
    (block page : Nat)
    (data : List Byte)
    (hGood : GoodFrom s.clock)
    (hSpare : 0 < s.spareFree)
    (hClone : s.buf.clone = c :: rest)
    (hData : (s.flash.page block page).data = data) :
    wp (verifyPageData block page data)
      (fun r es t =>
        r = false ∧ es = [] ∧
          t = { s with
            clock := s.clock + 1
            buf := { s.buf with entry := t.buf.entry } } ∧
          (∀ j, j ≠ c → t.buf.entry j = s.buf.entry j) ∧
          (t.buf.entry c).mark = .empty ∧
            (t.buf.entry c).refCount = 0) s := by
  unfold verifyPageData
  refine wp_seq (wp_bufClone hClone) ?_
  intro _ _ s₁ h₁
  rcases h₁ with ⟨rfl, rfl, hs₁⟩
  have hGood₁ : GoodFrom s₁.clock := by
    rw [hs₁]
    exact hGood
  have hSpare₁ : 0 < s₁.spareFree := by
    rw [hs₁]
    exact hSpare
  refine wp_seq (wp_flashReadPage block page c false hGood₁
    hSpare₁) ?_
  intro _ _ s₂ h₂
  rcases h₂ with ⟨rfl, rfl, hs₂⟩
  have hEntry : (s₂.buf.entry c).data = data := by
    rw [hs₂, hs₁]
    simp [hData]
  have hMark : (s₂.buf.entry c).refCount = cloneBufMark := by
    rw [hs₂, hs₁]
    simp
  simp only [getBuf, wp_bind, wp_gets, hEntry, ne_eq,
    not_true_eq_false, decide_false, Bool.and_false,
    Bool.false_eq_true, if_false, FlashRet.isBadBlock]
  refine wp_mono (wp_bufFreeClone hMark) ?_
  intro _ _ t ht
  rcases ht with ⟨_, rfl, ht⟩
  simp only [wp_pure, List.append_nil, true_and]
  refine ⟨?_, ?_, ?_⟩
  · rw [ht, hs₂, hs₁]
    simp only [hClone]
  · intro j hj
    rw [ht, hs₂, hs₁]
    simp [upd_other _ _ hj]
  · rw [ht]
    simp

theorem wp_flashWritePageCombine
    {s : Dev}
    {c : Nat}
    {rest : List Nat}
    (block page i : Nat)
    (tag : Tag)
    (hGood : GoodFrom s.clock)
    (hSpare : 2 ≤ s.spareFree)
    (hClone : s.buf.clone = c :: rest) :
    wp (flashWritePageCombine block page i tag)
      (fun r es t =>
        r = .noErr ∧
          es = [.wrote block page ((s.buf.entry i).image tag)] ∧
          Writes block page c ((s.buf.entry i).image tag) s t)
      s := by
  have hNe : s.spareFree ≠ 0 := by omega
  have hRet := hGood s.clock (Nat.le_refl _)
  unfold flashWritePageCombine
  simp only [spareGet, getBuf, driverWritePage, nextAnswer,
    medium, watchTag, wp_bind, wp_get, wp_gets, wp_modify,
    wp_pure, wp_emit, hNe, Option.isSome_some, if_false, Bool.not_true, Bool.false_eq_true,
    hRet, FlashRet.haveErr, Bool.not_false, if_true]
  refine wp_mono (wp_verifyPageData block page
    (s.buf.entry i).data (hGood.mono (Nat.le_succ _))
    (Nat.sub_pos_of_lt hSpare) hClone ?_) ?_
  · simp [Event.apply]
  intro _ _ s₁ h₁
  rcases h₁ with ⟨rfl, rfl, hs₁, hEntry, hMark, hRef⟩
  have hGood₁ : GoodFrom s₁.clock := by
    rw [hs₁]
    exact hGood.mono (by simp; omega)
  have hSpare₁ : 0 < s₁.spareFree := by
    rw [hs₁]
    exact Nat.sub_pos_of_lt hSpare
  refine wp_mono (wp_flashReadPageTag block page tag hGood₁
    hSpare₁) ?_
  intro p _ t ht
  rcases p with ⟨ret, chk⟩
  rcases ht with ⟨hEq, rfl, ht⟩
  have hTag : (s₁.flash.page block page).tag = tag := by
    rw [hs₁]
    simp [Event.apply]
  rw [hTag] at hEq
  cases hEq
  simp only [sparePut, wp_modify, wp_pure, Bool.not_false,
    Bool.true_and, ne_eq, not_true_eq_false, decide_false, Bool.false_eq_true,
    if_false, Bool.or_self, reduceCtorEq, List.nil_append,
    List.append_nil, true_and]
  have hBack : s.spareFree - 1 + 1 = s.spareFree := by omega
  refine ⟨rfl, ?_, ?_, ?_⟩
  · rw [ht, hs₁]
    simp only [hBack]
    rfl
  · intro j hj
    rw [ht]
    exact hEntry j hj
  · rw [ht]
    exact ⟨hMark, hRef⟩

------------------------------------------------------------
-- Pages Written through the Cache
------------------------------------------------------------

/- The device after `setTag`. -/
def Dev.putTag (s : Dev) (i p : Nat) (tag : Tag) : Dev :=
  { s with
    bc := { s.bc with
      info := upd s.bc.info i
        { s.bc.info i with
          spares := upd (s.bc.info i).spares p
            { (s.bc.info i).spares p with tag := tag } } } }

omit [Platform] in
theorem wp_setTag
    {s : Dev}
    (i p : Nat)
    (tag : Tag)
    (Q : Unit → List Event → Dev → Prop) :
    wp (setTag i p tag) Q s ↔ Q () [] (s.putTag i p tag) :=
  wp_modify _ _ _

omit [Platform] in
@[simp] theorem Dev.putTag_block
    (s : Dev)
    (i j p : Nat)
    (tag : Tag) :
    ((s.putTag i p tag).bc.info j).block =
      (s.bc.info j).block := by
  by_cases hji : j = i
  · subst hji
    simp [Dev.putTag]
  · simp [Dev.putTag, upd_other _ _ hji]

/- The device when the tag of a page is not trusted. -/
def Dev.forget (s : Dev) (i p : Nat) : Dev :=
  { s with
    bc := { s.bc with
      info := upd s.bc.info i
        { s.bc.info i with
          spares := upd (s.bc.info i).spares p
            { (s.bc.info i).spares p with expired := true } } } }

omit [Platform] in
@[simp] theorem Dev.forget_block
    (s : Dev)
    (i j p : Nat) :
    ((s.forget i p).bc.info j).block =
      (s.bc.info j).block := by
  by_cases hji : j = i
  · subst hji
    simp [Dev.forget]
  · simp [Dev.forget, upd_other _ _ hji]

omit [Platform] in
@[simp] theorem Dev.forget_refCount
    (s : Dev)
    (i j p : Nat) :
    ((s.forget i p).bc.info j).refCount =
      (s.bc.info j).refCount := by
  by_cases hji : j = i
  · subst hji
    simp [Dev.forget]
  · simp [Dev.forget, upd_other _ _ hji]

omit [Platform] in
theorem Dev.forget_other
    (s : Dev)
    {i j : Nat}
    (p : Nat)
    (h : j ≠ i) :
    (s.forget i p).bc.info j = s.bc.info j :=
  upd_other _ _ h

omit [Platform] in
theorem Dev.forget_spares
    (s : Dev)
    (i : Nat)
    {p q : Nat}
    (h : q ≠ p) :
    ((s.forget i p).bc.info i).spares q =
      (s.bc.info i).spares q := by
  simp [Dev.forget, upd_other _ _ h]

omit [Platform] in
theorem Dev.forget_expired
    (s : Dev)
    (i p : Nat) :
    (((s.forget i p).bc.info i).spares p).expired = true := by
  simp [Dev.forget]

/- Nothing is lost by not trusting a page. -/
theorem Calm.forget
    {s : Dev}
    {H : Nat → Nat}
    (hCalm : Calm s H)
    (i p : Nat) : Calm (s.forget i p) H := by
  refine ⟨hCalm.good, hCalm.spare, hCalm.clone, hCalm.two,
    hCalm.nodup, ?_, ?_, ?_⟩
  · intro j hj q hq hKept
    have hFresh := hCalm.fresh j hj q hq
    rw [Dev.forget_block]
    by_cases hji : j = i
    · subst hji
      by_cases hqp : q = p
      · subst hqp
        rw [Dev.forget_expired] at hKept
        cases hKept
      · rw [Dev.forget_spares _ _ hqp] at hKept ⊢
        exact hFresh hKept
    · rw [Dev.forget_other _ _ hji] at hKept
      rw [Dev.forget_other _ _ hji]
      exact hFresh hKept
  · intro j hj k hk
    rw [Dev.forget_block, Dev.forget_block]
    exact hCalm.unique j hj k hk
  · intro j hj
    rw [Dev.forget_refCount]
    exact hCalm.refs j hj

/- What is known of the cache when one page is not trusted. -/
theorem Calm.forgotten
    {s : Dev}
    {H : Nat → Nat}
    {i p : Nat}
    (hCalm : Calm (s.forget i p) H) :
    (∀ j ∈ s.bc.list, ∀ q < pagesPerBlock, (j = i → q ≠ p) →
      ((s.bc.info j).spares q).expired = false →
        ((s.bc.info j).spares q).tag =
          (s.flash.page (s.bc.info j).block q).tag) ∧
      (∀ j ∈ s.bc.list, ∀ k ∈ s.bc.list,
        (s.bc.info j).block = (s.bc.info k).block →
          (s.bc.info j).block ≠ invalidBlock → j = k) ∧
      ∀ j ∈ s.bc.list, (s.bc.info j).refCount = H j := by
  refine ⟨?_, ?_, ?_⟩
  · intro j hj q hq hApart hKept
    have hFresh := hCalm.fresh j hj q hq
    rw [Dev.forget_block] at hFresh
    by_cases hji : j = i
    · subst hji
      rw [Dev.forget_spares _ _ (hApart rfl)] at hFresh
      exact hFresh hKept
    · rw [Dev.forget_other _ _ hji] at hFresh
      exact hFresh hKept
  · intro j hj k hk
    have hUnique := hCalm.unique j hj k hk
    rw [Dev.forget_block, Dev.forget_block] at hUnique
    exact hUnique
  · intro j hj
    have hRefs := hCalm.refs j hj
    rw [Dev.forget_refCount] at hRefs
    exact hRefs

/-
  A device is calm but for one page when its cache differs
  from that of a calm one in the tag of this page only.
-/
theorem Calm.forget_of
    {s t : Dev}
    {H : Nat → Nat}
    {i p : Nat}
    (hCalm : Calm (s.forget i p) H)
    (hClock : s.clock ≤ t.clock)
    (hSpare : t.spareFree = s.spareFree)
    (hClone : t.buf.clone ≠ [])
    (hFlash : t.flash = s.flash)
    (hList : t.bc.list = s.bc.list)
    (hOther : ∀ j, j ≠ i → t.bc.info j = s.bc.info j)
    (hBlock : (t.bc.info i).block = (s.bc.info i).block)
    (hRef : (t.bc.info i).refCount = (s.bc.info i).refCount)
    (hSpares : ∀ q, q ≠ p →
      (t.bc.info i).spares q = (s.bc.info i).spares q) :
    Calm (t.forget i p) H := by
  have hBlocks : ∀ j, ((t.forget i p).bc.info j).block =
      ((s.forget i p).bc.info j).block := by
    intro j
    rw [Dev.forget_block, Dev.forget_block]
    by_cases hji : j = i
    · rw [hji, hBlock]
    · rw [hOther j hji]
  have hMem : ∀ {j}, j ∈ (t.forget i p).bc.list →
      j ∈ (s.forget i p).bc.list := by
    intro j hj
    have hIn : j ∈ t.bc.list := hj
    rw [hList] at hIn
    exact hIn
  refine ⟨hCalm.good.mono hClock, ?_, ?_, ?_, ?_, ?_, ?_, ?_⟩
  · exact Nat.le_trans hCalm.spare (Nat.le_of_eq hSpare.symm)
  · exact hClone
  · have hTwo : 2 ≤ s.bc.list.length := hCalm.two
    rw [← hList] at hTwo
    exact hTwo
  · have hNodup : s.bc.list.Nodup := hCalm.nodup
    rw [← hList] at hNodup
    exact hNodup
  · intro j hj q hq hKept
    have hFresh := hCalm.fresh j (hMem hj) q hq
    rw [Dev.forget_block] at hFresh
    rw [hBlocks j, Dev.forget_block]
    change _ = (t.flash.page _ q).tag
    rw [hFlash]
    by_cases hji : j = i
    · subst hji
      by_cases hqp : q = p
      · subst hqp
        rw [Dev.forget_expired] at hKept
        cases hKept
      · rw [Dev.forget_spares _ _ hqp] at hKept hFresh ⊢
        rw [hSpares q hqp] at hKept ⊢
        exact hFresh hKept
    · rw [Dev.forget_other _ _ hji] at hKept hFresh ⊢
      rw [hOther j hji] at hKept ⊢
      exact hFresh hKept
  · intro j hj k hk hEq hValid
    rw [hBlocks] at hEq hValid
    rw [hBlocks] at hEq
    exact hCalm.unique j (hMem hj) k (hMem hk) hEq hValid
  · intro j hj
    have hRefs := hCalm.refs j (hMem hj)
    rw [Dev.forget_refCount] at hRefs ⊢
    by_cases hji : j = i
    · rw [hji, hRef, ← hji]
      exact hRefs
    · rw [hOther j hji]
      exact hRefs

/-
  The tag of a page is put into the cache and the page is
  written with it.
-/
theorem Calm.writes_forgotten
    {s t : Dev}
    {H : Nat → Nat}
    {i p c : Nat}
    {x : Page}
    (hCalm : Calm (s.forget i p) H)
    (hMem : i ∈ s.bc.list)
    (hBlock : (s.bc.info i).block ≠ invalidBlock)
    (hst : Writes (s.bc.info i).block p c x
      (s.putTag i p x.tag) t) :
    Calm t H := by
  rcases hCalm.forgotten with ⟨hFresh, hUnique, hRefs⟩
  have hRest := hst.rest
  have hClock : t.clock = s.clock + 3 := by
    rw [hRest]
    rfl
  have hSpare : t.spareFree = s.spareFree := by
    rw [hRest]
    rfl
  have hClones : t.buf.clone = s.buf.clone := by
    rw [hRest]
    rfl
  have hBc : t.bc = (s.putTag i p x.tag).bc := by
    rw [hRest]
  have hFlash : t.flash =
      s.flash.write (s.bc.info i).block p x := by
    rw [hRest]
    rfl
  have hList : t.bc.list = s.bc.list := by
    rw [hBc]
    rfl
  have hInfo : ∀ j, (t.bc.info j).block = (s.bc.info j).block ∧
      (t.bc.info j).refCount = (s.bc.info j).refCount := by
    intro j
    rw [hBc]
    unfold Dev.putTag
    by_cases hji : j = i
    · subst hji
      simp
    · simp [upd_other _ _ hji]
  refine ⟨?_, ?_, ?_, ?_, ?_, ?_, ?_, ?_⟩
  · rw [hClock]
    exact hCalm.good.mono (Nat.le_add_right s.clock 3)
  · rw [hSpare]
    exact hCalm.spare
  · rw [hClones]
    exact hCalm.clone
  · rw [hList]
    exact hCalm.two
  · rw [hList]
    exact hCalm.nodup
  · intro j hj q hq hKept
    rw [hList] at hj
    rw [(hInfo j).1, hFlash]
    by_cases hji : j = i
    · subst hji
      rw [hBc] at hKept ⊢
      simp only [Dev.putTag, upd_same] at hKept ⊢
      by_cases hqp : q = p
      · subst hqp
        simp [Flash.write]
      · rw [upd_other _ _ hqp] at hKept ⊢
        simp only [Flash.write, upd_same, upd_other _ _ hqp]
        exact hFresh j hj q hq (fun _ => hqp) hKept
    · have hSame : t.bc.info j = s.bc.info j := by
        rw [hBc]
        exact upd_other _ _ hji
      rw [hSame] at hKept ⊢
      have hApart : (s.bc.info j).block ≠
          (s.bc.info i).block := by
        intro hEq
        apply hji
        apply hUnique j hj i hMem hEq
        rw [hEq]
        exact hBlock
      simp only [Flash.write, upd_other _ _ hApart]
      exact hFresh j hj q hq (fun hEq => absurd hEq hji) hKept
  · intro j hj k hk hEq hValid
    rw [hList] at hj hk
    rw [(hInfo j).1] at hEq hValid
    rw [(hInfo k).1] at hEq
    exact hUnique j hj k hk hEq hValid
  · intro j hj
    rw [hList] at hj
    rw [(hInfo j).2]
    exact hRefs j hj

/- The same, when the cache was right before. -/
theorem Calm.writes
    {s t : Dev}
    {H : Nat → Nat}
    {i p c : Nat}
    {x : Page}
    (hCalm : Calm s H)
    (hMem : i ∈ s.bc.list)
    (hBlock : (s.bc.info i).block ≠ invalidBlock)
    (hst : Writes (s.bc.info i).block p c x
      (s.putTag i p x.tag) t) :
    Calm t H :=
  (hCalm.forget i p).writes_forgotten hMem hBlock hst

------------------------------------------------------------
-- Appending Pages
------------------------------------------------------------

/- The first erased page from `page` on. -/
def firstErased (τ : Nat → Tag) : Nat → Nat → Nat
| 0, page => page
| n + 1, page =>
    if (τ page).isErased then
      page
    else
      firstErased τ n (page + 1)

theorem yields_findErasedPageFrom
    (i n : Nat) :
    ∀ (s : Dev) (page : Nat),
      Readable s i →
      page + n ≤ pagesPerBlock →
      Yields i (findErasedPageFrom i n page)
        (firstErased (s.tags i) n page) s := by
  induction n with
  | zero =>
      intro s page _ _
      exact Yields.pure _
  | succ n ih =>
      intro s page hReady hLe
      unfold findErasedPageFrom firstErased
      apply Yields.bind (yields_isPageErased hReady (by omega))
      intro t hst
      by_cases hErased : (s.tags i page).isErased = true
      · rw [if_pos hErased, if_pos hErased]
        exact Yields.pure _
      · rw [if_neg hErased, if_neg hErased]
        have hNext := ih t (page + 1) (hst.readable hReady)
          (by omega)
        rw [hst.tags] at hNext
        exact hNext

/-
  The events of a flush into free pages: pages of block `b`
  are programmed, from page `k` on and upwards, and they were
  erased on the flash `F`.
-/
def Appending (F : Flash) (b : Nat) : Nat → List Event → Prop
| _, [] => True
| k, e :: es =>
    ∃ p c, e = .wrote b p c ∧ k ≤ p ∧ p < pagesPerBlock ∧
      (F.tags b p).isErased ∧ Appending F b (p + 1) es

/- The tag that an appended page gets. -/
def appendTag (x : Buf) (stamp : Nat) : Tag :=
  Tag.store x.type stamp x.dataLen x.serial x.parent x.pageId

end Uffs
