import Uffs.Good.Append
import Uffs.Model.Emulator

/-
  Appending a dirty group to a block, whatever the driver
  answers when tags are read.

  A tag that is loaded is not read again, so that a page that
  was counted as free is found again.  Other pages may be
  read differently at each try.

  Main declarations:
    * `Dev.freeAt`, `Dev.knownTag`, `Peeks`
    * `freeFrom`, `wp_getFreePagesCount_le`
    * `BufPool.WellFormed`, `Placed`
    * `wlpe_enoughFrom`
    * `bufFlushExistWithEnoughFreePage_complete`
-/

namespace Uffs

open Prog

section Append

variable [Platform]

------------------------------------------------------------
-- Reading Tags
------------------------------------------------------------

/- The tag of a page, as it is kept or else as it is on flash. -/
def Dev.knownTag (s : Dev) (i p : Nat) : Tag :=
  if ((s.bc.info i).spares p).expired then
    (s.flash.page (s.bc.info i).block p).tag
  else
    ((s.bc.info i).spares p).tag

/- The tag of the page is kept and is that of an erased page. -/
def Dev.freeAt (s : Dev) (i p : Nat) : Bool :=
  !((s.bc.info i).spares p).expired &&
    ((s.bc.info i).spares p).tag.isErased

/- Tags of entry `i` are read, and kept if that succeeds. -/
structure Peeks (i : Nat) (s t : Dev) : Prop where
  flash : t.flash = s.flash
  buf : t.buf = s.buf
  block : (t.bc.info i).block = (s.bc.info i).block
  kept : ∀ p, ((s.bc.info i).spares p).expired = false →
    (t.bc.info i).spares p = (s.bc.info i).spares p
  loaded : ∀ p, ((t.bc.info i).spares p).expired = false →
    ((t.bc.info i).spares p).tag = s.knownTag i p

namespace Peeks

variable {i p : Nat} {s t u : Dev}

omit [Platform]

theorem knownTag (h : Peeks i s t) :
    t.knownTag i p = s.knownTag i p := by
  cases hOld : ((s.bc.info i).spares p).expired with
  | false =>
      unfold Dev.knownTag
      rw [h.kept p hOld]
      rw [hOld, if_neg Bool.false_ne_true,
        if_neg Bool.false_ne_true]
  | true =>
      cases hNew : ((t.bc.info i).spares p).expired with
      | false =>
          rw [← h.loaded p hNew]
          unfold Dev.knownTag
          rw [hNew, if_neg Bool.false_ne_true]
      | true =>
          unfold Dev.knownTag
          rw [hOld, hNew, if_pos rfl, if_pos rfl, h.flash,
            h.block]

theorem refl (i : Nat) (s : Dev) : Peeks i s s where
  flash := rfl
  buf := rfl
  block := rfl
  kept := fun _ _ => rfl
  loaded := by
    intro p hp
    unfold Dev.knownTag
    rw [hp, if_neg Bool.false_ne_true]

theorem trans
    (h : Peeks i s t)
    (h' : Peeks i t u) : Peeks i s u where
  flash := h'.flash.trans h.flash
  buf := h'.buf.trans h.buf
  block := h'.block.trans h.block
  kept := by
    intro p hp
    have hKept := h.kept p hp
    have hp' : ((t.bc.info i).spares p).expired = false := by
      rw [hKept]
      exact hp
    exact (h'.kept p hp').trans hKept
  loaded := by
    intro p hp
    rw [h'.loaded p hp]
    exact h.knownTag

/- A free page stays free. -/
theorem freeAt
    (h : Peeks i s t)
    (hFree : s.freeAt i p = true) : t.freeAt i p = true := by
  unfold Dev.freeAt at hFree ⊢
  rw [Bool.and_eq_true, Bool.not_eq_true'] at hFree
  rw [h.kept p hFree.1, hFree.1, hFree.2]
  rfl

/- A page that is free now was known to be erased. -/
theorem erased
    (h : Peeks i s t)
    (hFree : t.freeAt i p = true) :
    (s.knownTag i p).isErased = true := by
  unfold Dev.freeAt at hFree
  rw [Bool.and_eq_true, Bool.not_eq_true'] at hFree
  rw [← h.loaded p hFree.1]
  exact hFree.2

end Peeks

/- The program returns, emits nothing and only reads tags. -/
def Peeking
    {α : Type}
    (i : Nat)
    (m : M α)
    (P : α → Dev → Dev → Prop)
    (s : Dev) : Prop :=
  wp m (fun a es t => es = [] ∧ Peeks i s t ∧ P a s t) s

namespace Peeking

variable {α β : Type} {i : Nat} {s : Dev} {m : M α}
  {f : α → M β} {P : α → Dev → Dev → Prop}
  {P' : β → Dev → Dev → Prop}

omit [Platform]

theorem pure {a : α} (h : P a s s) :
    Peeking i (Pure.pure a) P s := by
  unfold Peeking
  rw [wp_pure]
  exact ⟨rfl, Peeks.refl i s, h⟩

theorem gets_bind
    {g : Dev → α}
    (h : Peeking i (f (g s)) P' s) :
    Peeking i (Prog.gets g >>= f) P' s := by
  unfold Peeking
  rw [wp_bind, wp_gets]
  exact h

theorem bind
    (hm : Peeking i m P s)
    (hf : ∀ a t, Peeks i s t → P a s t →
      Peeking i (f a) (fun b _ u => P' b s u) t) :
    Peeking i (m >>= f) P' s := by
  unfold Peeking at hm ⊢
  refine wp_seq hm ?_
  intro a es t ht
  rcases ht with ⟨hEs, hst, ha⟩
  refine wp_mono (hf a t hst ha) ?_
  intro b fs u hu
  rcases hu with ⟨hFs, htu, hb⟩
  rw [hEs, hFs]
  exact ⟨rfl, hst.trans htu, hb⟩

theorem mono
    {Q : α → Dev → Dev → Prop}
    (h : Peeking i m P s)
    (hPQ : ∀ a t, Peeks i s t → P a s t → Q a s t) :
    Peeking i m Q s := by
  refine wp_mono h ?_
  intro a es t ht
  exact ⟨ht.1, ht.2.1, hPQ a t ht.2.1 ht.2.2⟩

end Peeking

/- A read of a tag, whatever comes of it. -/
theorem wp_flashReadPageTag_any
    (block page : Nat)
    (tag : Tag)
    (s : Dev) :
    wp (flashReadPageTag block page tag)
      (fun q es t => es = [] ∧
        t = { s with clock := t.clock, watch := t.watch } ∧
        (q.1.haveErr = false →
          q.2 = (s.flash.page block page).tag)) s := by
  unfold flashReadPageTag spareGet sparePut nextAnswer watchTag
  by_cases hNone : s.spareFree = 0
  · simp only [wp_bind, wp_get, if_pos hNone, wp_pure,
      Bool.not_false, if_true, true_and]
    exact ⟨rfl, fun hOk => Bool.noConfusion hOk⟩
  · have hBack : s.spareFree - 1 + 1 = s.spareFree := by omega
    simp only [wp_bind, wp_get, if_neg hNone, wp_modify, wp_pure,
      Bool.not_true, Bool.false_eq_true, if_false, hBack]
    generalize (if (s.flash.page block page).tag.sealed = true
      then (Platform.answer s.clock).ret
      else (Platform.answer s.clock).ret.raw) = ret
    split
    · rename_i hErr
      simp [hErr]
    · simp

/- The tag of one page is kept, or fails to be. -/
theorem peeking_blockInfoLoad (i page : Nat) (s : Dev) :
    Peeking i (blockInfoLoad i page)
      (fun r _ t => page < pagesPerBlock →
        (r = .succ ↔
          ((t.bc.info i).spares page).expired = false)) s := by
  unfold blockInfoLoad
  split
  · apply Peeking.pure
    intro hLt
    omega
  unfold getInfo
  apply Peeking.gets_bind
  split
  · rename_i hKept
    apply Peeking.pure
    intro _
    rw [Bool.not_eq_true'] at hKept
    exact iff_of_true rfl hKept
  rename_i hExpired
  rw [Bool.not_eq_true', Bool.not_eq_false] at hExpired
  unfold Peeking
  refine wp_seq (wp_flashReadPageTag_any _ _ _ s) ?_
  intro q es t ht
  rcases q with ⟨ret, tag⟩
  rcases ht with ⟨hEs, ht, hTag⟩
  have hReport : wp (badBlockAddByFlashResult
      (s.bc.info i).block ret)
      (fun _ fs u => fs = [] ∧
        u = { t with pending := u.pending }) t := by
    unfold badBlockAddByFlashResult badBlockAdd
    cases pendingType ret with
    | none => simp
    | some mark => simp
  dsimp only
  refine wp_seq hReport ?_
  intro _ fs u hu
  rcases hu with ⟨hFs, hu⟩
  have hInfo : u.bc = s.bc := by
    rw [hu, ht]
  have hFlash : u.flash = s.flash := by
    rw [hu, ht]
  have hBuf : u.buf = s.buf := by
    rw [hu, ht]
  -- the page gets `x` in the place of its expired entry
  have hSet : ∀ (r : URet) (f : BlockInfo → BlockInfo) x,
      (f (u.bc.info i)).block = (u.bc.info i).block →
      (f (u.bc.info i)).spares =
        upd (u.bc.info i).spares page x →
      (x.expired = false →
        x.tag = (s.flash.page (s.bc.info i).block page).tag) →
      (r = .succ ↔ x.expired = false) →
      wp (do setInfo i f; Pure.pure r)
        (fun r gs v => es ++ (fs ++ gs) = [] ∧ Peeks i s v ∧
          (page < pagesPerBlock →
            (r = .succ ↔
              ((v.bc.info i).spares page).expired = false)))
        u := by
    intro r f x hBlock hSpares hx hr
    unfold setInfo
    rw [wp_bind, wp_modify, wp_pure]
    rw [hEs, hFs]
    refine ⟨rfl, ?_, ?_⟩
    · constructor
      · exact hFlash
      · exact hBuf
      · dsimp only
        rw [upd_same, hBlock, hInfo]
      · intro p hp
        have hpp : p ≠ page := by
          intro hEq
          rw [hEq, hExpired] at hp
          cases hp
        dsimp only
        rw [upd_same, hSpares, upd_other _ _ hpp, hInfo]
      · intro p hp
        dsimp only at hp ⊢
        rw [upd_same, hSpares, hInfo] at hp ⊢
        unfold Dev.knownTag
        by_cases hpp : p = page
        · rw [hpp, upd_same] at hp ⊢
          rw [hExpired, if_pos rfl]
          exact hx hp
        · rw [upd_other _ _ hpp] at hp ⊢
          rw [hp, if_neg Bool.false_ne_true]
    · intro _
      dsimp only
      rw [upd_same, hSpares, upd_same]
      exact hr
  split
  · unfold setTag
    refine hSet .fail _
      { (u.bc.info i).spares page with tag := tag } rfl rfl
      ?_ ?_
    · rw [hInfo]
      intro hKept
      exact absurd hKept (by simp [hExpired])
    · rw [hInfo]
      dsimp only
      rw [hExpired]
      exact iff_of_false URet.noConfusion Bool.noConfusion
  · rename_i hOk
    rw [Bool.not_eq_true] at hOk
    refine hSet .succ _ { tag := tag, expired := false } rfl rfl
      ?_ ?_
    · intro _
      exact hTag hOk
    · exact iff_of_true rfl rfl

/- Is the page free, once its tag has been asked for? -/
theorem peeking_isPageErased
    {i page : Nat}
    (s : Dev)
    (hPage : page < pagesPerBlock) :
    Peeking i (isPageErased i page)
      (fun r _ t => r = t.freeAt i page) s := by
  unfold isPageErased
  apply Peeking.bind (peeking_blockInfoLoad i page s)
  intro r t _ hr
  have hLoaded := hr hPage
  cases r with
  | fail =>
      apply Peeking.pure
      cases hExpired :
          ((t.bc.info i).spares page).expired with
      | false =>
          have hSucc := hLoaded.mpr hExpired
          cases hSucc
      | true =>
          unfold Dev.freeAt
          rw [hExpired]
          rfl
  | succ =>
      have hExpired := hLoaded.mp rfl
      unfold getTag
      apply Peeking.gets_bind
      apply Peeking.pure
      unfold Dev.freeAt
      rw [hExpired]
      rfl

/- The time stamp is read from the first page. -/
theorem peeking_getBlockTimeStamp (i : Nat) (s : Dev) :
    Peeking i (getBlockTimeStamp i) (fun _ _ _ => True) s := by
  unfold getBlockTimeStamp isThisBlockUsed getTag
  apply Peeking.bind (P := fun _ _ _ => True)
  · apply Peeking.bind (peeking_blockInfoLoad i 0 s)
    intro _ t _ _
    apply Peeking.gets_bind
    exact Peeking.pure trivial
  · intro used t _ _
    split
    · exact Peeking.pure trivial
    · apply Peeking.bind (peeking_blockInfoLoad i 0 t)
      intro _ u _ _
      apply Peeking.gets_bind
      exact Peeking.pure trivial

------------------------------------------------------------
-- Free Pages
------------------------------------------------------------

/- The free pages among `n` pages from `page` on. -/
def Dev.freeFrom (s : Dev) (i page n : Nat) : Nat :=
  (List.range' page n).countP fun p => s.freeAt i p

omit [Platform] in
theorem Dev.freeFrom_succ
    (s : Dev)
    (i page n : Nat) :
    s.freeFrom i page (n + 1) =
      s.freeFrom i (page + 1) n +
        if s.freeAt i page then 1 else 0 := by
  unfold freeFrom
  rw [List.range'_succ, List.countP_cons]

omit [Platform] in
theorem Peeks.freeFrom_le
    {i : Nat}
    {s t : Dev}
    (h : Peeks i s t)
    (page n : Nat) :
    s.freeFrom i page n ≤ t.freeFrom i page n := by
  unfold Dev.freeFrom
  apply List.countP_mono_left
  intro p _ hFree
  exact h.freeAt hFree

/- The count is at most the number of free pages. -/
theorem peeking_getFreePagesFrom
    (i n : Nat) :
    ∀ count s, n ≤ pagesPerBlock →
      Peeking i (getFreePagesFrom i n count)
        (fun r _ t => r ≤ count + t.freeFrom i 0 n) s := by
  induction n with
  | zero =>
      intro count s _
      apply Peeking.pure
      exact Nat.le_add_right _ _
  | succ n ih =>
      intro count s hLe
      have hSplit : ∀ t : Dev, t.freeFrom i 0 (n + 1) =
          t.freeFrom i 0 n +
            if t.freeAt i n then 1 else 0 := by
        intro t
        unfold Dev.freeFrom
        rw [List.range'_concat, List.countP_append,
          List.countP_singleton, Nat.zero_add, Nat.one_mul]
      unfold getFreePagesFrom getTag
      apply Peeking.bind (peeking_blockInfoLoad i n s)
      intro _ t _ _
      apply Peeking.bind (peeking_isPageErased t (by omega))
      intro r u _ hr
      split
      · rename_i hFree
        rw [hr] at hFree
        apply Peeking.mono (ih (count + 1) u (by omega))
        intro r v huv hCount
        rw [hSplit, huv.freeAt hFree, if_pos rfl]
        omega
      · apply Peeking.gets_bind
        split
        · apply Peeking.pure
          exact Nat.le_add_right _ _
        · apply Peeking.mono (ih count u (by omega))
          intro r v _ hCount
          rw [hSplit]
          omega

/- No page that is free is passed over. -/
theorem peeking_findErasedPageFrom
    (i n : Nat) :
    ∀ page s, page + n ≤ pagesPerBlock →
      Peeking i (findErasedPageFrom i n page)
        (fun r s t => page ≤ r ∧ r ≤ page + n ∧
          (r < page + n → t.freeAt i r = true) ∧
          s.freeFrom i page n ≤
            t.freeFrom i r (page + n - r)) s := by
  induction n with
  | zero =>
      intro page s _
      apply Peeking.pure
      refine ⟨Nat.le_refl _, Nat.le_refl _, ?_, ?_⟩
      · intro hLt
        omega
      · exact Nat.zero_le _
  | succ n ih =>
      intro page s hLe
      unfold findErasedPageFrom
      apply Peeking.bind (peeking_isPageErased s (by omega))
      intro r t hst hr
      split
      · rename_i hFree
        apply Peeking.pure
        rw [hr] at hFree
        refine ⟨Nat.le_refl _, by omega, fun _ => hFree, ?_⟩
        rw [Nat.add_sub_cancel_left]
        exact hst.freeFrom_le page (n + 1)
      · rename_i hNot
        have hOld : s.freeAt i page = false := by
          rw [Bool.eq_false_iff]
          intro hFree
          apply hNot
          rw [hr]
          exact hst.freeAt hFree
        apply Peeking.mono (ih (page + 1) t (by omega))
        intro q u _ hq
        rcases hq with ⟨hFrom, hTo, hFree, hCount⟩
        have hLt := hst.freeFrom_le page (n + 1)
        refine ⟨by omega, by omega, ?_, ?_⟩
        · intro hq
          exact hFree (by omega)
        · have hRest := hst.freeFrom_le (page + 1) n
          have hEnd : page + 1 + n - q = page + (n + 1) - q := by
            omega
          rw [Dev.freeFrom_succ, hOld,
            if_neg Bool.false_ne_true]
          rw [hEnd] at hCount
          omega

------------------------------------------------------------
-- Writing a Page
------------------------------------------------------------

/- At most page `p` of block `b` and the clones change. -/
structure Alters (b p : Nat) (s t : Dev) : Prop where
  bc : t.bc = s.bc
  page : ∀ b' p', (b' = b → p' ≠ p) →
    t.flash.page b' p' = s.flash.page b' p'
  clone : t.buf.clone = s.buf.clone
  group : t.buf.group = s.buf.group
  entry : ∀ j, j ∉ s.buf.clone →
    t.buf.entry j = s.buf.entry j

namespace Alters

variable {b p : Nat} {s t u : Dev}

omit [Platform]

theorem trans
    (h : Alters b p s t)
    (h' : Alters b p t u) : Alters b p s u where
  bc := h'.bc.trans h.bc
  page := fun b' p' hp =>
    (h'.page b' p' hp).trans (h.page b' p' hp)
  clone := h'.clone.trans h.clone
  group := h'.group.trans h.group
  entry := by
    intro j hj
    rw [h'.entry j (by rw [h.clone]; exact hj), h.entry j hj]

/- Neither the cache nor the buffers change. -/
theorem of_flash
    (hBc : t.bc = s.bc)
    (hBuf : t.buf = s.buf)
    (hPage : ∀ b' p', (b' = b → p' ≠ p) →
      t.flash.page b' p' = s.flash.page b' p') :
    Alters b p s t where
  bc := hBc
  page := hPage
  clone := by rw [hBuf]
  group := by rw [hBuf]
  entry := fun _ _ => by rw [hBuf]

end Alters

/- The page write of the driver, whatever comes of it. -/
theorem wp_driverWritePage_any
    (b p : Nat)
    (x : Page)
    (s : Dev) :
    wp (driverWritePage b p x)
      (fun ret es t => Alters b p s t ∧
        ∃ left, es = [.program b p ret left] ∧
          (ret.haveErr = false → left = some x)) s := by
  have hPage : ∀ (ret : FlashRet) (left : Option Page) b' p',
      (b' = b → p' ≠ p) →
      ((Event.program b p ret left).apply s.flash).page b' p' =
        s.flash.page b' p' := by
    intro ret left b' p' hp
    cases left with
    | none => rfl
    | some c =>
        unfold Event.apply
        dsimp only
        by_cases hb : b' = b
        · rw [hb, upd_same, upd_other _ _ (hp hb)]
        · rw [upd_other _ _ hb]
  unfold driverWritePage nextAnswer medium watchTag
  simp only [wp_bind, wp_get, wp_modify, wp_pure, wp_emit]
  generalize hLeft :
    (if (!(Platform.answer s.clock).ret.haveErr) = true then
      some x
    else if (Platform.answer s.clock).done = true then
      some ((Platform.answer s.clock).junk p)
    else none) = left
  have hOk : (Platform.answer s.clock).ret.haveErr = false →
      left = some x := by
    intro hErr
    rw [← hLeft, hErr]
    rfl
  split
  · rw [wp_bind, wp_modify, wp_pure]
    exact ⟨.of_flash rfl rfl (hPage _ left), left, rfl, hOk⟩
  · rw [wp_pure]
    exact ⟨.of_flash rfl rfl (hPage _ left), left, rfl, hOk⟩

/- A page read into a buffer, whatever comes of it. -/
theorem wp_flashReadPage_any
    (b p i : Nat)
    (skipEcc : Bool)
    (s : Dev) :
    wp (flashReadPage b p i skipEcc)
      (fun _ es t => es = [] ∧ ∃ data,
        t = { s with
          clock := t.clock
          buf := { s.buf with
            entry := upd s.buf.entry i
              { s.buf.entry i with data := data } } }) s := by
  unfold flashReadPage spareGet sparePut nextAnswer setBuf
  by_cases hNone : s.spareFree = 0
  · have hSame : upd s.buf.entry i
        { s.buf.entry i with data := (s.buf.entry i).data } =
          s.buf.entry := by
      funext j
      by_cases hj : j = i
      · rw [hj, upd_same]
      · rw [upd_other _ _ hj]
    simp only [wp_bind, wp_get, if_pos hNone, wp_pure,
      Bool.not_false, if_true]
    refine ⟨rfl, (s.buf.entry i).data, ?_⟩
    rw [hSame]
  · have hBack : s.spareFree - 1 + 1 = s.spareFree := by omega
    simp only [wp_bind, wp_get, if_neg hNone, wp_modify, wp_pure,
      Bool.not_true, Bool.false_eq_true, if_false, hBack]
    exact ⟨rfl, _, rfl⟩

/- The read back into a clone, whatever comes of it. -/
theorem wp_verifyPageData_any
    (b p : Nat)
    (data : List Byte)
    (s : Dev) :
    wp (verifyPageData b p data)
      (fun _ es t => es = [] ∧ Alters b p s t) s := by
  unfold verifyPageData
  cases hClone : s.buf.clone with
  | nil =>
      unfold bufClone
      simp only [wp_bind, wp_get, hClone, wp_pure]
      exact ⟨rfl, .of_flash rfl rfl fun _ _ _ => rfl⟩
  | cons c rest =>
      refine wp_seq (wp_bufClone hClone) ?_
      intro o es s₁ h₁
      rcases h₁ with ⟨ho, hEs, hs₁⟩
      subst ho
      refine wp_seq (wp_flashReadPage_any b p c false s₁) ?_
      intro ret fs s₂ h₂
      rcases h₂ with ⟨hFs, x, hs₂⟩
      unfold getBuf
      rw [wp_bind, wp_gets]
      have hMark : (s₂.buf.entry c).refCount = cloneBufMark := by
        rw [hs₂, hs₁]
        dsimp only
        rw [upd_same, upd_same]
      refine wp_seq (wp_bufFreeClone hMark) ?_
      intro r gs t ht
      rcases ht with ⟨_, hGs, ht⟩
      rw [wp_pure, hEs, hFs, hGs]
      refine ⟨rfl, ?_⟩
      constructor
      · rw [ht, hs₂, hs₁]
      · intro b' p' _
        rw [ht, hs₂, hs₁]
      · rw [ht, hs₂, hs₁, hClone]
      · rw [ht, hs₂, hs₁]
      · intro j hj
        have hjc : j ≠ c := by
          intro hEq
          apply hj
          rw [hEq, hClone]
          exact List.mem_cons_self
        rw [ht, hs₂, hs₁]
        dsimp only
        rw [upd_other _ _ hjc, upd_other _ _ hjc,
          upd_other _ _ hjc]

/- A page write, whatever comes of it. -/
theorem wp_flashWritePageCombine_any
    (b p i : Nat)
    (tag : Tag)
    (s : Dev) :
    wp (flashWritePageCombine b p i tag)
      (fun x es t => Alters b p s t ∧
        (x.haveErr = false → ∃ ret,
          es = [.program b p ret
            (some ((s.buf.entry i).image tag))])) s := by
  unfold flashWritePageCombine spareGet getBuf sparePut
  by_cases hNone : s.spareFree = 0
  · simp only [wp_bind, wp_get, if_pos hNone, wp_pure,
      Bool.not_false, if_true]
    exact ⟨.of_flash rfl rfl fun _ _ _ => rfl,
      fun hOk => Bool.noConfusion hOk⟩
  simp only [wp_bind, wp_get, if_neg hNone, wp_modify, wp_pure,
    Bool.not_true, Bool.false_eq_true, if_false, wp_gets]
  refine wp_mono (wp_driverWritePage_any b p _ _) ?_
  intro ret es s₁ h₁
  rcases h₁ with ⟨hAlters₁, left, hEs, hLeft⟩
  have hs₁ : Alters b p s s₁ :=
    ⟨hAlters₁.bc, hAlters₁.page, hAlters₁.clone,
      hAlters₁.group, hAlters₁.entry⟩
  cases hErr : ret.haveErr with
  | true =>
      rw [if_pos rfl]
      simp only [wp_bind, wp_modify, wp_pure]
      refine ⟨⟨hs₁.bc, hs₁.page, hs₁.clone, hs₁.group,
        hs₁.entry⟩, ?_⟩
      intro hOk
      split at hOk
      · cases hOk
      · rw [hErr] at hOk
        cases hOk
  | false =>
      rw [if_neg Bool.false_ne_true]
      rw [wp_bind]
      refine wp_mono (wp_verifyPageData_any b p _ s₁) ?_
      intro isBad fs s₂ h₂
      rcases h₂ with ⟨hFs, hs₂⟩
      rw [wp_bind]
      refine wp_mono (wp_flashReadPageTag_any b p tag s₂) ?_
      intro q gs s₃ h₃
      rcases q with ⟨r, chk⟩
      rcases h₃ with ⟨hGs, hs₃, _⟩
      have hs₂₃ : Alters b p s₂ s₃ := by
        apply Alters.of_flash
        · rw [hs₃]
        · rw [hs₃]
        · intro b' p' _
          rw [hs₃]
      have hst := (hs₁.trans hs₂).trans hs₂₃
      have hAll : Alters b p s
          { s₃ with spareFree := s₃.spareFree + 1 } :=
        ⟨hst.bc, hst.page, hst.clone, hst.group, hst.entry⟩
      have hEvents : es = [.program b p ret
          (some ((s.buf.entry i).image tag))] := by
        rw [hEs, hLeft hErr]
        rfl
      simp only [wp_bind, wp_modify]
      rw [hEvents, hFs, hGs]
      apply wp_ite
      · rw [wp_pure]
        exact ⟨hAll, fun _ => ⟨ret, rfl⟩⟩
      · rw [wp_pure]
        exact ⟨hAll, fun _ => ⟨ret, rfl⟩⟩

------------------------------------------------------------
-- Dirty Groups
------------------------------------------------------------

/-
  A dirty group that counts its buffers, which are for
  different pages of one object and belong to no other group.
-/
structure BufPool.WellFormed
    (p : BufPool)
    (slot : Nat) : Prop where
  valid : slot < dirtyGroups
  count : (p.group slot).count = (p.group slot).dirty.length
  ids : (p.group slot).dirty.Pairwise fun d e =>
    (p.entry d).pageId ≠ (p.entry e).pageId
  marked : ∀ d ∈ (p.group slot).dirty,
    (p.entry d).mark = .dirty
  sameKey : ∀ d ∈ (p.group slot).dirty,
    ∀ e ∈ (p.group slot).dirty,
      (p.entry d).groupKey = (p.entry e).groupKey
  alone : ∀ slot', slot' ≠ slot →
    ∀ e ∈ (p.group slot').dirty, ∀ d ∈ (p.group slot).dirty,
      (p.entry e).groupKey ≠ (p.entry d).groupKey
  apart : ∀ slot', ∀ e ∈ (p.group slot').dirty, e ∉ p.clone

namespace BufPool

variable {p q : BufPool} {slot d : Nat}

theorem WellFormed.nodup (h : p.WellFormed slot) :
    (p.group slot).dirty.Nodup := by
  apply h.ids.imp
  intro d e hNe hEq
  rw [hEq] at hNe
  exact hNe rfl

/- Two buffers of the group are for different pages. -/
theorem WellFormed.ids_ne
    {e : Nat}
    (h : p.WellFormed slot)
    (hd : d ∈ (p.group slot).dirty)
    (he : e ∈ (p.group slot).dirty)
    (hNe : d ≠ e) :
    (p.entry d).pageId ≠ (p.entry e).pageId := by
  intro hEq
  apply hNe
  exact List.inj_on_of_nodup_map
    (List.pairwise_map.mpr h.ids) hd he hEq

/- The group of one of its buffers is found. -/
theorem WellFormed.findGroupSlot_eq
    (h : p.WellFormed slot)
    (hd : d ∈ (p.group slot).dirty) :
    p.findGroupSlot (p.entry d).parent (p.entry d).serial =
      some slot := by
  unfold findGroupSlot
  rw [List.find?_range_eq_some]
  refine ⟨?_, List.mem_range.mpr h.valid, ?_⟩
  · cases hDirty : (p.group slot).dirty with
    | nil =>
        rw [hDirty] at hd
        cases hd
    | cons e rest =>
        have he : e ∈ (p.group slot).dirty := by
          rw [hDirty]
          exact List.mem_cons_self
        have hKey := h.sameKey e he d hd
        unfold Buf.groupKey at hKey
        rw [Prod.mk.injEq] at hKey
        dsimp only
        rw [hKey.1, hKey.2, beq_self_eq_true,
          beq_self_eq_true]
        rfl
  · intro slot' hLt
    cases hDirty : (p.group slot').dirty with
    | nil => rfl
    | cons e rest =>
        have he : e ∈ (p.group slot').dirty := by
          rw [hDirty]
          exact List.mem_cons_self
        have hNe := h.alone slot' (Nat.ne_of_lt hLt) e he d hd
        dsimp only
        rw [Bool.not_eq_true', Bool.eq_false_iff]
        intro hBoth
        rw [Bool.and_eq_true, beq_iff_eq, beq_iff_eq] at hBoth
        apply hNe
        unfold Buf.groupKey
        rw [hBoth.1, hBoth.2]

/- At most the clones change. -/
theorem WellFormed.congr
    (h : p.WellFormed slot)
    (hClone : q.clone = p.clone)
    (hGroup : q.group = p.group)
    (hEntry : ∀ j, j ∉ p.clone → q.entry j = p.entry j) :
    q.WellFormed slot := by
  have hSame : ∀ slot', ∀ e ∈ (p.group slot').dirty,
      q.entry e = p.entry e :=
    fun slot' e he => hEntry e (h.apart slot' e he)
  constructor
  · exact h.valid
  · rw [hGroup]
    exact h.count
  · rw [hGroup]
    apply List.Pairwise.imp_of_mem _ h.ids
    intro d e hd he hNe
    rw [hSame slot d hd, hSame slot e he]
    exact hNe
  · rw [hGroup]
    intro d hd
    rw [hSame slot d hd]
    exact h.marked d hd
  · rw [hGroup]
    intro d hd e he
    rw [hSame slot d hd, hSame slot e he]
    exact h.sameKey d hd e he
  · rw [hGroup]
    intro slot' hNe e he d hd
    rw [hSame slot' e he, hSame slot d hd]
    exact h.alone slot' hNe e he d hd
  · rw [hGroup, hClone]
    exact h.apart

/- One buffer is taken off the group. -/
theorem WellFormed.clean
    (h : p.WellFormed slot)
    (hd : d ∈ (p.group slot).dirty)
    (hClone : q.clone = p.clone)
    (hGroup : q.group = (p.clean slot d id).group)
    (hEntry : ∀ j, j ∉ p.clone → j ≠ d →
      q.entry j = p.entry j) : q.WellFormed slot := by
  have hOwn : (q.group slot).dirty =
      (p.group slot).dirty.erase d := by
    rw [hGroup]
    unfold BufPool.clean
    dsimp only
    rw [upd_same]
  have hOther : ∀ slot', slot' ≠ slot →
      q.group slot' = p.group slot' := by
    intro slot' hNe
    rw [hGroup]
    exact upd_other _ _ hNe
  have hMem : ∀ {e}, e ∈ (q.group slot).dirty →
      e ∈ (p.group slot).dirty ∧ q.entry e = p.entry e := by
    intro e he
    rw [hOwn, h.nodup.mem_erase_iff] at he
    exact ⟨he.2, hEntry e (h.apart slot e he.2) he.1⟩
  constructor
  · exact h.valid
  · rw [hOwn, List.length_erase_of_mem hd, hGroup]
    have hPos := List.length_pos_of_mem hd
    have hCount := h.count
    unfold BufPool.clean
    dsimp only
    rw [upd_same]
    dsimp only
    omega
  · have hIds := h.ids.sublist (List.erase_sublist (a := d))
    rw [hOwn]
    apply List.Pairwise.imp_of_mem _ hIds
    intro e f he hf hNe
    rw [← hOwn] at he hf
    rw [(hMem he).2, (hMem hf).2]
    exact hNe
  · intro e he
    rw [(hMem he).2]
    exact h.marked e (hMem he).1
  · intro e he f hf
    rw [(hMem he).2, (hMem hf).2]
    exact h.sameKey e (hMem he).1 f (hMem hf).1
  · intro slot' hNe e he f hf
    rw [hOther slot' hNe] at he
    have hApart := h.apart slot' e he
    have hed : e ≠ d := by
      intro hEq
      rw [hEq] at he
      exact h.alone slot' hNe d he d hd rfl
    rw [hEntry e hApart hed, (hMem hf).2]
    exact h.alone slot' hNe e he f (hMem hf).1
  · intro slot' e he
    rw [hClone]
    by_cases hNe : slot' = slot
    · rw [hNe] at he
      exact h.apart slot e (hMem he).1
    · rw [hOther slot' hNe] at he
      exact h.apart slot' e he

end BufPool

------------------------------------------------------------
-- What Is Placed Where
------------------------------------------------------------

/- Is this a page write of the driver? -/
def Event.isProgram : Event → Bool
| .program _ _ _ _ => true
| _ => false

/-
  The buffers of a dirty group are placed on pages of the
  block of entry `i`, from `page` on: each on an erased page
  of its own, in the order of their page ids.
-/
structure Placed
    (s : Dev)
    (i slot page : Nat)
    (ps : List (Nat × Nat))
    (es : List Event) : Prop where
  all : (ps.map Prod.snd).Perm (s.buf.group slot).dirty
  ids : ps.Pairwise fun x y =>
    (s.buf.entry x.2).pageId < (s.buf.entry y.2).pageId
  pages : ps.Pairwise fun x y => x.1 < y.1
  erased : ∀ x ∈ ps, page ≤ x.1 ∧ x.1 < pagesPerBlock ∧
    (s.knownTag i x.1).isErased = true
  events : List.Forall₂
    (fun x e => ∃ stamp ret,
      e = .program (s.bc.info i).block x.1 ret
        (some ((s.buf.entry x.2).image
          (appendTag (s.buf.entry x.2) stamp))))
    ps (es.filter Event.isProgram)

/-
  Buffer `d` of a group is on page `p`, and nothing that is
  behind `p` or in the rest of the group has changed.
-/
structure PagePlaced
    (i slot p d : Nat)
    (s t : Dev) : Prop where
  block : (t.bc.info i).block = (s.bc.info i).block
  spares : ∀ q, p < q →
    (t.bc.info i).spares q = (s.bc.info i).spares q
  flash : ∀ q, p < q →
    t.flash.page (s.bc.info i).block q =
      s.flash.page (s.bc.info i).block q
  clone : t.buf.clone = s.buf.clone
  group : t.buf.group = (s.buf.clean slot d id).group
  entry : ∀ j, j ∉ s.buf.clone → j ≠ d →
    t.buf.entry j = s.buf.entry j

namespace PagePlaced

variable {i slot p d : Nat} {s t : Dev}

omit [Platform] in
theorem dirty (h : PagePlaced i slot p d s t) :
    (t.buf.group slot).dirty =
      (s.buf.group slot).dirty.erase d := by
  rw [h.group]
  unfold BufPool.clean
  dsimp only
  rw [upd_same]

omit [Platform] in
theorem knownTag
    (h : PagePlaced i slot p d s t)
    {q : Nat}
    (hq : p < q) : t.knownTag i q = s.knownTag i q := by
  unfold Dev.knownTag
  rw [h.spares q hq, h.block, h.flash q hq]

/- The pages behind the placed one are as free as before. -/
omit [Platform] in
theorem freeFrom
    (h : PagePlaced i slot p d s t)
    {page : Nat}
    (hPage : p < page)
    (n : Nat) :
    t.freeFrom i page n = s.freeFrom i page n := by
  unfold Dev.freeFrom
  apply List.countP_congr
  intro q hq
  have hRange := List.mem_range'_1.mp hq
  unfold Dev.freeAt
  rw [h.spares q (by omega)]

/- The buffers that are left are placed behind this one. -/
theorem cons
    {page stamp : Nat}
    {ret : FlashRet}
    {ps : List (Nat × Nat)}
    {es fs : List Event}
    (h : PagePlaced i slot p d s t)
    (hs : s.buf.WellFormed slot)
    (hd : d ∈ (s.buf.group slot).dirty)
    (hMin : ∀ e ∈ (s.buf.group slot).dirty,
      (s.buf.entry d).pageId ≤ (s.buf.entry e).pageId)
    (hPage : page ≤ p)
    (hLt : p < pagesPerBlock)
    (hErased : (s.knownTag i p).isErased = true)
    (hEs : es.filter Event.isProgram =
      [.program (s.bc.info i).block p ret
        (some ((s.buf.entry d).image
          (appendTag (s.buf.entry d) stamp)))])
    (hRest : Placed t i slot (p + 1) ps fs) :
    Placed s i slot page ((p, d) :: ps) (es ++ fs) := by
  have hIn : ∀ x ∈ ps, x.2 ∈ (s.buf.group slot).dirty ∧
      x.2 ≠ d ∧ t.buf.entry x.2 = s.buf.entry x.2 := by
    intro x hx
    have hMem := hRest.all.mem_iff.mp
      (List.mem_map_of_mem (f := Prod.snd) hx)
    rw [h.dirty, hs.nodup.mem_erase_iff] at hMem
    exact ⟨hMem.2, hMem.1,
      h.entry x.2 (hs.apart slot x.2 hMem.2) hMem.1⟩
  constructor
  · rw [List.map_cons]
    have hAll := hRest.all
    rw [h.dirty] at hAll
    exact (hAll.cons d).trans (List.perm_cons_erase hd).symm
  · rw [List.pairwise_cons]
    constructor
    · intro x hx
      have hx' := hIn x hx
      have hLe := hMin x.2 hx'.1
      exact Nat.lt_of_le_of_ne hLe
        (hs.ids_ne hd hx'.1 (Ne.symm hx'.2.1))
    · apply List.Pairwise.imp_of_mem _ hRest.ids
      intro x y hx hy hIds
      rw [(hIn x hx).2.2, (hIn y hy).2.2] at hIds
      exact hIds
  · rw [List.pairwise_cons]
    constructor
    · intro x hx
      have hFrom := (hRest.erased x hx).1
      exact hFrom
    · exact hRest.pages
  · intro x hx
    rcases List.mem_cons.mp hx with hHead | hTail
    · rw [hHead]
      exact ⟨hPage, hLt, hErased⟩
    · have hx' := hRest.erased x hTail
      rw [h.knownTag (by omega)] at hx'
      exact ⟨by omega, hx'.2⟩
  · rw [List.filter_append, hEs, List.singleton_append]
    apply List.Forall₂.cons
    · exact ⟨stamp, ret, rfl⟩
    · have hEvents := List.forall₂_and_left _ _ |>.mpr
        ⟨fun x hx => (hIn x hx).2.2, hRest.events⟩
      apply List.Forall₂.imp _ hEvents
      intro x e he
      rcases he with ⟨hEntry, stamp', ret', he⟩
      rw [hEntry, h.block] at he
      exact ⟨stamp', ret', he⟩

end PagePlaced

/- Tags have been read before. -/
theorem Placed.after
    {i slot page : Nat}
    {s t : Dev}
    {ps : List (Nat × Nat)}
    {es : List Event}
    (h : Placed t i slot page ps es)
    (hst : Peeks i s t) : Placed s i slot page ps es := by
  have hBuf := hst.buf
  constructor
  · rw [← hBuf]
    exact h.all
  · rw [← hBuf]
    exact h.ids
  · exact h.pages
  · intro x hx
    rw [← hst.knownTag]
    exact h.erased x hx
  · rw [← hBuf, ← hst.block]
    exact h.events

------------------------------------------------------------
-- The Loop
------------------------------------------------------------

/-
  The page has been written through the cache, and its buffer
  is off the group.
-/
omit [Platform] in
theorem PagePlaced.of_alters
    {i slot p d : Nat}
    {s t u : Dev}
    {tag : Tag}
    (hst : Alters (s.bc.info i).block p (s.putTag i p tag) t)
    (hBc : u.bc = t.bc)
    (hFlash : u.flash = t.flash)
    (hClone : u.buf.clone = t.buf.clone)
    (hGroup : u.buf.group = (t.buf.clean slot d id).group)
    (hEntry : ∀ j, j ≠ d → u.buf.entry j = t.buf.entry j) :
    PagePlaced i slot p d s u := by
  constructor
  · rw [hBc, hst.bc]
    exact s.putTag_block i i p tag
  · intro q hq
    rw [hBc, hst.bc]
    unfold Dev.putTag
    dsimp only
    rw [upd_same]
    exact upd_other _ _ (Nat.ne_of_gt hq)
  · intro q hq
    rw [hFlash]
    apply hst.page
    exact fun _ => Nat.ne_of_gt hq
  · exact hClone.trans hst.clone
  · rw [hGroup]
    unfold BufPool.clean
    dsimp only
    rw [hst.group]
    rfl
  · intro j hj hjd
    exact (hEntry j hjd).trans (hst.entry j hj)

/- A note is emitted or not. -/
omit [Platform] in
theorem wp_noteNotStored
    (b p : Nat)
    (tag : Tag)
    (s : Dev) :
    wp (noteNotStored b p tag)
      (fun _ es t => t = s ∧
        es.filter Event.isProgram = []) s := by
  unfold noteNotStored noteWhen note
  rw [wp_bind, wp_get]
  split
  · rw [wp_emit]
    exact ⟨rfl, rfl⟩
  · rw [wp_pure]
    exact ⟨rfl, rfl⟩

/- A buffer is taken off its group when it has been written. -/
theorem wp_breakFromDirty_of_wellFormed
    {s : Dev}
    {slot d : Nat}
    (hs : s.buf.WellFormed slot)
    (hd : d ∈ (s.buf.group slot).dirty) :
    wp (breakFromDirty d)
      (fun r es t => r = .succ ∧ es = [] ∧
        t = { s with buf := { s.buf with
          group := (s.buf.clean slot d id).group } }) s := by
  unfold breakFromDirty getBuf bufFindGroupSlot setGroup
  rw [wp_bind, wp_gets,
    if_neg (not_not_intro (hs.marked d hd)), wp_bind, wp_gets,
    hs.findGroupSlot_eq hd]
  dsimp only
  rw [wp_bind, wp_modify, wp_pure]
  exact ⟨rfl, rfl, rfl⟩

/- How the loop can end. -/
inductive AppendEnd where
| done
| noFreePage
| noDirtyPage
| writeFailed
deriving DecidableEq, Repr

/-
  The loop of `uffs_BufFlush_Exist_With_Enough_FreePage`, up
  to the first page write that fails.
-/
def appendFrom (slot bc : Nat) : Nat → Nat → M AppendEnd
| 0, _ => pure .done
| n + 1, page => do
    let g ← getGroup slot
    if page ≥ pagesPerBlock ∨ g.count ≤ 0 then
      pure .done
    else do
      let page ← findErasedPageFrom bc (pagesPerBlock - page) page
      if page ≥ pagesPerBlock then
        pure .noFreePage
      else do
        match ← findMinimunPageIdFromDirtyList slot with
        | none => pure .noDirtyPage
        | some d =>
            let b ← getBuf d
            let blockTs ← getBlockTimeStamp bc
            let tag := appendTag b blockTs
            setTag bc page tag
            let w ← getInfo bc
            let x ← flashWritePageCombine w.block page d tag
            noteNotStored w.block page tag
            if x.haveErr then
              pure .writeFailed
            else do
              match ← breakFromDirty d with
              | .succ =>
                  setBuf d fun b => { b with mark := .valid }
                  moveNodeToHead d
                  appendFrom slot bc n (page + 1)
              | .fail => appendFrom slot bc n (page + 1)

/-
  The loop ends, and as long as no page write fails, the free
  pages that are left are enough for the buffers that are
  left.
-/
theorem wp_appendFrom
    (slot i m : Nat) :
    ∀ s page, s.buf.WellFormed slot →
      (s.buf.group slot).dirty.length ≤
        s.freeFrom i page (pagesPerBlock - page) →
      (s.buf.group slot).dirty.length ≤ m →
      wp (appendFrom slot i m page)
        (fun r es t => r ≠ .writeFailed →
          r = .done ∧ (t.buf.group slot).dirty = [] ∧
            (t.buf.group slot).count = 0 ∧
            ∃ ps, Placed s i slot page ps es) s := by
  have hDone : ∀ (s : Dev) page, s.buf.WellFormed slot →
      (s.buf.group slot).dirty = [] →
      (s.buf.group slot).count = 0 ∧
        ∃ ps, Placed s i slot page ps [] := by
    intro s page hs hNil
    constructor
    · rw [hs.count, hNil]
      rfl
    · refine ⟨[], ?_, .nil, .nil, ?_, .nil⟩
      · rw [hNil]
        exact List.Perm.refl _
      · intro x hx
        cases hx
  induction m with
  | zero =>
      intro s page hs _ hLen
      have hNil := List.length_eq_zero_iff.mp
        (Nat.le_zero.mp hLen)
      unfold appendFrom
      rw [wp_pure]
      exact fun _ => ⟨rfl, hNil, hDone s page hs hNil⟩
  | succ m ih =>
      intro s page hs hEnough hLen
      unfold appendFrom getGroup
      rw [wp_bind, wp_gets]
      by_cases hNil : (s.buf.group slot).dirty = []
      · have hNone := hDone s page hs hNil
        rw [if_pos (Or.inr (Int.le_of_eq hNone.1)), wp_pure]
        exact fun _ => ⟨rfl, hNil, hNone⟩
      have hPos := List.length_pos_iff.mpr hNil
      have hPage : page < pagesPerBlock := by
        by_contra hNot
        have hZero : pagesPerBlock - page = 0 := by omega
        rw [hZero] at hEnough
        have hNo : s.freeFrom i page 0 = 0 := rfl
        omega
      have hCount := hs.count
      rw [if_neg (by omega)]
      refine wp_seq (peeking_findErasedPageFrom i
        (pagesPerBlock - page) page s (by omega)) ?_
      intro r es s₁ h₁
      rcases h₁ with ⟨hEs, hPeeks₁, hFrom, hTo, hFree, hLeft⟩
      subst hEs
      have hEnd : page + (pagesPerBlock - page) =
          pagesPerBlock := by
        omega
      rw [hEnd] at hTo hFree hLeft
      have hr : r < pagesPerBlock := by
        by_contra hNot
        have hZero : pagesPerBlock - r = 0 := by omega
        rw [hZero] at hLeft
        have hNo : s₁.freeFrom i r 0 = 0 := rfl
        omega
      rw [if_neg (Nat.not_le.mpr hr)]
      have hNil₁ : (s₁.buf.group slot).dirty ≠ [] := by
        rw [hPeeks₁.buf]
        exact hNil
      rcases BufPool.exists_minimum (p := s₁.buf) hNil₁ with
        ⟨d, hMin⟩
      unfold findMinimunPageIdFromDirtyList getBuf
      rw [wp_bind, wp_gets, hMin]
      dsimp only
      rw [wp_bind, wp_gets]
      refine wp_seq (peeking_getBlockTimeStamp i s₁) ?_
      intro stamp es s₂ h₂
      rcases h₂ with ⟨hEs, hPeeks₂, _⟩
      subst hEs
      have hPeeks := hPeeks₁.trans hPeeks₂
      have hBuf := hPeeks.buf
      rw [← hPeeks₂.buf] at hMin ⊢
      have hd := BufPool.findMinimunPageId_mem hMin
      have hLe := BufPool.findMinimunPageId_le hMin
      generalize hTag :
        appendTag (s₂.buf.entry d) stamp = tag
      unfold getInfo
      rw [wp_bind, wp_setTag, wp_bind, wp_gets,
        Dev.putTag_block]
      refine wp_seq (wp_flashWritePageCombine_any _ r d _ _) ?_
      intro x es s₃ h₃
      rcases h₃ with ⟨hAlters, hWritten⟩
      refine wp_seq (wp_noteNotStored _ _ _ s₃) ?_
      intro _ fs s₄ h₄
      rcases h₄ with ⟨hs₄, hFs⟩
      subst hs₄
      split
      · rw [wp_pure]
        intro hNot
        exact absurd rfl hNot
      rename_i hOk
      rw [Bool.not_eq_true] at hOk
      rcases hWritten hOk with ⟨ret, hProgram⟩
      have hs₂ : s₂.buf.WellFormed slot := by
        rw [hBuf]
        exact hs
      have hs₄ : s₄.buf.WellFormed slot :=
        hs₂.congr hAlters.clone hAlters.group hAlters.entry
      have hd₄ : d ∈ (s₄.buf.group slot).dirty := by
        rw [hAlters.group]
        exact hd
      refine wp_seq
        (wp_breakFromDirty_of_wellFormed hs₄ hd₄) ?_
      intro q gs s₅ h₅
      rcases h₅ with ⟨hq, hGs, hs₅⟩
      subst hq hGs
      unfold setBuf moveNodeToHead
      dsimp only
      rw [wp_bind, wp_modify, wp_bind, wp_modify]
      generalize hu : ({ s₅ with buf := _ } : Dev) = u
      have hPlaced : PagePlaced i slot r d s₂ u := by
        apply PagePlaced.of_alters hAlters
        · rw [← hu, hs₅]
        · rw [← hu, hs₅]
        · rw [← hu, hs₅]
        · rw [← hu, hs₅]
        · intro j hj
          rw [← hu, hs₅]
          exact upd_other _ _ hj
      have hClean : u.buf.WellFormed slot :=
        hs₂.clean hd hPlaced.clone hPlaced.group hPlaced.entry
      have hLength : (u.buf.group slot).dirty.length =
          (s₂.buf.group slot).dirty.length - 1 := by
        rw [hPlaced.dirty, List.length_erase_of_mem hd]
      have hRoom : s₂.freeFrom i r (pagesPerBlock - r) ≤
          u.freeFrom i (r + 1) (pagesPerBlock - (r + 1)) + 1 := by
        have hSplit : pagesPerBlock - r =
            pagesPerBlock - (r + 1) + 1 := by
          omega
        rw [hSplit, Dev.freeFrom_succ,
          hPlaced.freeFrom (Nat.lt_add_one r)]
        split
        · omega
        · omega
      have hKept := hPeeks₂.freeFrom_le r (pagesPerBlock - r)
      rw [← hBuf] at hEnough hLen hPos
      refine wp_mono (ih u (r + 1) hClean (by omega)
        (by omega)) ?_
      intro q gs t ht hNot
      simp only [List.nil_append]
      rcases ht hNot with ⟨hq, hEmpty, hNone, ps, hPs⟩
      refine ⟨hq, hEmpty, hNone, (r, d) :: ps, ?_⟩
      have hErased := hPeeks₁.erased (hFree hr)
      rw [← hPeeks.knownTag] at hErased
      have hEvents : (es ++ fs).filter Event.isProgram =
          [.program (s₂.bc.info i).block r ret
            (some ((s₂.buf.entry d).image
              (appendTag (s₂.buf.entry d) stamp)))] := by
        rw [List.filter_append, hFs, hProgram, hTag]
        rfl
      rw [← List.append_assoc]
      exact (hPlaced.cons hs₂ hd hLe hFrom hr hErased hEvents
        hPs).after hPeeks

------------------------------------------------------------
-- The Flush
------------------------------------------------------------

/- What the loop of the code returns at this end. -/
def AppendEnd.result : AppendEnd → Option URet
| .done => none
| .noFreePage => none
| .noDirtyPage => some .fail
| .writeFailed => none

/- Unless a page write fails, the second does what the first does. -/
def Follows (m : M AppendEnd) (k : M (Option URet)) : Prop :=
  ∀ s r es t, m s = some (r, es, t) → r ≠ .writeFailed →
    k s = some (r.result, es, t)

namespace Follows

omit [Platform]

theorem pure (r : AppendEnd) :
    Follows (Pure.pure r) (Pure.pure r.result) := by
  intro s r' es t hRun _
  cases hRun
  rfl

theorem failed (k : M (Option URet)) :
    Follows (Pure.pure .writeFailed) k := by
  intro s r es t hRun hNot
  cases hRun
  exact absurd rfl hNot

theorem bind
    {α : Type}
    {m : M α}
    {f : α → M AppendEnd}
    {g : α → M (Option URet)}
    (h : ∀ a, Follows (f a) (g a)) :
    Follows (m >>= f) (m >>= g) := by
  intro s r es t hRun hNot
  rcases run_bind_eq_some.mp hRun with
    ⟨a, fs, u, gs, hm, hf, hEs⟩
  exact run_bind_eq_some.mpr
    ⟨a, fs, u, gs, hm, h a u r gs t hf hNot, hEs⟩

theorem ite
    {c : Prop}
    [Decidable c]
    {m m' : M AppendEnd}
    {k k' : M (Option URet)}
    (h : Follows m k)
    (h' : Follows m' k') :
    Follows (if c then m else m') (if c then k else k') := by
  split
  · exact h
  · exact h'

end Follows

theorem follows_enoughFrom
    (slot node bc n : Nat) :
    ∀ page, Follows (appendFrom slot bc n page)
      (enoughFrom slot node bc n page) := by
  induction n with
  | zero =>
      intro page
      exact Follows.pure .done
  | succ n ih =>
      intro page
      unfold appendFrom enoughFrom
      apply Follows.bind
      intro g
      apply Follows.ite (Follows.pure .done)
      apply Follows.bind
      intro page
      apply Follows.ite (Follows.pure .noFreePage)
      apply Follows.bind
      intro o
      cases o with
      | none => exact Follows.pure .noDirtyPage
      | some d =>
          apply Follows.bind
          intro b
          apply Follows.bind
          intro blockTs
          apply Follows.bind
          intro _
          apply Follows.bind
          intro w
          apply Follows.bind
          intro x
          apply Follows.bind
          intro _
          cases hErr : x.haveErr with
          | true =>
              rw [if_pos rfl]
              exact Follows.failed _
          | false =>
              have hIo : x ≠ .ioErr := by
                intro hEq
                rw [hEq] at hErr
                cases hErr
              have hBad : x ≠ .badBlk := by
                intro hEq
                rw [hEq] at hErr
                cases hErr
              rw [if_neg Bool.false_ne_true, if_neg hIo,
                if_neg hBad, if_neg Bool.false_ne_true]
              apply Follows.bind
              intro r
              cases r with
              | fail => exact ih _
              | succ =>
                  apply Follows.bind
                  intro _
                  apply Follows.bind
                  intro _
                  exact ih _

/-
  After `uffs_GetFreePagesCount` has counted enough pages,
  the flush finds a page for each buffer: its loop ends,
  and unless a page write fails, it has placed all buffers of
  the group and the flush succeeds.
-/
theorem bufFlushExistWithEnoughFreePage_complete
    {s t : Dev}
    {slot i n : Nat}
    {es₀ : List Event}
    (node : Nat)
    (hGroup : s.buf.WellFormed slot)
    (hFirst : (s.knownTag i 0).isErased = false)
    (hCount : getFreePagesCount i s = some (n, es₀, t))
    (hEnough : (s.buf.group slot).count ≤ n) :
    wp (appendFrom slot i pagesPerBlock 1)
      (fun r es u => r ≠ .writeFailed →
        r = .done ∧
          bufFlushExistWithEnoughFreePage slot node i t =
            some (.succ, es, u) ∧
          (u.buf.group slot).dirty = [] ∧
          (u.buf.group slot).count = 0 ∧
          ∃ ps, Placed s i slot 1 ps es) t := by
  have hTwo := Platform.two_le_pagesPerBlock
  have hPeeks : Peeks i s t ∧
      n ≤ 0 + t.freeFrom i 0 pagesPerBlock := by
    rcases peeking_getFreePagesFrom i pagesPerBlock 0 s
      (Nat.le_refl _) with ⟨r, es, u, hRun, _, hst, hLe⟩
    have hSame := hRun.symm.trans hCount
    cases hSame
    exact ⟨hst, hLe⟩
  have hNotFree : t.freeAt i 0 = false := by
    rw [Bool.eq_false_iff]
    intro hFree
    have hErased := hPeeks.1.erased hFree
    rw [hFirst] at hErased
    cases hErased
  have hSplit : pagesPerBlock = pagesPerBlock - 1 + 1 := by
    omega
  have hRoom : t.freeFrom i 0 pagesPerBlock =
      t.freeFrom i 1 (pagesPerBlock - 1) := by
    rw [hSplit, Dev.freeFrom_succ, hNotFree,
      if_neg Bool.false_ne_true, Nat.add_sub_cancel]
    rfl
  have hWell : t.buf.WellFormed slot := by
    rw [hPeeks.1.buf]
    exact hGroup
  have hLength := hWell.count
  rw [← hPeeks.1.buf] at hEnough
  have hAll : t.freeFrom i 1 (pagesPerBlock - 1) ≤
      pagesPerBlock - 1 := by
    unfold Dev.freeFrom
    have hLe := List.countP_le_length
      (p := fun p => t.freeAt i p)
      (l := List.range' 1 (pagesPerBlock - 1))
    rw [List.length_range'] at hLe
    exact hLe
  rcases wp_appendFrom slot i pagesPerBlock t 1 hWell
    (by omega) (by omega) with ⟨r, es, u, hRun, hEnd⟩
  refine ⟨r, es, u, hRun, ?_⟩
  intro hNot
  rcases hEnd hNot with ⟨hr, hNil, hNone, ps, hPlaced⟩
  refine ⟨hr, ?_, hNil, hNone, ps, hPlaced.after hPeeks.1⟩
  have hLoop := follows_enoughFrom slot node i pagesPerBlock 1
    t r es u hRun hNot
  rw [hr] at hLoop
  unfold bufFlushExistWithEnoughFreePage getGroup
  apply run_bind_eq_some.mpr
  refine ⟨_, es, u, [], hLoop, ?_, (List.append_nil es).symm⟩
  dsimp only [AppendEnd.result]
  apply run_bind_eq_some.mpr
  refine ⟨_, [], u, [], rfl, ?_, rfl⟩
  rw [hNil, hNone]
  rfl

end Append

/-
  A block with a good page, an erased one, one with garbage
  in its tag, and another erased one.
-/
def mixedTags : Nat → Tag
| 0 => Tag.store .file 0 200 5 2 0
| 2 => { Tag.erased with dirty := 0 }
| _ => Tag.erased

/- The device with this block and two dirty pages for it. -/
def Dev.twoDirty : Dev :=
  let _ := emulator alwaysOk
  { Dev.init
      { page := fun _ p =>
          { Page.erased 160 with tag := mixedTags p }
        bad := fun _ => false } 0 with
    bc := { BcCache.init with
      info := fun i => { BcCache.init.info i with block := 3 } }
    buf := { BufPool.init with
      entry := fun i =>
        { BufPool.init.entry i with
          type := .file, parent := 2, serial := 5
          pageId := 8 - i, mark := .dirty }
      group := fun slot =>
        if slot = 0 then { dirty := [6, 7], count := 2, lock := 0 }
        else BufPool.init.group slot } }

/- The first read of the page with the garbage fails. -/
theorem bufFlushExistWithEnoughFreePage_twoDirty :
    let _ := emulator (failAt 1 .eccFail)
    ∃ n es₀ t, getFreePagesCount 0 Dev.twoDirty =
        some (n, es₀, t) ∧
      wp (appendFrom 0 0 4 1)
        (fun r es u => r = .done ∧
          bufFlushExistWithEnoughFreePage 0 7 0 t =
            some (.succ, es, u) ∧
          (u.buf.group 0).dirty = [] ∧
          (u.buf.group 0).count = 0 ∧
          ∃ ps, Placed Dev.twoDirty 0 0 1 ps es) t := by
  let _ := emulator (failAt 1 .eccFail)
  have hGroup : Dev.twoDirty.buf.WellFormed 0 := by
    have hOther : ∀ slot, slot ≠ 0 →
        (Dev.twoDirty.buf.group slot).dirty = [] := by
      intro slot hNe
      exact congrArg DirtyGroup.dirty (if_neg hNe)
    constructor
    · decide
    · decide
    · decide
    · decide
    · decide
    · intro slot hNe e he
      rw [hOther slot hNe] at he
      cases he
    · intro slot e he
      by_cases hNe : slot = 0
      · subst hNe
        revert e
        decide
      · rw [hOther slot hNe] at he
        cases he
  have hCheck : (getFreePagesCount 0).check
      (fun n _ t => decide (n = 2) &&
        (appendFrom 0 0 4 1).check
          (fun r _ _ => decide (r = .done)) t)
      Dev.twoDirty = true := by
    decide +kernel
  rcases wp_of_check hCheck with ⟨n, es₀, t, hCount, hTest⟩
  rw [Bool.and_eq_true, decide_eq_true_eq] at hTest
  refine ⟨n, es₀, t, hCount, ?_⟩
  rcases wp_of_check hTest.2 with ⟨r, es, u, hRun, hDone⟩
  rw [decide_eq_true_eq] at hDone
  have hEnough : (Dev.twoDirty.buf.group 0).count ≤ n := by
    rw [hTest.1]
    decide
  have hAll := bufFlushExistWithEnoughFreePage_complete 7
    hGroup (by decide) hCount hEnough
  have hNot : r ≠ .writeFailed := by
    rw [hDone]
    decide
  exact (wp_of_run hRun).mpr ((wp_of_run hRun).mp hAll hNot)

end Uffs
