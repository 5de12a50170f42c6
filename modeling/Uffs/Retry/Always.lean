import Uffs.Model.Buf

/-
  The functions below a block recover return whatever the
  driver answers.

  They leave the tree alone, and each of them consumes some
  of the driver's answers.

  Main declarations:
    * `Waits`
    * `Tells`
    * `wp_flashWritePageCombine_tells`
    * `wp_recoverFrom_tells`
-/

namespace Uffs

open Prog

variable [Platform]

/- The tree stays, and time goes on. -/
structure Waits (s t : Dev) : Prop where
  tree : t.tree = s.tree
  clock : s.clock ≤ t.clock

namespace Waits

omit [Platform]

theorem refl (s : Dev) : Waits s s :=
  ⟨rfl, Nat.le_refl _⟩

theorem trans
    {s t u : Dev}
    (h : Waits s t)
    (h' : Waits t u) : Waits s u :=
  ⟨h'.tree.trans h.tree, Nat.le_trans h.clock h'.clock⟩

instance : IsPreorder Dev Waits where
  refl := refl
  trans _ _ _ := trans

end Waits

------------------------------------------------------------
-- Small Steps
------------------------------------------------------------

/- One answer of the driver, and one unit of time. -/
theorem always_nextAnswer : Always Waits nextAnswer := by
  unfold nextAnswer
  apply Always.get.bind
  intro s
  apply Always.bind
  · apply Always.modify
    intro s
    exact ⟨rfl, Nat.le_succ _⟩
  · intro _
    exact Always.pure _

omit [Platform] in
theorem always_medium (e : Event) : Always Waits (medium e) := by
  unfold medium
  apply Always.bind
  · exact Always.modify fun s => ⟨rfl, Nat.le_refl _⟩
  · intro _
    exact Always.emit _

omit [Platform] in
theorem always_note (n : Note) : Always Waits (note n) :=
  Always.emit _

/- A note is an event only. -/
omit [Platform] in
theorem always_noteWhen
    (c : Dev → Bool)
    (n : Note) : Always Waits (noteWhen c n) := by
  unfold noteWhen
  apply Always.get.bind
  intro s
  exact Always.ite (always_note n) (Always.pure _)

omit [Platform] in
theorem always_setBuf
    (i : Nat)
    (f : Buf → Buf) : Always Waits (setBuf i f) :=
  Always.modify fun _ => ⟨rfl, Nat.le_refl _⟩

omit [Platform] in
theorem always_getBuf (i : Nat) : Always Waits (getBuf i) :=
  Always.gets _

omit [Platform] in
theorem always_setInfo
    (i : Nat)
    (f : BlockInfo → BlockInfo) : Always Waits (setInfo i f) :=
  Always.modify fun _ => ⟨rfl, Nat.le_refl _⟩

omit [Platform] in
theorem always_getInfo (i : Nat) : Always Waits (getInfo i) :=
  Always.gets _

/- Reading the state takes no time. -/
omit [Platform] in
theorem always_getTag (bc page : Nat) :
    Always Waits (getTag bc page) :=
  Always.gets _

omit [Platform] in
theorem always_setTag
    (bc page : Nat)
    (tag : Tag) : Always Waits (setTag bc page tag) :=
  Always.modify fun _ => ⟨rfl, Nat.le_refl _⟩

omit [Platform] in
theorem always_getNode (n : Nat) : Always Waits (getNode n) :=
  Always.gets _

------------------------------------------------------------
-- Clones, Spares and the Pending List
------------------------------------------------------------

/- There may be no clone buffer left. -/
omit [Platform] in
theorem always_bufClone : Always Waits bufClone := by
  unfold bufClone
  apply Always.get.bind
  intro s
  split
  · exact Always.pure _
  · apply Always.bind
    · exact Always.modify fun _ => ⟨rfl, Nat.le_refl _⟩
    · intro _
      apply (always_setBuf _ _).bind
      intro _
      exact Always.pure _

/- A buffer that is no clone buffer is left alone. -/
omit [Platform] in
theorem always_bufFreeClone (i : Nat) :
    Always Waits (bufFreeClone i) := by
  unfold bufFreeClone
  apply (always_getBuf i).bind
  intro b
  apply Always.ite
  · exact Always.pure _
  · apply (always_setBuf _ _).bind
    intro _
    apply Always.bind
    · exact Always.modify fun _ => ⟨rfl, Nat.le_refl _⟩
    · intro _
      exact Always.pure _

/- The spare pool may be empty. -/
omit [Platform] in
theorem always_spareGet : Always Waits spareGet := by
  unfold spareGet
  apply Always.get.bind
  intro s
  apply Always.ite
  · exact Always.pure _
  · apply Always.bind
    · exact Always.modify fun _ => ⟨rfl, Nat.le_refl _⟩
    · intro _
      exact Always.pure _

omit [Platform] in
theorem always_sparePut : Always Waits sparePut :=
  Always.modify fun _ => ⟨rfl, Nat.le_refl _⟩

/- Only some results put a block on the pending list. -/
omit [Platform] in
theorem always_badBlockAddByFlashResult
    (block : Nat)
    (ret : FlashRet) :
    Always Waits (badBlockAddByFlashResult block ret) := by
  unfold badBlockAddByFlashResult
  cases pendingType ret with
  | some mark =>
      apply Always.bind
      · exact Always.modify fun _ => ⟨rfl, Nat.le_refl _⟩
      · intro _
        exact Always.pure _
  | none => exact Always.pure _

omit [Platform] in
theorem always_badBlockPendingRemove (block : Nat) :
    Always Waits (badBlockPendingRemove block) :=
  Always.modify fun _ => ⟨rfl, Nat.le_refl _⟩

------------------------------------------------------------
-- Reading
------------------------------------------------------------

omit [Platform] in
theorem always_watchTag
    (block page : Nat)
    (failed : Bool) : Always Waits (watchTag block page failed) :=
  Always.modify fun _ => ⟨rfl, Nat.le_refl _⟩

/- Without a spare buffer the driver is not asked. -/
theorem always_flashReadPage
    (block page buf : Nat)
    (skipEcc : Bool) :
    Always Waits (flashReadPage block page buf skipEcc) := by
  unfold flashReadPage
  apply always_spareGet.bind
  intro spare
  apply Always.ite
  · exact Always.pure _
  · apply always_nextAnswer.bind
    intro a
    apply Always.get.bind
    intro s
    apply (always_setBuf _ _).bind
    intro _
    apply always_sparePut.bind
    intro _
    exact Always.pure _

/-
  A driver's answer of ECC_OK in the time from one state to
  another.
-/
def EccBetween (s t : Dev) : Prop :=
  ∃ n, (s.clock ≤ n ∧ n < t.clock) ∧
    (Platform.answer n).ret = .eccOk

/- A result ECC_OK comes from an answer of the driver. -/
structure Tells (op : FlashRet) (s t : Dev) : Prop where
  waits : Waits s t
  ecc : op = .eccOk → EccBetween s t

/- An answer in a shorter time is one in a longer time. -/
theorem EccBetween.widen
    {r s t u : Dev}
    (h : EccBetween s t)
    (hrs : r.clock ≤ s.clock)
    (htu : t.clock ≤ u.clock) : EccBetween r u := by
  rcases h with ⟨n, ⟨hLe, hLt⟩, hEcc⟩
  exact ⟨n, ⟨Nat.le_trans hrs hLe, Nat.lt_of_lt_of_le hLt htu⟩,
    hEcc⟩

/- Something happened before. -/
theorem Tells.after
    {op : FlashRet}
    {r s t : Dev}
    (hrs : Waits r s)
    (h : Tells op s t) : Tells op r t :=
  ⟨hrs.trans h.waits, fun hOp =>
    (h.ecc hOp).widen hrs.clock (Nat.le_refl _)⟩

/- Something happens afterwards. -/
theorem Tells.before
    {op : FlashRet}
    {s t u : Dev}
    (h : Tells op s t)
    (htu : Waits t u) : Tells op s u :=
  ⟨h.waits.trans htu, fun hOp =>
    (h.ecc hOp).widen (Nat.le_refl _) htu.clock⟩

/- A result that is not ECC_OK needs no answer. -/
theorem Waits.tells
    {op : FlashRet}
    {s t : Dev}
    (h : Waits s t)
    (hOp : op ≠ .eccOk) : Tells op s t :=
  ⟨h, fun hEcc => absurd hEcc hOp⟩

/- A tag that is not sealed is not corrected. -/
omit [Platform] in
theorem FlashRet.raw_ne_eccOk (r : FlashRet) :
    r.raw ≠ .eccOk := by
  cases r <;> decide

/- Read without a spare buffer, a tag has another result. -/
theorem wp_flashReadPageTag_tells
    (s : Dev)
    (block page : Nat)
    (tag : Tag) :
    wp (flashReadPageTag block page tag)
      (fun r _ t => Tells r.1 s t) s := by
  unfold flashReadPageTag
  apply always_spareGet.seq
  intro spare _ t hst
  cases spare with
  | false =>
      simp only [Bool.not_false, if_true, wp_pure]
      exact hst.tells (by decide)
  | true =>
      simp only [Bool.not_true, Bool.false_eq_true, if_false,
        nextAnswer, sparePut, wp_bind, wp_get, wp_modify,
        wp_pure]
      -- the answer is the one at the time of the state `t`
      have hTells : ∀ (c : Bool) (u : Dev),
          u.tree = t.tree → u.clock = t.clock + 1 →
          Tells (if c then (Platform.answer t.clock).ret
            else (Platform.answer t.clock).ret.raw) s u := by
        intro c u hTree hClock
        have hWaits : Waits t u :=
          ⟨hTree, by rw [hClock]; exact Nat.le_succ _⟩
        refine ⟨hst.trans hWaits, ?_⟩
        intro hEcc
        cases c with
        | false => exact absurd hEcc (FlashRet.raw_ne_eccOk _)
        | true =>
            refine ⟨t.clock, ⟨hst.clock, ?_⟩, hEcc⟩
            rw [hClock]
            exact Nat.lt_succ_self _
      by_cases hErr : FlashRet.haveErr
          (if (t.flash.page block page).tag.sealed = true then
            (Platform.answer t.clock).ret
          else (Platform.answer t.clock).ret.raw) = true
      · rw [if_pos hErr]
        simp only [watchTag, wp_bind, wp_modify, wp_pure]
        exact hTells _ _ rfl rfl
      · rw [if_neg hErr, wp_pure]
        exact hTells _ _ rfl rfl

theorem always_flashReadPageTag
    (block page : Nat)
    (tag : Tag) :
    Always Waits (flashReadPageTag block page tag) := by
  intro s
  exact wp_mono (wp_flashReadPageTag_tells s block page tag)
    fun _ _ _ h => h.waits

------------------------------------------------------------
-- Writing and Erasing
------------------------------------------------------------

/- The driver is asked once; the events follow its answer. -/
theorem always_driverWritePage
    (block page : Nat)
    (content : Page) :
    Always Waits (driverWritePage block page content) := by
  unfold driverWritePage
  apply always_nextAnswer.bind
  intro a
  apply (always_medium _).bind
  intro _
  dsimp only
  apply Always.ite
  · apply (always_watchTag _ _ _).bind
    intro _
    exact Always.pure _
  · exact Always.pure _

/- Without a clone buffer nothing is read back. -/
theorem always_verifyPageData
    (block page : Nat)
    (data : List Byte) :
    Always Waits (verifyPageData block page data) := by
  unfold verifyPageData
  apply always_bufClone.bind
  intro o
  cases o with
  | none => exact Always.pure _
  | some v =>
      apply (always_flashReadPage _ _ _ _).bind
      intro ret
      apply (always_getBuf v).bind
      intro b
      apply (always_bufFreeClone v).bind
      intro _
      exact Always.pure _

/-
  ECC_OK is what reading the tag back has told: the other
  ways out have another result.
-/
theorem wp_flashWritePageCombine_tells
    (s : Dev)
    (block page buf : Nat)
    (tag : Tag) :
    wp (flashWritePageCombine block page buf tag)
      (fun op _ t => Tells op s t) s := by
  unfold flashWritePageCombine
  apply always_spareGet.seq
  intro spare _ t hst
  cases spare with
  | false =>
      simp only [Bool.not_false, if_true, wp_pure]
      exact hst.tells (by decide)
  | true =>
      simp only [Bool.not_true, Bool.false_eq_true, if_false]
      apply (always_getBuf buf).seq
      intro b _ t₁ ht₁
      apply (always_driverWritePage _ _ _).seq
      intro ret _ t₂ ht₂
      have hst₂ := hst.trans (ht₁.trans ht₂)
      by_cases hErr : ret.haveErr = true
      · rw [if_pos hErr]
        apply always_sparePut.seq
        intro _ _ t₃ ht₃
        rw [wp_pure]
        apply (hst₂.trans ht₃).tells
        split
        · decide
        · intro hEcc
          rw [hEcc] at hErr
          cases hErr
      · rw [if_neg hErr]
        apply (always_verifyPageData _ _ _).seq
        intro isBad _ t₃ ht₃
        apply wp_seq (wp_flashReadPageTag_tells t₃ _ _ _)
        rintro ⟨ret, chk⟩ _ t₄ hTells
        dsimp only
        apply always_sparePut.seq
        intro _ _ t₅ ht₅
        have hAll := (hTells.before ht₅).after
          (hst₂.trans ht₃)
        -- a tag that does not match makes the block bad
        generalize (!ret.haveErr &&
          decide ({ chk with sealed := true } ≠
            { tag with sealed := true })) = c
        cases c with
        | true =>
            simp only [if_true, decide_true, Bool.or_true,
              wp_pure]
            exact hAll.waits.tells (by decide)
        | false =>
            simp only [Bool.false_eq_true, if_false]
            split
            · rw [wp_pure]
              exact hAll.waits.tells (by decide)
            · rw [wp_pure]
              exact hAll

theorem always_flashWritePageCombine
    (block page buf : Nat)
    (tag : Tag) :
    Always Waits (flashWritePageCombine block page buf tag) := by
  intro s
  exact wp_mono (wp_flashWritePageCombine_tells s _ _ _ _)
    fun _ _ _ h => h.waits

/- What the erase answered is kept for the block. -/
theorem always_driverEraseBlock (block : Nat) :
    Always Waits (driverEraseBlock block) := by
  unfold driverEraseBlock
  apply always_nextAnswer.bind
  intro a
  apply (always_medium _).bind
  intro _
  apply Always.bind
  · exact Always.modify fun _ => ⟨rfl, Nat.le_refl _⟩
  · intro _
    exact Always.pure _

------------------------------------------------------------
-- Block Infos
------------------------------------------------------------

/- A block info that is found gets one more user. -/
omit [Platform] in
theorem always_blockInfoFindInCache (block : Nat) :
    Always Waits (blockInfoFindInCache block) := by
  unfold blockInfoFindInCache
  apply Always.get.bind
  intro s
  split
  · exact Always.pure _
  · apply (always_setInfo _ _).bind
    intro _
    exact Always.pure _

omit [Platform] in
theorem always_moveBcToTail (i : Nat) :
    Always Waits (moveBcToTail i) :=
  Always.modify fun _ => ⟨rfl, Nat.le_refl _⟩

/-
  The block info is in the cache, or the first free one is
  taken for the block, or there is none.
-/
theorem always_blockInfoGet (block : Nat) :
    Always Waits (blockInfoGet block) := by
  unfold blockInfoGet
  apply (always_blockInfoFindInCache block).bind
  intro o
  cases o with
  | some i =>
      apply (always_moveBcToTail i).bind
      intro _
      exact Always.pure _
  | none =>
      apply Always.get.bind
      intro s
      dsimp only
      split
      · exact Always.pure _
      · apply (always_setInfo _ _).bind
        intro _
        apply (always_moveBcToTail _).bind
        intro _
        exact Always.pure _

omit [Platform] in
theorem always_blockInfoPut (i : Nat) :
    Always Waits (blockInfoPut i) :=
  always_setInfo _ _

theorem always_blockInfoExpireAll (i : Nat) :
    Always Waits (blockInfoExpireAll i) :=
  always_setInfo _ _

omit [Platform] in
theorem always_blockInfoInitErased (i : Nat) :
    Always Waits (blockInfoInitErased i) :=
  always_setInfo _ _

/- A page that is not expired is not read again. -/
theorem always_blockInfoLoad (i page : Nat) :
    Always Waits (blockInfoLoad i page) := by
  unfold blockInfoLoad
  apply Always.ite
  · exact Always.pure _
  · apply (always_getInfo i).bind
    intro w
    apply Always.ite
    · exact Always.pure _
    · apply (always_flashReadPageTag _ _ _).bind
      rintro ⟨ret, tag⟩
      apply (always_badBlockAddByFlashResult _ _).bind
      intro _
      apply Always.ite
      · apply (always_setTag _ _ _).bind
        intro _
        exact Always.pure _
      · apply (always_setInfo _ _).bind
        intro _
        exact Always.pure _

/- By induction on the pages that are left. -/
theorem always_blockInfoLoadFrom (i n : Nat) :
    ∀ page nfailed,
      Always Waits (blockInfoLoadFrom i n page nfailed) := by
  induction n with
  | zero =>
      intro page nfailed
      exact Always.pure _
  | succ n ih =>
      intro page nfailed
      unfold blockInfoLoadFrom
      apply (always_getInfo i).bind
      intro w
      apply Always.ite
      · exact ih _ _
      · apply (always_flashReadPageTag _ _ _).bind
        rintro ⟨ret, tag⟩
        apply (always_badBlockAddByFlashResult _ _).bind
        intro _
        apply Always.ite
        · apply (always_setInfo _ _).bind
          intro _
          exact ih _ _
        · apply (always_setInfo _ _).bind
          intro _
          exact ih _ _

theorem always_blockInfoLoadAll (i : Nat) :
    Always Waits (blockInfoLoadAll i) := by
  unfold blockInfoLoadAll
  apply (always_blockInfoLoadFrom i _ _ _).bind
  intro nfailed
  exact Always.pure _

/- The block may not be in the cache. -/
theorem always_expireCached (block : Nat) :
    Always Waits (expireCached block) := by
  unfold expireCached
  apply (always_blockInfoFindInCache block).bind
  intro o
  cases o with
  | none => exact Always.pure _
  | some i =>
      apply (always_blockInfoExpireAll i).bind
      intro _
      exact always_blockInfoPut i

/- The block leaves the pending list first. -/
theorem always_flashEraseBlock (block : Nat) :
    Always Waits (flashEraseBlock block) := by
  unfold flashEraseBlock
  apply (always_badBlockPendingRemove block).bind
  intro _
  apply (always_driverEraseBlock block).bind
  intro ret
  apply (always_expireCached block).bind
  intro _
  exact Always.pure _

/- The block is erased, and then marked. -/
theorem always_flashMarkBadBlock (block : Nat) :
    Always Waits (flashMarkBadBlock block) := by
  unfold flashMarkBadBlock
  apply (always_badBlockPendingRemove block).bind
  intro _
  apply (always_expireCached block).bind
  intro _
  apply (always_driverEraseBlock block).bind
  intro _
  apply always_nextAnswer.bind
  intro a
  exact Always.ite (always_medium _) (Always.pure _)

/- A note that depends on the medium. -/
theorem always_noteNotBlank
    (block : Nat)
    (n : Note) : Always Waits (noteNotBlank block n) := by
  unfold noteNotBlank
  apply Always.get.bind
  intro s
  exact Always.ite (always_note n) (Always.pure _)

theorem always_noteUnchecked (block : Nat) :
    Always Waits (noteUnchecked block) := by
  unfold noteUnchecked
  apply Always.get.bind
  intro s
  exact Always.ite (always_note _) (Always.pure _)

/-
  By induction on the pages; an I/O error is passed over,
  and a page that is not blank ends the check.
-/
theorem always_flashCheckErasedFrom (block buf n : Nat) :
    ∀ page,
      Always Waits (flashCheckErasedFrom block buf n page) := by
  induction n with
  | zero =>
      intro page
      exact Always.pure _
  | succ n ih =>
      intro page
      unfold flashCheckErasedFrom
      apply always_nextAnswer.bind
      intro a
      apply Always.get.bind
      intro s
      apply (always_setBuf _ _).bind
      intro _
      apply Always.ite
      · exact Always.pure _
      · dsimp only
        apply Always.ite
        · apply (always_note _).bind
          intro _
          exact ih _
        · exact ih _

/- Without a spare or a clone buffer the block passes. -/
theorem always_flashCheckErasedBlock (block : Nat) :
    Always Waits (flashCheckErasedBlock block) := by
  unfold flashCheckErasedBlock
  apply always_spareGet.bind
  intro spare
  apply Always.ite
  · apply (always_noteUnchecked block).bind
    intro _
    exact Always.pure _
  · apply always_bufClone.bind
    intro o
    cases o with
    | none =>
        apply always_sparePut.bind
        intro _
        apply (always_noteUnchecked block).bind
        intro _
        exact Always.pure _
    | some i =>
        apply (always_flashCheckErasedFrom _ _ _ _).bind
        intro ret
        apply always_sparePut.bind
        intro _
        apply (always_bufFreeClone i).bind
        intro _
        exact Always.pure _

------------------------------------------------------------
-- Pages of a Block
------------------------------------------------------------

theorem always_findBestFrom
    (bc : Nat)
    (old : Tag)
    (page n : Nat) :
    Always Waits (findBestFrom bc old page n) := by
  induction n with
  | zero => exact Always.pure _
  | succ n ih =>
      unfold findBestFrom
      apply (always_blockInfoLoad _ _).bind
      intro _
      apply (always_getTag _ _).bind
      intro tag
      exact Always.ite (Always.pure _) ih

/- No page, the page itself, or the best one behind it. -/
theorem always_findBestPageInBlock (bc page : Nat) :
    Always Waits (findBestPageInBlock bc page) := by
  unfold findBestPageInBlock
  apply (always_blockInfoLoad _ _).bind
  intro _
  apply (always_getTag _ _).bind
  intro old
  apply Always.ite
  · exact Always.pure _
  · apply Always.ite
    · exact Always.pure _
    · apply (always_blockInfoLoad _ _).bind
      intro _
      apply (always_getTag _ _).bind
      intro tag
      apply Always.ite
      · exact Always.pure _
      · apply (always_findBestFrom _ _ _ _).bind
        intro best
        exact Always.pure _

/- By induction on the pages that are left. -/
theorem always_findPageFrom (bc pageId n : Nat) :
    ∀ page, Always Waits (findPageFrom bc pageId n page) := by
  induction n with
  | zero =>
      intro page
      exact Always.pure _
  | succ n ih =>
      intro page
      unfold findPageFrom
      apply (always_blockInfoLoad _ _).bind
      intro _
      apply (always_getTag _ _).bind
      intro tag
      exact Always.ite (Always.pure _) (ih _)

end Uffs
