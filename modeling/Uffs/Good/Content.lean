import Mathlib.Data.Fintype.EquivFin
import Mathlib.Data.Nat.Find
import Uffs.Good.Write

/-
  The content of a block whose written pages are an initial
  segment: each page id is read from its newest copy.

  Main declarations:
    * `newestPage`, `Flash.content`
    * `Filled`
    * `Filled.newest`, `Filled.newest_none`
    * `Filled.snoc`, `Filled.content_write`
-/

namespace Uffs

variable [Platform]

------------------------------------------------------------
-- Searching the Newest Copy
------------------------------------------------------------

/-
  `uffs_FindPageInBlockWithPageId` and then
  `uffs_FindBestPageInBlock` on the tags of a block
-/
def newestPage (τ : Nat → Tag) (id : Nat) : Option Nat :=
  (pageWithId τ id).bind (bestPage τ)

/- The data and the length that a page id of a block has. -/
def Flash.content
    (F : Flash)
    (b id : Nat) : Option (List Byte × Nat) :=
  (newestPage (F.tags b) id).map fun p =>
    ((F.page b p).data, (F.tags b p).dataLen)

omit [Platform] in
theorem pageWithIdFrom_some
    {τ : Nat → Tag}
    {id : Nat}
    (n : Nat) :
    ∀ {page p : Nat}, page ≤ p → p < page + n →
      (τ p).isGood → (τ p).pageId = id →
      ∃ q, pageWithIdFrom τ id n page = some q ∧ q ≤ p ∧
        (τ q).isGood ∧ (τ q).pageId = id := by
  induction n with
  | zero =>
      intro page p hFrom hTo _ _
      omega
  | succ n ih =>
      intro page p hFrom hTo hGood hId
      unfold pageWithIdFrom
      by_cases hHere : ((τ page).isGood &&
          (τ page).pageId == id) = true
      · rw [if_pos hHere]
        rw [Bool.and_eq_true, beq_iff_eq] at hHere
        exact ⟨page, rfl, hFrom, hHere.1, hHere.2⟩
      · rw [if_neg hHere]
        have hNe : page ≠ p := by
          intro hEq
          subst hEq
          apply hHere
          rw [hGood, hId, beq_self_eq_true]
          rfl
        exact ih (by omega) (by omega) hGood hId

omit [Platform] in
theorem pageWithIdFrom_eq_some
    {τ : Nat → Tag}
    {id : Nat}
    (n : Nat) :
    ∀ {page q : Nat}, pageWithIdFrom τ id n page = some q →
      (τ q).isGood ∧ (τ q).pageId = id := by
  induction n with
  | zero =>
      intro page q h
      cases h
  | succ n ih =>
      intro page q h
      unfold pageWithIdFrom at h
      split at h
      · rename_i hHere
        cases h
        rw [Bool.and_eq_true, beq_iff_eq] at hHere
        exact hHere
      · exact ih h

/- The highest copy of the page of a tag. -/
omit [Platform] in
theorem bestFrom_eq
    {τ : Nat → Tag}
    {old : Tag}
    {page p : Nat}
    (n : Nat)
    (hFrom : page ≤ p)
    (hTo : p ≤ page + n)
    (hSame : p ≠ page → (τ p).isGood ∧
      (τ p).pageId = old.pageId ∧ (τ p).parent = old.parent ∧
      (τ p).serial = old.serial)
    (hLast : ∀ q, p < q → q ≤ page + n →
      ¬ ((τ q).isGood ∧ (τ q).pageId = old.pageId)) :
    bestFrom τ old page n = p := by
  induction n with
  | zero =>
      unfold bestFrom
      omega
  | succ n ih =>
      unfold bestFrom
      by_cases hHere : p = page + (n + 1)
      · subst hHere
        have hCopy := hSame (by omega)
        rw [if_pos]
        rw [hCopy.1, hCopy.2.1, hCopy.2.2.1, hCopy.2.2.2]
        simp
      · have hNot := hLast (page + (n + 1)) (by omega)
          (Nat.le_refl _)
        rw [if_neg]
        · apply ih (by omega)
          intro q hq hqn
          exact hLast q hq (by omega)
        · intro hCopy
          simp only [Bool.and_eq_true, beq_iff_eq] at hCopy
          exact hNot hCopy.1.1

------------------------------------------------------------
-- Blocks Filled from Below
------------------------------------------------------------

/-
  The first `n` pages of a block are written, for the file
  object of `key`, and hold the page ids up to `k`, none of
  them above its own place; the other pages are erased.
-/
structure Filled
    (τ : Nat → Tag)
    (key : GroupKey)
    (n k : Nat) : Prop where
  le : n ≤ pagesPerBlock
  good : ∀ p < n, (τ p).isGood
  key : ∀ p < n, (τ p).type = key.type ∧
    (τ p).parent = key.parent ∧ (τ p).serial = key.serial
  place : ∀ p < n, (τ p).pageId ≤ p
  below : ∀ p < n, (τ p).pageId ≤ k
  onto : ∀ id ≤ k, ∃ p < n, (τ p).pageId = id
  erased : ∀ p, n ≤ p → p < pagesPerBlock → (τ p).isErased

/- An erased tag is not good. -/
omit [Platform] in
theorem Tag.isGood_of_isErased
    {t : Tag}
    (h : t.isErased = true) : t.isGood = false := by
  unfold Tag.isErased at h
  unfold Tag.isGood
  rw [Bool.and_eq_true, Bool.and_eq_true] at h
  rw [Bool.not_eq_true'] at h
  rw [h.1.1]
  rfl

namespace Filled

variable {τ : Nat → Tag} {key : GroupKey} {n k id p : Nat}

theorem lt_of_good
    (h : Filled τ key n k)
    (hp : p < pagesPerBlock)
    (hGood : (τ p).isGood = true) : p < n := by
  by_contra hNot
  have hErased := h.erased p (by omega) hp
  rw [Tag.isGood_of_isErased hErased] at hGood
  cases hGood

/- Page ids fit a block. -/
theorem lt_pages (h : Filled τ key n k) : k < n := by
  rcases h.onto k (Nat.le_refl k) with ⟨p, hp, hId⟩
  have hPlace := h.place p hp
  omega

/- There is a newest copy of each page id. -/
theorem exists_last
    (h : Filled τ key n k)
    (hId : id ≤ k) :
    ∃ p < n, (τ p).pageId = id ∧
      ∀ q, p < q → q < n → (τ q).pageId ≠ id := by
  classical
  rcases h.onto id hId with ⟨q, hq, hqId⟩
  let P : Nat → Prop := fun p => p < n ∧ (τ p).pageId = id
  have hSpec : P (Nat.findGreatest P n) :=
    Nat.findGreatest_spec (m := q) (Nat.le_of_lt hq) ⟨hq, hqId⟩
  refine ⟨Nat.findGreatest P n, hSpec.1, hSpec.2, ?_⟩
  intro r hr hrn hrId
  exact Nat.findGreatest_is_greatest hr (Nat.le_of_lt hrn)
    ⟨hrn, hrId⟩

/-
  In a block whose last page is in its own place each page id
  has one copy: there are as many page ids as pages.
-/
theorem injective_of_full
    (h : Filled τ key n k)
    (hFull : isFull τ = true)
    {q : Nat}
    (hp : p < n)
    (hq : q < n)
    (hEq : (τ p).pageId = (τ q).pageId) : p = q := by
  have hTwo := Platform.two_le_pagesPerBlock
  unfold isFull at hFull
  rw [Bool.and_eq_true, beq_iff_eq] at hFull
  have hLast := h.lt_of_good (by omega) hFull.1
  have hTop := h.below _ hLast
  rw [hFull.2] at hTop
  let f : Fin n → Fin n := fun p =>
    ⟨(τ p).pageId, Nat.lt_of_le_of_lt (h.place p p.isLt) p.isLt⟩
  have hOnto : Function.Surjective f := by
    intro id
    have hLe := h.le
    have hk : (id : Nat) ≤ k := by
      have hLt := id.isLt
      omega
    rcases h.onto id hk with ⟨p, hp, hId⟩
    exact ⟨⟨p, hp⟩, Fin.ext hId⟩
  have hInj := Finite.injective_iff_surjective.mpr hOnto
  have hSame : f ⟨p, hp⟩ = f ⟨q, hq⟩ := Fin.ext hEq
  exact congrArg Fin.val (hInj hSame)

/- The search finds the newest copy. -/
theorem newest
    (h : Filled τ key n k)
    (hp : p < n)
    (hId : (τ p).pageId = id)
    (hLast : ∀ q, p < q → q < n → (τ q).pageId ≠ id) :
    newestPage τ id = some p := by
  have hPlace := h.place p hp
  have hLe := h.le
  unfold newestPage pageWithId
  have hFrom : id ≤ p := by omega
  rcases pageWithIdFrom_some (pagesPerBlock - id) hFrom
    (by omega) (h.good p hp) hId with
    ⟨q, hFind, hqp, hGood, hqId⟩
  rw [hFind, Option.bind_some]
  unfold bestPage
  rw [hGood, Bool.not_true, if_neg Bool.false_ne_true]
  have hqn : q < n := by omega
  split
  · rename_i hEnd
    have hEq : q = p := by omega
    rw [hEq]
  · split
    · rename_i hFull
      have hEq := h.injective_of_full hFull hqn hp
        (hqId.trans hId.symm)
      rw [hEq]
    · rw [bestFrom_eq (pagesPerBlock - 1 - q) hqp (by omega)]
      · intro _
        have hKeyP := h.key p hp
        have hKeyQ := h.key q hqn
        refine ⟨h.good p hp, hId.trans hqId.symm, ?_, ?_⟩
        · rw [hKeyP.2.1, hKeyQ.2.1]
        · rw [hKeyP.2.2, hKeyQ.2.2]
      · intro r hr hrn hCopy
        have hrLt := h.lt_of_good (by omega) hCopy.1
        exact hLast r hr hrLt (hCopy.2.trans hqId)

/- A page id that no page has is not found. -/
theorem newest_none
    (h : Filled τ key n k)
    (hId : k < id) : newestPage τ id = none := by
  unfold newestPage
  cases hFind : pageWithId τ id with
  | none => rfl
  | some q =>
      have hLt := pageWithId_lt hFind
      have hCopy := pageWithIdFrom_eq_some _ hFind
      have hqn := h.lt_of_good hLt.2 hCopy.1
      have hBelow := h.below q hqn
      omega

/- A block that is filled holds these page ids. -/
theorem content_isSome_iff
    {F : Flash}
    {b : Nat}
    (h : Filled (F.tags b) key n k) :
    (F.content b id).isSome ↔ id ≤ k := by
  unfold Flash.content
  rw [Option.isSome_map]
  constructor
  · intro hSome
    by_contra hNot
    rw [h.newest_none (by omega)] at hSome
    cases hSome
  · intro hId
    rcases h.exists_last hId with ⟨p, hp, hpId, hLast⟩
    rw [h.newest hp hpId hLast]
    rfl

/- No page of the block holds more than a page of data. -/
theorem content_len
    {F : Flash}
    {b len : Nat}
    {data : List Byte}
    (h : Filled (F.tags b) key n k)
    (hLen : ∀ p < n, (F.tags b p).dataLen ≤ pgDataSize)
    (hContent : F.content b id = some (data, len)) :
    len ≤ pgDataSize := by
  have hId : id ≤ k := by
    rw [← h.content_isSome_iff, hContent]
    rfl
  rcases h.exists_last hId with ⟨p, hp, hpId, hLast⟩
  unfold Flash.content at hContent
  rw [h.newest hp hpId hLast, Option.map_some,
    Option.some.injEq, Prod.mk.injEq] at hContent
  rw [← hContent.2]
  exact hLen p hp

------------------------------------------------------------
-- One More Page
------------------------------------------------------------

/- The next page is written with the tag `x`. -/
theorem snoc
    {x : Tag}
    (h : Filled τ key n k)
    (hn : n < pagesPerBlock)
    (hGood : x.isGood = true)
    (hKey : x.type = key.type ∧ x.parent = key.parent ∧
      x.serial = key.serial)
    (hId : x.pageId ≤ k + 1) :
    Filled (upd τ n x) key (n + 1) (max k x.pageId) := by
  have hk := h.lt_pages
  have hOld : ∀ {p}, p < n → upd τ n x p = τ p :=
    fun hp => upd_other _ _ (by omega)
  have hSplit : ∀ {P : Nat → Tag → Prop},
      P n x → (∀ p < n, P p (τ p)) →
      ∀ p < n + 1, P p (upd τ n x p) := by
    intro P hNew hRest p hp
    by_cases hpn : p = n
    · subst hpn
      rw [upd_same]
      exact hNew
    · rw [hOld (by omega)]
      exact hRest p (by omega)
  constructor
  · exact hn
  · exact hSplit (P := fun _ t => t.isGood = true)
      hGood h.good
  · exact hSplit (P := fun _ t => t.type = key.type ∧
      t.parent = key.parent ∧ t.serial = key.serial) hKey h.key
  · exact hSplit (P := fun p t => t.pageId ≤ p)
      (by omega) h.place
  · apply hSplit (P := fun _ t => t.pageId ≤ max k x.pageId)
    · exact Nat.le_max_right _ _
    · intro p hp
      exact Nat.le_trans (h.below p hp) (Nat.le_max_left _ _)
  · intro id hTo
    by_cases hNew : id = x.pageId
    · refine ⟨n, by omega, ?_⟩
      rw [upd_same]
      exact hNew.symm
    · rcases h.onto id (by omega) with ⟨p, hp, hpId⟩
      refine ⟨p, by omega, ?_⟩
      rw [hOld hp]
      exact hpId
  · intro p hp hLt
    rw [upd_other _ _ (by omega)]
    exact h.erased p (by omega) hLt

/- The page becomes the newest copy of its page id. -/
theorem newest_snoc
    {x : Tag}
    (h : Filled τ key n k)
    (hn : n < pagesPerBlock)
    (hGood : x.isGood = true)
    (hKey : x.type = key.type ∧ x.parent = key.parent ∧
      x.serial = key.serial)
    (hId : x.pageId ≤ k + 1)
    (id : Nat) :
    newestPage (upd τ n x) id =
      if id = x.pageId then some n else newestPage τ id := by
  have hNew := h.snoc hn hGood hKey hId
  by_cases hHere : id = x.pageId
  · rw [if_pos hHere]
    apply hNew.newest (Nat.lt_succ_self n)
    · rw [upd_same]
      exact hHere.symm
    · intro q hq hqn
      omega
  · rw [if_neg hHere]
    by_cases hk : id ≤ k
    · rcases h.exists_last hk with ⟨p, hp, hpId, hLast⟩
      rw [h.newest hp hpId hLast]
      apply hNew.newest (Nat.lt_succ_of_lt hp)
      · rw [upd_other _ _ (by omega)]
        exact hpId
      · intro q hq hqn
        by_cases hqEq : q = n
        · rw [hqEq, upd_same]
          exact Ne.symm hHere
        · rw [upd_other _ _ hqEq]
          exact hLast q hq (by omega)
    · rw [h.newest_none (by omega),
        hNew.newest_none (by omega)]

end Filled

/- The flash with one page programmed. -/
omit [Platform] in
theorem Flash.tags_write
    (F : Flash)
    (b p : Nat)
    (c : Page) :
    (F.write b p c).tags b = upd (F.tags b) p c.tag := by
  funext q
  unfold Flash.tags Flash.write
  dsimp only
  rw [upd_same]
  by_cases hq : q = p
  · subst hq
    rw [upd_same, upd_same]
  · rw [upd_other _ _ hq, upd_other _ _ hq]

/- What a block holds after its next page is written. -/
theorem Filled.content_write
    {F : Flash}
    {b n k : Nat}
    {key : GroupKey}
    {c : Page}
    (h : Filled (F.tags b) key n k)
    (hn : n < pagesPerBlock)
    (hGood : c.tag.isGood = true)
    (hKey : c.tag.type = key.type ∧
      c.tag.parent = key.parent ∧ c.tag.serial = key.serial)
    (hId : c.tag.pageId ≤ k + 1)
    (id : Nat) :
    (F.write b n c).content b id =
      if id = c.tag.pageId then
        some (c.data, c.tag.dataLen)
      else
        F.content b id := by
  unfold Flash.content
  rw [Flash.tags_write, h.newest_snoc hn hGood hKey hId id]
  by_cases hHere : id = c.tag.pageId
  · rw [if_pos hHere, if_pos hHere, Option.map_some,
      Flash.write_same, upd_same]
  · rw [if_neg hHere, if_neg hHere]
    by_cases hk : id ≤ k
    · rcases h.exists_last hk with ⟨p, hp, hpId, hLast⟩
      rw [h.newest hp hpId hLast, Option.map_some,
        Option.map_some, upd_other _ _ (by omega)]
      unfold Flash.write
      dsimp only
      rw [upd_same, upd_other _ _ (by omega)]
    · rw [h.newest_none (by omega)]
      rfl

end Uffs
