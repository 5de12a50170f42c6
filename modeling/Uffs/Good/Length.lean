import Mathlib.Algebra.BigOperators.Intervals
import Uffs.Good.Content
import Uffs.Model.Emulator

/-
  The length of the data of a block.

  The code takes the length of a full block from its last
  page alone, and otherwise counts the page ids in the order
  in which they first occur.  Here both are shown to be the
  sum of the lengths of the newest copies.

  Main declarations:
    * `BlockType.dataFrom`, `newestCopy`, `dataLength`
    * `Appended`
    * `Appended.lengthFrom_eq`, `Appended.blockLength_eq`
    * `getBlockFileDataLength_correct`
-/

namespace Uffs

section Length

variable [Platform]

------------------------------------------------------------
-- The Length That Is Meant
------------------------------------------------------------

/- Page id 0 of a FILE block holds the file info. -/
def BlockType.dataFrom : BlockType → Nat
| .file => 1
| _ => 0

omit [Platform] in
@[simp] theorem BlockType.dataFrom_file :
    BlockType.file.dataFrom = 1 := rfl

omit [Platform] in
@[simp] theorem BlockType.dataFrom_data :
    BlockType.data.dataFrom = 0 := rfl

/- The highest page that carries a page id. -/
def newestCopy (τ : Nat → Tag) (id : Nat) : Nat :=
  Nat.findGreatest
    (fun p => (τ p).isGood = true ∧ (τ p).pageId = id)
    (pagesPerBlock - 1)

/-
  The data of a block of the page ids from `from` to `k`: the
  lengths of the newest copies.
-/
def dataLength (τ : Nat → Tag) (first k : Nat) : Nat :=
  ∑ id ∈ Finset.Ico first (k + 1),
    (τ (newestCopy τ id)).dataLen

/-
  A block that is filled, where the page ids occur for the
  first time in increasing order, and the data pages below
  the last one are full.
-/
structure Appended
    (τ : Nat → Tag)
    (object : GroupKey)
    (n k : Nat) : Prop extends Filled τ object n k where
  ordered : ∀ p < n, ∀ id < (τ p).pageId,
    ∃ q < p, (τ q).pageId = id
  full : ∀ id, object.type.dataFrom ≤ id → id < k →
    (τ (newestCopy τ id)).dataLen = pgDataSize

------------------------------------------------------------
-- Newest Copies
------------------------------------------------------------

namespace Filled

variable {τ : Nat → Tag} {key : GroupKey} {n k p : Nat}

/- No copy of the page id of a page is above the newest. -/
theorem newestCopy_eq
    (h : Filled τ key n k)
    (hp : p < n)
    (hLast : ∀ q, p < q → q < n →
      (τ q).pageId ≠ (τ p).pageId) :
    newestCopy τ (τ p).pageId = p := by
  have hLe := h.le
  unfold newestCopy
  rw [Nat.findGreatest_eq_iff]
  constructor
  · omega
  constructor
  · intro _
    exact ⟨h.good p hp, rfl⟩
  · intro q hq hEnd hCopy
    have hqn := h.lt_of_good (by omega) hCopy.1
    exact hLast q hq hqn hCopy.2

/-
  The search for a better page finds the newest copy, in a
  block that is not full.
-/
theorem bestPage_eq
    (h : Filled τ key n k)
    (hNotFull : isFull τ = false)
    (hp : p < n) :
    bestPage τ p = some (newestCopy τ (τ p).pageId) := by
  have hLe := h.le
  rcases h.exists_last (h.below p hp) with
    ⟨q, hq, hqId, hLast⟩
  have hNewest : newestCopy τ (τ p).pageId = q := by
    rw [← hqId] at hLast ⊢
    exact h.newestCopy_eq hq hLast
  have hpq : p ≤ q := by
    by_contra hNot
    exact hLast p (by omega) hp rfl
  rw [hNewest]
  unfold bestPage
  rw [h.good p hp, hNotFull, Bool.not_true,
    if_neg Bool.false_ne_true]
  split
  · have hEq : p = q := by omega
    rw [hEq]
  · rw [if_neg Bool.false_ne_true,
      bestFrom_eq (pagesPerBlock - 1 - p) hpq (by omega)]
    · intro _
      have hKeyP := h.key p hp
      have hKeyQ := h.key q hq
      refine ⟨h.good q hq, hqId, ?_, ?_⟩
      · rw [hKeyQ.2.1, hKeyP.2.1]
      · rw [hKeyQ.2.2, hKeyP.2.2]
    · intro r hr hrn hCopy
      have hrLt := h.lt_of_good (by omega) hCopy.1
      exact hLast r hr hrLt hCopy.2

end Filled

------------------------------------------------------------
-- The Two Ways to the Length
------------------------------------------------------------

namespace Appended

variable {τ : Nat → Tag} {key : GroupKey} {n k : Nat}

/- The data below the last page id. -/
theorem dataLength_eq
    (h : Appended τ key n k)
    (hFrom : key.type.dataFrom ≤ k) :
    dataLength τ key.type.dataFrom k =
      pgDataSize * (k - key.type.dataFrom) +
        (τ (newestCopy τ k)).dataLen := by
  have hFull : ∀ id ∈ Finset.Ico key.type.dataFrom k,
      (τ (newestCopy τ id)).dataLen = pgDataSize := by
    intro id hId
    rw [Finset.mem_Ico] at hId
    exact h.full id hId.1 hId.2
  unfold dataLength
  rw [Finset.sum_Ico_succ_top hFrom,
    Finset.sum_congr (Eq.refl _) hFull, Finset.sum_const,
    Nat.card_Ico, Nat.nsmul_eq_mul, Nat.mul_comm]

/-
  In a full block the last page is the only copy of the last
  page id.
-/
theorem last_of_full
    (h : Appended τ key n k)
    (hFull : isFull τ = true) :
    k = pagesPerBlock - 1 ∧
      newestCopy τ k = pagesPerBlock - 1 := by
  have hTwo := Platform.two_le_pagesPerBlock
  have hLe := h.le
  have hk := h.lt_pages
  unfold isFull at hFull
  rw [Bool.and_eq_true, beq_iff_eq] at hFull
  have hn := h.lt_of_good (by omega) hFull.1
  have hTop := h.below _ hn
  have hEq : k = pagesPerBlock - 1 := by omega
  constructor
  · exact hEq
  · have hNewest := h.newestCopy_eq hn (by omega)
    rw [hFull.2, ← hEq] at hNewest
    rw [hNewest, hEq]

/-
  The scan.  The page ids below `pageId` are those that occur
  below page `i`, so that a page either shows one of them
  again or is the first copy of `pageId`.
-/
theorem lengthFrom_eq
    (h : Appended τ key n k)
    (hNotFull : isFull τ = false)
    (m : Nat) :
    ∀ {i pageId size : Nat},
      i + m = pagesPerBlock →
      pageId ≤ k + 1 →
      (∀ p < i, p < n → (τ p).pageId < pageId) →
      (∀ id < pageId, ∃ p < i, (τ p).pageId = id) →
      lengthFrom τ m i pageId size =
        size + dataLength τ pageId k := by
  induction m with
  | zero =>
      intro i pageId size hEnd hTo hSeen _
      -- the page id `k` occurs, so it has been counted
      rcases h.onto k (Nat.le_refl k) with ⟨p, hp, hId⟩
      have hLe := h.le
      have hLt := hSeen p (by omega) hp
      have hAll : pageId = k + 1 := by omega
      unfold lengthFrom dataLength
      rw [hAll, Finset.Ico_self, Finset.sum_empty,
        Nat.add_zero]
  | succ m ih =>
      intro i pageId size hEnd hTo hSeen hAll
      have hAll' : ∀ id < pageId,
          ∃ p < i + 1, (τ p).pageId = id := by
        intro id hId
        rcases hAll id hId with ⟨p, hp, hpId⟩
        exact ⟨p, by omega, hpId⟩
      unfold lengthFrom
      by_cases hi : i < n
      · have hGood := h.good i hi
        by_cases hNext : (τ i).pageId = pageId
        · -- the first copy of the next page id
          have hBest := h.bestPage_eq hNotFull hi
          have hBelow := h.below i hi
          rw [hGood, hNext, beq_self_eq_true, Bool.and_self,
            if_pos (Eq.refl _), hBest, hNext]
          dsimp only
          rw [ih (by omega) (by omega) _ _]
          · unfold dataLength
            rw [Finset.sum_eq_sum_Ico_succ_bot
              (show pageId < k + 1 by omega)]
            omega
          · intro p hp hpn
            by_cases hpi : p = i
            · rw [hpi, hNext]
              exact Nat.lt_succ_self _
            · have hLt := hSeen p (by omega) hpn
              omega
          · intro id hId
            by_cases hHere : id = pageId
            · exact ⟨i, Nat.lt_succ_self i,
                hNext.trans hHere.symm⟩
            · exact hAll' id (by omega)
        · -- another copy of a page id counted before
          have hBefore : (τ i).pageId < pageId := by
            by_contra hNot
            rcases h.ordered i hi pageId (by omega) with
              ⟨q, hq, hqId⟩
            have hLt := hSeen q hq (by omega)
            omega
          rw [if_neg]
          · apply ih (by omega) hTo _ hAll'
            intro p hp hpn
            by_cases hpi : p = i
            · rw [hpi]
              exact hBefore
            · exact hSeen p (by omega) hpn
          · intro hCopy
            rw [Bool.and_eq_true, beq_iff_eq] at hCopy
            exact hNext hCopy.2
      · -- an erased page
        have hErased := h.erased i (by omega) (by omega)
        rw [Tag.isGood_of_isErased hErased, Bool.false_and,
          if_neg Bool.false_ne_true]
        apply ih (by omega) hTo _ hAll'
        intro p hp hpn
        exact hSeen p (by omega) hpn

/- Both ways lead to the sum over the newest copies. -/
theorem blockLength_eq
    (h : Appended τ key n k)
    (hType : key.type = .file ∨ key.type = .data) :
    blockLength τ key.type =
      dataLength τ key.type.dataFrom k := by
  have hTwo := Platform.two_le_pagesPerBlock
  have hk := h.lt_pages
  unfold blockLength
  cases hFull : isFull τ with
  | true =>
      rcases h.last_of_full hFull with ⟨hLast, hNewest⟩
      have hSum := h.dataLength_eq
      rw [hNewest] at hSum
      rcases hType with hFile | hData
      · rw [hFile, BlockType.dataFrom_file] at hSum
        have hCount : k - 1 = pagesPerBlock - 2 := by omega
        rw [hFile, BlockType.dataFrom_file, hSum (by omega),
          hCount]
        rfl
      · rw [hData, BlockType.dataFrom_data] at hSum
        rw [hData, BlockType.dataFrom_data,
          hSum (Nat.zero_le k), Nat.sub_zero, hLast]
        rfl
  | false =>
      have hFirst := h.good 0 (by omega)
      have hZero := h.place 0 (by omega)
      rw [Bool.false_and, Bool.false_and,
        if_neg Bool.false_ne_true, if_neg Bool.false_ne_true,
        hFirst, Bool.not_true, if_neg Bool.false_ne_true,
        (h.key 0 (by omega)).1]
      rcases hType with hFile | hData
      · -- page 0 holds the file info
        rw [hFile, if_pos (Eq.refl _), h.lengthFrom_eq hFull]
        · rw [Nat.zero_add]
          rfl
        · omega
        · omega
        · intro p hp _
          have hEq : p = 0 := by omega
          rw [hEq]
          omega
        · intro id hId
          exact ⟨0, by omega, by omega⟩
      · rw [hData, if_neg (by decide), h.lengthFrom_eq hFull]
        · rw [Nat.zero_add]
          rfl
        · omega
        · omega
        · intro p hp
          omega
        · intro id hId
          omega

end Appended

/-
  The length of a FILE or DATA block is the sum over the
  newest copies of its data pages.
-/
theorem getBlockFileDataLength_correct
    {s : Dev}
    {i : Nat}
    {key : GroupKey}
    {n k : Nat}
    (hReady : Readable s i)
    (hType : key.type = .file ∨ key.type = .data)
    (hAppended : Appended (s.tags i) key n k) :
    Yields i (getBlockFileDataLength i key.type)
      (dataLength (s.tags i) key.type.dataFrom k) s := by
  rw [← hAppended.blockLength_eq hType]
  exact yields_getBlockFileDataLength key.type hReady

end Length

/-
  A file block with its info, two pages of data, and a newer
  copy of the first of them.
-/
def rewrittenTags : Nat → Tag
| 0 => Tag.store .file 0 200 5 2 0
| 1 => Tag.store .file 0 160 5 2 1
| 2 => Tag.store .file 0 7 5 2 2
| 3 => Tag.store .file 0 160 5 2 1
| _ => Tag.erased

/- The device with this block, held in a block info. -/
def Dev.rewritten : Dev :=
  let _ := emulator alwaysOk
  { Dev.init
      { page := fun _ p =>
          { Page.erased 160 with tag := rewrittenTags p }
        bad := fun _ => false } 0 with
    bc := { BcCache.init with
      info := fun i => { BcCache.init.info i with block := 3 } } }

theorem getBlockFileDataLength_rewritten :
    let _ := emulator alwaysOk
    Readable Dev.rewritten 0 ∧
      Appended (Dev.rewritten.tags 0) ⟨.file, 2, 5⟩ 4 2 ∧
      Yields 0 (getBlockFileDataLength 0 .file) 167
        Dev.rewritten := by
  let _ := emulator alwaysOk
  have hReady : Readable Dev.rewritten 0 := by
    constructor
    · intro n _
      rfl
    · decide
    · intro p _ hKept
      cases hKept
  have hAppended :
      Appended (Dev.rewritten.tags 0) ⟨.file, 2, 5⟩ 4 2 := by
    constructor
    · constructor
      · decide
      · decide
      · decide
      · decide
      · decide
      · decide
      · intro p hp hLt
        exact absurd hLt (Nat.not_lt.mpr hp)
    · decide
    · intro id hFrom hTo
      have hId : id = 1 := by
        have hFrom' : 1 ≤ id := hFrom
        omega
      rw [hId]
      decide
  have hLength :
      dataLength (Dev.rewritten.tags 0) 1 2 = 167 := by
    decide
  refine ⟨hReady, hAppended, ?_⟩
  rw [← hLength]
  exact getBlockFileDataLength_correct hReady (.inl rfl)
    hAppended

end Uffs
