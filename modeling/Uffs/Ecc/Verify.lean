import Uffs.Model.Spare

/-
  What a written page that was read back is known to be.

  The result of the read back of the data is overwritten by
  that of the tag: an error that does not mean a bad block,
  and a corrected bit flip, are lost.

  Main declarations:
    * `WriteCalls.Verified`
    * `WriteCalls.VerifyComplete`
    * `writePageCombine_verified_iff`
-/

namespace Uffs

namespace WriteCalls

variable {g : Geometry} {pageCrc : Bool} {data : List Byte}
variable {tag : TagStore} {c : WriteCalls}

/- `uffs_FlashReadPage` in the verification -/
def dataRead
    (c : WriteCalls)
    (g : Geometry)
    (pageCrc : Bool) : FlashRet × List Byte :=
  readPageOf g pageCrc c.dataSpare c.data

/- `uffs_FlashReadPageTag` in the verification -/
def tagRead
    (c : WriteCalls)
    (g : Geometry) : FlashRet × TagStore :=
  readTagOf g c.tagSpare c.tag

/-
  The driver wrote without an error, the data and the tag
  were read back without an error and are those that were
  written, and `ret` tells of a correction.
-/
structure Verified
    (g : Geometry)
    (pageCrc : Bool)
    (data : List Byte)
    (tag : TagStore)
    (c : WriteCalls)
    (ret : FlashRet) : Prop where
  written : c.write.haveErr = false
  cloned : c.clone = true
  dataOk : (c.dataRead g pageCrc).1.haveErr = false
  dataEq : (c.dataRead g pageCrc).2 =
    (writePageBytes g pageCrc data tag).page
  tagOk : (c.tagRead g).1.haveErr = false
  tagEq : (c.tagRead g).2 = tag.setWritten.makeEcc
  corrected : (c.dataRead g pageCrc).1 = .eccOk ∨
    (c.tagRead g).1 = .eccOk → ret = .eccOk

/-
  Something fails that the function returns, or the data are
  read back with a result that is not lost.
-/
def VerifyComplete
    (g : Geometry)
    (pageCrc : Bool)
    (data : List Byte)
    (tag : TagStore)
    (c : WriteCalls) : Prop :=
  c.spare = false ∨ c.write.haveErr = true ∨
    (c.tagRead g).1.haveErr = true ∨
    (c.tagRead g).2 ≠ tag.setWritten.makeEcc ∨
    (c.clone = true ∧
      (c.dataRead g pageCrc).1 ≠ .ioErr ∧
      (c.dataRead g pageCrc).1 ≠ .unknownErr ∧
      ((c.dataRead g pageCrc).1 = .eccOk →
        (c.dataRead g pageCrc).2 =
          (writePageBytes g pageCrc data tag).page →
        (c.tagRead g).1 = .eccOk))

end WriteCalls

open WriteCalls

variable {g : Geometry} {pageCrc : Bool} {data : List Byte}
variable {tag : TagStore} {c : WriteCalls}

theorem FlashRet.not_isBadBlock
    {r : FlashRet}
    (h : r.haveErr = false) : r.isBadBlock = false := by
  cases r with
  | noErr => rfl
  | eccOk => rfl
  | ioErr => cases h
  | eccFail => cases h
  | badBlk => cases h
  | crcErr => cases h
  | unknownErr => cases h

/- A failing read that is not of a bad block. -/
theorem FlashRet.lost
    {r : FlashRet}
    (hErr : r.haveErr = true)
    (hBad : r.isBadBlock = false) :
    r = .ioErr ∨ r = .unknownErr := by
  cases r with
  | noErr => cases hErr
  | eccOk => cases hErr
  | ioErr => exact Or.inl rfl
  | eccFail => cases hBad
  | badBlk => cases hBad
  | crcErr => cases hBad
  | unknownErr => exact Or.inr rfl

/- The steps before the read back fail. -/
theorem writePageCombine_fails
    (pageCrc : Bool)
    (data : List Byte)
    (h : c.spare = false ∨ c.write.haveErr = true ∨
      (c.tagRead g).1.haveErr = true ∨
      (c.tagRead g).2 ≠ tag.setWritten.makeEcc) :
    (writePageCombine g pageCrc data tag c).haveErr = true := by
  unfold writePageCombine
  unfold WriteCalls.tagRead at h
  cases hSpare : c.spare with
  | false => rfl
  | true =>
      cases hWrite : c.write.haveErr with
      | true =>
          cases hBad : c.write.isBadBlock with
          | true => rfl
          | false => exact hWrite
      | false =>
          rw [hSpare, hWrite] at h
          dsimp only
          cases hTag : (readTagOf g c.tagSpare c.tag).1.haveErr
          with
          | true =>
              cases hBad : c.write.isBadBlock ||
                  verifyPageBytes g pageCrc
                    (writePageBytes g pageCrc data tag).page c
              with
              | true => rfl
              | false => exact hTag
          | false =>
              rw [hTag] at h
              have hNe : (readTagOf g c.tagSpare c.tag).2 ≠
                  tag.setWritten.makeEcc := by
                simpa using h
              rw [if_pos hNe]
              simp [FlashRet.isBadBlock, FlashRet.haveErr]

/- The result when only the data may be wrong. -/
theorem writePageCombine_eq
    (pageCrc : Bool)
    (data : List Byte)
    (hSpare : c.spare = true)
    (hWrite : c.write.haveErr = false)
    (hTag : (c.tagRead g).1.haveErr = false)
    (hEq : (c.tagRead g).2 = tag.setWritten.makeEcc) :
    writePageCombine g pageCrc data tag c =
      if verifyPageBytes g pageCrc
          (writePageBytes g pageCrc data tag).page c then
        .badBlk
      else (c.tagRead g).1 := by
  unfold WriteCalls.tagRead at *
  unfold writePageCombine
  dsimp only
  rw [hSpare, hWrite, hTag, if_neg (not_not.mpr hEq),
    FlashRet.not_isBadBlock hWrite,
    FlashRet.not_isBadBlock hTag]
  simp

/- When the read back of the data finds no bad block. -/
theorem verifyPageBytes_eq_false
    {page : List Byte} :
    verifyPageBytes g pageCrc page c = false ↔
      c.clone = true →
        (c.dataRead g pageCrc).1.isBadBlock = false ∧
          ((c.dataRead g pageCrc).1.haveErr = false →
            (c.dataRead g pageCrc).2 = page) := by
  unfold verifyPageBytes WriteCalls.dataRead
  dsimp only
  cases hClone : c.clone with
  | false => simp
  | true =>
      rw [if_pos rfl]
      by_cases hBad :
          (!(readPageOf g pageCrc c.dataSpare
            c.data).1.haveErr &&
          decide ((readPageOf g pageCrc c.dataSpare c.data).2 ≠
            page)) = true
      · rw [if_pos hBad]
        rw [Bool.and_eq_true, Bool.not_eq_true',
          decide_eq_true_iff] at hBad
        simp [FlashRet.isBadBlock, hBad.1, hBad.2]
      · rw [if_neg hBad]
        rw [Bool.and_eq_true, Bool.not_eq_true',
          decide_eq_true_iff, not_and, not_not] at hBad
        simp only [true_implies]
        constructor
        · intro h
          exact ⟨h, hBad⟩
        · intro h
          exact h.1

/-
  A result that is not an error means a verified page if and
  only if the result of reading back the data is not lost.
-/
theorem writePageCombine_verified_iff
    (g : Geometry)
    (pageCrc : Bool)
    (data : List Byte)
    (tag : TagStore)
    (c : WriteCalls) :
    ((writePageCombine g pageCrc data tag c).haveErr = false →
      c.Verified g pageCrc data tag
        (writePageCombine g pageCrc data tag c)) ↔
      c.VerifyComplete g pageCrc data tag := by
  by_cases hFails : c.spare = false ∨ c.write.haveErr = true ∨
      (c.tagRead g).1.haveErr = true ∨
      (c.tagRead g).2 ≠ tag.setWritten.makeEcc
  · -- nothing is said of a failing write
    have hErr := writePageCombine_fails pageCrc data hFails
    constructor
    · intro _
      unfold WriteCalls.VerifyComplete
      rcases hFails with h | h | h | h
      · exact Or.inl h
      · exact Or.inr (Or.inl h)
      · exact Or.inr (Or.inr (Or.inl h))
      · exact Or.inr (Or.inr (Or.inr (Or.inl h)))
    · intro _ hOk
      rw [hErr] at hOk
      cases hOk
  · simp only [not_or, Bool.not_eq_false, Bool.not_eq_true,
      not_not] at hFails
    rcases hFails with ⟨hSpare, hWrite, hTag, hTagEq⟩
    rw [writePageCombine_eq pageCrc data hSpare hWrite hTag
      hTagEq]
    have hComplete : c.VerifyComplete g pageCrc data tag ↔
        c.clone = true ∧
          (c.dataRead g pageCrc).1 ≠ .ioErr ∧
          (c.dataRead g pageCrc).1 ≠ .unknownErr ∧
          ((c.dataRead g pageCrc).1 = .eccOk →
            (c.dataRead g pageCrc).2 =
              (writePageBytes g pageCrc data tag).page →
            (c.tagRead g).1 = .eccOk) := by
      unfold WriteCalls.VerifyComplete
      simp [hSpare, hWrite, hTag, hTagEq]
    rw [hComplete]
    cases hVerify : verifyPageBytes g pageCrc
        (writePageBytes g pageCrc data tag).page c with
    | true =>
        -- the block is bad
        have hBad := mt verifyPageBytes_eq_false.mpr
          (Bool.not_eq_false _ ▸ hVerify)
        rw [Classical.not_imp, not_and_or] at hBad
        rcases hBad with ⟨hClone, hBad⟩
        constructor
        · intro _
          refine ⟨hClone, ?_, ?_, ?_⟩
          · intro hIo
            rw [hIo] at hBad
            simp [FlashRet.isBadBlock, FlashRet.haveErr] at hBad
          · intro hUnknown
            rw [hUnknown] at hBad
            simp [FlashRet.isBadBlock, FlashRet.haveErr] at hBad
          · intro hEcc hSame
            rw [hEcc, hSame] at hBad
            simp [FlashRet.isBadBlock] at hBad
        · intro _ hOk
          cases hOk
    | false =>
        have hGood := verifyPageBytes_eq_false.mp hVerify
        rw [if_neg Bool.false_ne_true]
        constructor
        · intro h
          have hDone := h hTag
          have hOk := hDone.dataOk
          refine ⟨hDone.cloned, ?_, ?_, ?_⟩
          · intro hIo
            rw [hIo] at hOk
            cases hOk
          · intro hUnknown
            rw [hUnknown] at hOk
            cases hOk
          · intro hEcc _
            exact hDone.corrected (Or.inl hEcc)
        · rintro ⟨hClone, hIo, hUnknown, hEcc⟩ _
          rcases hGood hClone with ⟨hNotBad, hSame⟩
          have hOk : (c.dataRead g pageCrc).1.haveErr = false :=
            by
            cases hErr : (c.dataRead g pageCrc).1.haveErr with
            | false => rfl
            | true =>
                rcases FlashRet.lost hErr hNotBad with h | h
                · exact absurd h hIo
                · exact absurd h hUnknown
          constructor
          · exact hWrite
          · exact hClone
          · exact hOk
          · exact hSame hOk
          · exact hTag
          · exact hTagEq
          · intro h
            rcases h with h | h
            · exact hEcc h (hSame hOk)
            · exact h

/-
  A write whose data are read back with an I/O error is
  taken for a good one.
-/
theorem writePageCombine_verified_false :
    let g : Geometry :=
      { pageDataSize := 8, spareSize := 16
        blockStatusOffs := 5 }
    let raw := writePageBytes g false [1, 2, 3, 4] 0
    let c : WriteCalls :=
      { spare := true
        write := .noErr
        clone := true
        dataSpare := true
        data := { ret := .ioErr, raw := raw }
        tagSpare := true
        tag := { ret := .noErr, raw := raw } }
    writePageCombine g false [1, 2, 3, 4] 0 c = .noErr ∧
      ¬ c.Verified g false [1, 2, 3, 4] 0 .noErr := by
  refine ⟨by decide +kernel, ?_⟩
  intro h
  have hOk := h.dataOk
  cases hOk

end Uffs
