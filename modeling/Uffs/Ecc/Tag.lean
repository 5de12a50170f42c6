import Uffs.Ecc.RoundTrip

/-
  The twelve bits of a tag correct one changed bit of a
  stored tag and detect two.

  The correction looks at a tag through its syndrome only,
  two deltas of six bits.  A changed bit changes the syndrome
  by a value that depends on the place of the bit, whatever
  the tag is, so that two changed bits of any tag are 64
  times 64 cases.

  Main declarations:
    * `TagStore.syndrome`, `bitSyndrome`
    * `TagStore.syndrome_xor_bit`
    * `tagEcc_corrects_detects`
-/

namespace Uffs

------------------------------------------------------------
-- Syndromes
------------------------------------------------------------

/- The two deltas that `uffs_EccCorrect8` looks at. -/
@[ext] structure Syndrome where
  line : Nat
  col : Nat
deriving DecidableEq, Repr

namespace Syndrome

/- The syndrome of two tag ECCs. -/
def of (read test : Nat) : Syndrome where
  line := ((read &&& 0xfff) >>> 6) ^^^ ((test &&& 0xfff) >>> 6)
  col := (read &&& 0xfff &&& 0x3f) ^^^
    (test &&& 0xfff &&& 0x3f)

/- Two changes, one after the other. -/
def add (s d : Syndrome) : Syndrome where
  line := s.line ^^^ d.line
  col := s.col ^^^ d.col

/- What `uffs_EccCorrect8` returns for a syndrome. -/
def verdict (s : Syndrome) : Int :=
  (eccCorrect8Deltas [] s.line s.col tagStoreSize).1

theorem of_self (e : Nat) : of e e = ⟨0, 0⟩ := by
  unfold of
  rw [Nat.xor_self, Nat.xor_self]

theorem zero_add (d : Syndrome) : (⟨0, 0⟩ : Syndrome).add d = d := by
  unfold add
  dsimp only
  rw [Nat.zero_xor, Nat.zero_xor]

/- A change of the first ECC. -/
theorem of_left
    {read read' test : Nat}
    {d : Syndrome}
    (hLine : (read' &&& 0xfff) >>> 6 =
      ((read &&& 0xfff) >>> 6) ^^^ d.line)
    (hCol : read' &&& 0xfff &&& 0x3f =
      (read &&& 0xfff &&& 0x3f) ^^^ d.col) :
    of read' test = (of read test).add d := by
  unfold of add
  dsimp only
  rw [hLine, hCol, xor_swap, xor_swap _ d.col]

end Syndrome

/- The verdict is the result, whatever the data are. -/
theorem eccCorrect8_verdict
    (data : List Byte)
    (read test : Nat) :
    (eccCorrect8 data read test tagStoreSize).1 =
      (Syndrome.of read test).verdict := by
  have hData : ∀ d0 d1,
      (eccCorrect8Deltas data d0 d1 tagStoreSize).1 =
        (eccCorrect8Deltas [] d0 d1 tagStoreSize).1 := by
    intro d0 d1
    unfold eccCorrect8Deltas
    split
    · rfl
    · split
      · split
        · rfl
        · rfl
      · split
        · rfl
        · rfl
  exact hData _ _

/- What bit `n` of a stored tag changes of its syndrome. -/
def bitSyndrome (n : Nat) : Syndrome :=
  if n < 52 then
    { line := linePair ((n / 8) &&& 0xf)
        ((255 ^^^ (n / 8)) &&& 0xf) &&& 0x3f
      col := columnParityTbl.getD (1 <<< (n % 8)) 0 >>> 2 &&&
        0x3f }
  else
    Syndrome.of (1 <<< (n - 52)) 0

/- Two changed bits are detected. -/
theorem bitSyndromes_verdict :
    ∀ n < 64, ∀ m < 64, n ≠ m →
      ((bitSyndrome n).add (bitSyndrome m)).verdict = -1 := by
  decide +kernel

------------------------------------------------------------
-- Changed Bits
------------------------------------------------------------

/- A changed bit of the eight bytes. -/
theorem eccMake8_flip
    {l : List Byte}
    {j k : Nat}
    (hLength : l.length = 8)
    (hj : j < 8)
    (hk : k < 8) :
    (eccMake8 (flipBit l j k) &&& 0xfff) >>> 6 =
        ((eccMake8 l &&& 0xfff) >>> 6) ^^^
          (linePair (j &&& 0xf) ((255 ^^^ j) &&& 0xf) &&&
            0x3f) ∧
      eccMake8 (flipBit l j k) &&& 0xfff &&& 0x3f =
        (eccMake8 l &&& 0xfff &&& 0x3f) ^^^
          (columnParityTbl.getD (1 <<< k) 0 >>> 2 &&& 0x3f) := by
  have hLine : (Parity.delta j k).line = j :=
    Nat.mod_eq_of_lt (by omega)
  have hPrime : (Parity.delta j k).prime = 255 ^^^ j :=
    congrArg (255 ^^^ ·) hLine
  have hHigh := (parityOf l).high8_xor (Parity.delta j k)
  rw [hLine, hPrime] at hHigh
  have hLow : ((parityOf l).xor (Parity.delta j k)).low8 ^^^
      (parityOf l).low8 =
      columnParityTbl.getD (1 <<< k) 0 >>> 2 &&& 0x3f :=
    low8_xor _ (parityOf_small l).col k hk
  have hTake : (flipBit l j k).take 8 = flipBit l j k := by
    rw [List.take_of_length_le]
    rw [flipBit_length, hLength]
  have hBack : ∀ a b : Nat, b = a ^^^ (b ^^^ a) := by
    intro a b
    rw [Nat.xor_comm b a, ← Nat.xor_assoc, Nat.xor_self,
      Nat.zero_xor]
  unfold eccMake8
  rw [hTake, List.take_of_length_le (Nat.le_of_eq hLength),
    parityOf_flip (by omega) hk, Parity.ecc8_high,
    Parity.ecc8_high, Parity.ecc8_low, Parity.ecc8_low, ← hHigh,
    ← hLow]
  exact ⟨hBack _ _, hBack _ _⟩

namespace TagStore

/- The ECC of a tag store, computed as `TagMakeEcc` does. -/
def freshEcc (t : TagStore) : Nat :=
  eccMake8 (t.setTagEcc 0xFFF#12).bytes

/- The syndrome of a stored tag. -/
def syndrome (t : TagStore) : Syndrome :=
  Syndrome.of t.freshEcc t.tagEcc.toNat

theorem eccCorrect_verdict (t : TagStore) :
    t.eccCorrect.1 = t.syndrome.verdict :=
  eccCorrect8_verdict _ _ _

theorem syndrome_makeEcc (t : TagStore) :
    t.makeEcc.syndrome = ⟨0, 0⟩ := by
  unfold syndrome freshEcc
  rw [setTagEcc_makeEcc, tagEcc_makeEcc, Syndrome.of_self]

/- A changed bit, of the fields or of the ECC. -/
theorem syndrome_xor_bit
    {n : Nat}
    (t : TagStore)
    (hn : n < 64) :
    (t ^^^ bit n).syndrome =
      t.syndrome.add (bitSyndrome n) := by
  unfold syndrome freshEcc bitSyndrome
  by_cases hField : n < 52
  · have hPlace : n = 8 * (n / 8) + n % 8 := by
      omega
    have hBytes : ((t ^^^ bit n).setTagEcc 0xFFF#12).bytes =
        flipBit (t.setTagEcc 0xFFF#12).bytes (n / 8)
          (n % 8) := by
      rw [setTagEcc_xor_bit _ _ hField,
        bytes_flip _ (by omega) (by omega), ← hPlace]
    have hFlip := eccMake8_flip
      (bytes_length (t.setTagEcc 0xFFF#12))
      (by omega : n / 8 < 8) (by omega : n % 8 < 8)
    rw [if_pos hField, hBytes, tagEcc_xor_bit _ hField]
    exact Syndrome.of_left hFlip.1 hFlip.2
  · rw [Nat.not_lt] at hField
    have hSame : (t ^^^ bit n).setTagEcc 0xFFF#12 =
        t.setTagEcc 0xFFF#12 := by
      apply setTagEcc_congr
      rw [fields_xor_bit _ hn hField]
    rw [if_neg (Nat.not_lt.mpr hField), hSame,
      tagEcc_xor_bit_high _ hn hField]
    unfold Syndrome.of Syndrome.add
    dsimp only
    rw [Nat.and_xor_distrib_right, Nat.shiftRight_xor_distrib,
      Nat.and_xor_distrib_right]
    simp only [Nat.zero_and, Nat.zero_shiftRight, Nat.xor_zero,
      Nat.xor_assoc]

/- The fields and the ECC make up a tag store. -/
theorem setTagEcc_tagEcc (t : TagStore) :
    t.setTagEcc t.tagEcc = t := by
  apply BitVec.eq_of_getLsbD_eq
  intro i hi
  rw [getLsbD_setTagEcc]
  split
  · rfl
  · rw [getLsbD_tagEcc, decide_eq_true (by omega : i - 52 < 12),
      Bool.true_and, (by omega : 52 + (i - 52) = i)]

/- A stored tag without a changed bit. -/
theorem eccCorrect_makeEcc (t : TagStore) :
    t.makeEcc.eccCorrect = (0, t.makeEcc) := by
  have hSame : eccCorrect8 (t.setTagEcc 0xFFF#12).bytes
      t.makeEcc.freshEcc t.makeEcc.tagEcc.toNat tagStoreSize =
        (0, (t.setTagEcc 0xFFF#12).bytes) := by
    unfold freshEcc
    rw [setTagEcc_makeEcc, tagEcc_makeEcc, eccCorrect8_self]
  have hBack : (t.setTagEcc 0xFFF#12).setTagEcc
      t.makeEcc.tagEcc = t.makeEcc := by
    rw [← setTagEcc_makeEcc t 0xFFF#12, setTagEcc_congr
      (fields_setTagEcc t.makeEcc 0xFFF#12), setTagEcc_tagEcc]
  unfold freshEcc at hSame
  unfold eccCorrect
  dsimp only
  rw [setTagEcc_makeEcc] at hSame ⊢
  rw [hSame]
  dsimp only
  rw [ofBytes_bytes, hBack]

end TagStore

/- A write of `uffs_EccCorrect8` is inside the eight bytes. -/
theorem eccCorrect8_inside
    (data : List Byte)
    (read test errtop : Nat) :
    (eccCorrect8 data read test errtop).2 = data ∨
      ∃ i < 8, i < errtop ∧ ∃ k < 8,
        (eccCorrect8 data read test errtop).2 =
          flipBit data i k := by
  have hTo : ∀ d bit out, bitTo d bit out ≤ out := by
    intro d bit out
    unfold bitTo
    split
    · exact Nat.le_refl _
    · exact Nat.zero_le _
  have hByte : ∀ d0, errByte8 d0 < 8 := by
    intro d0
    unfold errByte8
    have hOr : ∀ {a b : Nat}, a < 8 → b < 8 → a ||| b < 8 := by
      intro a b ha hb
      exact Nat.or_lt_two_pow (n := 3) ha hb
    apply hOr
    · apply hOr
      · exact Nat.lt_of_le_of_lt (hTo _ _ _) (by decide)
      · exact Nat.lt_of_le_of_lt (hTo _ _ _) (by decide)
    · exact Nat.lt_of_le_of_lt (hTo _ _ _) (by decide)
  unfold eccCorrect8 eccCorrect8Deltas
  dsimp only
  split
  · exact Or.inl rfl
  · split
    · split
      · exact Or.inl rfl
      · rename_i hInside
        rw [not_or, Nat.not_le, Nat.not_le] at hInside
        exact Or.inr ⟨_, hByte _, hInside.1, _, hInside.2, rfl⟩
    · split
      · exact Or.inl rfl
      · exact Or.inl rfl

/-
  A stored tag without a changed bit is left alone, one
  changed bit is corrected, and two are detected.
-/
theorem tagEcc_corrects_detects :
    (∀ t : TagStore, t.makeEcc.eccCorrect = (0, t.makeEcc)) ∧
      (∀ (t : TagStore), ∀ n < 64,
        0 ≤ (t.makeEcc ^^^ TagStore.bit n).eccCorrect.1 ∧
          (t.makeEcc ^^^ TagStore.bit n).eccCorrect.2.fields =
            t.makeEcc.fields) ∧
      (∀ (t : TagStore), ∀ n < 64, ∀ m < 64, n ≠ m →
        (t.makeEcc ^^^ TagStore.bit n ^^^
          TagStore.bit m).eccCorrect.1 = -1) ∧
      ∀ (data : List Byte) (read test errtop : Nat),
        (eccCorrect8 data read test errtop).2 = data ∨
          ∃ i < 8, i < errtop ∧ ∃ k < 8,
            (eccCorrect8 data read test errtop).2 =
              flipBit data i k := by
  refine ⟨?_, ?_, ?_, eccCorrect8_inside⟩
  · exact TagStore.eccCorrect_makeEcc
  · intro t n hn
    have hFlip : OneFlip t.makeEcc.bytes
        (t.makeEcc ^^^ TagStore.bit n).bytes := by
      have hPlace : n = 8 * (n / 8) + n % 8 := by
        omega
      refine Or.inr ⟨n / 8, n % 8, ?_, by omega, ?_⟩
      · rw [TagStore.bytes_length]
        omega
      · rw [TagStore.bytes_flip _ (by omega) (by omega),
          ← hPlace]
    have hCorrect := TagStore.eccCorrect_flip hFlip
    rw [TagStore.ofBytes_bytes] at hCorrect
    rw [TagStore.fields_makeEcc]
    exact hCorrect
  · intro t n hn m hm hNe
    rw [TagStore.eccCorrect_verdict,
      TagStore.syndrome_xor_bit _ hm,
      TagStore.syndrome_xor_bit _ hn,
      TagStore.syndrome_makeEcc, Syndrome.zero_add]
    exact bitSyndromes_verdict n hn m hm hNe

/- Bit 5, and bits 5 and 60, of a stored tag. -/
theorem tagEcc_corrects_detects_bits :
    0 ≤ (TagStore.eccCorrect
        (TagStore.makeEcc 0x1234#64 ^^^ TagStore.bit 5)).1 ∧
      (TagStore.eccCorrect (TagStore.makeEcc 0x1234#64 ^^^
        TagStore.bit 5 ^^^ TagStore.bit 60)).1 = -1 :=
  ⟨(tagEcc_corrects_detects.2.1 0x1234#64 5 (by decide)).1,
    tagEcc_corrects_detects.2.2.1 0x1234#64 5 (by decide) 60
      (by decide) (by decide)⟩

end Uffs
