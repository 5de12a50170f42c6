import Mathlib.Tactic.IntervalCases
import Uffs.Model.Ecc

/-
  The software ECC corrects one changed bit of a chunk and
  its three bytes.

  A changed bit of the data changes the parities by the
  exclusive or with a value that depends on the place of the
  bit only (`Parity.delta`), and the deltas of the ECC point
  at that place.

  Main declarations:
    * `parityOf_flip`
    * `eccCorrectChunk256_flip`
    * `eccCorrect_flips`
    * `eccCorrect8_data`, `eccCorrect8_ecc`
-/

namespace Uffs

------------------------------------------------------------
-- Parities
------------------------------------------------------------

namespace Parity

/- The parities of two lists that differ in some bits. -/
def xor (p d : Parity) : Parity where
  col := p.col ^^^ d.col
  line := p.line ^^^ d.line
  prime := p.prime ^^^ d.prime

/- What bit `k` of byte `i` adds to the parities. -/
def delta (i k : Nat) : Parity where
  col := columnParityTbl.getD (1 <<< k) 0
  line := i % 256
  prime := 255 ^^^ (i % 256)

/- The parities are bytes. -/
structure Small (p : Parity) : Prop where
  col : p.col < 256
  line : p.line < 256
  prime : p.prime < 256

end Parity

theorem columnParityTbl_lt :
    ∀ x < 256, columnParityTbl.getD x 0 < 256 := by
  decide +kernel

theorem columnParityTbl_bit :
    ∀ k < 8, columnParityTbl.getD (1 <<< k) 0 &&& 1 = 1 := by
  decide +kernel

theorem columnParityTbl_xor :
    ∀ x < 256, ∀ k < 8,
      columnParityTbl.getD (x ^^^ 1 <<< k) 0 =
        columnParityTbl.getD x 0 ^^^
          columnParityTbl.getD (1 <<< k) 0 := by
  decide +kernel

example :
    columnParityTbl.getD 0x35 0 =
      columnParityTbl.getD 0x15 0 ^^^
        columnParityTbl.getD 0x20 0 := by
  decide +kernel

theorem xor_lt_256
    {a b : Nat}
    (ha : a < 256)
    (hb : b < 256) : a ^^^ b < 256 := by
  have hXor := Nat.xor_lt_two_pow (n := 8) ha hb
  exact hXor

theorem xor_swap (a b c : Nat) :
    a ^^^ b ^^^ c = a ^^^ c ^^^ b := by
  rw [Nat.xor_assoc, Nat.xor_comm b c, Nat.xor_assoc]

/- What two values have in common cancels. -/
theorem xor_cancel (a b c : Nat) :
    (a ^^^ b) ^^^ (a ^^^ c) = b ^^^ c := by
  rw [Nat.xor_comm a b, Nat.xor_assoc, ← Nat.xor_assoc a a c,
    Nat.xor_self, Nat.zero_xor]

namespace Parity

variable {p d : Parity} {x : Byte} {i k : Nat}

theorem add_odd
    (hOdd : columnParityTbl.getD x.toNat 0 &&& 1 ≠ 0) :
    p.add i x =
      { col := p.col ^^^ columnParityTbl.getD x.toNat 0
        line := p.line ^^^ (i % 256)
        prime := p.prime ^^^ (255 ^^^ (i % 256)) } := by
  unfold add
  dsimp only
  rw [if_pos hOdd]

theorem add_even
    (hEven : columnParityTbl.getD x.toNat 0 &&& 1 = 0) :
    p.add i x =
      { p with
        col := p.col ^^^ columnParityTbl.getD x.toNat 0 } :=
  by
  unfold add
  dsimp only
  rw [if_neg (not_not.mpr hEven)]

theorem add_xor
    (p d : Parity)
    (i : Nat)
    (x : Byte) : (p.xor d).add i x = (p.add i x).xor d := by
  by_cases hEven : columnParityTbl.getD x.toNat 0 &&& 1 = 0
  · rw [add_even hEven, add_even hEven]
    ext
    · exact xor_swap _ _ _
    · rfl
    · rfl
  · rw [add_odd hEven, add_odd hEven]
    ext
    · exact xor_swap _ _ _
    · exact xor_swap _ _ _
    · exact xor_swap _ _ _

theorem add_small
    (hp : p.Small) : (p.add i x).Small := by
  have hCol := columnParityTbl_lt x.toNat x.toNat_lt
  have hLine : i % 256 < 256 := Nat.mod_lt _ (by decide)
  by_cases hEven : columnParityTbl.getD x.toNat 0 &&& 1 = 0
  · rw [add_even hEven]
    exact ⟨xor_lt_256 hp.col hCol, hp.line, hp.prime⟩
  · rw [add_odd hEven]
    constructor
    · exact xor_lt_256 hp.col hCol
    · exact xor_lt_256 hp.line hLine
    · exact xor_lt_256 hp.prime (xor_lt_256 (by decide) hLine)

/- The byte `x` with bit `k` changed. -/
theorem toNat_bit
    (x : Byte)
    (hk : k < 8) :
    (x ^^^ UInt8.ofNat (1 <<< k)).toNat =
      x.toNat ^^^ 1 <<< k := by
  have hBit : 1 <<< k < 256 := by
    interval_cases k <;> decide
  rw [UInt8.toNat_xor, UInt8.toNat_ofNat_of_lt' hBit]

theorem add_bit
    (p : Parity)
    (i : Nat)
    (x : Byte)
    (hk : k < 8) :
    p.add i (x ^^^ UInt8.ofNat (1 <<< k)) =
      (p.add i x).xor (delta i k) := by
  have hTable := columnParityTbl_xor x.toNat x.toNat_lt k hk
  have hBit := columnParityTbl_bit k hk
  have hToggle :
      columnParityTbl.getD
          (x ^^^ UInt8.ofNat (1 <<< k)).toNat 0 =
        columnParityTbl.getD x.toNat 0 ^^^
          columnParityTbl.getD (1 <<< k) 0 := by
    rw [toNat_bit x hk]
    exact hTable
  have hOdd : columnParityTbl.getD
        (x ^^^ UInt8.ofNat (1 <<< k)).toNat 0 &&& 1 =
      (columnParityTbl.getD x.toNat 0 &&& 1) ^^^ 1 := by
    rw [hToggle, Nat.and_xor_distrib_right, hBit]
  by_cases hEven : columnParityTbl.getD x.toNat 0 &&& 1 = 0
  · rw [hEven] at hOdd
    have hNow : columnParityTbl.getD
        (x ^^^ UInt8.ofNat (1 <<< k)).toNat 0 &&& 1 ≠ 0 := by
      rw [hOdd]
      decide
    rw [add_odd hNow, add_even hEven, hToggle]
    ext
    · exact (Nat.xor_assoc _ _ _).symm
    · rfl
    · rfl
  · have hOne : columnParityTbl.getD x.toNat 0 &&& 1 = 1 := by
      rw [Nat.and_one_is_mod] at hEven ⊢
      omega
    rw [hOne] at hOdd
    rw [add_even hOdd, add_odd hEven, hToggle]
    ext
    · exact (Nat.xor_assoc _ _ _).symm
    · unfold xor delta
      dsimp only
      rw [Nat.xor_assoc, Nat.xor_self, Nat.xor_zero]
    · unfold xor delta
      dsimp only
      rw [Nat.xor_assoc, Nat.xor_self, Nat.xor_zero]

end Parity

theorem parityFrom_xor
    (d : Parity)
    (l : List Byte) :
    ∀ p i, parityFrom (p.xor d) i l =
      (parityFrom p i l).xor d := by
  induction l with
  | nil =>
      intro p i
      rfl
  | cons x rest ih =>
      intro p i
      unfold parityFrom
      rw [Parity.add_xor, ih]

theorem parityFrom_small
    (l : List Byte) :
    ∀ p i, p.Small → (parityFrom p i l).Small := by
  induction l with
  | nil =>
      intro p i hp
      exact hp
  | cons x rest ih =>
      intro p i hp
      exact ih _ _ (Parity.add_small hp)

theorem parityFrom_flip
    {k : Nat}
    (hk : k < 8)
    (l : List Byte) :
    ∀ p i j, j < l.length →
      parityFrom p i (flipBit l j k) =
        (parityFrom p i l).xor (Parity.delta (i + j) k) := by
  induction l with
  | nil =>
      intro p i j hj
      cases hj
  | cons x rest ih =>
      intro p i j hj
      cases j with
      | zero =>
          rw [flipBit_zero_cons]
          unfold parityFrom
          rw [Parity.add_bit p i x hk, parityFrom_xor]
          rfl
      | succ j =>
          rw [flipBit_succ_cons]
          unfold parityFrom
          rw [ih _ _ _ (Nat.lt_of_succ_lt_succ hj),
            Nat.add_right_comm, Nat.add_assoc]

theorem parityOf_small (l : List Byte) : (parityOf l).Small :=
  parityFrom_small l _ 0 ⟨by decide, by decide, by decide⟩

/- A changed bit of the data. -/
theorem parityOf_flip
    {l : List Byte}
    {j k : Nat}
    (hj : j < l.length)
    (hk : k < 8) :
    parityOf (flipBit l j k) =
      (parityOf l).xor (Parity.delta j k) := by
  have hFlip := parityFrom_flip hk l
    { col := 0, line := 0, prime := 0 } 0 j hj
  rw [Nat.zero_add] at hFlip
  exact hFlip

------------------------------------------------------------
-- Pairs of Line Parities
------------------------------------------------------------

theorem lineParityTbl_xor :
    ∀ x < 16, ∀ y < 16,
      lineParityTbl.getD (x ^^^ y) 0 =
        lineParityTbl.getD x 0 ^^^ lineParityTbl.getD y 0 := by
  decide +kernel

theorem lineParityPrimeTbl_xor :
    ∀ x < 16, ∀ y < 16,
      lineParityPrimeTbl.getD (x ^^^ y) 0 =
        lineParityPrimeTbl.getD x 0 ^^^
          lineParityPrimeTbl.getD y 0 := by
  decide +kernel

theorem linePair_eq_xor :
    ∀ x < 16, ∀ y < 16,
      linePair x y =
        lineParityTbl.getD x 0 ^^^
          lineParityPrimeTbl.getD y 0 := by
  decide +kernel

theorem linePair_lt :
    ∀ x < 16, ∀ y < 16, linePair x y < 256 := by
  decide +kernel

example : linePair 3 12 = linePair 1 4 ^^^ linePair 2 8 := by
  decide +kernel

theorem xor_lt_16
    {a b : Nat}
    (ha : a < 16)
    (hb : b < 16) : a ^^^ b < 16 := by
  have hXor := Nat.xor_lt_two_pow (n := 4) ha hb
  exact hXor

theorem linePair_xor
    {a b c d : Nat}
    (ha : a < 16)
    (hb : b < 16)
    (hc : c < 16)
    (hd : d < 16) :
    linePair (a ^^^ c) (b ^^^ d) =
      linePair a b ^^^ linePair c d := by
  rw [linePair_eq_xor _ (xor_lt_16 ha hc) _ (xor_lt_16 hb hd),
    linePair_eq_xor a ha b hb, linePair_eq_xor c hc d hd,
    lineParityTbl_xor a ha c hc,
    lineParityPrimeTbl_xor b hb d hd]
  ac_rfl

theorem low_lt (a : Nat) : a &&& 0xf < 16 := by
  have hAnd := Nat.and_two_pow_sub_one_eq_mod a 4
  have hMod : a % 2 ^ 4 < 16 := Nat.mod_lt _ (by decide)
  have hEq : a &&& 0xf = a % 2 ^ 4 := hAnd
  omega

theorem high_lt
    {a : Nat}
    (ha : a < 256) : a >>> 4 < 16 := by
  rw [Nat.shiftRight_eq_div_pow]
  omega

/- The change of the packed parities of the low nibbles. -/
theorem lowPair_xor (p d : Parity) :
    linePair (p.line &&& 0xf) (p.prime &&& 0xf) ^^^
        linePair ((p.xor d).line &&& 0xf)
          ((p.xor d).prime &&& 0xf) =
      linePair (d.line &&& 0xf) (d.prime &&& 0xf) := by
  unfold Parity.xor
  dsimp only
  rw [Nat.and_xor_distrib_right, Nat.and_xor_distrib_right,
    linePair_xor (low_lt _) (low_lt _) (low_lt _) (low_lt _),
    ← Nat.xor_assoc, Nat.xor_self, Nat.zero_xor]

theorem highPair_xor
    {p d : Parity}
    (hp : p.Small)
    (hd : d.Small) :
    linePair (p.line >>> 4) (p.prime >>> 4) ^^^
        linePair ((p.xor d).line >>> 4)
          ((p.xor d).prime >>> 4) =
      linePair (d.line >>> 4) (d.prime >>> 4) := by
  unfold Parity.xor
  dsimp only
  rw [Nat.shiftRight_xor_distrib, Nat.shiftRight_xor_distrib,
    linePair_xor (high_lt hp.line) (high_lt hp.prime)
      (high_lt hd.line) (high_lt hd.prime),
    ← Nat.xor_assoc, Nat.xor_self, Nat.zero_xor]

theorem Parity.delta_small
    {k : Nat}
    (i : Nat)
    (hk : k < 8) : (delta i k).Small := by
  have hLine : i % 256 < 256 := Nat.mod_lt _ (by decide)
  constructor
  · apply columnParityTbl_lt
    interval_cases k <;> decide
  · exact hLine
  · exact xor_lt_256 (by decide) hLine

------------------------------------------------------------
-- A Chunk
------------------------------------------------------------

theorem toNat_ofNat_xor
    {a b : Nat}
    (ha : a < 256)
    (hb : b < 256) :
    (UInt8.ofNat a ^^^ UInt8.ofNat b).toNat = a ^^^ b := by
  rw [UInt8.toNat_xor, UInt8.toNat_ofNat_of_lt' ha,
    UInt8.toNat_ofNat_of_lt' hb]

theorem columnByte_xor :
    ∀ c < 256, ∀ k < 8,
      (((255 ^^^ c) ||| 0x03) ^^^
          ((255 ^^^ (c ^^^ columnParityTbl.getD (1 <<< k) 0))
            ||| 0x03)) =
        columnParityTbl.getD (1 <<< k) 0 &&& 0xfc := by
  decide +kernel

/- The deltas of a bit of the data point at the bit. -/
theorem deltas_point :
    ∀ j < 256, ∀ k < 8,
      (linePair (j &&& 0xf) ((255 ^^^ j) &&& 0xf) |||
            linePair (j >>> 4) ((255 ^^^ j) >>> 4) |||
            (columnParityTbl.getD (1 <<< k) 0 &&& 0xfc)) ≠ 0 ∧
        pairsDiffer
          (linePair (j &&& 0xf) ((255 ^^^ j) &&& 0xf)) 0x55 ∧
        pairsDiffer
          (linePair (j >>> 4) ((255 ^^^ j) >>> 4)) 0x55 ∧
        pairsDiffer
          (columnParityTbl.getD (1 <<< k) 0 &&& 0xfc) 0x54 ∧
        errByte (linePair (j &&& 0xf) ((255 ^^^ j) &&& 0xf))
          (linePair (j >>> 4) ((255 ^^^ j) >>> 4)) = j ∧
        errBit (columnParityTbl.getD (1 <<< k) 0 &&& 0xfc) =
          k := by
  decide +kernel

/- Deltas that point at a bit of the data. -/
theorem eccCorrectDeltas_point
    {l : List Byte}
    {j k d0 d1 d2 : Nat}
    (hj : j < l.length)
    (hSome : d0 ||| d1 ||| d2 ≠ 0)
    (h0 : pairsDiffer d0 0x55)
    (h1 : pairsDiffer d1 0x55)
    (h2 : pairsDiffer d2 0x54)
    (hByte : errByte d0 d1 = j)
    (hBit : errBit d2 = k) :
    eccCorrectDeltas (flipBit l j k) d0 d1 d2 l.length =
      (1, l) := by
  unfold eccCorrectDeltas
  rw [if_neg hSome, h0, h1, h2, hByte, hBit]
  rw [if_pos (by rfl), if_neg (Nat.not_le.mpr hj),
    flipBit_flipBit]

theorem eccCorrectChunk256_self
    (data ecc : List Byte)
    (errtop : Nat) :
    eccCorrectChunk256 data ecc ecc errtop = (0, data) := by
  unfold eccCorrectChunk256
  rw [UInt8.xor_self, UInt8.xor_self, UInt8.xor_self]
  rfl

/- A changed bit of the ECC itself. -/
theorem eccCorrectChunk256_ecc
    {ecc : List Byte}
    {i k : Nat}
    (data : List Byte)
    (errtop : Nat)
    (hLength : ecc.length = 3)
    (hi : i < 3)
    (hk : k < 8) :
    eccCorrectChunk256 data (flipBit ecc i k) ecc errtop =
      (1, data) := by
  have hBit : ∀ b : Byte,
      (b ^^^ UInt8.ofNat (1 <<< k)) ^^^ b =
        UInt8.ofNat (1 <<< k) := by
    intro b
    rw [UInt8.xor_comm b, UInt8.xor_assoc, UInt8.xor_self,
      UInt8.xor_zero]
  match ecc, hLength with
  | [a, b, c], _ =>
      unfold eccCorrectChunk256 flipBit
      interval_cases i
      · simp only [List.modify_zero_cons, List.getD_cons_zero,
          List.getD_cons_succ, hBit, UInt8.xor_self]
        interval_cases k <;> rfl
      · simp only [List.modify_zero_cons, List.modify_succ_cons,
          List.getD_cons_zero, List.getD_cons_succ, hBit,
          UInt8.xor_self]
        interval_cases k <;> rfl
      · simp only [List.modify_zero_cons, List.modify_succ_cons,
          List.getD_cons_zero, List.getD_cons_succ, hBit,
          UInt8.xor_self]
        interval_cases k <;> rfl

/- What a changed bit of the data changes of the ECC. -/
theorem eccMakeChunk256_flip
    {l : List Byte}
    {j k : Nat}
    (hj256 : j < 256)
    (hj : j < l.length)
    (hk : k < 8) :
    ((eccMakeChunk256 l).getD 0 0 ^^^
          (eccMakeChunk256 (flipBit l j k)).getD 0 0).toNat =
        linePair (j &&& 0xf) ((255 ^^^ j) &&& 0xf) ∧
      ((eccMakeChunk256 l).getD 1 0 ^^^
          (eccMakeChunk256 (flipBit l j k)).getD 1 0).toNat =
        linePair (j >>> 4) ((255 ^^^ j) >>> 4) ∧
      ((eccMakeChunk256 l).getD 2 0 ^^^
          (eccMakeChunk256 (flipBit l j k)).getD 2 0).toNat =
        columnParityTbl.getD (1 <<< k) 0 &&& 0xfc := by
  have hSmall := parityOf_small l
  have hDelta := Parity.delta_small j hk
  have hLine : (Parity.delta j k).line = j :=
    Nat.mod_eq_of_lt hj256
  have hPrime : (Parity.delta j k).prime = 255 ^^^ j :=
    congrArg (255 ^^^ ·) hLine
  have hLow := lowPair_xor (parityOf l) (Parity.delta j k)
  have hHigh := highPair_xor hSmall hDelta
  have hColumn := columnByte_xor _ hSmall.col k hk
  have hNew : ((parityOf l).xor (Parity.delta j k)).Small := by
    constructor
    · exact xor_lt_256 hSmall.col hDelta.col
    · exact xor_lt_256 hSmall.line hDelta.line
    · exact xor_lt_256 hSmall.prime hDelta.prime
  have hByte : ∀ {x}, x < 256 → 255 ^^^ x < 256 :=
    fun hx => xor_lt_256 (by decide) hx
  have hOr : ∀ {x}, x < 256 → x ||| 3 < 256 := by
    intro x hx
    have hLt := Nat.or_lt_two_pow (n := 8) hx
      (by decide : 3 < 2 ^ 8)
    exact hLt
  have hPair : ∀ {p : Parity}, linePair (p.line &&& 0xf)
      (p.prime &&& 0xf) < 256 :=
    linePair_lt _ (low_lt _) _ (low_lt _)
  have hPair' : ∀ {p : Parity}, p.Small →
      linePair (p.line >>> 4) (p.prime >>> 4) < 256 :=
    fun hp => linePair_lt _ (high_lt hp.line) _
      (high_lt hp.prime)
  rw [hLine, hPrime] at hLow hHigh
  unfold eccMakeChunk256 Parity.ecc
  rw [parityOf_flip hj hk]
  simp only [List.getD_cons_zero, List.getD_cons_succ]
  rw [toNat_ofNat_xor (hByte hPair) (hByte hPair),
    toNat_ofNat_xor (hByte (hPair' hSmall))
      (hByte (hPair' hNew)),
    toNat_ofNat_xor (hOr (hByte hSmall.col))
      (hOr (hByte hNew.col)),
    xor_cancel, xor_cancel, hLow, hHigh]
  exact ⟨rfl, rfl, hColumn⟩

/- A changed bit of the data. -/
theorem eccCorrectChunk256_data
    {l : List Byte}
    {j k : Nat}
    (hLength : l.length ≤ 256)
    (hj : j < l.length)
    (hk : k < 8) :
    eccCorrectChunk256 (flipBit l j k) (eccMakeChunk256 l)
      (eccMakeChunk256 (flipBit l j k)) l.length = (1, l) := by
  have hj256 : j < 256 := Nat.lt_of_lt_of_le hj hLength
  rcases eccMakeChunk256_flip hj256 hj hk with ⟨hD0, hD1, hD2⟩
  rcases deltas_point j hj256 k hk with
    ⟨hSome, h0, h1, h2, hErrByte, hErrBit⟩
  unfold eccCorrectChunk256
  rw [hD0, hD1, hD2]
  exact eccCorrectDeltas_point hj hSome h0 h1 h2 hErrByte
    hErrBit

/- At most one bit of a chunk and its ECC is changed. -/
theorem eccCorrectChunk256_flip
    {l l' ecc : List Byte}
    (hLength : l.length ≤ 256)
    (hSame : l'.length = l.length)
    (hFlip : OneFlip (l ++ eccMakeChunk256 l) (l' ++ ecc)) :
    ∃ r : Int, 0 ≤ r ∧
      eccCorrectChunk256 l' ecc (eccMakeChunk256 l') l.length =
        (r, l) := by
  rcases hFlip.append hSame with ⟨rfl, hEcc⟩ | ⟨rfl, hData⟩
  · rcases hEcc with rfl | ⟨i, k, hi, hk, rfl⟩
    · exact ⟨0, Int.le_refl _, eccCorrectChunk256_self _ _ _⟩
    · refine ⟨1, Int.one_nonneg, ?_⟩
      exact eccCorrectChunk256_ecc _ _ rfl hi hk
  · rcases hData with rfl | ⟨j, k, hj, hk, rfl⟩
    · exact ⟨0, Int.le_refl _, eccCorrectChunk256_self _ _ _⟩
    · refine ⟨1, Int.one_nonneg, ?_⟩
      exact eccCorrectChunk256_data hLength hj hk

------------------------------------------------------------
-- All Chunks
------------------------------------------------------------

/- Chunk `c` of some data. -/
def chunk (c : Nat) (data : List Byte) : List Byte :=
  (data.drop (256 * c)).take 256

/- The ECC of chunk `c`. -/
def chunkEcc (c : Nat) (ecc : List Byte) : List Byte :=
  (ecc.drop (3 * c)).take 3

theorem chunk_succ (c : Nat) (data : List Byte) :
    chunk (c + 1) data = chunk c (data.drop 256) := by
  unfold chunk
  rw [List.drop_drop, Nat.mul_add, Nat.add_comm]

theorem chunkEcc_succ (c : Nat) (ecc : List Byte) :
    chunkEcc (c + 1) ecc = chunkEcc c (ecc.drop 3) := by
  unfold chunkEcc
  rw [List.drop_drop, Nat.mul_add, Nat.add_comm]

/- The correction of a chunk looks at three bytes. -/
theorem eccCorrectChunk256_take
    (data readEcc testEcc : List Byte)
    (errtop : Nat) :
    eccCorrectChunk256 data readEcc testEcc errtop =
      eccCorrectChunk256 data (readEcc.take 3)
        (testEcc.take 3) errtop := by
  have hGet : ∀ (l : List Byte) i, i < 3 →
      (l.take 3).getD i 0 = l.getD i 0 := by
    intro l i hi
    rw [List.getD_eq_getElem?_getD, List.getD_eq_getElem?_getD,
      List.getElem?_take_of_lt hi]
  unfold eccCorrectChunk256
  rw [hGet _ 0 (by decide), hGet _ 0 (by decide),
    hGet _ 1 (by decide), hGet _ 1 (by decide),
    hGet _ 2 (by decide), hGet _ 2 (by decide)]

theorem eccMakeFrom_cons
    {n : Nat}
    {data : List Byte}
    (hData : data ≠ []) :
    eccMakeFrom (n + 1) data =
      eccMakeChunk256 (data.take 256) ++
        eccMakeFrom n (data.drop 256) := by
  have hSome : ¬ (data.isEmpty = true) := by
    rw [List.isEmpty_iff]
    exact hData
  unfold eccMakeFrom
  rw [if_neg hSome]
  cases n <;> rfl

/- At most one bit of each chunk and its ECC is changed. -/
theorem eccCorrectFrom_flips
    (n : Nat) :
    ∀ (total : Int) (data data' ecc : List Byte),
      0 ≤ total → data.length ≤ n →
        data'.length = data.length →
          (∀ c, OneFlip
            (chunk c data ++ chunkEcc c (eccMakeFrom n data))
            (chunk c data' ++ chunkEcc c ecc)) →
            ∃ r : Int, 0 ≤ r ∧
              eccCorrectFrom n total data' ecc
                (eccMakeFrom n data') = (r, data) := by
  induction n with
  | zero =>
      intro total data data' ecc hTotal hFuel hSame _
      have hNil := List.length_eq_zero_iff.mp
        (Nat.le_zero.mp hFuel)
      rw [hNil] at hSame ⊢
      have hNil' := List.length_eq_zero_iff.mp hSame
      rw [hNil']
      exact ⟨total, hTotal, rfl⟩
  | succ n ih =>
      intro total data data' ecc hTotal hFuel hSame hFlips
      by_cases hNil : data = []
      · rw [hNil] at hSame ⊢
        have hNil' := List.length_eq_zero_iff.mp hSame
        rw [hNil']
        exact ⟨total, hTotal, rfl⟩
      · have hNil' : data' ≠ [] := by
          intro hBad
          rw [hBad] at hSame
          exact hNil (List.length_eq_zero_iff.mp hSame.symm)
        have hEmpty : ¬ (data'.isEmpty = true) := by
          rw [List.isEmpty_iff]
          exact hNil'
        have hHead : ∀ l rest : List Byte,
            (eccMakeChunk256 l ++ rest).take 3 =
              eccMakeChunk256 l :=
          fun _ _ => rfl
        have hTail : ∀ l rest : List Byte,
            (eccMakeChunk256 l ++ rest).drop 3 = rest :=
          fun _ _ => rfl
        have hFirst : OneFlip
            (data.take 256 ++ eccMakeChunk256 (data.take 256))
            (data'.take 256 ++ ecc.take 3) := by
          have hZero := hFlips 0
          rw [eccMakeFrom_cons hNil] at hZero
          exact hZero
        have hTake : (data'.take 256).length =
            (data.take 256).length := by
          rw [List.length_take, List.length_take, hSame]
        rcases eccCorrectChunk256_flip
          (List.length_take_le _ _) hTake hFirst with
          ⟨r, hr, hChunk⟩
        have hRest := ih (total + r) (data.drop 256)
          (data'.drop 256) (ecc.drop 3)
          (Int.add_nonneg hTotal hr)
          (by rw [List.length_drop]; omega)
          (by rw [List.length_drop, List.length_drop, hSame])
          (fun c => by
            have hNext := hFlips (c + 1)
            rw [eccMakeFrom_cons hNil, chunk_succ, chunk_succ,
              chunkEcc_succ, chunkEcc_succ, hTail] at hNext
            exact hNext)
        rcases hRest with ⟨r', hr', hRest⟩
        refine ⟨r', hr', ?_⟩
        unfold eccCorrectFrom
        rw [if_neg hEmpty, eccMakeFrom_cons hNil']
        dsimp only
        rw [eccCorrectChunk256_take, hHead, hTail, hTake, hChunk,
          if_neg (Int.not_lt.mpr hr), hRest,
          List.take_append_drop]

theorem eccCorrect_flips
    {data data' ecc : List Byte}
    (hSame : data'.length = data.length)
    (hFlips : ∀ c, OneFlip
      (chunk c data ++ chunkEcc c (eccMake data))
      (chunk c data' ++ chunkEcc c ecc)) :
    ∃ r : Int, 0 ≤ r ∧
      eccCorrect data' ecc (eccMake data') = (r, data) := by
  unfold eccCorrect eccMake at *
  rw [hSame]
  exact eccCorrectFrom_flips data.length 0 data data' ecc
    (Int.le_refl _) (Nat.le_refl _) hSame hFlips

/- The length of the ECC is the nominal one. -/
theorem eccMakeFrom_length
    (n : Nat) :
    ∀ data : List Byte, data.length ≤ n →
      (eccMakeFrom n data).length =
        3 * ((data.length + 255) / 256) := by
  induction n with
  | zero =>
      intro data hFuel
      have hNil := List.length_eq_zero_iff.mp
        (Nat.le_zero.mp hFuel)
      rw [hNil]
      rfl
  | succ n ih =>
      intro data hFuel
      by_cases hNil : data = []
      · rw [hNil]
        rfl
      · have hPos := List.length_pos_iff.mpr hNil
        have hThree :
            (eccMakeChunk256 (data.take 256)).length = 3 := rfl
        have hDrop : (data.drop 256).length ≤ n := by
          rw [List.length_drop]
          omega
        rw [eccMakeFrom_cons hNil, List.length_append, hThree,
          ih _ hDrop, List.length_drop]
        omega

theorem eccMake_length (data : List Byte) :
    (eccMake data).length =
      3 * ((data.length + 255) / 256) :=
  eccMakeFrom_length data.length data (Nat.le_refl _)

------------------------------------------------------------
-- Tags
------------------------------------------------------------

namespace Parity

/- The upper six bits of a tag ECC. -/
def high8 (p : Parity) : Nat :=
  (65535 ^^^ linePair (p.line &&& 0xf) (p.prime &&& 0xf)) &&&
    0x3f

/- The lower six bits of a tag ECC. -/
def low8 (p : Parity) : Nat :=
  ((255 ^^^ p.col) >>> 2) &&& 0x3f

theorem and_63 (a : Nat) : a &&& 0x3f = a % 64 :=
  Nat.and_two_pow_sub_one_eq_mod a 6

theorem and_4095 (a : Nat) : a &&& 0xfff = a % 4096 :=
  Nat.and_two_pow_sub_one_eq_mod a 12

theorem ecc8_eq (p : Parity) :
    p.ecc8 = p.high8 * 64 + p.low8 := by
  have hLow : p.low8 < 64 := by
    unfold low8
    rw [and_63]
    exact Nat.mod_lt _ (by decide)
  unfold ecc8 high8
  generalize 65535 ^^^
    linePair (p.line &&& 0xf) (p.prime &&& 0xf) = a
  have hShift : (a <<< 6) % 65536 = (a % 1024) <<< 6 := by
    rw [Nat.shiftLeft_eq, Nat.shiftLeft_eq]
    omega
  have hOr := Nat.shiftLeft_add_eq_or_of_lt
    (b := p.low8) (i := 6) hLow (a % 1024)
  have hEq : (a <<< 6) % 65536 |||
      ((255 ^^^ p.col) >>> 2) &&& 0x3f =
        (a % 1024) * 64 + p.low8 := by
    rw [hShift, Nat.shiftLeft_eq] at *
    exact hOr.symm
  rw [hEq, and_4095, and_63]
  omega

theorem ecc8_lt (p : Parity) : p.ecc8 < 4096 := by
  unfold ecc8
  rw [and_4095]
  exact Nat.mod_lt _ (by decide)

end Parity

theorem Parity.ecc8_high (p : Parity) :
    (p.ecc8 &&& 0xfff) >>> 6 = p.high8 := by
  have hLow : p.low8 < 64 := by
    unfold low8
    rw [and_63]
    exact Nat.mod_lt _ (by decide)
  have hLt := p.ecc8_lt
  rw [and_4095, Nat.mod_eq_of_lt hLt, ecc8_eq,
    Nat.shiftRight_eq_div_pow]
  omega

theorem Parity.ecc8_low (p : Parity) :
    (p.ecc8 &&& 0xfff) &&& 0x3f = p.low8 := by
  have hLow : p.low8 < 64 := by
    unfold low8
    rw [and_63]
    exact Nat.mod_lt _ (by decide)
  have hLt := p.ecc8_lt
  rw [and_4095, Nat.mod_eq_of_lt hLt, ecc8_eq, and_63]
  omega

theorem Parity.high8_xor (p d : Parity) :
    (p.xor d).high8 ^^^ p.high8 =
      linePair (d.line &&& 0xf) (d.prime &&& 0xf) &&& 0x3f :=
  by
  unfold high8
  rw [Nat.xor_comm, ← Nat.and_xor_distrib_right, xor_cancel,
    lowPair_xor]

theorem low8_xor :
    ∀ c < 256, ∀ k < 8,
      ((255 ^^^ (c ^^^ columnParityTbl.getD (1 <<< k) 0)) >>> 2
            &&& 0x3f) ^^^
          ((255 ^^^ c) >>> 2 &&& 0x3f) =
        columnParityTbl.getD (1 <<< k) 0 >>> 2 &&& 0x3f := by
  decide +kernel

theorem deltas8_point :
    ∀ j < 8, ∀ k < 8,
      (linePair (j &&& 0xf) ((255 ^^^ j) &&& 0xf) &&& 0x3f) |||
            (columnParityTbl.getD (1 <<< k) 0 >>> 2 &&& 0x3f) ≠
          0 ∧
        pairsDiffer
          (linePair (j &&& 0xf) ((255 ^^^ j) &&& 0xf) &&& 0x3f)
          0x15 ∧
        pairsDiffer
          (columnParityTbl.getD (1 <<< k) 0 >>> 2 &&& 0x3f)
          0x15 ∧
        errByte8
          (linePair (j &&& 0xf) ((255 ^^^ j) &&& 0xf) &&& 0x3f)
          = j ∧
        errBit8
          (columnParityTbl.getD (1 <<< k) 0 >>> 2 &&& 0x3f) =
          k := by
  decide +kernel

theorem eccCorrect8_self
    (data : List Byte)
    (ecc errtop : Nat) :
    eccCorrect8 data ecc ecc errtop = (0, data) := by
  unfold eccCorrect8
  dsimp only
  rw [Nat.xor_self, Nat.xor_self]
  rfl

/- A changed bit of the tag ECC itself. -/
theorem eccCorrect8_ecc
    {m : Nat}
    (data : List Byte)
    (ecc errtop : Nat)
    (hm : m < 12) :
    eccCorrect8 data ecc (ecc ^^^ 1 <<< m) errtop =
      (1, data) := by
  unfold eccCorrect8
  dsimp only
  rw [← Nat.shiftRight_xor_distrib, Nat.and_xor_distrib_right,
    ← Nat.xor_assoc, Nat.xor_self, Nat.zero_xor]
  generalize ecc &&& 0xfff = a
  rw [Nat.and_xor_distrib_right, ← Nat.xor_assoc, Nat.xor_self,
    Nat.zero_xor]
  interval_cases m <;> rfl

/- A changed bit of the tag. -/
theorem eccCorrect8_data
    {l : List Byte}
    {j k : Nat}
    (hLength : l.length = 8)
    (hj : j < 8)
    (hk : k < 8) :
    eccCorrect8 (flipBit l j k) (eccMake8 (flipBit l j k))
      (eccMake8 l) 8 = (1, l) := by
  have hLine : (Parity.delta j k).line = j :=
    Nat.mod_eq_of_lt (by omega)
  have hPrime : (Parity.delta j k).prime = 255 ^^^ j :=
    congrArg (255 ^^^ ·) hLine
  have hHigh := (parityOf l).high8_xor (Parity.delta j k)
  rw [hLine, hPrime] at hHigh
  have hLow : ((parityOf l).xor (Parity.delta j k)).low8 ^^^
      (parityOf l).low8 =
      columnParityTbl.getD (1 <<< k) 0 >>> 2 &&& 0x3f :=
    low8_xor _ (parityOf_small l).col k hk
  have hTake : (flipBit l j k).take 8 = flipBit l j k := by
    rw [List.take_of_length_le]
    rw [flipBit_length, hLength]
  rcases deltas8_point j hj k hk with
    ⟨hSome, h0, h1, hErrByte, hErrBit⟩
  have hInside : ¬ (j ≥ 8 ∨ k ≥ 8) := by
    omega
  unfold eccCorrect8 eccMake8
  dsimp only
  rw [hTake, List.take_of_length_le (Nat.le_of_eq hLength),
    parityOf_flip (by omega) hk, Parity.ecc8_high,
    Parity.ecc8_high, Parity.ecc8_low, Parity.ecc8_low, hHigh,
    hLow]
  unfold eccCorrect8Deltas
  rw [if_neg hSome, h0, h1, hErrByte, hErrBit]
  rw [if_pos (by rfl), if_neg hInside, flipBit_flipBit]

end Uffs
