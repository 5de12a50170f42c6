import Mathlib.Algebra.BigOperators.Group.List.Basic
import Uffs.Ecc.Chunk

/-
  The software ECC corrects one changed bit of each chunk
  and its 22 significant ECC bits and detects two.

  As for a tag, the correction of a chunk looks at a
  syndrome, here of three deltas, and a changed bit changes
  it by a value that depends on the place of the bit.  The
  two line deltas of a bit are given by the two nibbles of
  the byte that it is in (`nibblePair`).

  Main declarations:
    * `Deltas`, `dataDeltas`, `eccDeltas`
    * `deltas_flip`
    * `eccCorrectChunk256_flips`
    * `eccCorrect_corrects_detects`
-/

namespace Uffs

------------------------------------------------------------
-- Deltas
------------------------------------------------------------

/- The three deltas that `uffs_EccCorrectChunk256` looks at. -/
@[ext] structure Deltas where
  d0 : Nat
  d1 : Nat
  d2 : Nat
deriving DecidableEq, Repr

namespace Deltas

/- The deltas of two ECCs of a chunk. -/
def of (read test : List Byte) : Deltas where
  d0 := (read.getD 0 0 ^^^ test.getD 0 0).toNat
  d1 := (read.getD 1 0 ^^^ test.getD 1 0).toNat
  d2 := (read.getD 2 0 ^^^ test.getD 2 0).toNat

/- Two changes, one after the other. -/
def add (d e : Deltas) : Deltas where
  d0 := d.d0 ^^^ e.d0
  d1 := d.d1 ^^^ e.d1
  d2 := d.d2 ^^^ e.d2

/- Two errors: `uffs_EccCorrectChunk256` returns -1. -/
structure Twofold (d : Deltas) : Prop where
  some : d.d0 ||| d.d1 ||| d.d2 ≠ 0
  pairs : (pairsDiffer d.d0 0x55 && pairsDiffer d.d1 0x55 &&
    pairsDiffer d.d2 0x54) = false
  bits : bitsTbl.getD d.d0 0 + bitsTbl.getD d.d1 0 +
    bitsTbl.getD d.d2 0 ≠ 1

theorem of_self (ecc : List Byte) : of ecc ecc = ⟨0, 0, 0⟩ := by
  unfold of
  rw [UInt8.xor_self, UInt8.xor_self, UInt8.xor_self]
  rfl

theorem zero_add (d : Deltas) :
    (⟨0, 0, 0⟩ : Deltas).add d = d := by
  unfold add
  dsimp only
  rw [Nat.zero_xor, Nat.zero_xor, Nat.zero_xor]

end Deltas

theorem eccCorrectChunk256_twofold
    {read test : List Byte}
    (data : List Byte)
    (errtop : Nat)
    (h : (Deltas.of read test).Twofold) :
    (eccCorrectChunk256 data read test errtop).1 = -1 := by
  have hSome := h.some
  have hPairs := h.pairs
  have hBits := h.bits
  unfold Deltas.of at hSome hPairs hBits
  dsimp only at hSome hPairs hBits
  unfold eccCorrectChunk256 eccCorrectDeltas
  rw [if_neg hSome, hPairs, if_neg Bool.false_ne_true,
    if_neg hBits]

------------------------------------------------------------
-- Deltas of One Bit
------------------------------------------------------------

/- The packed line parities of a nibble that is an index. -/
def nibblePair (x : Nat) : Nat :=
  linePair x (15 ^^^ x)

/- The column parities of a bit. -/
def colDelta (k : Nat) : Nat :=
  columnParityTbl.getD (1 <<< k) 0 &&& 0xfc

/- What bit `q.2` of byte `q.1` of a chunk changes. -/
def dataDeltas (q : Nat × Nat) : Deltas where
  d0 := nibblePair (q.1 % 16)
  d1 := nibblePair (q.1 / 16)
  d2 := colDelta q.2

/- What bit `q.2` of byte `q.1` of the ECC changes. -/
def eccDeltas (q : Nat × Nat) : Deltas where
  d0 := if q.1 = 0 then 1 <<< q.2 else 0
  d1 := if q.1 = 1 then 1 <<< q.2 else 0
  d2 := if q.1 = 2 then 1 <<< q.2 else 0

/- A significant bit of the three bytes of an ECC. -/
def Significant (q : Nat × Nat) : Prop :=
  q.1 < 3 ∧ q.2 < 8 ∧ (q.1 = 2 → 2 ≤ q.2)

theorem linePair_low :
    ∀ j < 256, linePair (j &&& 0xf) ((255 ^^^ j) &&& 0xf) =
      nibblePair (j % 16) := by
  decide +kernel

theorem linePair_high :
    ∀ j < 256, linePair (j >>> 4) ((255 ^^^ j) >>> 4) =
      nibblePair (j / 16) := by
  decide +kernel

example :
    dataDeltas (0x21, 3) =
      ⟨nibblePair 1, nibblePair 2, colDelta 3⟩ := by
  decide +kernel

/- Changed bits of the data. -/
theorem deltas_flip
    {l read : List Byte}
    {j k : Nat}
    (hj256 : j < 256)
    (hj : j < l.length)
    (hk : k < 8) :
    Deltas.of read (eccMakeChunk256 (flipBit l j k)) =
      (Deltas.of read (eccMakeChunk256 l)).add
        (dataDeltas (j, k)) := by
  have hStep : ∀ r a b : Byte,
      (r ^^^ b).toNat = (r ^^^ a).toNat ^^^ (a ^^^ b).toNat := by
    intro r a b
    rw [← UInt8.toNat_xor, UInt8.xor_assoc, ← UInt8.xor_assoc a,
      UInt8.xor_self, UInt8.zero_xor]
  rcases eccMakeChunk256_flip hj256 hj hk with ⟨hD0, hD1, hD2⟩
  rw [linePair_low j hj256] at hD0
  rw [linePair_high j hj256] at hD1
  unfold Deltas.of Deltas.add dataDeltas colDelta
  dsimp only
  rw [← hD0, ← hD1, ← hD2, ← hStep, ← hStep, ← hStep]

/- A changed bit of the ECC. -/
theorem deltas_flipEcc
    {read test : List Byte}
    {i k : Nat}
    (hLength : read.length = 3)
    (hi : i < 3)
    (hk : k < 8) :
    Deltas.of (flipBit read i k) test =
      (Deltas.of read test).add (eccDeltas (i, k)) := by
  have hStep : ∀ a b : Byte,
      (a ^^^ UInt8.ofNat (1 <<< k) ^^^ b).toNat =
        (a ^^^ b).toNat ^^^ 1 <<< k := by
    intro a b
    have hSwap : a ^^^ UInt8.ofNat (1 <<< k) ^^^ b =
        (a ^^^ b) ^^^ UInt8.ofNat (1 <<< k) := by
      rw [UInt8.xor_assoc, UInt8.xor_comm _ b,
        UInt8.xor_assoc]
    rw [hSwap, Parity.toNat_bit _ hk]
  match read, hLength with
  | [a, b, c], _ =>
      unfold Deltas.of Deltas.add eccDeltas flipBit
      interval_cases i
      · simp only [List.modify_zero_cons, List.getD_cons_zero,
          List.getD_cons_succ, hStep, if_true,
          Nat.zero_ne_one, OfNat.zero_ne_ofNat, if_false,
          Nat.xor_zero]
      · simp only [List.modify_zero_cons, List.modify_succ_cons,
          List.getD_cons_zero, List.getD_cons_succ, hStep,
          if_true, one_ne_zero, OfNat.one_ne_ofNat, if_false,
          Nat.xor_zero]
      · simp only [List.modify_zero_cons, List.modify_succ_cons,
          List.getD_cons_zero, List.getD_cons_succ, hStep,
          if_true, OfNat.ofNat_ne_zero, OfNat.ofNat_ne_one,
          if_false, Nat.xor_zero]

------------------------------------------------------------
-- Deltas of Two Bits
------------------------------------------------------------

theorem nibblePair_xor :
    ∀ x < 16, ∀ y < 16,
      pairsDiffer (nibblePair x ^^^ nibblePair y) 0x55 =
          false ∧
        bitsTbl.getD (nibblePair x ^^^ nibblePair y) 0 % 2 =
          0 ∧
        (nibblePair x ^^^ nibblePair y = 0 → x = y) := by
  decide +kernel

theorem colDelta_xor :
    ∀ k < 8, ∀ m < 8,
      bitsTbl.getD (colDelta k ^^^ colDelta m) 0 % 2 = 0 ∧
        (colDelta k ^^^ colDelta m = 0 → k = m) := by
  decide +kernel

example :
    ((dataDeltas (0, 0)).add (dataDeltas (255, 7))).d0 = 255 := by
  decide +kernel

theorem nibblePair_bit :
    ∀ x < 16,
      bitsTbl.getD (nibblePair x) 0 = 4 ∧
        nibblePair x ≠ 0 ∧
        ∀ k < 8,
          pairsDiffer (nibblePair x ^^^ 1 <<< k) 0x55 =
            false := by
  decide +kernel

theorem colDelta_bit :
    ∀ k < 8,
      bitsTbl.getD (colDelta k) 0 = 3 ∧ colDelta k ≠ 0 ∧
        ∀ m < 8, 2 ≤ m →
          pairsDiffer (colDelta k ^^^ 1 <<< m) 0x54 =
            false := by
  decide +kernel

theorem or_or_ne_zero
    {a b c : Nat}
    (h : ¬ (a = 0 ∧ b = 0 ∧ c = 0)) : a ||| b ||| c ≠ 0 := by
  intro hZero
  rw [Nat.or_eq_zero_iff, Nat.or_eq_zero_iff] at hZero
  exact h ⟨hZero.1.1, hZero.1.2, hZero.2⟩

/- Two bits of the data. -/
theorem dataDeltas_twofold
    {q q' : Nat × Nat}
    (hq : q.1 < 256 ∧ q.2 < 8)
    (hq' : q'.1 < 256 ∧ q'.2 < 8)
    (hNe : q ≠ q') :
    ((dataDeltas q).add (dataDeltas q')).Twofold := by
  have hLow := nibblePair_xor (q.1 % 16) (by omega)
    (q'.1 % 16) (by omega)
  have hHigh := nibblePair_xor (q.1 / 16) (by omega)
    (q'.1 / 16) (by omega)
  have hCol := colDelta_xor q.2 hq.2 q'.2 hq'.2
  unfold dataDeltas Deltas.add
  constructor
  · apply or_or_ne_zero
    intro hZero
    apply hNe
    have hMod := hLow.2.2 hZero.1
    have hDiv := hHigh.2.2 hZero.2.1
    apply Prod.ext
    · omega
    · exact hCol.2 hZero.2.2
  · dsimp only
    rw [hLow.1, Bool.false_and, Bool.false_and]
  · dsimp only
    omega

/- A bit of the data and a significant bit of the ECC. -/
theorem mixedDeltas_twofold
    {q q' : Nat × Nat}
    (hq : q.1 < 256 ∧ q.2 < 8)
    (hq' : Significant q') :
    ((dataDeltas q).add (eccDeltas q')).Twofold := by
  have hLow := nibblePair_bit (q.1 % 16) (by omega)
  have hHigh := nibblePair_bit (q.1 / 16) (by omega)
  have hCol := colDelta_bit q.2 hq.2
  rcases q' with ⟨i, m⟩
  rcases hq' with ⟨hi, hm, hBit⟩
  dsimp only at hi hm hBit
  have hBits : ∀ a b c : Nat, 4 ≤ a ∨ 4 ≤ b → a + b + c ≠ 1 := by
    intro a b c h
    omega
  unfold dataDeltas eccDeltas Deltas.add
  interval_cases i
  · simp only [if_true, Nat.zero_ne_one, OfNat.zero_ne_ofNat,
      if_false, Nat.xor_zero]
    constructor
    · apply or_or_ne_zero
      intro hZero
      exact hHigh.2.1 hZero.2.1
    · dsimp only
      rw [hLow.2.2 m hm, Bool.false_and, Bool.false_and]
    · apply hBits
      right
      exact Nat.le_of_eq hHigh.1.symm
  · simp only [if_true, one_ne_zero, OfNat.one_ne_ofNat,
      if_false, Nat.xor_zero]
    constructor
    · apply or_or_ne_zero
      intro hZero
      exact hLow.2.1 hZero.1
    · dsimp only
      rw [hHigh.2.2 m hm, Bool.and_false, Bool.false_and]
    · apply hBits
      left
      exact Nat.le_of_eq hLow.1.symm
  · simp only [if_true, OfNat.ofNat_ne_zero, OfNat.ofNat_ne_one,
      if_false, Nat.xor_zero]
    constructor
    · apply or_or_ne_zero
      intro hZero
      exact hLow.2.1 hZero.1
    · dsimp only
      rw [hCol.2.2 m hm (hBit rfl), Bool.and_false]
    · apply hBits
      left
      exact Nat.le_of_eq hLow.1.symm

instance (d : Deltas) : Decidable d.Twofold :=
  decidable_of_iff
    (d.d0 ||| d.d1 ||| d.d2 ≠ 0 ∧
      (pairsDiffer d.d0 0x55 && pairsDiffer d.d1 0x55 &&
        pairsDiffer d.d2 0x54) = false ∧
      bitsTbl.getD d.d0 0 + bitsTbl.getD d.d1 0 +
        bitsTbl.getD d.d2 0 ≠ 1)
    ⟨fun h => ⟨h.1, h.2.1, h.2.2⟩,
      fun h => ⟨h.some, h.pairs, h.bits⟩⟩

theorem eccDeltas_places :
    ∀ n < 24, ∀ m < 24, n ≠ m →
      ((eccDeltas (n / 8, n % 8)).add
        (eccDeltas (m / 8, m % 8))).Twofold := by
  decide +kernel

/- Two bits of the ECC. -/
theorem eccDeltas_twofold
    {q q' : Nat × Nat}
    (hq : q.1 < 3 ∧ q.2 < 8)
    (hq' : q'.1 < 3 ∧ q'.2 < 8)
    (hNe : q ≠ q') :
    ((eccDeltas q).add (eccDeltas q')).Twofold := by
  have hPlace : ∀ q : Nat × Nat, q.2 < 8 →
      ((8 * q.1 + q.2) / 8, (8 * q.1 + q.2) % 8) = q := by
    intro q hq
    apply Prod.ext
    · dsimp only
      omega
    · dsimp only
      omega
  have hAll := eccDeltas_places (8 * q.1 + q.2) (by omega)
    (8 * q'.1 + q'.2) (by omega)
  rw [hPlace q hq.2, hPlace q' hq'.2] at hAll
  apply hAll
  intro hEq
  apply hNe
  rw [← hPlace q hq.2, ← hPlace q' hq'.2, hEq]

------------------------------------------------------------
-- A Chunk
------------------------------------------------------------

/- Changed bits of a chunk and of its ECC. -/
structure ChunkFlips
    (l : List Byte)
    (F G : List (Nat × Nat)) : Prop where
  length : l.length ≤ 256
  data : ∀ q ∈ F, q.1 < l.length ∧ q.2 < 8
  dataNodup : F.Nodup
  ecc : ∀ q ∈ G, Significant q
  eccNodup : G.Nodup

section Chunks

variable {l : List Byte} {F G : List (Nat × Nat)}

theorem eccCorrectChunk256_single
    (h : ChunkFlips l F G)
    (hOne : F.length + G.length ≤ 1) :
    eccCorrectChunk256 (flipBits l F)
        (flipBits (eccMakeChunk256 l) G)
        (eccMakeChunk256 (flipBits l F)) l.length =
      (((F.length + G.length : Nat) : Int), l) := by
  match F, G, h, hOne with
  | [], [], _, _ => exact eccCorrectChunk256_self _ _ _
  | [q], [], h, _ =>
      have hq := h.data q List.mem_cons_self
      exact eccCorrectChunk256_data h.length hq.1 hq.2
  | [], [q], h, _ =>
      have hq := h.ecc q List.mem_cons_self
      exact eccCorrectChunk256_ecc _ _ rfl hq.1 hq.2.1
  | _ :: _, _ :: _, _, hOne =>
      rw [List.length_cons, List.length_cons] at hOne
      omega
  | _ :: _ :: _, [], _, hOne =>
      rw [List.length_cons, List.length_cons] at hOne
      omega
  | [], _ :: _ :: _, _, hOne =>
      rw [List.length_cons, List.length_cons] at hOne
      omega

theorem eccCorrectChunk256_double
    (h : ChunkFlips l F G)
    (hTwo : F.length + G.length = 2) :
    (eccCorrectChunk256 (flipBits l F)
      (flipBits (eccMakeChunk256 l) G)
      (eccMakeChunk256 (flipBits l F)) l.length).1 = -1 := by
  apply eccCorrectChunk256_twofold
  have hByte : ∀ q ∈ F, q.1 < 256 ∧ q.2 < 8 := by
    intro q hq
    have hIn := h.data q hq
    have hLength := h.length
    exact ⟨by omega, hIn.2⟩
  match F, G, h, hTwo, hByte with
  | [q, q'], [], h, _, hByte =>
      have hq := h.data q List.mem_cons_self
      have hq' := h.data q'
        (List.mem_cons_of_mem _ List.mem_cons_self)
      have hb := hByte q List.mem_cons_self
      have hb' := hByte q'
        (List.mem_cons_of_mem _ List.mem_cons_self)
      have hNe : q ≠ q' := by
        intro hEq
        exact (List.nodup_cons.mp h.dataNodup).1
          (hEq ▸ List.mem_cons_self)
      have hFlips : flipBits l [q, q'] =
          flipBit (flipBit l q.1 q.2) q'.1 q'.2 := rfl
      have hInside : q'.1 < (flipBit l q.1 q.2).length := by
        rw [flipBit_length]
        exact hq'.1
      have hStored : flipBits (eccMakeChunk256 l) [] =
          eccMakeChunk256 l := rfl
      rw [hFlips, hStored, deltas_flip hb'.1 hInside hb'.2,
        deltas_flip hb.1 hq.1 hb.2, Deltas.of_self,
        Deltas.zero_add]
      exact dataDeltas_twofold hb hb' hNe
  | [q], [q'], h, _, hByte =>
      have hq := h.data q List.mem_cons_self
      have hb := hByte q List.mem_cons_self
      have hq' := h.ecc q' List.mem_cons_self
      have hFlips : flipBits l [q] = flipBit l q.1 q.2 := rfl
      have hStored : flipBits (eccMakeChunk256 l) [q'] =
          flipBit (eccMakeChunk256 l) q'.1 q'.2 := rfl
      rw [hFlips, hStored, deltas_flipEcc rfl hq'.1 hq'.2.1,
        deltas_flip hb.1 hq.1 hb.2, Deltas.of_self,
        Deltas.zero_add]
      exact mixedDeltas_twofold hb hq'
  | [], [q, q'], h, _, _ =>
      have hq := h.ecc q List.mem_cons_self
      have hq' := h.ecc q'
        (List.mem_cons_of_mem _ List.mem_cons_self)
      have hNe : q ≠ q' := by
        intro hEq
        exact (List.nodup_cons.mp h.eccNodup).1
          (hEq ▸ List.mem_cons_self)
      have hFlips : flipBits l [] = l := rfl
      have hStored : flipBits (eccMakeChunk256 l) [q, q'] =
          flipBit (flipBit (eccMakeChunk256 l) q.1 q.2) q'.1
            q'.2 := rfl
      have hLength : (flipBit (eccMakeChunk256 l) q.1
          q.2).length = 3 :=
        flipBit_length _ _ _
      rw [hFlips, hStored, deltas_flipEcc hLength hq'.1 hq'.2.1,
        deltas_flipEcc rfl hq.1 hq.2.1, Deltas.of_self,
        Deltas.zero_add]
      exact eccDeltas_twofold ⟨hq.1, hq.2.1⟩ ⟨hq'.1, hq'.2.1⟩
        hNe
  | [], [], _, hTwo, _ => cases hTwo
  | [_], [], _, hTwo, _ => cases hTwo
  | [], [_], _, hTwo, _ => cases hTwo
  | [_], _ :: _ :: _, _, hTwo, _ =>
      simp only [List.length_cons] at hTwo
      omega
  | _ :: _ :: _, _ :: _, _, hTwo, _ =>
      simp only [List.length_cons] at hTwo
      omega
  | _ :: _ :: _ :: _, [], _, hTwo, _ =>
      simp only [List.length_cons] at hTwo
      omega
  | [], _ :: _ :: _ :: _, _, hTwo, _ =>
      simp only [List.length_cons] at hTwo
      omega

end Chunks

------------------------------------------------------------
-- All Chunks
------------------------------------------------------------

/- The number of chunks of some data. -/
def chunkCount (data : List Byte) : Nat :=
  (data.length + 255) / 256

/- The correction of chunk `c` alone. -/
def chunkResult
    (data ecc : List Byte)
    (c : Nat) : Int × List Byte :=
  eccCorrectChunk256 (chunk c data) (chunkEcc c ecc)
    (eccMakeChunk256 (chunk c data)) (chunk c data).length

theorem chunkCount_drop
    {data : List Byte}
    (hData : data ≠ []) :
    chunkCount data = chunkCount (data.drop 256) + 1 := by
  have hPos := List.length_pos_iff.mpr hData
  unfold chunkCount
  rw [List.length_drop]
  omega

theorem chunkResult_succ
    (data ecc : List Byte)
    (c : Nat) :
    chunkResult data ecc (c + 1) =
      chunkResult (data.drop 256) (ecc.drop 3) c := by
  unfold chunkResult
  rw [chunk_succ, chunkEcc_succ]

/- The first chunk, then the others. -/
theorem eccCorrectFrom_succ
    {n : Nat}
    {data : List Byte}
    (total : Int)
    (ecc : List Byte)
    (hData : data ≠ []) :
    eccCorrectFrom (n + 1) total data ecc
        (eccMakeFrom (n + 1) data) =
      if (chunkResult data ecc 0).1 < 0 then
        ((chunkResult data ecc 0).1,
          (chunkResult data ecc 0).2 ++ data.drop 256)
      else
        ((eccCorrectFrom n (total + (chunkResult data ecc 0).1)
            (data.drop 256) (ecc.drop 3)
            (eccMakeFrom n (data.drop 256))).1,
          (chunkResult data ecc 0).2 ++
            (eccCorrectFrom n
              (total + (chunkResult data ecc 0).1)
              (data.drop 256) (ecc.drop 3)
              (eccMakeFrom n (data.drop 256))).2) := by
  have hEmpty : ¬ (data.isEmpty = true) := by
    rw [List.isEmpty_iff]
    exact hData
  have hHead : ∀ l rest : List Byte,
      (eccMakeChunk256 l ++ rest).take 3 = eccMakeChunk256 l :=
    fun _ _ => rfl
  have hTail : ∀ l rest : List Byte,
      (eccMakeChunk256 l ++ rest).drop 3 = rest :=
    fun _ _ => rfl
  have hResult : chunkResult data ecc 0 =
      eccCorrectChunk256 (data.take 256) ecc
        (eccMakeChunk256 (data.take 256) ++
          eccMakeFrom n (data.drop 256))
        (data.take 256).length := by
    rw [eccCorrectChunk256_take, hHead]
    rfl
  rw [eccCorrectFrom, if_neg hEmpty, eccMakeFrom_cons hData,
    hResult]
  dsimp only
  rw [hTail]

/- Every chunk is corrected. -/
theorem eccCorrectFrom_sum
    (n : Nat) :
    ∀ (total : Int) (data data' ecc : List Byte) (r : Nat → Nat),
      data.length ≤ n → data'.length = data.length →
        (∀ c, c < chunkCount data →
          chunkResult data' ecc c = ((r c : Int), chunk c data)) →
          eccCorrectFrom n total data' ecc
              (eccMakeFrom n data') =
            (total +
              (((List.range (chunkCount data)).map r).sum : Nat),
              data) := by
  induction n with
  | zero =>
      intro total data data' ecc r hFuel hSame _
      have hNil := List.length_eq_zero_iff.mp
        (Nat.le_zero.mp hFuel)
      rw [hNil] at hSame ⊢
      have hNil' := List.length_eq_zero_iff.mp hSame
      rw [hNil']
      exact Prod.ext (Int.add_zero total).symm rfl
  | succ n ih =>
      intro total data data' ecc r hFuel hSame hEach
      by_cases hNil : data = []
      · rw [hNil] at hSame ⊢
        have hNil' := List.length_eq_zero_iff.mp hSame
        rw [hNil']
        exact Prod.ext (Int.add_zero total).symm rfl
      · have hNil' : data' ≠ [] := by
          intro hBad
          rw [hBad] at hSame
          exact hNil (List.length_eq_zero_iff.mp hSame.symm)
        have hCount := chunkCount_drop hNil
        have hFirst := hEach 0 (by omega)
        have hRest := ih (total + r 0) (data.drop 256)
          (data'.drop 256) (ecc.drop 3) (fun c => r (c + 1))
          (by rw [List.length_drop]; omega)
          (by rw [List.length_drop, List.length_drop, hSame])
          (fun c hc => by
            rw [← chunkResult_succ, hEach (c + 1) (by omega),
              chunk_succ])
        have hNonneg : ¬ ((r 0 : Int) < 0) := by
          omega
        have hSum : ((List.range (chunkCount data)).map r).sum =
            r 0 + ((List.range (chunkCount
              (data.drop 256))).map fun c => r (c + 1)).sum := by
          rw [hCount, List.range_succ_eq_map, List.map_cons,
            List.sum_cons, List.map_map]
          rfl
        rw [eccCorrectFrom_succ total ecc hNil', hFirst,
          if_neg hNonneg, hRest, hSum]
        apply Prod.ext
        · dsimp only
          omega
        · exact List.take_append_drop 256 data

/- A chunk that cannot be corrected. -/
theorem eccCorrectFrom_fails
    (n : Nat) :
    ∀ (total : Int) (data ecc : List Byte) (m : Nat),
      data.length ≤ n → m < chunkCount data →
        (∀ c < m, 0 ≤ (chunkResult data ecc c).1) →
          (chunkResult data ecc m).1 = -1 →
            (eccCorrectFrom n total data ecc
              (eccMakeFrom n data)).1 = -1 := by
  induction n with
  | zero =>
      intro total data ecc m hFuel hm _ _
      unfold chunkCount at hm
      omega
  | succ n ih =>
      intro total data ecc m hFuel hm hBefore hAt
      have hNil : data ≠ [] := by
        intro hBad
        rw [hBad] at hm
        exact absurd hm (Nat.not_lt_zero _)
      have hCount := chunkCount_drop hNil
      rw [eccCorrectFrom_succ total ecc hNil]
      cases m with
      | zero =>
          rw [hAt, if_pos (by decide)]
      | succ m =>
          have hFirst := hBefore 0 (Nat.succ_pos m)
          rw [if_neg (Int.not_lt.mpr hFirst)]
          apply ih _ _ _ m
          · rw [List.length_drop]
            omega
          · omega
          · intro c hc
            rw [← chunkResult_succ]
            exact hBefore (c + 1) (by omega)
          · rw [← chunkResult_succ]
            exact hAt

------------------------------------------------------------
-- Corruptions
------------------------------------------------------------

/-
  Changed bits of some data and of the significant bits of
  their ECC, each given by its byte and its place.
-/
structure Corruption (l : List Byte) where
  data : List (Nat × Nat)
  ecc : List (Nat × Nat)
  dataNodup : data.Nodup
  eccNodup : ecc.Nodup
  dataInside : ∀ q ∈ data, q.1 < l.length ∧ q.2 < 8
  eccInside : ∀ q ∈ ecc,
    q.1 < (eccMake l).length ∧ Significant (q.1 % 3, q.2)

/- The ECC of a chunk is made from the chunk. -/
theorem chunkEcc_eccMakeFrom
    (n : Nat) :
    ∀ (data : List Byte) (c : Nat), data.length ≤ n →
      c < chunkCount data →
        chunkEcc c (eccMakeFrom n data) =
          eccMakeChunk256 (chunk c data) := by
  induction n with
  | zero =>
      intro data c hFuel hc
      unfold chunkCount at hc
      omega
  | succ n ih =>
      intro data c hFuel hc
      have hNil : data ≠ [] := by
        intro hBad
        rw [hBad] at hc
        exact absurd hc (Nat.not_lt_zero _)
      have hCount := chunkCount_drop hNil
      rw [eccMakeFrom_cons hNil]
      cases c with
      | zero => rfl
      | succ c =>
          have hTail : (eccMakeChunk256 (data.take 256) ++
              eccMakeFrom n (data.drop 256)).drop 3 =
              eccMakeFrom n (data.drop 256) := rfl
          rw [chunkEcc_succ, chunk_succ, hTail]
          apply ih
          · rw [List.length_drop]
            omega
          · omega

namespace Corruption

variable {l : List Byte}

/- The number of changed bits of chunk `c` and its ECC. -/
def count (k : Corruption l) (c : Nat) : Nat :=
  (flipsIn 256 c k.data).length + (flipsIn 3 c k.ecc).length

/- The data that are read. -/
def read (k : Corruption l) : List Byte :=
  flipBits l k.data

/- The ECC that is read. -/
def stored (k : Corruption l) : List Byte :=
  flipBits (eccMake l) k.ecc

theorem chunkFlips
    (k : Corruption l)
    (c : Nat) :
    ChunkFlips (chunk c l) (flipsIn 256 c k.data)
      (flipsIn 3 c k.ecc) where
  length := piece_length_le 256 c l
  data := by
    intro q hq
    have hInside := flipsIn_inside c (by decide)
      (fun q hq => (k.dataInside q hq).1) q hq
    unfold flipsIn at hq
    rcases List.mem_map.mp hq with ⟨q', hq', rfl⟩
    exact ⟨hInside,
      (k.dataInside q' (List.mem_filter.mp hq').1).2⟩
  dataNodup := flipsIn_nodup c k.dataNodup
  ecc := by
    intro q hq
    unfold flipsIn at hq
    rcases List.mem_map.mp hq with ⟨q', hq', rfl⟩
    exact (k.eccInside q' (List.mem_filter.mp hq').1).2
  eccNodup := flipsIn_nodup c k.eccNodup

/- A chunk as it is corrected. -/
theorem chunkResult_eq
    {c : Nat}
    (k : Corruption l)
    (hc : c < chunkCount l) :
    chunkResult k.read k.stored c =
      eccCorrectChunk256
        (flipBits (chunk c l) (flipsIn 256 c k.data))
        (flipBits (eccMakeChunk256 (chunk c l))
          (flipsIn 3 c k.ecc))
        (eccMakeChunk256
          (flipBits (chunk c l) (flipsIn 256 c k.data)))
        (chunk c l).length := by
  have hChunk : chunk c k.read =
      flipBits (chunk c l) (flipsIn 256 c k.data) :=
    piece_flipBits c k.data (by decide) l
  have hEcc : chunkEcc c k.stored =
      flipBits (chunkEcc c (eccMake l)) (flipsIn 3 c k.ecc) :=
    piece_flipBits c k.ecc (by decide) (eccMake l)
  have hMade : chunkEcc c (eccMake l) =
      eccMakeChunk256 (chunk c l) :=
    chunkEcc_eccMakeFrom l.length l c (Nat.le_refl _) hc
  unfold chunkResult
  rw [hChunk, hEcc, hMade, flipBits_length]

theorem read_length (k : Corruption l) :
    k.read.length = l.length :=
  flipBits_length k.data l

/- There is no changed bit behind the last chunk. -/
theorem count_behind
    {c : Nat}
    (k : Corruption l)
    (hc : chunkCount l ≤ c) : k.count c = 0 := by
  have hData : flipsIn 256 c k.data = [] := by
    apply List.eq_nil_iff_forall_not_mem.mpr
    intro q hq
    have hInside := flipsIn_inside c (by decide)
      (fun q hq => (k.dataInside q hq).1) q hq
    unfold chunkCount at hc
    unfold piece at hInside
    rw [List.length_take, List.length_drop] at hInside
    omega
  have hEcc : flipsIn 3 c k.ecc = [] := by
    apply List.eq_nil_iff_forall_not_mem.mpr
    intro q hq
    have hInside := flipsIn_inside c (by decide)
      (fun q hq => (k.eccInside q hq).1) q hq
    unfold chunkCount at hc
    unfold piece at hInside
    rw [List.length_take, List.length_drop, eccMake_length]
      at hInside
    omega
  unfold count
  rw [hData, hEcc]
  rfl

end Corruption

/- The sum of some ones and zeros is the number of ones. -/
theorem sum_eq_countP
    {r : Nat → Nat}
    (hOne : ∀ c, r c ≤ 1)
    (places : List Nat) :
    (places.map r).sum = places.countP fun c => r c == 1 := by
  induction places with
  | nil => rfl
  | cons c places ih =>
      have hc := hOne c
      rw [List.map_cons, List.sum_cons, ih, List.countP_cons]
      by_cases hEq : r c = 1
      · rw [hEq]
        simp only [beq_self_eq_true, if_true]
        omega
      · have hZero : r c = 0 := by
          omega
        rw [hZero]
        simp

/-
  At most one changed bit in each chunk and its ECC is
  corrected and counted, and two are detected.
-/
theorem eccCorrect_corrects_detects
    (l : List Byte)
    (k : Corruption l) :
    ((∀ c, k.count c ≤ 1) →
        eccCorrect k.read k.stored (eccMake k.read) =
          ((((List.range (chunkCount l)).countP
            (fun c => k.count c == 1) : Nat) : Int), l)) ∧
      ((∀ c, k.count c ≤ 2) → (∃ c, k.count c = 2) →
        (eccCorrect k.read k.stored (eccMake k.read)).1 =
          -1) := by
  have hSingle : ∀ c < chunkCount l, k.count c ≤ 1 →
      chunkResult k.read k.stored c =
        ((k.count c : Int), chunk c l) := by
    intro c hc hOne
    rw [k.chunkResult_eq hc]
    exact eccCorrectChunk256_single (k.chunkFlips c) hOne
  constructor
  · intro hOne
    have hSum := eccCorrectFrom_sum k.read.length 0 l k.read
      k.stored k.count (Nat.le_of_eq k.read_length.symm)
      k.read_length (fun c hc => hSingle c hc (hOne c))
    rw [sum_eq_countP hOne, Int.zero_add] at hSum
    exact hSum
  · intro hTwo hSome
    -- the first chunk with two changed bits
    obtain ⟨m, hm, hBefore⟩ : ∃ m, k.count m = 2 ∧
        ∀ c < m, k.count c ≠ 2 :=
      ⟨Nat.find hSome, Nat.find_spec hSome,
        fun c hc => Nat.find_min hSome hc⟩
    have hInside : m < chunkCount l := by
      rw [← Nat.not_le]
      intro hBehind
      rw [k.count_behind hBehind] at hm
      cases hm
    have hInsideRead : m < chunkCount k.read := by
      unfold chunkCount at hInside ⊢
      rw [k.read_length]
      exact hInside
    apply eccCorrectFrom_fails k.read.length 0 k.read k.stored m
      (Nat.le_refl _) hInsideRead
    · intro c hc
      have hCount := hTwo c
      have hNot := hBefore c hc
      rw [hSingle c (by omega) (by omega)]
      dsimp only
      omega
    · rw [k.chunkResult_eq hInside]
      exact eccCorrectChunk256_double (k.chunkFlips m) hm

/- Three bytes with a changed bit in the second one. -/
def oneChanged : Corruption [1, 2, 3] where
  data := [(1, 4)]
  ecc := []
  dataNodup := by decide
  eccNodup := by decide
  dataInside := by decide
  eccInside := by simp

/- Three bytes with a changed bit, and one of their ECC. -/
def twoChanged : Corruption [1, 2, 3] where
  data := [(1, 4)]
  ecc := [(2, 7)]
  dataNodup := by decide
  eccNodup := by decide
  dataInside := by decide
  eccInside := by
    intro q hq
    rw [List.mem_singleton] at hq
    rw [hq]
    unfold Significant
    decide

theorem count_three
    (k : Corruption [1, 2, 3])
    (n : Nat)
    (hn : k.count 0 ≤ n) : ∀ c, k.count c ≤ n := by
  intro c
  cases c with
  | zero => exact hn
  | succ c =>
      rw [k.count_behind (Nat.succ_le_succ (Nat.zero_le c))]
      exact Nat.zero_le n

theorem eccCorrect_corrects_detects_three :
    eccCorrect oneChanged.read oneChanged.stored
        (eccMake oneChanged.read) = (1, [1, 2, 3]) ∧
      (eccCorrect twoChanged.read twoChanged.stored
        (eccMake twoChanged.read)).1 = -1 :=
  ⟨(eccCorrect_corrects_detects [1, 2, 3] oneChanged).1
      (count_three _ 1 (by decide)),
    (eccCorrect_corrects_detects [1, 2, 3] twoChanged).2
      (count_three _ 2 (by decide)) ⟨0, by decide⟩⟩

end Uffs
