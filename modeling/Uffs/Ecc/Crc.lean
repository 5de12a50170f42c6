import Uffs.Lib.Crc
import Uffs.Model.Types

/-
  The checksum of `uffs_crc.c` is the bitwise CRC with the
  reflected polynomial 0x8408.

  Main declarations:
    * `crc16Tbl_shifts`, `crc16_byte`
    * `crc16update_eq_run`
    * `crc16_correct`
-/

namespace Uffs

------------------------------------------------------------
-- The Table
------------------------------------------------------------

/- The polynomial, reflected. -/
def crc16Poly : BitVec 16 := 0x8408#16

/- The bits of a byte, the least significant one first. -/
def byteBits (b : Byte) : List Bool :=
  (List.range 8).map b.toNat.testBit

/- The bits of some bytes in the order of processing. -/
def dataBits (data : List Byte) : List Bool :=
  data.flatMap byteBits

theorem byteBits_length (b : Byte) : (byteBits b).length = 8 := by
  unfold byteBits
  rw [List.length_map, List.length_range]

theorem dataBits_cons (b : Byte) (data : List Byte) :
    dataBits (b :: data) = byteBits b ++ dataBits data :=
  List.flatMap_cons

theorem dataBits_length (data : List Byte) :
    (dataBits data).length = 8 * data.length := by
  induction data with
  | nil => rfl
  | cons b data ih =>
      rw [dataBits_cons, List.length_append, byteBits_length, ih,
        List.length_cons]
      omega

/- An entry of the table is what eight shifts make of it. -/
theorem crc16Tbl_shifts :
    ∀ i < 256, crc16Tbl.getD i 0 =
      (Crc.shifts crc16Poly 8 (BitVec.ofNat 16 i)).toNat := by
  decide +kernel

------------------------------------------------------------
-- Bytes
------------------------------------------------------------

/- The bits of a byte are the byte. -/
theorem pack_byteBits (b : Byte) :
    (Crc.pack (byteBits b) : BitVec 16) =
      BitVec.ofNat 16 b.toNat := by
  apply BitVec.eq_of_getLsbD_eq
  intro i hi
  have hByte : b.toNat < 2 ^ 8 := b.toNat_lt
  rw [Crc.getLsbD_pack (byteBits b) i hi, BitVec.getLsbD_ofNat,
    decide_eq_true hi, Bool.true_and]
  by_cases hEight : i < 8
  · unfold byteBits
    rw [List.getD_eq_getElem?_getD, List.getElem?_map,
      List.getElem?_range hEight]
    rfl
  · rw [List.getD_eq_default, Nat.testBit_lt_two_pow]
    · exact Nat.lt_of_lt_of_le hByte
        (Nat.pow_le_pow_right (by decide) (by omega))
    · rw [byteBits_length]
      omega

/- Bits above the lowest eight only move down. -/
theorem shifts_high
    (n : Nat) :
    ∀ x : BitVec 16, (∀ i < n, x.getLsbD i = false) →
      Crc.shifts crc16Poly n x = x >>> n := by
  induction n with
  | zero =>
      intro x _
      exact (BitVec.ushiftRight_zero x).symm
  | succ n ih =>
      intro x hLow
      have hShift : Crc.shift crc16Poly x = x >>> 1 := by
        unfold Crc.shift
        rw [hLow 0 (Nat.succ_pos n), if_neg Bool.false_ne_true]
      unfold Crc.shifts
      rw [hShift, ih, Nat.add_comm n 1, BitVec.shiftRight_add]
      intro i hi
      rw [BitVec.getLsbD_ushiftRight]
      exact hLow _ (by omega)

theorem getLsbD_low
    {i : Nat}
    (hi : i < 16) : (0xFF#16).getLsbD i = decide (i < 8) := by
  have hOnes : (0xFF : Nat) = 2 ^ 8 - 1 := by
    decide
  rw [BitVec.getLsbD_ofNat, decide_eq_true hi, Bool.true_and,
    hOnes, Nat.testBit_two_pow_sub_one]

/- The lowest eight bits, and the others. -/
theorem split_low (x : BitVec 16) :
    (x &&& 0xFF#16) ^^^ (x &&& ~~~0xFF#16) = x := by
  apply BitVec.eq_of_getLsbD_eq
  intro i hi
  rw [BitVec.getLsbD_xor, BitVec.getLsbD_and, BitVec.getLsbD_and,
    BitVec.getLsbD_not, decide_eq_true hi, Bool.true_and,
    getLsbD_low hi]
  cases x.getLsbD i with
  | false => rfl
  | true => cases decide (i < 8) <;> rfl

/- A byte moves the register by a table entry. -/
theorem shifts_byte (x : BitVec 16) :
    Crc.shifts crc16Poly 8 x =
      Crc.shifts crc16Poly 8 (x &&& 0xFF#16) ^^^ (x >>> 8) := by
  have hHigh : ∀ i < 8,
      (x &&& ~~~0xFF#16).getLsbD i = false := by
    intro i hi
    rw [BitVec.getLsbD_and, BitVec.getLsbD_not,
      decide_eq_true (by omega), Bool.true_and,
      getLsbD_low (by omega), decide_eq_true hi, Bool.not_true,
      Bool.and_false]
  have hMove : (x &&& ~~~0xFF#16) >>> 8 = x >>> 8 := by
    apply BitVec.eq_of_getLsbD_eq
    intro i hi
    rw [BitVec.getLsbD_ushiftRight, BitVec.getLsbD_ushiftRight,
      BitVec.getLsbD_and]
    by_cases hEnd : 8 + i < 16
    · rw [BitVec.getLsbD_not, decide_eq_true hEnd, Bool.true_and,
        getLsbD_low hEnd, decide_eq_false (by omega),
        Bool.not_false, Bool.and_true]
    · rw [BitVec.getLsbD_of_ge x _ (by omega), Bool.false_and]
  conv_lhs => rw [← split_low x]
  rw [Crc.shifts_xor, shifts_high 8 _ hHigh, hMove]

/- The macro `CRC16` is eight bits of the CRC. -/
theorem crc16_byte (b : Byte) (x : BitVec 16) :
    (x.toNat >>> 8) ^^^
        crc16Tbl.getD ((x.toNat ^^^ b.toNat) &&& 0xff) 0 =
      (Crc.run crc16Poly (byteBits b) x).toNat := by
  obtain ⟨i, hi⟩ :
      ∃ i, i = (x.toNat ^^^ b.toNat) &&& 0xff := ⟨_, rfl⟩
  have hByte : b.toNat < 2 ^ 8 := b.toNat_lt
  have hIndex : i < 256 := by
    have hAnd := Nat.and_le_right
      (n := x.toNat ^^^ b.toNat) (m := 0xff)
    omega
  have hLow : (x ^^^ BitVec.ofNat 16 b.toNat) &&& 0xFF#16 =
      BitVec.ofNat 16 i := by
    apply BitVec.eq_of_toNat_eq
    rw [BitVec.toNat_and, BitVec.toNat_xor, BitVec.toNat_ofNat,
      BitVec.toNat_ofNat, BitVec.toNat_ofNat,
      Nat.mod_eq_of_lt (by omega : b.toNat < 2 ^ 16),
      Nat.mod_eq_of_lt (by omega : i < 2 ^ 16), hi]
  have hHigh : (x ^^^ BitVec.ofNat 16 b.toNat) >>> 8 = x >>> 8 :=
    by
    have hZero : BitVec.ofNat 16 b.toNat >>> 8 = 0#16 := by
      apply BitVec.eq_of_toNat_eq
      rw [BitVec.toNat_ushiftRight, BitVec.toNat_ofNat,
        Nat.mod_eq_of_lt (by omega : b.toNat < 2 ^ 16),
        Nat.shiftRight_eq_div_pow, Nat.div_eq_of_lt hByte]
      rfl
    rw [BitVec.ushiftRight_xor_distrib, hZero, BitVec.xor_zero]
  have hLen : (byteBits b).length ≤ 16 := by
    rw [byteBits_length]
    decide
  rw [Crc.run_eq_shifts _ _ hLen, byteBits_length, pack_byteBits,
    shifts_byte, hLow, hHigh, BitVec.toNat_xor,
    BitVec.toNat_ushiftRight, ← crc16Tbl_shifts i hIndex, ← hi,
    Nat.xor_comm]

------------------------------------------------------------
-- Data
------------------------------------------------------------

theorem crc16update_cons
    (b : Byte)
    (data : List Byte)
    (crc : Nat) :
    crc16update (b :: data) crc =
      crc16update data ((crc >>> 8) ^^^
        crc16Tbl.getD ((crc ^^^ b.toNat) &&& 0xff) 0) :=
  rfl

/- `uffs_crc16update` is the bitwise CRC. -/
theorem crc16update_eq_run
    (data : List Byte) :
    ∀ x : BitVec 16, crc16update data x.toNat =
      (Crc.run crc16Poly (dataBits data) x).toNat := by
  induction data with
  | nil =>
      intro x
      rfl
  | cons b data ih =>
      intro x
      rw [crc16update_cons, crc16_byte, ih, dataBits_cons,
        Crc.run_append]

theorem crc16update_append
    (a b : List Byte)
    (crc : Nat) :
    crc16update (a ++ b) crc =
      crc16update b (crc16update a crc) :=
  List.foldl_append

/- The exclusive or of some bytes. -/
def xorBytes (a b : List Byte) : List Byte :=
  a.zipWith (· ^^^ ·) b

/- The exclusive or of bits. -/
def xorBits (a b : List Bool) : List Bool :=
  a.zipWith (· ^^ ·) b

theorem byteBits_xor (a b : Byte) :
    byteBits (a ^^^ b) = xorBits (byteBits a) (byteBits b) := by
  unfold byteBits xorBits
  rw [List.zipWith_map_left, List.zipWith_map_right,
    List.zipWith_self]
  apply List.map_congr_left
  intro i _
  rw [UInt8.toNat_xor, Nat.testBit_xor]

theorem dataBits_xor
    (a : List Byte) :
    ∀ b, a.length = b.length →
      dataBits (xorBytes a b) =
        xorBits (dataBits a) (dataBits b) := by
  induction a with
  | nil =>
      intro b _
      rfl
  | cons x a ih =>
      intro b hLen
      cases b with
      | nil => cases hLen
      | cons y b =>
          have hRest := ih b (Nat.succ.inj hLen)
          have hBytes : (byteBits x).length =
              (byteBits y).length := by
            rw [byteBits_length, byteBits_length]
          unfold xorBytes xorBits at hRest ⊢
          rw [List.zipWith_cons_cons, dataBits_cons,
            dataBits_cons, dataBits_cons, hRest, byteBits_xor,
            List.zipWith_append hBytes]
          rfl

theorem xorBytes_zero
    (a : List Byte) :
    xorBytes a (List.replicate a.length 0) = a := by
  unfold xorBytes
  induction a with
  | nil => rfl
  | cons x a ih =>
      rw [List.length_cons, List.replicate_succ,
        List.zipWith_cons_cons, ih, UInt8.xor_zero]

theorem xorBytes_length
    {a b : List Byte}
    (hLen : a.length = b.length) :
    (xorBytes a b).length = a.length := by
  unfold xorBytes
  rw [List.length_zipWith, ← hLen, Nat.min_self]

theorem run_xorBytes
    {a b : List Byte}
    (hLen : a.length = b.length)
    (x y : BitVec 16) :
    Crc.run crc16Poly (dataBits (xorBytes a b)) (x ^^^ y) =
      Crc.run crc16Poly (dataBits a) x ^^^
        Crc.run crc16Poly (dataBits b) y := by
  have hBits : (dataBits a).length = (dataBits b).length := by
    rw [dataBits_length, dataBits_length, hLen]
  rw [dataBits_xor a b hLen]
  exact Crc.run_xor _ _ _ _ hBits

/- For data of one length the checksum is affine. -/
theorem crc16update_affine
    {a b : List Byte}
    (hLen : a.length = b.length)
    (x : BitVec 16) :
    crc16update (xorBytes a b) x.toNat =
      crc16update a x.toNat ^^^ crc16update b x.toNat ^^^
        crc16update (List.replicate a.length 0) x.toNat := by
  have hZeros : (xorBytes a b).length =
      (List.replicate a.length (0 : Byte)).length := by
    rw [xorBytes_length hLen, List.length_replicate]
  have hSame : xorBytes (xorBytes a b)
      (List.replicate a.length 0) = xorBytes a b := by
    have hZero := xorBytes_zero (xorBytes a b)
    rw [xorBytes_length hLen] at hZero
    exact hZero
  have hLinear := run_xorBytes hLen x x
  have hAffine := run_xorBytes hZeros (x ^^^ x) x
  rw [hSame, hLinear, BitVec.xor_self, BitVec.zero_xor] at hAffine
  rw [crc16update_eq_run, crc16update_eq_run, crc16update_eq_run,
    crc16update_eq_run, ← BitVec.toNat_xor, ← BitVec.toNat_xor,
    hAffine]

------------------------------------------------------------
-- Bursts
------------------------------------------------------------

/-
  Data of one length that differ, in 16 consecutive bits at
  most.
-/
structure BurstError (a b : List Byte) : Prop where
  length : a.length = b.length
  ne : a ≠ b
  window : ∃ k, ∀ i,
    (dataBits a).getD i false ≠ (dataBits b).getD i false →
      k ≤ i ∧ i < k + 16

theorem byteBits_inj
    {x y : Byte}
    (h : byteBits x = byteBits y) : x = y := by
  have hx : x.toNat < 2 ^ 8 := x.toNat_lt
  have hy : y.toNat < 2 ^ 8 := y.toNat_lt
  have hPack := pack_byteBits x
  rw [h, pack_byteBits y] at hPack
  have hNat := congrArg BitVec.toNat hPack
  rw [BitVec.toNat_ofNat, BitVec.toNat_ofNat,
    Nat.mod_eq_of_lt (by omega), Nat.mod_eq_of_lt (by omega)]
    at hNat
  exact UInt8.toNat_inj.mp hNat.symm

theorem dataBits_inj
    (a : List Byte) :
    ∀ b, a.length = b.length → dataBits a = dataBits b →
      a = b := by
  induction a with
  | nil =>
      intro b hLen _
      exact (List.length_eq_zero_iff.mp hLen.symm).symm
  | cons x a ih =>
      intro b hLen hBits
      cases b with
      | nil => cases hLen
      | cons y b =>
          have hBytes : (byteBits x).length =
              (byteBits y).length := by
            rw [byteBits_length, byteBits_length]
          rw [dataBits_cons, dataBits_cons] at hBits
          have hSplit := List.append_inj hBits hBytes
          rw [byteBits_inj hSplit.1,
            ih b (Nat.succ.inj hLen) hSplit.2]

theorem getD_xorBits
    (a : List Bool) :
    ∀ (b : List Bool) (i : Nat), a.length = b.length →
      (xorBits a b).getD i false =
        (a.getD i false ^^ b.getD i false) := by
  unfold xorBits
  induction a with
  | nil =>
      intro b i hLen
      rw [List.length_eq_zero_iff.mp hLen.symm]
      rfl
  | cons x a ih =>
      intro b i hLen
      cases b with
      | nil => cases hLen
      | cons y b =>
          rw [List.zipWith_cons_cons]
          cases i with
          | zero => rfl
          | succ i => exact ih b i (Nat.succ.inj hLen)

/- Without a set bit in it the data are the same. -/
theorem eq_of_xorBits
    (a : List Bool) :
    ∀ b, a.length = b.length → true ∉ xorBits a b → a = b := by
  unfold xorBits
  induction a with
  | nil =>
      intro b hLen _
      exact (List.length_eq_zero_iff.mp hLen.symm).symm
  | cons x a ih =>
      intro b hLen hNone
      cases b with
      | nil => cases hLen
      | cons y b =>
          rw [List.zipWith_cons_cons, List.mem_cons, not_or]
            at hNone
          have hHead : x = y := by
            cases x with
            | false =>
                cases y with
                | false => rfl
                | true => exact absurd rfl hNone.1
            | true =>
                cases y with
                | false => exact absurd rfl hNone.1
                | true => rfl
          rw [hHead, ih b (Nat.succ.inj hLen) hNone.2]

theorem BurstError.burst
    {a b : List Byte}
    (h : BurstError a b) :
    Crc.Burst 16 (xorBits (dataBits a) (dataBits b)) := by
  have hBits : (dataBits a).length = (dataBits b).length := by
    rw [dataBits_length, dataBits_length, h.length]
  rcases h.window with ⟨k, hWindow⟩
  refine ⟨?_, k, ?_⟩
  · by_contra hNone
    apply h.ne
    apply dataBits_inj a b h.length
    exact eq_of_xorBits _ _ hBits hNone
  · intro i hi
    rw [getD_xorBits _ _ i hBits] at hi
    apply hWindow i
    intro hEq
    rw [hEq, Bool.xor_self] at hi
    cases hi

/- A burst changes the checksum. -/
theorem crc16update_ne_of_burst
    {a b : List Byte}
    (h : BurstError a b)
    (x : BitVec 16) :
    crc16update a x.toNat ≠ crc16update b x.toNat := by
  have hBits : (dataBits a).length = (dataBits b).length := by
    rw [dataBits_length, dataBits_length, h.length]
  have hPoly : crc16Poly.getLsbD 15 = true := by
    decide
  rw [crc16update_eq_run, crc16update_eq_run]
  intro hEq
  apply Crc.run_ne_of_burst hPoly hBits h.burst x
  exact BitVec.eq_of_toNat_eq hEq

/-
  `uffs_crc16update` is the bitwise CRC with the polynomial
  0x8408, goes on over concatenations, is affine in the data,
  and finds every burst.
-/
theorem crc16_correct :
    (∀ (data : List Byte) (x : BitVec 16),
        crc16update data x.toNat =
          (Crc.run crc16Poly (dataBits data) x).toNat) ∧
      (∀ (a b : List Byte) (crc : Nat),
        crc16update (a ++ b) crc =
          crc16update b (crc16update a crc)) ∧
      (∀ (a b : List Byte) (x : BitVec 16),
        a.length = b.length →
          crc16update (xorBytes a b) x.toNat =
            crc16update a x.toNat ^^^ crc16update b x.toNat ^^^
              crc16update (List.replicate a.length 0) x.toNat) ∧
      (∀ a b : List Byte, BurstError a b →
        crc16sum a ≠ crc16sum b) := by
  refine ⟨crc16update_eq_run, crc16update_append, ?_, ?_⟩
  · intro a b x hLen
    exact crc16update_affine hLen x
  · intro a b hBurst
    exact crc16update_ne_of_burst hBurst 0xFFFF#16

/- Two changed bits in neighbouring bytes. -/
theorem crc16_correct_neighbours :
    crc16update (xorBytes [1, 2] [3, 4]) 7 =
        crc16update [1, 2] 7 ^^^ crc16update [3, 4] 7 ^^^
          crc16update [0, 0] 7 ∧
      crc16sum [128, 0] ≠ crc16sum [0, 1] := by
  have hBurst : BurstError [128, 0] [0, 1] := by
    refine ⟨rfl, by decide, 0, ?_⟩
    intro i hi
    refine ⟨Nat.zero_le i, ?_⟩
    by_contra hEnd
    apply hi
    rw [List.getD_eq_default, List.getD_eq_default]
    · rw [dataBits_length]
      exact Nat.le_of_not_lt hEnd
    · rw [dataBits_length]
      exact Nat.le_of_not_lt hEnd
  exact ⟨crc16_correct.2.2.1 [1, 2] [3, 4] 7#16 rfl,
    crc16_correct.2.2.2 _ _ hBurst⟩

end Uffs
