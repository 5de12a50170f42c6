import Mathlib.Data.BitVec
import Mathlib.Data.List.GetD

/-
  Cyclic redundancy checks, bit by bit and reflected, over a
  register of any width.

  Main declarations:
    * `Crc.shift`, `Crc.run`
    * `Crc.run_xor`: the register is linear in the data
    * `Crc.run_eq_shifts`: a few bits may enter at once
    * `Crc.run_ne_of_burst`: short bursts are detected
-/

namespace Crc

variable {w : Nat} {poly : BitVec w}

------------------------------------------------------------
-- The Register
------------------------------------------------------------

/- One shift of the register. -/
def shift (poly x : BitVec w) : BitVec w :=
  if x.getLsbD 0 then (x >>> 1) ^^^ poly else x >>> 1

/- A number of shifts. -/
def shifts (poly : BitVec w) : Nat → BitVec w → BitVec w
| 0, x => x
| n + 1, x => shifts poly n (shift poly x)

/- A bit in the lowest place. -/
def lowBit (b : Bool) : BitVec w :=
  (BitVec.ofBool b).setWidth w

/- A bit of the data enters the register. -/
def step (poly x : BitVec w) (b : Bool) : BitVec w :=
  shift poly (x ^^^ lowBit b)

/- The register after the data, the first bit first. -/
def run
    (poly : BitVec w)
    (bits : List Bool)
    (x : BitVec w) : BitVec w :=
  bits.foldl (step poly) x

/- Some bits, the first one in the lowest place. -/
def pack : List Bool → BitVec w
| [] => 0#w
| b :: rest => lowBit b ^^^ (pack rest <<< 1)

theorem run_append
    (a b : List Bool)
    (x : BitVec w) :
    run poly (a ++ b) x = run poly b (run poly a x) :=
  List.foldl_append

theorem run_cons
    (b : Bool)
    (rest : List Bool)
    (x : BitVec w) :
    run poly (b :: rest) x =
      run poly rest (step poly x b) :=
  rfl

------------------------------------------------------------
-- Linearity
------------------------------------------------------------

theorem lowBit_xor (a b : Bool) :
    (lowBit (a ^^ b) : BitVec w) = lowBit a ^^^ lowBit b := by
  apply BitVec.eq_of_getLsbD_eq
  intro i hi
  unfold lowBit
  rw [BitVec.getLsbD_xor, BitVec.getLsbD_setWidth,
    BitVec.getLsbD_setWidth, BitVec.getLsbD_setWidth,
    BitVec.getLsbD_ofBool, BitVec.getLsbD_ofBool,
    BitVec.getLsbD_ofBool]
  by_cases hZero : i = 0
  · simp only [hZero, decide_true, Bool.true_and]
    cases decide (0 < w) <;> rfl
  · simp only [hZero, decide_false, Bool.false_and,
      Bool.and_false, Bool.xor_false]

theorem getLsbD_lowBit
    {i : Nat}
    (b : Bool)
    (hi : i < w) :
    (lowBit b : BitVec w).getLsbD i = (decide (i = 0) && b) := by
  unfold lowBit
  rw [BitVec.getLsbD_setWidth, BitVec.getLsbD_ofBool,
    decide_eq_true hi, Bool.true_and]

theorem shift_xor (x y : BitVec w) :
    shift poly (x ^^^ y) = shift poly x ^^^ shift poly y := by
  unfold shift
  rw [BitVec.getLsbD_xor, BitVec.ushiftRight_xor_distrib]
  cases x.getLsbD 0 with
  | false =>
      cases y.getLsbD 0 with
      | false => rfl
      | true =>
          simp only [Bool.false_xor, if_true, Bool.false_eq_true,
            if_false]
          exact BitVec.xor_assoc _ _ _
  | true =>
      cases y.getLsbD 0 with
      | false =>
          simp only [Bool.true_xor, Bool.not_false, if_true,
            Bool.false_eq_true, if_false]
          rw [BitVec.xor_assoc, BitVec.xor_assoc,
            BitVec.xor_comm poly]
      | true =>
          simp only [Bool.true_xor, Bool.not_true, if_true,
            Bool.false_eq_true, if_false]
          rw [BitVec.xor_comm (y >>> 1) poly,
            BitVec.xor_assoc (x >>> 1), ← BitVec.xor_assoc poly,
            BitVec.xor_self, BitVec.zero_xor]

theorem step_xor (x y : BitVec w) (a b : Bool) :
    step poly (x ^^^ y) (a ^^ b) =
      step poly x a ^^^ step poly y b := by
  unfold step
  rw [← shift_xor, lowBit_xor, BitVec.xor_assoc,
    BitVec.xor_assoc, ← BitVec.xor_assoc y,
    BitVec.xor_comm y, BitVec.xor_assoc (lowBit a)]

/- The register is linear in itself and in the data. -/
theorem run_xor
    (a : List Bool) :
    ∀ (b : List Bool) (x y : BitVec w),
      a.length = b.length →
        run poly (a.zipWith (· ^^ ·) b) (x ^^^ y) =
          run poly a x ^^^ run poly b y := by
  induction a with
  | nil =>
      intro b x y hLen
      cases b with
      | nil => rfl
      | cons c b => cases hLen
  | cons c a ih =>
      intro b x y hLen
      cases b with
      | nil => cases hLen
      | cons d b =>
          have hRest := Nat.succ.inj hLen
          rw [List.zipWith_cons_cons, run_cons, run_cons,
            run_cons, step_xor]
          exact ih b _ _ hRest

theorem shifts_xor
    (n : Nat) :
    ∀ x y : BitVec w, shifts poly n (x ^^^ y) =
      shifts poly n x ^^^ shifts poly n y := by
  induction n with
  | zero =>
      intro x y
      rfl
  | succ n ih =>
      intro x y
      unfold shifts
      rw [shift_xor, ih]

theorem shift_zero : shift poly 0#w = 0#w := by
  unfold shift
  rw [BitVec.getLsbD_zero, if_neg Bool.false_ne_true]
  exact BitVec.zero_ushiftRight

theorem shifts_zero (n : Nat) :
    shifts poly n 0#w = 0#w := by
  induction n with
  | zero => rfl
  | succ n ih =>
      unfold shifts
      rw [shift_zero, ih]

------------------------------------------------------------
-- Some Bits at Once
------------------------------------------------------------

theorem getLsbD_pack
    (bits : List Bool) :
    ∀ i < w, (pack bits : BitVec w).getLsbD i =
      bits.getD i false := by
  induction bits with
  | nil =>
      intro i _
      exact BitVec.getLsbD_zero
  | cons b rest ih =>
      intro i hi
      unfold pack
      rw [BitVec.getLsbD_xor, getLsbD_lowBit b hi,
        BitVec.getLsbD_shiftLeft, decide_eq_true hi,
        Bool.true_and]
      cases i with
      | zero =>
          simp only [decide_true, Bool.true_and, Nat.zero_lt_one,
            Bool.not_true, Bool.false_and, Bool.xor_false,
            List.getD_cons_zero]
      | succ i =>
          have hSucc : ¬ i + 1 = 0 := Nat.succ_ne_zero i
          have hOne : ¬ i + 1 < 1 := by
            omega
          rw [decide_eq_false hSucc, decide_eq_false hOne,
            Bool.false_and, Bool.false_xor, Bool.not_false,
            Bool.true_and, Nat.add_sub_cancel, ih i (by omega),
            List.getD_cons_succ]

/- A bit that comes later can enter earlier. -/
theorem shift_shiftLeft
    {y : BitVec w}
    (hTop : y.getLsbD (w - 1) = false) :
    shift poly (y <<< 1) = y := by
  have hLow : (y <<< 1).getLsbD 0 = false := by
    rw [BitVec.getLsbD_shiftLeft, decide_eq_true Nat.zero_lt_one,
      Bool.not_true, Bool.and_false, Bool.false_and]
  unfold shift
  rw [hLow, if_neg Bool.false_ne_true]
  apply BitVec.eq_of_getLsbD_eq
  intro i hi
  rw [BitVec.getLsbD_ushiftRight, BitVec.getLsbD_shiftLeft,
    Nat.add_sub_cancel_left]
  by_cases hEnd : 1 + i < w
  · have hOne : ¬ 1 + i < 1 := by
      omega
    rw [decide_eq_true hEnd, decide_eq_false hOne, Bool.not_false,
      Bool.true_and, Bool.true_and]
  · have hLast : i = w - 1 := by
      omega
    rw [hLast, hTop, Bool.and_false]

/-
  As many bits as the register is wide may enter at once:
  the induction moves the later bits back by one shift.
-/
theorem run_eq_shifts
    (bits : List Bool) :
    ∀ x : BitVec w, bits.length ≤ w →
      run poly bits x =
        shifts poly bits.length (x ^^^ pack bits) := by
  induction bits with
  | nil =>
      intro x _
      exact (BitVec.xor_zero).symm
  | cons b rest ih =>
      intro x hLen
      rw [List.length_cons] at hLen
      have hTop : (pack rest : BitVec w).getLsbD (w - 1) =
          false := by
        rw [getLsbD_pack rest (w - 1) (by omega),
          List.getD_eq_default]
        omega
      rw [run_cons, ih _ (by omega), List.length_cons, pack, shifts,
        ← BitVec.xor_assoc, shift_xor, shift_shiftLeft hTop]
      rfl

/- Without data the register is only shifted. -/
theorem run_false
    (bits : List Bool) :
    ∀ x : BitVec w, true ∉ bits →
      run poly bits x = shifts poly bits.length x := by
  induction bits with
  | nil =>
      intro x _
      rfl
  | cons b rest ih =>
      intro x hNone
      rw [List.mem_cons, not_or] at hNone
      have hb : b = false := by
        cases b with
        | false => rfl
        | true => exact absurd rfl hNone.1
      have hZero : (lowBit false : BitVec w) = 0#w := by
        apply BitVec.eq_of_getLsbD_eq
        intro i hi
        rw [getLsbD_lowBit false hi, Bool.and_false,
          BitVec.getLsbD_zero]
      rw [run_cons, ih _ hNone.2, List.length_cons, shifts, hb]
      unfold step
      rw [hZero, BitVec.xor_zero]

------------------------------------------------------------
-- Bursts
------------------------------------------------------------

/- Nothing but the zero register is shifted to zero. -/
theorem shift_ne_zero
    {x : BitVec w}
    (hPoly : poly.getLsbD (w - 1) = true)
    (hx : x ≠ 0#w) : shift poly x ≠ 0#w := by
  intro hZero
  apply hx
  unfold shift at hZero
  split at hZero
  · -- the polynomial sets the highest bit
    exfalso
    have hPos : 0 < w := by
      by_contra hw
      have hNone := BitVec.getLsbD_of_ge poly (w - 1) (by omega)
      rw [hPoly] at hNone
      cases hNone
    have hBit := congrArg (fun y => y.getLsbD (w - 1)) hZero
    rw [BitVec.getLsbD_xor, BitVec.getLsbD_ushiftRight, hPoly,
      BitVec.getLsbD_of_ge x _ (by omega), Bool.false_xor,
      BitVec.getLsbD_zero] at hBit
    cases hBit
  · rename_i hLow
    rw [Bool.not_eq_true] at hLow
    apply BitVec.eq_of_getLsbD_eq
    intro i hi
    rw [BitVec.getLsbD_zero]
    cases i with
    | zero => exact hLow
    | succ i =>
        have hBit := congrArg (fun y => y.getLsbD i) hZero
        rw [BitVec.getLsbD_ushiftRight, BitVec.getLsbD_zero,
          Nat.add_comm] at hBit
        exact hBit

theorem shifts_ne_zero
    (hPoly : poly.getLsbD (w - 1) = true)
    (n : Nat) :
    ∀ x : BitVec w, x ≠ 0#w → shifts poly n x ≠ 0#w := by
  induction n with
  | zero =>
      intro x hx
      exact hx
  | succ n ih =>
      intro x hx
      exact ih _ (shift_ne_zero hPoly hx)

theorem pack_ne_zero
    {bits : List Bool}
    (hLen : bits.length ≤ w)
    (hSome : true ∈ bits) : (pack bits : BitVec w) ≠ 0#w := by
  intro hZero
  rcases List.mem_iff_getElem.mp hSome with ⟨i, hi, hBit⟩
  have hPack := getLsbD_pack (w := w) bits i (by omega)
  rw [hZero, BitVec.getLsbD_zero, List.getD_eq_getElem _ _ hi,
    hBit] at hPack
  cases hPack

/- The bits that are set are `w` places at most. -/
def Burst (w : Nat) (bits : List Bool) : Prop :=
  true ∈ bits ∧
    ∃ k, ∀ i, bits.getD i false = true → k ≤ i ∧ i < k + w

/- A burst alone leaves the register different from zero. -/
theorem run_burst_ne_zero
    {bits : List Bool}
    (hPoly : poly.getLsbD (w - 1) = true)
    (h : Burst w bits) : run poly bits 0#w ≠ 0#w := by
  rcases h with ⟨hSome, k, hWindow⟩
  have hBit : ∀ (l : List Bool) i (hi : i < l.length),
      l[i] = true → l.getD i false = true := by
    intro l i hi hTrue
    rw [List.getD_eq_getElem _ _ hi]
    exact hTrue
  have hFront : true ∉ bits.take k := by
    intro hMem
    rcases List.mem_iff_getElem.mp hMem with ⟨i, hi, hTrue⟩
    rw [List.length_take] at hi
    rw [List.getElem_take] at hTrue
    have hIn := hWindow i (hBit bits i (by omega) hTrue)
    omega
  have hBack : true ∉ (bits.drop k).drop w := by
    intro hMem
    rcases List.mem_iff_getElem.mp hMem with ⟨i, hi, hTrue⟩
    rw [List.length_drop, List.length_drop] at hi
    rw [List.getElem_drop, List.getElem_drop] at hTrue
    have hIn := hWindow _ (hBit bits _ (by omega) hTrue)
    omega
  have hMiddle : true ∈ (bits.drop k).take w := by
    rw [← List.take_append_drop k bits,
      ← List.take_append_drop w (bits.drop k), List.mem_append,
      List.mem_append] at hSome
    rcases hSome with hIn | hIn | hIn
    · exact absurd hIn hFront
    · exact hIn
    · exact absurd hIn hBack
  have hLen : ((bits.drop k).take w).length ≤ w := by
    rw [List.length_take]
    exact Nat.min_le_left _ _
  rw [← List.take_append_drop k bits,
    ← List.take_append_drop w (bits.drop k), run_append,
    run_append, run_false _ _ hFront, shifts_zero,
    run_eq_shifts _ _ hLen, BitVec.zero_xor,
    run_false _ _ hBack]
  apply shifts_ne_zero hPoly
  exact shifts_ne_zero hPoly _ _ (pack_ne_zero hLen hMiddle)

/- Data that differ by a burst have different checksums. -/
theorem run_ne_of_burst
    {a b : List Bool}
    (hPoly : poly.getLsbD (w - 1) = true)
    (hLen : a.length = b.length)
    (h : Burst w (a.zipWith (· ^^ ·) b))
    (x : BitVec w) : run poly a x ≠ run poly b x := by
  intro hEq
  have hXor : run poly (a.zipWith (· ^^ ·) b) (x ^^^ x) =
      run poly a x ^^^ run poly b x :=
    run_xor a b x x hLen
  rw [hEq, BitVec.xor_self, BitVec.xor_self] at hXor
  exact run_burst_ne_zero hPoly h hXor

end Crc
