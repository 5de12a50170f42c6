import Mathlib.Data.List.Nodup

/-
  Bytes with changed bits.

  Main declarations:
    * `flipBit`, `OneFlip`
    * `OneFlip.append`
    * `flipBits`, `flipsIn`
    * `piece`, `piece_flipBits`
-/

------------------------------------------------------------
-- Changed Bits
------------------------------------------------------------

/- Bit `k` of byte `i` is changed. -/
def flipBit (l : List UInt8) (i k : Nat) : List UInt8 :=
  l.modify i fun b => b ^^^ UInt8.ofNat (1 <<< k)

/- At most one bit is changed. -/
def OneFlip (l l' : List UInt8) : Prop :=
  l' = l ∨ ∃ i k, i < l.length ∧ k < 8 ∧ l' = flipBit l i k

theorem flipBit_length (l : List UInt8) (i k : Nat) :
    (flipBit l i k).length = l.length :=
  List.length_modify _ _ _

theorem flipBit_flipBit (l : List UInt8) (i k : Nat) :
    flipBit (flipBit l i k) i k = l := by
  unfold flipBit
  rw [List.modify_modify_eq]
  have hId : ((fun b => b ^^^ UInt8.ofNat (1 <<< k)) ∘
      fun b => b ^^^ UInt8.ofNat (1 <<< k)) = id := by
    funext b
    dsimp only [Function.comp, id]
    rw [UInt8.xor_assoc, UInt8.xor_self, UInt8.xor_zero]
  rw [hId, List.modify_id]

theorem flipBit_zero_cons (b : UInt8) (l : List UInt8) (k : Nat) :
    flipBit (b :: l) 0 k =
      (b ^^^ UInt8.ofNat (1 <<< k)) :: l := by
  unfold flipBit
  rw [List.modify_zero_cons]

theorem flipBit_succ_cons
    (b : UInt8)
    (l : List UInt8)
    (i k : Nat) :
    flipBit (b :: l) (i + 1) k = b :: flipBit l i k := by
  unfold flipBit
  rw [List.modify_succ_cons]

theorem flipBit_append_left
    {l l' : List UInt8}
    {k : Nat} :
    ∀ {i : Nat}, i < l.length →
      flipBit (l ++ l') i k = flipBit l i k ++ l' := by
  induction l with
  | nil =>
      intro i hi
      cases hi
  | cons b l ih =>
      intro i hi
      cases i with
      | zero =>
          rw [List.cons_append, flipBit_zero_cons,
            flipBit_zero_cons, List.cons_append]
      | succ i =>
          rw [List.cons_append, flipBit_succ_cons,
            flipBit_succ_cons, List.cons_append]
          rw [ih (Nat.lt_of_succ_lt_succ hi)]

theorem flipBit_append_right
    {l l' : List UInt8}
    {k : Nat} :
    ∀ {i : Nat}, l.length ≤ i →
      flipBit (l ++ l') i k =
        l ++ flipBit l' (i - l.length) k := by
  induction l with
  | nil =>
      intro i _
      rfl
  | cons b l ih =>
      intro i hi
      cases i with
      | zero => cases hi
      | succ i =>
          rw [List.cons_append, flipBit_succ_cons,
            List.cons_append, List.length_cons,
            Nat.succ_sub_succ]
          rw [ih (Nat.le_of_succ_le_succ hi)]

/- Changed bits, each given by its byte and its place. -/
def flipBits
    (l : List UInt8)
    (flips : List (Nat × Nat)) : List UInt8 :=
  flips.foldl (fun l q => flipBit l q.1 q.2) l

theorem flipBits_length
    (flips : List (Nat × Nat)) :
    ∀ l : List UInt8, (flipBits l flips).length = l.length := by
  induction flips with
  | nil =>
      intro l
      rfl
  | cons q flips ih =>
      intro l
      exact (ih _).trans (flipBit_length _ _ _)

namespace OneFlip

variable {l l' : List UInt8}

protected theorem refl (l : List UInt8) : OneFlip l l :=
  Or.inl rfl

/- The bit is changed in one of two parts. -/
theorem append
    {a b a' b' : List UInt8}
    (h : OneFlip (a ++ b) (a' ++ b'))
    (hLength : a'.length = a.length) :
    (a' = a ∧ OneFlip b b') ∨ (b' = b ∧ OneFlip a a') := by
  rcases h with hEq | ⟨i, k, hi, hk, hEq⟩
  · rcases List.append_inj hEq hLength with ⟨rfl, rfl⟩
    exact Or.inl ⟨rfl, OneFlip.refl _⟩
  · by_cases hLeft : i < a.length
    · rw [flipBit_append_left hLeft] at hEq
      have hLengths : a'.length = (flipBit a i k).length := by
        rw [flipBit_length, hLength]
      rcases List.append_inj hEq hLengths with ⟨rfl, rfl⟩
      exact Or.inr ⟨rfl, Or.inr ⟨i, k, hLeft, hk, rfl⟩⟩
    · rw [Nat.not_lt] at hLeft
      rw [flipBit_append_right hLeft] at hEq
      rcases List.append_inj hEq hLength with ⟨rfl, rfl⟩
      rw [List.length_append] at hi
      refine Or.inl ⟨rfl, Or.inr ⟨i - a'.length, k, ?_, hk, rfl⟩⟩
      omega

end OneFlip

------------------------------------------------------------
-- Pieces
------------------------------------------------------------

/- Piece `c` of a list, `n` bytes long. -/
def piece (n c : Nat) (l : List UInt8) : List UInt8 :=
  (l.drop (n * c)).take n

/- The changed bits of piece `c`. -/
def flipsIn
    (n c : Nat)
    (flips : List (Nat × Nat)) : List (Nat × Nat) :=
  (flips.filter fun q => q.1 / n == c).map fun q =>
    (q.1 % n, q.2)

theorem piece_length_le (n c : Nat) (l : List UInt8) :
    (piece n c l).length ≤ n :=
  List.length_take_le _ _

section Pieces

variable {n : Nat}

/- A changed bit is a changed bit of its piece. -/
theorem piece_flipBit
    (l : List UInt8)
    (c i k : Nat)
    (hn : 0 < n) :
    piece n c (flipBit l i k) =
      if i / n = c then
        flipBit (piece n c l) (i % n) k
      else
        piece n c l := by
  have hPlace : ∀ j < n, i = n * c + j ↔
      i / n = c ∧ i % n = j := by
    intro j hj
    constructor
    · intro hi
      rw [hi, Nat.mul_add_div hn, Nat.mul_add_mod,
        Nat.div_eq_of_lt hj, Nat.mod_eq_of_lt hj]
      exact ⟨rfl, rfl⟩
    · intro hi
      rw [← hi.1, ← hi.2, Nat.div_add_mod]
  apply List.ext_getElem?
  intro j
  unfold piece flipBit
  by_cases hj : j < n
  · by_cases hc : i / n = c
    · rw [if_pos hc, List.getElem?_take_of_lt hj,
        List.getElem?_drop, List.getElem?_modify,
        List.getElem?_modify, List.getElem?_take_of_lt hj,
        List.getElem?_drop]
      simp only [hPlace j hj, hc, true_and]
    · rw [if_neg hc, List.getElem?_take_of_lt hj,
        List.getElem?_drop, List.getElem?_modify,
        List.getElem?_take_of_lt hj, List.getElem?_drop]
      simp only [hPlace j hj, hc, false_and, if_false]
      exact Option.map_id'
  · have hBehind : ∀ l : List UInt8, (l.take n)[j]? = none := by
      intro l
      rw [List.getElem?_take, if_neg hj]
    rw [hBehind]
    by_cases hc : i / n = c
    · rw [if_pos hc, List.getElem?_modify, hBehind]
      rfl
    · rw [if_neg hc, hBehind]

theorem piece_flipBits
    (c : Nat)
    (flips : List (Nat × Nat))
    (hn : 0 < n) :
    ∀ l : List UInt8,
      piece n c (flipBits l flips) =
        flipBits (piece n c l) (flipsIn n c flips) := by
  induction flips with
  | nil =>
      intro l
      rfl
  | cons q flips ih =>
      intro l
      have hHead := piece_flipBit l c q.1 q.2 hn
      by_cases hc : q.1 / n = c
      · have hIn : flipsIn n c (q :: flips) =
            (q.1 % n, q.2) :: flipsIn n c flips := by
          simp only [flipsIn, List.filter_cons, hc,
            beq_self_eq_true, if_true, List.map_cons]
        rw [if_pos hc] at hHead
        rw [hIn]
        exact (ih _).trans
          (congrArg (fun l => flipBits l _) hHead)
      · have hOut : flipsIn n c (q :: flips) =
            flipsIn n c flips := by
          simp only [flipsIn, List.filter_cons,
            beq_eq_false_iff_ne.mpr hc, Bool.false_eq_true,
            if_false]
        rw [if_neg hc] at hHead
        rw [hOut]
        exact (ih _).trans
          (congrArg (fun l => flipBits l _) hHead)

/- Different changed bits are different in their piece. -/
theorem flipsIn_nodup
    {flips : List (Nat × Nat)}
    (c : Nat)
    (h : flips.Nodup) : (flipsIn n c flips).Nodup := by
  unfold flipsIn
  apply List.Nodup.map_on
  · intro q hq q' hq' hEq
    rw [List.mem_filter, beq_iff_eq] at hq hq'
    rw [Prod.mk.injEq] at hEq
    have hFirst : q.1 = q'.1 := by
      rw [← Nat.div_add_mod q.1 n, ← Nat.div_add_mod q'.1 n,
        hq.2, hq'.2, hEq.1]
    exact Prod.ext hFirst hEq.2
  · exact h.filter _

/- Changed bits inside a list are inside its pieces. -/
theorem flipsIn_inside
    {flips : List (Nat × Nat)}
    {l : List UInt8}
    (c : Nat)
    (hn : 0 < n)
    (h : ∀ q ∈ flips, q.1 < l.length) :
    ∀ q ∈ flipsIn n c flips, q.1 < (piece n c l).length := by
  intro q hq
  unfold flipsIn at hq
  rcases List.mem_map.mp hq with ⟨q', hq', rfl⟩
  rw [List.mem_filter, beq_iff_eq] at hq'
  have hInside := h q' hq'.1
  have hDiv := Nat.div_add_mod q'.1 n
  have hMod := Nat.mod_lt q'.1 hn
  rw [hq'.2] at hDiv
  unfold piece
  rw [List.length_take, List.length_drop]
  omega

end Pieces
