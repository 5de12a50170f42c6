import Mathlib.Data.List.Nodup
import Mathlib.Data.List.Perm.Basic
import Mathlib.Data.Nat.Bitwise
import Uffs.Lib.Chain
import Uffs.Model.MemoryPool

/-
  Iteration over the allocated buffers of a pool.

  In a pool of fewer than 32 buffers the search that goes on
  behind the last buffer asks for the index of an address
  that is out of range, which ends in `uffs_Panic`.

  Main declarations:
    * `MemoryPool.Holds`, kept by every step (`MemoryPool.Run`)
    * `MemoryPool.findNextAllocated_eq`
    * `MemoryPool.run_iterationExact_iff`
-/

namespace Uffs

namespace MemoryPool

variable {P : MemoryPool} {free taken : List Nat}

------------------------------------------------------------
-- Buffers
------------------------------------------------------------

/- The addresses of all buffers, in increasing order. -/
def bufs (P : MemoryPool) : List Nat :=
  (List.range P.numBufs).map P.getBufByIndex

/- The last buffer. -/
def lastBuf (P : MemoryPool) : Nat :=
  P.getBufByIndex (P.numBufs - 1)

/-
  The free list is `free`, and each buffer is either in it
  or one of `taken`.
-/
structure Holds (P : MemoryPool) (free taken : List Nat) :
    Prop where
  size : 0 < P.bufSize
  pos : 0 < P.numBufs
  linked : Linked P.next P.freeList free
  parts : (free ++ taken).Perm P.bufs

theorem getBufByIndex_inj
    {i j : Nat}
    (hSize : 0 < P.bufSize)
    (h : P.getBufByIndex i = P.getBufByIndex j) : i = j :=
  Nat.eq_of_mul_eq_mul_right hSize (Nat.add_left_cancel h)

theorem getBufByIndex_lt
    {i j : Nat}
    (hSize : 0 < P.bufSize) :
    P.getBufByIndex i < P.getBufByIndex j ↔ i < j := by
  unfold getBufByIndex
  rw [Nat.add_lt_add_iff_left, Nat.mul_lt_mul_right hSize]

theorem mem_bufs
    {p : Nat} :
    p ∈ P.bufs ↔ ∃ i < P.numBufs, P.getBufByIndex i = p := by
  unfold bufs
  simp only [List.mem_map, List.mem_range]

theorem bufs_nodup (hSize : 0 < P.bufSize) : P.bufs.Nodup :=
  List.nodup_range.map fun _ _ h => getBufByIndex_inj hSize h

theorem verify_index
    (hSize : 0 < P.bufSize)
    (i : Nat) :
    P.verify (P.getBufByIndex i) = decide (i < P.numBufs) := by
  have hLt := getBufByIndex_lt (P := P) (i := i)
    (j := P.numBufs) hSize
  unfold verify
  unfold getBufByIndex at *
  rw [Nat.mul_comm P.bufSize]
  simp [hLt, Nat.mul_mod_left]

theorem getIndex_index
    {i : Nat}
    (hSize : 0 < P.bufSize)
    (hi : i < P.numBufs) :
    P.getIndex (P.getBufByIndex i) = some i := by
  have hLt := (getBufByIndex_lt (P := P) hSize).mpr hi
  unfold getIndex
  unfold getBufByIndex at *
  rw [if_pos ⟨Nat.le_add_right _ _, hLt⟩,
    Nat.add_sub_cancel_left, Nat.mul_div_cancel _ hSize]

/- Behind the last buffer `uffs_PoolGetIndex` panics. -/
theorem getIndex_end :
    P.getIndex (P.getBufByIndex P.numBufs) = none := by
  unfold getIndex getBufByIndex
  rw [if_neg fun h => Nat.lt_irrefl _ h.2]

namespace Holds

theorem nodup (h : P.Holds free taken) : (free ++ taken).Nodup :=
  h.parts.nodup_iff.mpr (bufs_nodup h.size)

theorem length_le
    (h : P.Holds free taken) : free.length ≤ P.numBufs := by
  have hLength := h.parts.length_eq
  unfold bufs at hLength
  rw [List.length_append, List.length_map,
    List.length_range] at hLength
  omega

theorem free_index
    {p : Nat}
    (h : P.Holds free taken)
    (hp : p ∈ free) :
    ∃ i < P.numBufs, P.getBufByIndex i = p :=
  mem_bufs.mp (h.parts.mem_iff.mp (List.mem_append_left _ hp))

theorem mem_taken
    {i : Nat}
    (h : P.Holds free taken)
    (hi : i < P.numBufs) :
    P.getBufByIndex i ∈ taken ↔ P.getBufByIndex i ∉ free := by
  have hMem := h.parts.mem_iff.mpr (mem_bufs.mpr ⟨i, hi, rfl⟩)
  constructor
  · intro hTaken hFree
    exact (List.disjoint_of_nodup_append h.nodup) hFree hTaken
  · intro hFree
    rcases List.mem_append.mp hMem with hp | hp
    · exact absurd hp hFree
    · exact hp

/- A buffer is got. -/
theorem get
    (h : P.Holds free taken) :
    ∃ free', P.get.2.Holds free' (P.get.1.toList ++ taken) := by
  cases free with
  | nil =>
      have hNone := Linked.nil_iff.mp h.linked
      unfold MemoryPool.get
      rw [hNone]
      exact ⟨[], h⟩
  | cons e rest =>
      rcases Linked.cons_iff.mp h.linked with ⟨hSome, hRest⟩
      unfold MemoryPool.get
      rw [hSome]
      exact ⟨rest, h.size, h.pos, hRest,
        List.perm_middle.trans h.parts⟩

/- A buffer is put back. -/
theorem put
    {p : Nat}
    (h : P.Holds free taken)
    (hp : p ∈ taken) :
    (P.put p).Holds (p :: free) (taken.erase p) := by
  have hNotFree : p ∉ free := fun hFree =>
    List.disjoint_of_nodup_append h.nodup hFree hp
  have hParts : (p :: free ++ taken.erase p).Perm
      (free ++ taken) := by
    have hTaken := (List.perm_cons_erase hp).symm
    exact List.perm_middle.symm.trans
      (hTaken.append_left free)
  constructor
  · exact h.size
  · exact h.pos
  · refine Linked.cons_iff.mpr ⟨rfl, ?_⟩
    have hNext : (P.put p).next p = P.freeList := if_pos rfl
    rw [hNext]
    apply h.linked.congr
    intro q hq
    have hNe : q ≠ p := fun hEq => hNotFree (hEq ▸ hq)
    exact if_neg hNe
  · exact hParts.trans h.parts

end Holds

------------------------------------------------------------
-- The Map of a Small Pool
------------------------------------------------------------

theorem and_shiftLeft_ne_zero
    (map i : Nat) :
    map &&& 1 <<< i ≠ 0 ↔ map.testBit i = true := by
  rw [Nat.one_shiftLeft, Nat.and_two_pow]
  cases map.testBit i with
  | false => simp
  | true => simp

/- The bits of the map are those of the free buffers. -/
theorem freeMapFrom_eq
    (hSize : 0 < P.bufSize) :
    ∀ {n : Nat} {l : List Nat} {e : Option Nat} (map : Nat),
      Linked P.next e l → l.length ≤ n →
        (∀ p ∈ l, ∃ i < P.numBufs, P.getBufByIndex i = p) →
        ∃ map', P.freeMapFrom n e map = some map' ∧
          ∀ i, map'.testBit i =
            (map.testBit i || decide (P.getBufByIndex i ∈ l))
    := by
  intro n l
  induction l generalizing n with
  | nil =>
      intro e map hLinked _ _
      rw [Linked.nil_iff.mp hLinked]
      refine ⟨map, ?_, ?_⟩
      · cases n <;> rfl
      · intro i
        simp
  | cons a l ih =>
      intro e map hLinked hLength hIndex
      rcases Linked.cons_iff.mp hLinked with ⟨he, hRest⟩
      rw [he]
      cases n with
      | zero => cases hLength
      | succ n =>
          rcases hIndex a List.mem_cons_self with ⟨k, hk, ha⟩
          have hGet := getIndex_index hSize hk
          rw [ha] at hGet
          have hStep := ih (n := n) (map ||| 1 <<< k) hRest
            (Nat.le_of_succ_le_succ hLength)
            fun p hp => hIndex p (List.mem_cons_of_mem _ hp)
          rcases hStep with ⟨map', hMap, hBits⟩
          refine ⟨map', ?_, ?_⟩
          · unfold freeMapFrom
            rw [hGet]
            exact hMap
          · intro i
            have hHead : P.getBufByIndex i = a ↔ k = i := by
              constructor
              · intro hEq
                exact getBufByIndex_inj hSize (ha.trans hEq.symm)
              · intro hEq
                rw [← hEq]
                exact ha
            rw [hBits, Nat.testBit_or, Nat.one_shiftLeft,
              Nat.testBit_two_pow, Bool.or_assoc]
            simp [List.mem_cons, hHead]

------------------------------------------------------------
-- The Next Allocated Buffer
------------------------------------------------------------

/- The index of the first allocated buffer from `j` on. -/
def firstAlloc
    (P : MemoryPool)
    (free : List Nat)
    (j : Nat) : Option Nat :=
  (List.range' j (P.numBufs - j)).find? fun i =>
    decide (P.getBufByIndex i ∉ free)

/- The allocated buffers from index `j` on. -/
def allocFrom
    (P : MemoryPool)
    (free : List Nat)
    (j : Nat) : List Nat :=
  ((List.range' j (P.numBufs - j)).filter fun i =>
    decide (P.getBufByIndex i ∉ free)).map P.getBufByIndex

theorem range'_step
    {j n : Nat}
    (hj : j < n) :
    List.range' j (n - j) =
      j :: List.range' (j + 1) (n - (j + 1)) := by
  have hSub : n - j = (n - (j + 1)) + 1 := by omega
  rw [hSub, List.range'_succ]

theorem range'_end
    {j n : Nat}
    (hj : n ≤ j) : List.range' j (n - j) = [] := by
  rw [Nat.sub_eq_zero_of_le hj]
  rfl

theorem firstAlloc_end
    {j : Nat}
    (hj : P.numBufs ≤ j) : P.firstAlloc free j = none := by
  unfold firstAlloc
  rw [range'_end hj]
  rfl

theorem firstAlloc_taken
    {j : Nat}
    (hj : j < P.numBufs)
    (hTaken : P.getBufByIndex j ∉ free) :
    P.firstAlloc free j = some j := by
  unfold firstAlloc
  rw [range'_step hj, List.find?_cons_of_pos]
  exact decide_eq_true hTaken

theorem firstAlloc_free
    {j : Nat}
    (hj : j < P.numBufs)
    (hFree : P.getBufByIndex j ∈ free) :
    P.firstAlloc free j = P.firstAlloc free (j + 1) := by
  unfold firstAlloc
  rw [range'_step hj, List.find?_cons_of_neg]
  simpa using hFree

/- The first allocated buffer is the first of all of them. -/
theorem allocFrom_eq
    (P : MemoryPool)
    (free : List Nat)
    (n : Nat) :
    ∀ j, P.numBufs - j = n →
      match P.firstAlloc free j with
      | none => P.allocFrom free j = []
      | some i => j ≤ i ∧ i < P.numBufs ∧
          P.getBufByIndex i ∉ free ∧
          P.allocFrom free j =
            P.getBufByIndex i :: P.allocFrom free (i + 1) := by
  induction n with
  | zero =>
      intro j hn
      have hj : P.numBufs ≤ j := by omega
      rw [firstAlloc_end hj]
      unfold allocFrom
      rw [range'_end hj]
      rfl
  | succ n ih =>
      intro j hn
      have hj : j < P.numBufs := by omega
      by_cases hFree : P.getBufByIndex j ∈ free
      · have hRest := ih (j + 1) (by omega)
        have hAlloc : P.allocFrom free j =
            P.allocFrom free (j + 1) := by
          unfold allocFrom
          rw [range'_step hj, List.filter_cons_of_neg]
          simpa using hFree
        rw [firstAlloc_free hj hFree, hAlloc]
        cases hFirst : P.firstAlloc free (j + 1) with
        | none =>
            rw [hFirst] at hRest
            exact hRest
        | some i =>
            rw [hFirst] at hRest
            exact ⟨by omega, hRest.2⟩
      · rw [firstAlloc_taken hj hFree]
        refine ⟨Nat.le_refl _, hj, hFree, ?_⟩
        unfold allocFrom
        rw [range'_step hj, List.filter_cons_of_pos]
        · rfl
        · exact decide_eq_true hFree

/- The loop of a small pool. -/
theorem skipFree_eq
    {map : Nat}
    (free : List Nat)
    (hSmall : P.numBufs < 32)
    (hBits : ∀ i, map.testBit i =
      decide (P.getBufByIndex i ∈ free)) :
    ∀ n j, j ≤ P.numBufs → P.numBufs ≤ j + n →
      skipFree map P.numBufs n j =
        (P.firstAlloc free j).getD P.numBufs := by
  intro n
  induction n with
  | zero =>
      intro j hj hn
      have hEnd : j = P.numBufs := by omega
      rw [firstAlloc_end (by omega), hEnd]
      rfl
  | succ n ih =>
      intro j hj hn
      unfold skipFree
      by_cases hLt : j < P.numBufs
      · by_cases hFree : P.getBufByIndex j ∈ free
        · have hBit : map.testBit j = true := by
            rw [hBits j]
            exact decide_eq_true hFree
          rw [if_pos ⟨(and_shiftLeft_ne_zero _ _).mpr hBit,
            by omega, hLt⟩, firstAlloc_free hLt hFree]
          exact ih (j + 1) hLt (by omega)
        · have hBit : ¬ map.testBit j = true := by
            rw [hBits j, decide_eq_true_iff]
            exact hFree
          rw [if_neg, firstAlloc_taken hLt hFree]
          · rfl
          · intro h
            exact hBit ((and_shiftLeft_ne_zero _ _).mp h.1)
      · have hEnd : j = P.numBufs := by omega
        rw [if_neg fun h => hLt h.2.2,
          firstAlloc_end (by omega)]
        exact hEnd

theorem isFreeFrom_eq
    {p : Nat} :
    ∀ {n : Nat} {l : List Nat} {e : Option Nat},
      Linked P.next e l → l.length ≤ n →
        P.isFreeFrom p n e = some (decide (p ∈ l)) := by
  intro n l
  induction l generalizing n with
  | nil =>
      intro e hLinked _
      rw [Linked.nil_iff.mp hLinked]
      cases n <;> rfl
  | cons a l ih =>
      intro e hLinked hLength
      rcases Linked.cons_iff.mp hLinked with ⟨he, hRest⟩
      rw [he]
      cases n with
      | zero => cases hLength
      | succ n =>
          unfold isFreeFrom
          by_cases hEq : p = a
          · rw [if_pos hEq]
            simp [hEq]
          · rw [if_neg hEq,
              ih hRest (Nat.le_of_succ_le_succ hLength)]
            simp [hEq]

theorem getBufByIndex_succ (i : Nat) :
    P.getBufByIndex i + P.bufSize = P.getBufByIndex (i + 1) :=
  by
  unfold getBufByIndex
  rw [Nat.succ_mul, Nat.add_assoc]

/- The loop of a big pool. -/
theorem skipFreeBufs_eq
    (h : P.Holds free taken) :
    ∀ n j, j ≤ P.numBufs → P.numBufs ≤ j + n →
      P.skipFreeBufs n (P.getBufByIndex j) =
        some (P.getBufByIndex
          ((P.firstAlloc free j).getD P.numBufs)) := by
  intro n
  induction n with
  | zero =>
      intro j hj hn
      have hEnd : j = P.numBufs := by omega
      rw [firstAlloc_end (by omega), hEnd]
      rfl
  | succ n ih =>
      intro j hj hn
      have hScan := isFreeFrom_eq (p := P.getBufByIndex j)
        h.linked h.length_le
      unfold skipFreeBufs
      rw [verify_index h.size]
      by_cases hLt : j < P.numBufs
      · rw [if_pos (decide_eq_true hLt), hScan]
        by_cases hFree : P.getBufByIndex j ∈ free
        · have hNext := ih (j + 1) hLt (by omega)
          rw [firstAlloc_free hLt hFree, ← hNext,
            ← getBufByIndex_succ]
          simp [hFree]
        · rw [firstAlloc_taken hLt hFree]
          simp [hFree]
      · rw [if_neg (by simpa using hLt),
          firstAlloc_end (by omega)]
        have hEnd : j = P.numBufs := by omega
        rw [hEnd]
        rfl

/-
  The search finds the first allocated buffer, unless it
  starts behind the last buffer of a small pool.
-/
theorem findNextAllocated_eq
    {p : Option Nat}
    {j : Nat}
    (h : P.Holds free taken)
    (hp : P.start p = P.getBufByIndex j)
    (hj : j ≤ P.numBufs)
    (hIn : 32 ≤ P.numBufs ∨ j < P.numBufs) :
    P.findNextAllocated p =
      some ((P.firstAlloc free j).map P.getBufByIndex) := by
  have hFound := allocFrom_eq P free _ j rfl
  unfold findNextAllocated
  dsimp only
  rw [hp]
  by_cases hSmall : P.numBufs < 32
  · have hLt : j < P.numBufs := by omega
    rcases freeMapFrom_eq h.size 0 h.linked h.length_le
        fun p hp => h.free_index hp with ⟨map, hMap, hBits⟩
    have hSkip := skipFree_eq free hSmall
      (fun i => by rw [hBits i, Nat.zero_testBit]; simp) 32 j hj
      (by omega)
    rw [if_pos hSmall]
    unfold findNextAllocatedInSmallPool
    rw [hMap, getIndex_index h.size hLt]
    simp only [Option.bind_eq_bind, Option.bind_some]
    rw [hSkip]
    cases hFirst : P.firstAlloc free j with
    | none =>
        rw [if_neg fun hBoth => Nat.lt_irrefl _ hBoth.2]
        rfl
    | some i =>
        rw [hFirst] at hFound
        have hi : i < P.numBufs := hFound.2.1
        rw [if_pos ⟨Nat.lt_trans hi hSmall, hi⟩]
        rfl
  · have hSkip := skipFreeBufs_eq h P.numBufs j hj (by omega)
    have hTail : ∀ i, (if P.verify (P.getBufByIndex i) then
        some (P.getBufByIndex i) else none) =
          if i < P.numBufs then some (P.getBufByIndex i)
          else none := by
      intro i
      rw [verify_index h.size]
      simp
    rw [if_neg hSmall]
    cases hFree : P.freeList with
    | none =>
        -- no buffer is free
        have hEmpty : free = [] := h.linked.eq_none_iff.mp hFree
        simp only [Option.bind_eq_bind, Option.bind_some]
        rw [hTail]
        by_cases hLt : j < P.numBufs
        · rw [firstAlloc_taken hLt (by rw [hEmpty]; simp),
            if_pos hLt]
          rfl
        · rw [firstAlloc_end (by omega), if_neg hLt]
          rfl
    | some e =>
        simp only [Option.bind_eq_bind, hSkip, Option.bind_some]
        rw [hTail]
        cases hFirst : P.firstAlloc free j with
        | none =>
            rw [Option.getD_none, if_neg (Nat.lt_irrefl _)]
            rfl
        | some i =>
            rw [hFirst] at hFound
            rw [Option.getD_some, if_pos hFound.2.1]
            rfl

/- Behind the last buffer of a small pool. -/
theorem findNextAllocated_panic
    (h : P.Holds free taken)
    (hSmall : P.numBufs < 32) :
    P.findNextAllocated (some P.lastBuf) = none := by
  have hPos := h.pos
  have hEnd : P.start (some P.lastBuf) =
      P.getBufByIndex P.numBufs := by
    unfold start lastBuf
    dsimp only
    rw [getBufByIndex_succ, Nat.sub_add_cancel hPos]
  rcases freeMapFrom_eq h.size 0 h.linked h.length_le
      fun p hp => h.free_index hp with ⟨map, hMap, _⟩
  unfold findNextAllocated
  dsimp only
  rw [if_pos hSmall, hEnd]
  unfold findNextAllocatedInSmallPool
  rw [hMap, getIndex_end]
  rfl

------------------------------------------------------------
-- Visiting All Allocated Buffers
------------------------------------------------------------

/- Iterating from `p` on visits the buffers of the list. -/
def Visits (P : MemoryPool) : Option Nat → List Nat → Prop
| p, [] => P.findNextAllocated p = some none
| p, a :: l =>
    P.findNextAllocated p = some (some a) ∧
      P.Visits (some a) l

/- The buffers that are visited are those from `j` on. -/
theorem visits_allocFrom
    (h : P.Holds free taken)
    (hIn : 32 ≤ P.numBufs ∨ P.lastBuf ∈ free)
    (l : List Nat) :
    ∀ p j, P.start p = P.getBufByIndex j → j ≤ P.numBufs →
      (32 ≤ P.numBufs ∨ j < P.numBufs) →
      P.allocFrom free j = l → P.Visits p l := by
  induction l with
  | nil =>
      intro p j hp hj hjIn hAlloc
      have hFound := allocFrom_eq P free _ j rfl
      unfold Visits
      rw [findNextAllocated_eq h hp hj hjIn]
      cases hFirst : P.firstAlloc free j with
      | none => rfl
      | some i =>
          rw [hFirst] at hFound
          rw [hFound.2.2.2] at hAlloc
          cases hAlloc
  | cons a l ih =>
      intro p j hp hj hjIn hAlloc
      have hFound := allocFrom_eq P free _ j rfl
      unfold Visits
      rw [findNextAllocated_eq h hp hj hjIn]
      cases hFirst : P.firstAlloc free j with
      | none =>
          rw [hFirst] at hFound
          rw [hFound] at hAlloc
          cases hAlloc
      | some i =>
          rw [hFirst] at hFound
          rcases hFound with ⟨_, hi, hTaken, hRest⟩
          rw [hRest] at hAlloc
          cases hAlloc
          refine ⟨rfl, ih _ (i + 1) ?_ hi ?_ rfl⟩
          · exact getBufByIndex_succ i
          · rcases hIn with hBig | hLast
            · exact Or.inl hBig
            · right
              -- the last buffer is free
              have hNe : i ≠ P.numBufs - 1 := by
                intro hEq
                rw [hEq] at hTaken
                exact hTaken hLast
              omega

theorem mem_allocFrom
    {p : Nat}
    (h : P.Holds free taken) :
    p ∈ P.allocFrom free 0 ↔ p ∈ taken := by
  unfold allocFrom
  simp only [List.mem_map, List.mem_filter, List.mem_range'_1,
    Nat.sub_zero, Nat.zero_add, Nat.zero_le, true_and,
    decide_eq_true_eq]
  constructor
  · rintro ⟨i, ⟨hi, hNot⟩, hEq⟩
    rw [← hEq]
    exact (h.mem_taken hi).mpr hNot
  · intro hp
    have hMem := h.parts.mem_iff.mp
      (List.mem_append_right free hp)
    rcases mem_bufs.mp hMem with ⟨i, hi, hEq⟩
    rw [← hEq] at hp
    exact ⟨i, ⟨hi, (h.mem_taken hi).mp hp⟩, hEq⟩

theorem allocFrom_sorted
    (hSize : 0 < P.bufSize)
    (j : Nat) : (P.allocFrom free j).Pairwise (· < ·) := by
  unfold allocFrom
  rw [List.pairwise_map]
  apply List.Pairwise.filter
  apply List.Pairwise.imp (fun hLt => ?_)
    (List.pairwise_lt_range' _)
  exact (getBufByIndex_lt hSize).mpr hLt

theorem allocFrom_perm
    (h : P.Holds free taken) :
    (P.allocFrom free 0).Perm taken := by
  have hTaken := (List.nodup_append.mp h.nodup).2.1
  have hAlloc : (P.allocFrom free 0).Nodup :=
    (allocFrom_sorted h.size 0).imp fun hLt => Nat.ne_of_lt hLt
  rw [List.perm_ext_iff_of_nodup hAlloc hTaken]
  exact fun p => mem_allocFrom h

/- Every visited buffer is one that the search goes on from. -/
theorem Visits.ne_none
    {a : Nat}
    {l : List Nat} :
    ∀ {p : Option Nat}, P.Visits p l → a ∈ l →
      P.findNextAllocated (some a) ≠ none := by
  induction l with
  | nil =>
      intro p _ ha
      cases ha
  | cons b l ih =>
      intro p h ha
      rcases h with ⟨_, hRest⟩
      rcases List.mem_cons.mp ha with hEq | ha
      · rw [hEq]
        intro hNone
        cases l with
        | nil =>
            unfold Visits at hRest
            rw [hNone] at hRest
            cases hRest
        | cons c l =>
            unfold Visits at hRest
            rw [hNone] at hRest
            cases hRest.1
      · exact ih hRest ha

------------------------------------------------------------
-- Putting All Buffers Back
------------------------------------------------------------

/- A buffer that is put back does not change what follows. -/
theorem allocFrom_put
    {i : Nat}
    (hSize : 0 < P.bufSize) :
    (P.put (P.getBufByIndex i)).allocFrom
        (P.getBufByIndex i :: free) (i + 1) =
      P.allocFrom free (i + 1) := by
  have hFilter :
      ((List.range' (i + 1) (P.numBufs - (i + 1))).filter
        fun k => decide (P.getBufByIndex k ∉
          P.getBufByIndex i :: free)) =
      ((List.range' (i + 1) (P.numBufs - (i + 1))).filter
        fun k => decide (P.getBufByIndex k ∉ free)) := by
    apply List.filter_congr
    intro k hk
    have hLt : i < k := (List.mem_range'_1.mp hk).1
    have hNe : P.getBufByIndex k ≠ P.getBufByIndex i := by
      intro hEq
      exact Nat.ne_of_gt hLt (getBufByIndex_inj hSize hEq)
    simp [List.mem_cons, hNe]
  exact congrArg (List.map P.getBufByIndex) hFilter

/-
  The loop puts back the allocated buffers from `j` on, each
  in front of the free list.
-/
theorem putAllFrom_eq
    (l : List Nat) :
    ∀ {P : MemoryPool} {free taken : List Nat} n p count j,
      P.Holds free taken →
        (32 ≤ P.numBufs ∨ P.lastBuf ∈ free) →
        P.start p = P.getBufByIndex j → j ≤ P.numBufs →
        (32 ≤ P.numBufs ∨ j < P.numBufs) →
        P.allocFrom free j = l → l.length < n →
        ∃ P', putAllFrom n p count P =
            some (count + l.length, P') ∧
          Linked P'.next P'.freeList (l.reverse ++ free) := by
  induction l with
  | nil =>
      intro P free taken n p count j h hIn hp hj hjIn hAlloc hn
      have hFound := allocFrom_eq P free _ j rfl
      cases n with
      | zero => cases hn
      | succ n =>
          refine ⟨P, ?_, h.linked⟩
          unfold putAllFrom
          rw [findNextAllocated_eq h hp hj hjIn]
          cases hFirst : P.firstAlloc free j with
          | none => rfl
          | some i =>
              rw [hFirst] at hFound
              rw [hFound.2.2.2] at hAlloc
              cases hAlloc
  | cons a l ih =>
      intro P free taken n p count j h hIn hp hj hjIn hAlloc hn
      have hFound := allocFrom_eq P free _ j rfl
      cases n with
      | zero => cases hn
      | succ n =>
          unfold putAllFrom
          rw [findNextAllocated_eq h hp hj hjIn]
          cases hFirst : P.firstAlloc free j with
          | none =>
              rw [hFirst] at hFound
              rw [hFound] at hAlloc
              cases hAlloc
          | some i =>
              rw [hFirst] at hFound
              rcases hFound with ⟨_, hi, hNotFree, hRest⟩
              rw [hRest] at hAlloc
              cases hAlloc
              have hTaken := (h.mem_taken hi).mpr hNotFree
              have hNext := ih n (some (P.getBufByIndex i))
                (count + 1) (i + 1) (h.put hTaken)
                (hIn.imp_right (List.mem_cons_of_mem _))
                (getBufByIndex_succ i) hi ?_
                (allocFrom_put h.size)
                (Nat.lt_of_succ_lt_succ hn)
              · rcases hNext with ⟨P', hRun, hLinked⟩
                refine ⟨P', ?_, ?_⟩
                · have hCount :
                      count + ((P.allocFrom free (i + 1)).length
                        + 1) =
                      count + 1 +
                        (P.allocFrom free (i + 1)).length := by
                    omega
                  rw [List.length_cons, hCount]
                  exact hRun
                · rw [List.reverse_cons, List.append_assoc]
                  exact hLinked
              · rcases hIn with hBig | hLast
                · exact Or.inl hBig
                · right
                  have hNe : i ≠ P.numBufs - 1 := by
                    intro hEq
                    rw [hEq] at hNotFree
                    exact hNotFree hLast
                  change i + 1 < P.numBufs
                  omega

------------------------------------------------------------
-- Runs
------------------------------------------------------------

/-
  The pools that come of `uffs_PoolGet` and `uffs_PoolPut`,
  with the buffers that are allocated: a buffer is put back
  once.
-/
inductive Run (P : MemoryPool) : List Nat → MemoryPool → Prop
| init : Run P [] P
| get {taken : List Nat} {Q : MemoryPool} (h : Run P taken Q) :
    Run P (Q.get.1.toList ++ taken) Q.get.2
| put {taken : List Nat} {Q : MemoryPool} {p : Nat}
    (h : Run P taken Q) (hp : p ∈ taken) :
    Run P (taken.erase p) (Q.put p)

/-
  Iterating visits each allocated buffer once, in increasing
  order, and ends, and so does putting all of them back.
-/
structure IterationExact
    (P : MemoryPool)
    (taken : List Nat) : Prop where
  visits : ∃ l, l.Pairwise (· < ·) ∧ l.Perm taken ∧
    P.Visits none l
  putAll : ∃ Q, P.putAll = some (taken.length, Q) ∧
    ∃ l, Linked Q.next Q.freeList l ∧ l.Perm P.bufs

theorem linkFrom_other
    {mem bufSize p : Nat} :
    ∀ {n i e1 : Nat} {next : Nat → Option Nat},
      p ≠ e1 → (∀ k, i ≤ k → p ≠ mem + k * bufSize) →
        linkFrom mem bufSize n i e1 next p = next p := by
  intro n
  induction n with
  | zero =>
      intro i e1 next hNe _
      exact if_neg hNe
  | succ n ih =>
      intro i e1 next hNe hRest
      unfold linkFrom
      dsimp only
      rw [ih (hRest i (Nat.le_refl _))
        fun k hk => hRest k (Nat.le_of_succ_le hk)]
      exact if_neg hNe

/- The loop links the buffers in increasing order. -/
theorem linkFrom_linked
    (mem : Nat)
    {bufSize : Nat}
    (hSize : 0 < bufSize) :
    ∀ (n i : Nat) (next : Nat → Option Nat),
      Linked
        (linkFrom mem bufSize n (i + 1) (mem + i * bufSize)
          next)
        (some (mem + i * bufSize))
        ((List.range' i (n + 1)).map fun k =>
          mem + k * bufSize) := by
  intro n
  induction n with
  | zero =>
      intro i next
      refine Linked.cons_iff.mpr
        ⟨rfl, Linked.nil_iff.mpr ?_⟩
      exact if_pos rfl
  | succ n ih =>
      intro i next
      rw [List.range'_succ, List.map_cons]
      have hApart : ∀ k, i + 1 ≤ k →
          mem + i * bufSize ≠ mem + k * bufSize := by
        intro k hk hEq
        have hMul := Nat.add_left_cancel hEq
        have hSame := Nat.eq_of_mul_eq_mul_right hSize hMul
        omega
      refine Linked.cons_iff.mpr ⟨rfl, ?_⟩
      unfold linkFrom
      dsimp only
      rw [linkFrom_other (hApart (i + 1) (Nat.le_refl _))
        fun k hk => hApart k (by omega), if_pos rfl]
      exact ih _ _

theorem create_holds
    {ptrSize mem memSize bufSize numBufs : Nat}
    (hSize : 0 < bufSize)
    (hCreate : create ptrSize mem memSize bufSize numBufs =
      some P) : P.Holds P.bufs [] := by
  unfold create at hCreate
  split at hCreate
  · rename_i hArgs
    cases hCreate
    constructor
    · exact hSize
    · exact hArgs.1
    · have hLinked := linkFrom_linked mem hSize (numBufs - 1) 0
        fun _ => none
      rw [Nat.zero_mul, Nat.add_zero,
        Nat.sub_add_cancel hArgs.1,
        ← List.range_eq_range'] at hLinked
      exact hLinked
    · rw [List.append_nil]
  · cases hCreate

theorem Run.holds
    {Q : MemoryPool}
    (h : P.Run taken Q)
    (hInit : P.Holds P.bufs []) :
    Q.bufs = P.bufs ∧ ∃ free, Q.Holds free taken := by
  induction h with
  | init => exact ⟨rfl, _, hInit⟩
  | @get taken Q h ih =>
      rcases ih with ⟨hBufs, free, hQ⟩
      refine ⟨?_, hQ.get⟩
      rw [← hBufs]
      unfold MemoryPool.get
      cases Q.freeList <;> rfl
  | put h hp ih =>
      rcases ih with ⟨hBufs, free, hQ⟩
      exact ⟨hBufs, _, hQ.put hp⟩

theorem lastBuf_mem
    (h : P.Holds free taken) :
    P.lastBuf ∈ free ↔ P.lastBuf ∉ taken := by
  have hPos := h.pos
  have hTaken := h.mem_taken (i := P.numBufs - 1) (by omega)
  unfold lastBuf
  rw [hTaken, not_not]

theorem Holds.iterationExact
    (h : P.Holds free taken)
    (hIn : 32 ≤ P.numBufs ∨ P.lastBuf ∈ free) :
    P.IterationExact taken := by
  have hStart : P.start none = P.getBufByIndex 0 := by
    unfold start getBufByIndex
    rw [Nat.zero_mul, Nat.add_zero]
  have hPerm := allocFrom_perm h
  constructor
  · refine ⟨P.allocFrom free 0, allocFrom_sorted h.size 0,
      hPerm, ?_⟩
    exact visits_allocFrom h hIn _ none 0 hStart
      (Nat.zero_le _) (Or.inr h.pos) rfl
  · have hLength := h.parts.length_eq
    have hBufs : P.bufs.length = P.numBufs := by
      unfold bufs
      rw [List.length_map, List.length_range]
    rw [List.length_append, hBufs] at hLength
    have hPut := putAllFrom_eq _ (P.numBufs + 1) none 0 0 h hIn
      hStart (Nat.zero_le _) (Or.inr h.pos) rfl
      (by rw [hPerm.length_eq]; omega)
    rcases hPut with ⟨Q, hRun, hLinked⟩
    rw [Nat.zero_add, hPerm.length_eq] at hRun
    refine ⟨Q, hRun, _, hLinked, ?_⟩
    have hReverse := (List.reverse_perm _).trans hPerm
    exact ((hReverse.append_right free).trans
      List.perm_append_comm).trans h.parts

theorem Holds.not_iterationExact
    (h : P.Holds free taken)
    (hSmall : P.numBufs < 32)
    (hLast : P.lastBuf ∈ taken) :
    ¬ P.IterationExact taken := by
  intro hExact
  rcases hExact.visits with ⟨l, _, hPerm, hVisits⟩
  exact hVisits.ne_none (hPerm.mem_iff.mpr hLast)
    (findNextAllocated_panic h hSmall)

/-
  In every pool that is reached, iterating is exact if and
  only if the pool has at least 32 buffers or its last
  buffer is free.
-/
theorem run_iterationExact_iff
    {ptrSize mem memSize bufSize numBufs : Nat}
    {Q : MemoryPool}
    (hSize : 0 < bufSize)
    (hCreate : create ptrSize mem memSize bufSize numBufs =
      some P)
    (hRun : P.Run taken Q) :
    Q.IterationExact taken ↔
      32 ≤ Q.numBufs ∨ Q.lastBuf ∉ taken := by
  rcases (hRun.holds (create_holds hSize hCreate)).2 with
    ⟨free, hHolds⟩
  constructor
  · intro hExact
    by_cases hBig : 32 ≤ Q.numBufs
    · exact Or.inl hBig
    · right
      intro hLast
      exact hHolds.not_iterationExact (Nat.not_le.mp hBig) hLast
        hExact
  · intro hIn
    apply hHolds.iterationExact
    exact hIn.imp_right (lastBuf_mem hHolds).mpr

/- Two buffers, one of which is allocated. -/
theorem run_iterationExact_iff_two :
    ∃ P Q, create 4 4096 16 8 2 = some P ∧ P.Run [4096] Q ∧
      Q.IterationExact [4096] := by
  refine ⟨_, _, rfl, Run.get Run.init, ?_⟩
  have hCreate : create 4 4096 16 8 2 = some _ := rfl
  have hIff := run_iterationExact_iff (by decide) hCreate
    (Run.get Run.init)
  exact hIff.mpr (Or.inr (by decide))

/- A pool of one buffer, which is allocated. -/
theorem iterationExact_false :
    ∃ P Q, create 4 4096 8 8 1 = some P ∧ P.Run [4096] Q ∧
      ¬ Q.IterationExact [4096] := by
  refine ⟨_, _, rfl, Run.get Run.init, ?_⟩
  intro hExact
  rcases hExact.visits with ⟨l, _, hPerm, hVisits⟩
  exact hVisits.ne_none (hPerm.mem_iff.mpr (by decide))
    (by decide : findNextAllocated _ (some 4096) = none)

end MemoryPool

end Uffs
