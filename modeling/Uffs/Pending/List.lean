import Mathlib.Data.List.Nodup
import Uffs.Model.Flash

/-
  The list of pending blocks.

  The list is the array up to `count`.  Reports add to it or
  raise a mark; what is removed is moved over by the entries
  behind it, and the slots from `count` on are not touched.

  Main declarations:
    * `Pending.list`
    * `Reports`
    * `Pending.Proper`, `Pending.Highest`
    * `Pending.Sheds`
-/

namespace Uffs

open Prog

------------------------------------------------------------
-- Entries
------------------------------------------------------------

/- The entries of the list. -/
def Pending.list (p : Pending) : List PendingBlock :=
  (List.range p.count).map p.slot

/- The blocks of the list. -/
def Pending.blocks (p : Pending) : List Nat :=
  p.list.map PendingBlock.block

namespace Pending

variable {p q r : Pending} {b i : Nat} {e : PendingBlock}
  {mark : PendingMark}

theorem length_list (p : Pending) : p.list.length = p.count := by
  unfold Pending.list
  rw [List.length_map, List.length_range]

theorem mem_list : e ∈ p.list ↔ ∃ i < p.count, p.slot i = e := by
  unfold Pending.list
  simp only [List.mem_map, List.mem_range]

theorem mem_blocks :
    b ∈ p.blocks ↔ ∃ i < p.count, (p.slot i).block = b := by
  unfold Pending.blocks Pending.list
  simp only [List.map_map, List.mem_map, List.mem_range,
    Function.comp_apply]

theorem block_mem (h : e ∈ p.list) : e.block ∈ p.blocks :=
  List.mem_map_of_mem h

theorem find_some
    (h : p.find b = some i) :
    i < p.count ∧ (p.slot i).block = b := by
  unfold Pending.find at h
  have hIn := List.mem_of_find?_eq_some h
  have hBlock := List.find?_some h
  rw [beq_iff_eq] at hBlock
  exact ⟨List.mem_range.mp hIn, hBlock⟩

theorem find_none : p.find b = none ↔ b ∉ p.blocks := by
  unfold Pending.find
  rw [List.find?_eq_none, mem_blocks]
  constructor
  · intro h hIn
    rcases hIn with ⟨i, hi, hBlock⟩
    apply h i (List.mem_range.mpr hi)
    rw [hBlock]
    exact beq_self_eq_true b
  · intro h i hi hBlock
    exact h ⟨i, List.mem_range.mp hi, beq_iff_eq.mp hBlock⟩

/- A new block is put behind the others. -/
theorem list_push
    (p : Pending)
    (b : Nat)
    (mark : PendingMark) :
    Pending.list { p with
      count := p.count + 1
      slot := upd p.slot p.count
        { block := b, mark := mark } } =
      p.list ++ [{ block := b, mark := mark }] := by
  unfold Pending.list
  dsimp only
  rw [List.range_succ, List.map_append, List.map_singleton,
    upd_same]
  apply congrArg (· ++ _)
  apply List.map_congr_left
  intro i hi
  rw [upd_other _ _ (Nat.ne_of_lt (List.mem_range.mp hi))]

/- What is removed is taken out of the list. -/
theorem list_remove
    (h : p.find b = some i) :
    (p.remove b).list = p.list.eraseIdx i := by
  have hi := (find_some h).1
  unfold Pending.remove
  rw [h]
  apply List.ext_getElem
  · rw [length_list, List.length_eraseIdx_of_lt, length_list]
    rw [length_list]
    exact hi
  · intro j hj _
    rw [length_list] at hj
    dsimp only at hj
    rw [List.getElem_eraseIdx]
    simp only [Pending.list, List.getElem_map,
      List.getElem_range]
    by_cases hLt : j < i
    · rw [if_neg (by omega), dif_pos hLt]
    · rw [if_pos (by omega), dif_neg hLt]

theorem remove_sublist (p : Pending) (b : Nat) :
    (p.remove b).list.Sublist p.list := by
  cases h : p.find b with
  | none =>
      unfold Pending.remove
      rw [h]
  | some i =>
      rw [list_remove h]
      exact List.eraseIdx_sublist _ _

/- The other blocks stay in the list. -/
theorem mem_remove
    (hIn : e ∈ p.list)
    (hBlock : e.block ≠ b) : e ∈ (p.remove b).list := by
  cases h : p.find b with
  | none =>
      unfold Pending.remove
      rw [h]
      exact hIn
  | some i =>
      rw [list_remove h, List.mem_eraseIdx_iff_getElem]
      rcases mem_list.mp hIn with ⟨j, hj, hSlot⟩
      have hj' : j < p.list.length := by
        rw [length_list]
        exact hj
      refine ⟨j, hj', ?_, ?_⟩
      · intro hEq
        apply hBlock
        rw [← hSlot, hEq]
        exact (find_some h).2
      · simp only [Pending.list, List.getElem_map,
          List.getElem_range]
        exact hSlot

------------------------------------------------------------
-- Reports
------------------------------------------------------------

end Pending

/-
  The marks that were reported for each block since it was
  put into the list, recorded beside the program.
-/
abbrev Reports : Type := Nat → List PendingMark

/- A report raises an entry or starts a new one. -/
def Reports.report
    (R : Reports)
    (p : Pending)
    (block : Nat)
    (mark : PendingMark) : Reports :=
  upd R block
    (if block ∈ p.blocks then mark :: R block else [mark])

/- What holds of the list before and after each operation. -/
structure Pending.Proper (p : Pending) : Prop where
  count : p.count ≤ maxPendingBlocks
  nodup : p.blocks.Nodup
  current : p.blockInRecovery ∉ p.blocks

/- Each mark is the highest one that was reported. -/
def Pending.Highest (p : Pending) (R : Reports) : Prop :=
  ∀ e ∈ p.list, e.mark ∈ R e.block ∧
    ∀ mark ∈ R e.block, mark.toNat ≤ e.mark.toNat

namespace Pending

variable {p q r : Pending} {b i : Nat} {e : PendingBlock}
  {mark : PendingMark} {R : Reports}

/- A list that only got shorter. -/
theorem Proper.sublist
    (h : p.Proper)
    (hList : q.list.Sublist p.list)
    (hCurrent : q.blockInRecovery = p.blockInRecovery) :
    q.Proper := by
  have hBlocks : q.blocks.Sublist p.blocks := hList.map _
  constructor
  · rw [← length_list]
    apply Nat.le_trans hList.length_le
    rw [length_list]
    exact h.count
  · exact hBlocks.nodup h.nodup
  · rw [hCurrent]
    intro hIn
    exact h.current (hBlocks.subset hIn)

theorem Highest.sublist
    (h : p.Highest R)
    (hList : q.list.Sublist p.list) : q.Highest R :=
  fun e he => h e (hList.subset he)

theorem remove_current (p : Pending) (b : Nat) :
    (p.remove b).blockInRecovery = p.blockInRecovery := by
  unfold Pending.remove
  cases p.find b <;> rfl

/- The blocks of the list when a mark is raised. -/
theorem blocks_raise
    (p : Pending)
    (i : Nat)
    (mark : PendingMark) :
    Pending.blocks { p with
      slot := upd p.slot i
        { block := (p.slot i).block, mark := mark } } =
      p.blocks := by
  unfold Pending.blocks Pending.list
  dsimp only
  rw [List.map_map, List.map_map]
  apply List.map_congr_left
  intro j _
  dsimp only [Function.comp_apply]
  by_cases hj : j = i
  · rw [hj, upd_same]
  · rw [upd_other _ _ hj]

theorem Proper.add
    (h : p.Proper)
    (b : Nat)
    (mark : PendingMark) : (p.add b mark).Proper := by
  unfold Pending.add
  split
  · exact h
  · rename_i hOther
    cases hFind : p.find b with
    | some i =>
        dsimp only
        split
        · constructor
          · exact h.count
          · rw [blocks_raise]
            exact h.nodup
          · rw [blocks_raise]
            exact h.current
        · exact h
    | none =>
        dsimp only
        have hNew := find_none.mp hFind
        split
        · exact h
        · have hBlocks : Pending.blocks { p with
              count := p.count + 1
              slot := upd p.slot p.count
                { block := b, mark := mark } } =
              p.blocks ++ [b] := by
            unfold Pending.blocks
            rw [list_push, List.map_append]
            rfl
          constructor
          · dsimp only
            omega
          · rw [hBlocks, List.nodup_append]
            refine ⟨h.nodup, List.nodup_singleton b, ?_⟩
            intro a ha c hc hEq
            rw [List.mem_singleton.mp hc] at hEq
            exact hNew (hEq ▸ ha)
          · rw [hBlocks]
            intro hIn
            rcases List.mem_append.mp hIn with hIn | hIn
            · exact h.current hIn
            · exact hOther (List.mem_singleton.mp hIn)

/- The mark that a report leaves behind. -/
theorem Highest.add
    (h : p.Highest R)
    (hProper : p.Proper)
    (b : Nat)
    (mark : PendingMark) :
    (p.add b mark).Highest (R.report p b mark) := by
  have hKeep : ∀ e ∈ p.list, e.block ≠ b →
      e.mark ∈ R.report p b mark e.block ∧
        ∀ m ∈ R.report p b mark e.block,
          m.toNat ≤ e.mark.toNat := by
    intro e he hBlock
    unfold Reports.report
    rw [upd_other _ _ hBlock]
    exact h e he
  -- a block that is not in the list
  have hAbsent : b ∉ p.blocks → p.Highest
      (R.report p b mark) := by
    intro hNew e he
    apply hKeep e he
    intro hEq
    exact hNew (hEq ▸ block_mem he)
  unfold Pending.add
  split
  · rename_i hCurrent
    exact hAbsent (hCurrent ▸ hProper.current)
  · cases hFind : p.find b with
    | none =>
        have hNew := find_none.mp hFind
        dsimp only
        split
        · exact hAbsent hNew
        · intro e he
          rw [list_push] at he
          rcases List.mem_append.mp he with he | he
          · exact hAbsent hNew e he
          · rw [List.mem_singleton.mp he]
            unfold Reports.report
            dsimp only
            rw [upd_same, if_neg hNew]
            refine ⟨List.mem_singleton_self mark, ?_⟩
            intro m hm
            rw [List.mem_singleton.mp hm]
    | some i =>
        rcases find_some hFind with ⟨hi, hBlock⟩
        have hIn : b ∈ p.blocks :=
          mem_blocks.mpr ⟨i, hi, hBlock⟩
        have hOld := h _ (mem_list.mpr ⟨i, hi, rfl⟩)
        rw [hBlock] at hOld
        have hReports : R.report p b mark b = mark :: R b := by
          unfold Reports.report
          rw [upd_same, if_pos hIn]
        -- entries of one block are in one slot
        have hSlot : ∀ j < p.count, (p.slot j).block = b →
            j = i := by
          intro j hj hEq
          have hNodup := hProper.nodup
          unfold Pending.blocks Pending.list at hNodup
          rw [List.map_map] at hNodup
          apply List.inj_on_of_nodup_map hNodup
            (List.mem_range.mpr hj) (List.mem_range.mpr hi)
          rw [Function.comp_apply, Function.comp_apply, hEq,
            hBlock]
        have hHigh : ∀ e : PendingBlock, e.block = b →
            e.mark ∈ mark :: R b →
            mark.toNat ≤ e.mark.toNat →
            (p.slot i).mark.toNat ≤ e.mark.toNat →
            e.mark ∈ R.report p b mark e.block ∧
              ∀ m ∈ R.report p b mark e.block,
                m.toNat ≤ e.mark.toNat := by
          intro e he hMem hNew hLe
          rw [he, hReports]
          refine ⟨hMem, ?_⟩
          intro m hm
          rcases List.mem_cons.mp hm with hm | hm
          · rw [hm]
            exact hNew
          · exact Nat.le_trans (hOld.2 m hm) hLe
        dsimp only
        split
        · rename_i hLess
          intro e he
          rcases mem_list.mp he with ⟨j, hj, hEntry⟩
          dsimp only at hj hEntry
          by_cases hji : j = i
          · rw [hji, upd_same] at hEntry
            rw [← hEntry]
            exact hHigh _ hBlock List.mem_cons_self
              (Nat.le_refl _) (Nat.le_of_lt hLess)
          · rw [upd_other _ _ hji] at hEntry
            apply hKeep e (mem_list.mpr ⟨j, hj, hEntry⟩)
            intro hEq
            apply hji
            apply hSlot j hj
            rw [hEntry]
            exact hEq
        · rename_i hLess
          intro e he
          rcases mem_list.mp he with ⟨j, hj, hEntry⟩
          by_cases hEq : e.block = b
          · have hji : j = i := by
              apply hSlot j hj
              rw [hEntry]
              exact hEq
            rw [hji] at hEntry
            rw [← hEntry]
            exact hHigh _ hBlock
              (List.mem_cons_of_mem _ hOld.1)
              (Nat.le_of_not_lt hLess) (Nat.le_refl _)
          · exact hKeep e he hEq

------------------------------------------------------------
-- Removals
------------------------------------------------------------

end Pending

/-
  A block is erased.  The marking of a bad block begins with
  an erase as well.
-/
def Scrubs (block : Nat) (es : List Event) : Prop :=
  ∃ ret left, Event.erase block ret left ∈ es

/-
  Entries left the list because their blocks were erased; the
  others and the slots behind the list stay.
-/
structure Pending.Sheds
    (p : Pending)
    (es : List Event)
    (q : Pending) : Prop where
  current : q.blockInRecovery = p.blockInRecovery
  list : q.list.Sublist p.list
  kept : ∀ e ∈ p.list, e ∈ q.list ∨ Scrubs e.block es
  slot : ∀ k, p.count ≤ k → q.slot k = p.slot k

theorem Scrubs.append
    {b : Nat}
    {es fs : List Event}
    (h : Scrubs b es ∨ Scrubs b fs) : Scrubs b (es ++ fs) := by
  rcases h with h | h
  · rcases h with ⟨ret, left, hIn⟩
    exact ⟨ret, left, List.mem_append_left fs hIn⟩
  · rcases h with ⟨ret, left, hIn⟩
    exact ⟨ret, left, List.mem_append_right es hIn⟩

namespace Pending.Sheds

variable {p q r : Pending} {es fs : List Event} {b : Nat}

theorem refl (p : Pending) (es : List Event) :
    p.Sheds es p :=
  ⟨rfl, List.Sublist.refl _, fun _ he => Or.inl he,
    fun _ _ => rfl⟩

theorem count_le (h : p.Sheds es q) : q.count ≤ p.count := by
  have hLength := h.list.length_le
  rw [length_list, length_list] at hLength
  exact hLength

theorem trans
    (h : p.Sheds es q)
    (h' : q.Sheds fs r) : p.Sheds (es ++ fs) r where
  current := h'.current.trans h.current
  list := h'.list.trans h.list
  kept := by
    intro e he
    rcases h.kept e he with hIn | hGone
    · rcases h'.kept e hIn with hIn | hGone
      · exact Or.inl hIn
      · exact Or.inr (Scrubs.append (Or.inr hGone))
    · exact Or.inr (Scrubs.append (Or.inl hGone))
  slot := by
    intro k hk
    rw [h'.slot k (Nat.le_trans h.count_le hk)]
    exact h.slot k hk

/- A removal with the erase that follows. -/
theorem remove
    (p : Pending)
    (h : Scrubs b es) : p.Sheds es (p.remove b) where
  current := p.remove_current b
  list := p.remove_sublist b
  kept := by
    intro e he
    by_cases hEq : e.block = b
    · rw [hEq]
      exact Or.inr h
    · exact Or.inl (mem_remove he hEq)
  slot := by
    intro k hk
    unfold Pending.remove
    cases hFind : p.find b with
    | none => rfl
    | some i =>
        dsimp only
        rw [if_neg]
        omega

end Pending.Sheds

end Uffs
