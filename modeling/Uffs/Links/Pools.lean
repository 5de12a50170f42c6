import Uffs.Lib.Sim
import Uffs.Model.BufLinks
import Uffs.Pool.Hold

/-
  The links of the page buffers and the lists that they make.

  A pool is orderly when each buffer is in one list at most
  and the dirty groups are told apart by their keys.  The
  links refine a pool if a walk along them meets the buffers
  of its lists.  Each change of the links is a change of the
  lists.

  Main declarations:
    * `BufPool.Orderly`
    * `LinkedPool.Refines`
    * `LinkedPool.Refines.moveNodeToHead`
    * `LinkedPool.Refines.link`, `LinkedPool.Refines.unlink`
    * `LinkedPool.refines_init`
-/

namespace Uffs

open Prog

variable [Platform]

------------------------------------------------------------
-- Orderly Pools
------------------------------------------------------------

/-
  No buffer is in a list twice.  A buffer is dirty if and
  only if it is in a dirty group, where the buffers of one
  group, and no others, have one key.
-/
structure BufPool.Orderly (p : BufPool) : Prop where
  apart : p.Apart
  size : p.list.length ≤ pageBuffers
  slots : ∀ slot, (p.group slot).dirty ≠ [] →
    slot < dirtyGroups
  nodup : ∀ slot, (p.group slot).dirty.Nodup
  listed : ∀ slot, ∀ i ∈ (p.group slot).dirty, i ∈ p.list
  marked : ∀ i, (p.entry i).mark = .dirty ↔
    ∃ slot, i ∈ (p.group slot).dirty
  sameKey : ∀ slot, ∀ i ∈ (p.group slot).dirty,
    ∀ j ∈ (p.group slot).dirty,
      (p.entry i).groupKey = (p.entry j).groupKey
  sameSlot : ∀ slot, ∀ i ∈ (p.group slot).dirty,
    ∀ slot', ∀ j ∈ (p.group slot').dirty,
      (p.entry i).groupKey = (p.entry j).groupKey →
        slot = slot'

namespace BufPool

variable {p q : BufPool} {i slot : Nat}

namespace Orderly

theorem listNodup (h : p.Orderly) : p.list.Nodup :=
  (List.nodup_append.mp h.apart).1

theorem cloneNodup (h : p.Orderly) : p.clone.Nodup :=
  (List.nodup_append.mp h.apart).2.1

theorem not_clone
    (h : p.Orderly)
    (hi : i ∈ p.list) : i ∉ p.clone := by
  intro hClone
  exact (List.nodup_append.mp h.apart).2.2 i hi i hClone rfl

theorem dirtySize (h : p.Orderly) (slot : Nat) :
    (p.group slot).dirty.length ≤ pageBuffers := by
  have hSub := List.subperm_of_subset (h.nodup slot)
    (h.listed slot)
  exact hSub.length_le.trans h.size

/- A buffer is in one dirty group at most. -/
theorem oneSlot
    {slot' : Nat}
    (h : p.Orderly)
    (hi : i ∈ (p.group slot).dirty)
    (hi' : i ∈ (p.group slot').dirty) : slot = slot' :=
  h.sameSlot slot i hi slot' i hi' rfl

/- The group of a dirty buffer is found by its key. -/
theorem findGroupSlot_eq
    (h : p.Orderly)
    (hi : i ∈ (p.group slot).dirty) :
    p.findGroupSlot (p.entry i).parent (p.entry i).serial =
      some slot := by
  cases hFind : p.findGroupSlot (p.entry i).parent
      (p.entry i).serial with
  | none =>
      unfold findGroupSlot at hFind
      have hBound := h.slots slot (List.ne_nil_of_mem hi)
      have hTest := List.find?_eq_none.mp hFind slot
        (List.mem_range.mpr hBound)
      cases hDirty : (p.group slot).dirty with
      | nil =>
          rw [hDirty] at hi
          cases hi
      | cons j rest =>
          have hj : j ∈ (p.group slot).dirty := by
            rw [hDirty]
            exact List.mem_cons_self
          have hKey := h.sameKey slot j hj i hi
          unfold Buf.groupKey at hKey
          rw [Prod.mk.injEq] at hKey
          rw [hDirty] at hTest
          simp [hKey.1, hKey.2] at hTest
  | some slot' =>
      rcases (findGroupSlot_some hFind).2 with ⟨j, hj, hKey⟩
      rw [h.sameSlot slot i hi slot' j hj hKey.symm]

/-
  The lists are in another order, and the dirty buffers have
  the same keys and marks.
-/
theorem congr
    (h : p.Orderly)
    (hApart : q.Apart)
    (hPerm : q.list.Perm p.list)
    (hDirty : ∀ slot,
      (q.group slot).dirty = (p.group slot).dirty)
    (hMark : ∀ i, (q.entry i).mark = .dirty ↔
      (p.entry i).mark = .dirty)
    (hKey : ∀ i, (p.entry i).mark = .dirty →
      (q.entry i).groupKey = (p.entry i).groupKey) :
    q.Orderly := by
  have hKeyOf : ∀ slot, ∀ i ∈ (p.group slot).dirty,
      (q.entry i).groupKey = (p.entry i).groupKey :=
    fun slot i hi => hKey i ((h.marked i).mpr ⟨slot, hi⟩)
  constructor
  · exact hApart
  · rw [hPerm.length_eq]
    exact h.size
  · intro slot
    rw [hDirty]
    exact h.slots slot
  · intro slot
    rw [hDirty]
    exact h.nodup slot
  · intro slot i hi
    rw [hDirty] at hi
    exact hPerm.mem_iff.mpr (h.listed slot i hi)
  · intro i
    rw [hMark, h.marked]
    constructor
    · intro hIn
      rcases hIn with ⟨slot, hi⟩
      exact ⟨slot, by rw [hDirty]; exact hi⟩
    · intro hIn
      rcases hIn with ⟨slot, hi⟩
      rw [hDirty] at hi
      exact ⟨slot, hi⟩
  · intro slot i hi j hj
    rw [hDirty] at hi hj
    rw [hKeyOf slot i hi, hKeyOf slot j hj]
    exact h.sameKey slot i hi j hj
  · intro slot i hi slot' j hj
    rw [hDirty] at hi hj
    rw [hKeyOf slot i hi, hKeyOf slot' j hj]
    exact h.sameSlot slot i hi slot' j hj

/- A buffer changes; its mark and its key are kept. -/
theorem replace
    {b : Buf}
    (h : p.Orderly)
    (hMark : b.mark = .dirty ↔ (p.entry i).mark = .dirty)
    (hKey : (p.entry i).mark = .dirty →
      b.groupKey = (p.entry i).groupKey) :
    (p.replace i b).Orderly := by
  apply h.congr
  · exact h.apart
  · exact List.Perm.refl _
  · intro slot
    rfl
  · intro j
    by_cases hj : j = i
    · rw [hj, replace_same]
      exact hMark
    · rw [replace_other hj]
  · intro j hDirty
    by_cases hj : j = i
    · rw [hj] at hDirty
      rw [hj, replace_same]
      exact hKey hDirty
    · rw [replace_other hj]

/- A buffer is moved to the front of the list. -/
theorem front
    (h : p.Orderly)
    (hi : i ∈ p.list) :
    ({ p with list := i :: p.list.erase i } : BufPool).Orderly := by
  have hPerm := (List.perm_cons_erase hi).symm
  refine h.congr ?_ hPerm (fun _ => rfl) (fun _ => Iff.rfl)
    (fun _ _ => rfl)
  exact (hPerm.append_right p.clone).nodup_iff.mpr h.apart

/- A buffer that is not dirty is put into a dirty list. -/
theorem link
    (h : p.Orderly)
    (hi : i ∈ p.list)
    (hClean : (p.entry i).mark ≠ .dirty)
    (hSlot : p.SlotFor slot (p.entry i).groupKey) :
    (p.link slot i).Orderly := by
  have hOther : ∀ j, j ≠ i →
      (p.link slot i).entry j = p.entry j :=
    fun j hj => upd_other _ _ hj
  have hMark : ((p.link slot i).entry i).mark = .dirty := by
    unfold BufPool.link
    dsimp only
    rw [upd_same]
  have hKey : ∀ j,
      ((p.link slot i).entry j).groupKey =
        (p.entry j).groupKey :=
    fun j => Buf.groupKey_congr (link_pageKey j)
  have hNot : ∀ slot, i ∉ (p.group slot).dirty :=
    fun slot hIn => hClean ((h.marked i).mpr ⟨slot, hIn⟩)
  have hMem : i ∈ ((p.link slot i).group slot).dirty := by
    unfold BufPool.link
    dsimp only
    rw [upd_same]
    exact List.mem_cons_self
  have hStays : ∀ slot' j, j ∈ (p.group slot').dirty →
      j ∈ ((p.link slot i).group slot').dirty := by
    intro slot' j hj
    unfold BufPool.link
    dsimp only
    by_cases hEq : slot' = slot
    · subst hEq
      rw [upd_same]
      exact List.mem_cons_of_mem _ hj
    · rw [upd_other _ _ hEq]
      exact hj
  constructor
  · exact h.apart
  · exact h.size
  · intro slot' hNil
    rcases List.exists_mem_of_ne_nil _ hNil with ⟨j, hj⟩
    rcases link_mem hj with hOld | ⟨_, hEq⟩
    · exact h.slots slot' (List.ne_nil_of_mem hOld)
    · rw [hEq]
      exact hSlot.bound
  · intro slot'
    unfold BufPool.link
    dsimp only
    by_cases hEq : slot' = slot
    · subst hEq
      rw [upd_same]
      exact List.nodup_cons.mpr ⟨hNot slot', h.nodup slot'⟩
    · rw [upd_other _ _ hEq]
      exact h.nodup slot'
  · intro slot' j hj
    rcases link_mem hj with hOld | ⟨hEq, _⟩
    · exact h.listed slot' j hOld
    · rw [hEq]
      exact hi
  · intro j
    by_cases hji : j = i
    · rw [hji]
      exact ⟨fun _ => ⟨slot, hMem⟩, fun _ => hMark⟩
    · rw [hOther j hji, h.marked]
      constructor
      · intro hIn
        rcases hIn with ⟨slot', hj⟩
        exact ⟨slot', hStays slot' j hj⟩
      · intro hIn
        rcases hIn with ⟨slot', hj⟩
        rcases link_mem hj with hOld | ⟨hEq, _⟩
        · exact ⟨slot', hOld⟩
        · exact absurd hEq hji
  · intro slot' j hj k hk
    rw [hKey, hKey]
    rcases link_mem hj with hOldJ | ⟨hEqJ, hSlotJ⟩
    · rcases link_mem hk with hOldK | ⟨hEqK, hSlotK⟩
      · exact h.sameKey slot' j hOldJ k hOldK
      · rw [hSlotK] at hOldJ
        rw [hEqK]
        exact hSlot.mem j hOldJ
    · rcases link_mem hk with hOldK | ⟨hEqK, _⟩
      · rw [hSlotJ] at hOldK
        rw [hEqJ]
        exact (hSlot.mem k hOldK).symm
      · rw [hEqJ, hEqK]
  · intro slot' j hj slot'' k hk hEq
    rw [hKey, hKey] at hEq
    rcases link_mem hj with hOldJ | ⟨hEqJ, hSlotJ⟩
    · rcases link_mem hk with hOldK | ⟨hEqK, hSlotK⟩
      · exact h.sameSlot slot' j hOldJ slot'' k hOldK hEq
      · rw [hSlotK]
        rw [hEqK] at hEq
        exact hSlot.sole slot' j hOldJ hEq
    · rcases link_mem hk with hOldK | ⟨_, hSlotK⟩
      · rw [hSlotJ]
        rw [hEqJ] at hEq
        exact (hSlot.sole slot'' k hOldK hEq.symm).symm
      · rw [hSlotJ, hSlotK]

/- A buffer is taken off its dirty list and marked. -/
theorem clean
    {f : Buf → Buf}
    (h : p.Orderly)
    (hi : i ∈ (p.group slot).dirty)
    (hMark : ∀ b, (f b).mark ≠ .dirty) :
    (p.clean slot i f).Orderly := by
  have hOther : ∀ j, j ≠ i →
      (p.clean slot i f).entry j = p.entry j :=
    fun j hj => upd_other _ _ hj
  have hMem : ∀ slot' j,
      j ∈ ((p.clean slot i f).group slot').dirty ↔
        j ∈ (p.group slot').dirty ∧ j ≠ i := by
    intro slot' j
    unfold BufPool.clean
    dsimp only
    by_cases hEq : slot' = slot
    · subst hEq
      rw [upd_same]
      dsimp only
      rw [(h.nodup slot').mem_erase_iff, and_comm]
    · rw [upd_other _ _ hEq]
      constructor
      · intro hj
        refine ⟨hj, ?_⟩
        intro hji
        rw [hji] at hj
        exact hEq (h.oneSlot hj hi)
      · exact And.left
  constructor
  · exact h.apart
  · exact h.size
  · intro slot' hNil
    rcases List.exists_mem_of_ne_nil _ hNil with ⟨j, hj⟩
    apply h.slots slot'
    exact List.ne_nil_of_mem ((hMem slot' j).mp hj).1
  · intro slot'
    unfold BufPool.clean
    dsimp only
    by_cases hEq : slot' = slot
    · subst hEq
      rw [upd_same]
      exact (h.nodup slot').erase i
    · rw [upd_other _ _ hEq]
      exact h.nodup slot'
  · intro slot' j hj
    exact h.listed slot' j ((hMem slot' j).mp hj).1
  · intro j
    by_cases hji : j = i
    · rw [hji]
      constructor
      · intro hDirty
        unfold BufPool.clean at hDirty
        dsimp only at hDirty
        rw [upd_same] at hDirty
        exact absurd hDirty (hMark _)
      · intro hIn
        rcases hIn with ⟨slot', hj⟩
        exact absurd rfl ((hMem slot' i).mp hj).2
    · rw [hOther j hji, h.marked]
      constructor
      · intro hIn
        rcases hIn with ⟨slot', hj⟩
        exact ⟨slot', (hMem slot' j).mpr ⟨hj, hji⟩⟩
      · intro hIn
        rcases hIn with ⟨slot', hj⟩
        exact ⟨slot', ((hMem slot' j).mp hj).1⟩
  · intro slot' j hj k hk
    rw [hMem] at hj hk
    rw [hOther j hj.2, hOther k hk.2]
    exact h.sameKey slot' j hj.1 k hk.1
  · intro slot' j hj slot'' k hk
    rw [hMem] at hj hk
    rw [hOther j hj.2, hOther k hk.2]
    exact h.sameSlot slot' j hj.1 slot'' k hk.1

end Orderly

end BufPool

------------------------------------------------------------
-- Links of a Pool
------------------------------------------------------------

omit [Platform] in
theorem updLink_apply
    (f : Nat → Option Nat)
    (o x : Option Nat)
    (b : Nat) :
    updLink f o x b = if o = some b then x else f b := by
  unfold updLink
  cases o with
  | none => rfl
  | some a =>
      dsimp only
      unfold upd
      by_cases h : b = a
      · rw [if_pos h, if_pos (by rw [h])]
      · rw [if_neg h, if_neg]
        intro hEq
        exact h (Option.some.inj hEq).symm

namespace LinkedPool

variable {c : LinkedPool} {p : BufPool} {i slot : Nat}

/- The list from `head` to `tail`. -/
def lru (c : LinkedPool) : DList Nat where
  next := c.next
  prev := c.prev
  head := c.head
  tail := c.tail

/- A walk along the links meets the buffers of the lists. -/
structure Refines (c : LinkedPool) (p : BufPool) : Prop where
  entry : c.entry = p.entry
  count : ∀ slot, c.count slot = (p.group slot).count
  lock : ∀ slot, c.lock slot = (p.group slot).lock
  list : c.lru.Holds p.list
  clone : Linked c.next c.clone p.clone
  dirty : ∀ slot, DLinked c.nextDirty c.prevDirty none
    (c.dirty slot) (p.group slot).dirty

/- A buffer that is taken out of the list. -/
omit [Platform] in
theorem breakFromBufList_holds
    {l : List Nat}
    (h : c.lru.Holds l)
    (hi : i ∈ l) :
    (c.breakFromBufList i).lru.Holds (l.erase i) := by
  have hNextNe : c.next i ≠ some i :=
    h.linked.next_ne h.nodup hi
  have hPrevNe : c.prev i ≠ some i :=
    h.linked.prev_ne h.nodup hi
  have hPrevI : updLink c.prev (c.next i) (c.prev i) i =
      c.prev i := by
    rw [updLink_apply, if_neg hNextNe]
  have hNextI : updLink c.next (c.prev i) (c.next i) i =
      c.next i := by
    rw [updLink_apply, if_neg hPrevNe]
  apply h.remove hi
  · intro b _
    unfold lru breakFromBufList
    dsimp only
    rw [hPrevI, updLink_apply]
  · intro b _
    unfold lru breakFromBufList
    dsimp only
    rw [updLink_apply]
  · unfold lru breakFromBufList
    dsimp only
    rw [hPrevI, hNextI]
  · unfold lru breakFromBufList
    dsimp only
    rw [hPrevI]

/- Only links of buffers of the list are changed. -/
omit [Platform] in
theorem breakFromBufList_next
    {l : List Nat}
    {b : Nat}
    (h : c.lru.Holds l)
    (hi : i ∈ l)
    (hb : b ∉ l) :
    (c.breakFromBufList i).next b = c.next b := by
  have hNextNe : c.next i ≠ some i :=
    h.linked.next_ne h.nodup hi
  unfold breakFromBufList
  dsimp only
  rw [updLink_apply, updLink_apply, if_neg hNextNe, if_neg]
  intro hEq
  exact hb (h.linked.prev_mem hi hEq)

/- A buffer that is put in front of the list. -/
omit [Platform] in
theorem linkToBufListHead_holds
    {l : List Nat}
    (h : c.lru.Holds l)
    (hi : i ∉ l) :
    (c.linkToBufListHead i).lru.Holds (i :: l) := by
  have hHead : c.head ≠ some i := by
    intro hEq
    have hFirst := h.forth.head
    unfold lru at hFirst
    dsimp only at hFirst
    rw [hEq] at hFirst
    exact hi (List.mem_of_mem_head? hFirst.symm)
  unfold linkToBufListHead
  rw [if_neg hHead]
  apply h.pushFront hi
  · exact upd_same _ _ _
  · unfold lru
    dsimp only
    rw [updLink_apply, if_neg hHead, upd_same]
  · intro b hb
    exact upd_other _ _ hb
  · intro b hb
    unfold lru
    dsimp only
    rw [updLink_apply, upd_other _ _ hb]
  · rfl
  · rfl

/- Only the buffer that is put in front is linked on. -/
omit [Platform] in
theorem linkToBufListHead_next
    {b : Nat}
    (hb : b ≠ i) :
    (c.linkToBufListHead i).next b = c.next b := by
  unfold linkToBufListHead
  by_cases hHead : c.head = some i
  · rw [if_pos hHead]
  · rw [if_neg hHead]
    exact upd_other _ _ hb

namespace Refines

omit [Platform] in
theorem setBuf
    {f : Buf → Buf}
    (h : c.Refines p) :
    Refines
      { c with entry := upd c.entry i (f (c.entry i)) }
      (p.replace i (f (p.entry i))) where
  entry := by
    unfold BufPool.replace
    dsimp only
    rw [h.entry]
  count := h.count
  lock := h.lock
  list := h.list
  clone := h.clone
  dirty := h.dirty

/- `_MoveNodeToHead` -/
theorem moveNodeToHead
    (h : c.Refines p)
    (hp : p.Orderly)
    (hi : i ∈ p.list) :
    (c.moveNodeToHead i).Refines
      { p with list := i :: p.list.erase i } := by
  unfold LinkedPool.moveNodeToHead
  by_cases hHead : c.head = some i
  · rw [if_pos hHead]
    have hFirst := h.list.forth.head
    unfold lru at hFirst
    dsimp only at hFirst
    rw [hHead] at hFirst
    have hSame : i :: p.list.erase i = p.list := by
      cases hList : p.list with
      | nil =>
          rw [hList] at hi
          cases hi
      | cons j rest =>
          rw [hList, List.head?_cons, Option.some.injEq]
            at hFirst
          rw [hFirst, List.erase_cons_head]
    rw [hSame]
    exact h
  · rw [if_neg hHead]
    have hBroken := breakFromBufList_holds h.list hi
    have hNotIn : i ∉ p.list.erase i :=
      hp.listNodup.not_mem_erase
    constructor
    · rw [← h.entry]
      unfold linkToBufListHead
      split
      · rfl
      · rfl
    · intro slot
      rw [← h.count slot]
      unfold linkToBufListHead
      split
      · rfl
      · rfl
    · intro slot
      rw [← h.lock slot]
      unfold linkToBufListHead
      split
      · rfl
      · rfl
    · exact linkToBufListHead_holds hBroken hNotIn
    · have hClone : ((c.breakFromBufList i).linkToBufListHead
          i).clone = c.clone := by
        unfold linkToBufListHead
        split
        · rfl
        · rfl
      rw [hClone]
      apply h.clone.congr
      intro b hb
      have hOut : b ∉ p.list := fun hIn => hp.not_clone hIn hb
      rw [linkToBufListHead_next, breakFromBufList_next h.list
        hi hOut]
      intro hEq
      rw [hEq] at hOut
      exact hOut hi
    · intro slot
      have hDirty := h.dirty slot
      unfold linkToBufListHead
      split
      · exact hDirty
      · exact hDirty

/- A clone buffer is taken. -/
theorem takeClone
    {rest : List Nat}
    (h : c.Refines p)
    (hp : p.Orderly)
    (hClone : p.clone = i :: rest) :
    Refines
      { c with
        clone := c.next i
        next := upd c.next i none
        prev := upd c.prev i none
        nextDirty := upd c.nextDirty i none
        prevDirty := upd c.prevDirty i none }
      { p with clone := rest } := by
  have hNodup := hp.cloneNodup
  have hLinked := h.clone
  rw [hClone, List.nodup_cons] at hNodup
  rw [hClone, Linked.cons_iff] at hLinked
  have hOther : ∀ b ∈ p.list, b ≠ i := by
    intro b hb hEq
    apply hp.not_clone hb
    rw [hEq, hClone]
    exact List.mem_cons_self
  constructor
  · exact h.entry
  · exact h.count
  · exact h.lock
  · apply h.list.congr
    · intro b hb
      exact upd_other _ _ (hOther b hb)
    · intro b hb
      exact upd_other _ _ (hOther b hb)
    · rfl
    · rfl
  · apply hLinked.2.congr
    intro b hb
    apply upd_other
    intro hEq
    rw [hEq] at hb
    exact hNodup.1 hb
  · intro slot
    apply (h.dirty slot).congr
    · intro b hb
      exact upd_other _ _ (hOther b (hp.listed slot b hb))
    · intro b hb
      exact upd_other _ _ (hOther b (hp.listed slot b hb))

/- `_InsertToCloneBufList` -/
omit [Platform] in
theorem insertToCloneBufList
    (h : c.Refines p)
    (hList : i ∉ p.list)
    (hClone : i ∉ p.clone) :
    (c.insertToCloneBufList i).Refines
      { p with clone := i :: p.clone } := by
  constructor
  · exact h.entry
  · exact h.count
  · exact h.lock
  · apply h.list.congr
    · intro b hb
      apply upd_other
      intro hEq
      rw [hEq] at hb
      exact hList hb
    · intro b _
      rfl
    · rfl
    · rfl
  · unfold LinkedPool.insertToCloneBufList
    dsimp only
    rw [Linked.cons_iff, upd_same]
    refine ⟨rfl, ?_⟩
    apply h.clone.congr
    intro b hb
    apply upd_other
    intro hEq
    rw [hEq] at hb
    exact hClone hb
  · exact h.dirty

/- `_LinkToDirtyList` -/
theorem link
    (h : c.Refines p)
    (hp : p.Orderly)
    (hClean : (p.entry i).mark ≠ .dirty) :
    (c.linkToDirtyList slot i).Refines (p.link slot i) := by
  have hNot : ∀ slot', i ∉ (p.group slot').dirty :=
    fun slot' hIn => hClean ((hp.marked i).mpr ⟨slot', hIn⟩)
  have hHead : ∀ b, c.dirty slot = some b →
      b ∈ (p.group slot).dirty := by
    intro b hEq
    have hFirst := (h.dirty slot).linked.head
    rw [hEq] at hFirst
    exact List.mem_of_mem_head? hFirst.symm
  have hNe : c.dirty slot ≠ some i :=
    fun hEq => hNot slot (hHead i hEq)
  unfold LinkedPool.linkToDirtyList BufPool.link
  constructor
  · dsimp only
    rw [h.entry]
  · intro slot'
    dsimp only
    unfold upd
    split
    · rw [h.count]
    · exact h.count slot'
  · intro slot'
    dsimp only
    rw [h.lock]
    unfold upd
    split
    · rename_i hEq
      rw [hEq]
    · rfl
  · exact h.list
  · exact h.clone
  · intro slot'
    dsimp only
    by_cases hSlot : slot' = slot
    · rw [hSlot, upd_same, upd_same]
      apply (h.dirty slot).push (hNot slot) (hp.nodup slot)
      · intro b hb
        exact upd_other _ _ hb
      · intro b hb
        rw [updLink_apply, upd_other _ _ hb]
      · exact upd_same _ _ _
      · rw [updLink_apply, if_neg hNe, upd_same]
    · rw [upd_other _ _ hSlot, upd_other _ _ hSlot]
      have hOther : ∀ b ∈ (p.group slot').dirty, b ≠ i := by
        intro b hb hEq
        rw [hEq] at hb
        exact hNot slot' hb
      apply (h.dirty slot').congr
      · intro b hb
        exact upd_other _ _ (hOther b hb)
      · intro b hb
        rw [updLink_apply, if_neg, upd_other _ _ (hOther b hb)]
        intro hEq
        exact hSlot (hp.oneSlot hb (hHead b hEq))

/- The end of `_BreakFromDirty` -/
theorem unlink
    (h : c.Refines p)
    (hp : p.Orderly)
    (hi : i ∈ (p.group slot).dirty) :
    (c.breakFromDirtyList slot i).Refines
      { p with
        group := upd p.group slot
          { p.group slot with
            dirty := (p.group slot).dirty.erase i
            count := (p.group slot).count - 1 } } := by
  have hNextNe : c.nextDirty i ≠ some i :=
    (h.dirty slot).next_ne (hp.nodup slot) hi
  have hPrevNe : c.prevDirty i ≠ some i :=
    (h.dirty slot).prev_ne (hp.nodup slot) hi
  have hPrevI :
      updLink c.prevDirty (c.nextDirty i) (c.prevDirty i) i =
        c.prevDirty i := by
    rw [updLink_apply, if_neg hNextNe]
  have hNextI :
      updLink c.nextDirty (c.prevDirty i) (c.nextDirty i) i =
        c.nextDirty i := by
    rw [updLink_apply, if_neg hPrevNe]
  unfold LinkedPool.breakFromDirtyList
  dsimp only
  rw [hPrevI, hNextI]
  constructor
  · exact h.entry
  · intro slot'
    dsimp only
    unfold upd
    split
    · rw [h.count]
    · exact h.count slot'
  · intro slot'
    dsimp only
    rw [h.lock]
    unfold upd
    split
    · rename_i hEq
      rw [hEq]
    · rfl
  · exact h.list
  · exact h.clone
  · intro slot'
    dsimp only
    by_cases hSlot : slot' = slot
    · rw [hSlot, upd_same]
      have hStart :
          (if c.dirty slot = some i then
            upd c.dirty slot (c.nextDirty i)
          else c.dirty) slot =
            if c.dirty slot = some i then c.nextDirty i
            else c.dirty slot := by
        split
        · exact upd_same _ _ _
        · rfl
      rw [hStart]
      apply (h.dirty slot).erase (hp.nodup slot) hi
      · intro b _ hb
        rw [upd_other _ _ hb, updLink_apply]
      · intro b _ hb
        rw [upd_other _ _ hb, updLink_apply]
    · rw [upd_other _ _ hSlot]
      have hStart :
          (if c.dirty slot = some i then
            upd c.dirty slot (c.nextDirty i)
          else c.dirty) slot' = c.dirty slot' := by
        split
        · exact upd_other _ _ hSlot
        · rfl
      have hOther : ∀ b ∈ (p.group slot').dirty,
          b ∉ (p.group slot).dirty :=
        fun b hb hIn => hSlot (hp.oneSlot hb hIn)
      have hNe : ∀ b ∈ (p.group slot').dirty, b ≠ i := by
        intro b hb hEq
        rw [hEq] at hb
        exact hOther i hb hi
      rw [hStart]
      apply (h.dirty slot').congr
      · intro b hb
        rw [upd_other _ _ (hNe b hb), updLink_apply, if_neg]
        intro hEq
        exact hOther b hb ((h.dirty slot).prev_mem hi hEq)
      · intro b hb
        rw [upd_other _ _ (hNe b hb), updLink_apply, if_neg]
        intro hEq
        exact hOther b hb ((h.dirty slot).next_mem hi hEq)

end Refines

------------------------------------------------------------
-- The Buffers at the Start
------------------------------------------------------------

/- The buffers from `i` on, before clones are taken. -/
theorem chain_linked
    (n k : Nat) :
    ∀ i, i + k = n →
      DLinked (chain n).next (chain n).prev
        (if i = 0 then none else some (i - 1))
        (if i < n then some i else none)
        (List.range' i k) := by
  induction k with
  | zero =>
      intro i hi
      have hEnd : ¬ i < n := by omega
      rw [if_neg hEnd]
      rfl
  | succ k ih =>
      intro i hi
      have hLt : i < n := by omega
      rw [if_pos hLt, List.range'_succ]
      refine ⟨rfl, rfl, ?_⟩
      have hNext := ih (i + 1) (by omega)
      rw [if_neg (Nat.succ_ne_zero i), Nat.add_sub_cancel]
        at hNext
      exact hNext

theorem chain_holds (n : Nat) :
    (chain n).lru.Holds (List.range n) where
  nodup := List.nodup_range
  linked := by
    have hLinked := chain_linked n n 0 (by omega)
    rw [if_pos rfl, ← List.range_eq_range'] at hLinked
    have hHead : (chain n).lru.head =
        if 0 < n then some 0 else none := by
      unfold lru chain
      dsimp only
      split
      · rename_i hZero
        rw [if_neg (by omega)]
      · rw [if_pos (by omega)]
    rw [hHead]
    exact hLinked
  tail := by
    unfold lru chain
    dsimp only
    cases n with
    | zero => rfl
    | succ n =>
        rw [if_neg (Nat.succ_ne_zero n), List.range_succ,
          List.getLast?_append, List.getLast?_singleton]
        rfl

/- The first buffers become clone buffers. -/
omit [Platform] in
theorem Refines.prepareClones
    (n : Nat) :
    ∀ {c : LinkedPool} {p : BufPool}, c.Refines p → p.Apart →
      n ≤ p.list.length →
        (LinkedPool.prepareClones n c).Refines
          { p with
            list := p.list.drop n
            clone := (p.list.take n).reverse ++ p.clone } := by
  induction n with
  | zero =>
      intro c p h _ _
      exact h
  | succ n ih =>
      intro c p h hApart hLength
      cases hList : p.list with
      | nil =>
          rw [hList] at hLength
          exact absurd hLength (by simp)
      | cons i rest =>
          have hFirst := h.list.forth.head
          unfold lru at hFirst
          dsimp only at hFirst
          rw [hList, List.head?_cons] at hFirst
          have hi : i ∈ p.list := by
            rw [hList]
            exact List.mem_cons_self
          have hBroken := breakFromBufList_holds h.list hi
          have hErase : p.list.erase i = rest := by
            rw [hList, List.erase_cons_head]
          rw [hErase] at hBroken
          unfold BufPool.Apart at hApart
          rw [hList, List.cons_append, List.nodup_cons,
            List.mem_append, not_or] at hApart
          have hTaken : (c.breakFromBufList i).Refines
              { p with list := rest } := by
            refine ⟨h.entry, h.count, h.lock, hBroken, ?_,
              h.dirty⟩
            apply h.clone.congr
            intro b hb
            apply breakFromBufList_next h.list hi
            rw [hList, List.mem_cons, not_or]
            constructor
            · intro hEq
              rw [hEq] at hb
              exact hApart.1.2 hb
            · intro hIn
              exact (List.nodup_append.mp hApart.2).2.2 b hIn b
                hb rfl
          have hNext := hTaken.insertToCloneBufList
            hApart.1.1 hApart.1.2
          rw [hList, List.length_cons] at hLength
          have hRest := ih hNext
            (by
              unfold BufPool.Apart
              exact (List.perm_middle.nodup_iff).mpr
                (List.nodup_cons.mpr
                  ⟨by
                    rw [List.mem_append, not_or]
                    exact hApart.1, hApart.2⟩))
            (by
              dsimp only
              omega)
          unfold LinkedPool.prepareClones
          rw [hFirst]
          dsimp only at hRest ⊢
          rw [List.drop_succ_cons, List.take_succ_cons,
            List.reverse_cons, List.append_assoc,
            List.singleton_append]
          exact hRest

end LinkedPool

/- `uffs_BufInit` -/
theorem BufPool.orderly_init : BufPool.init.Orderly := by
  constructor
  · unfold BufPool.Apart BufPool.init
    dsimp only
    rw [List.nodup_append]
    refine ⟨List.nodup_range', ?_, ?_⟩
    · rw [List.nodup_reverse]
      exact List.nodup_range
    · intro i hi j hj hEq
      rw [List.mem_reverse, List.mem_range] at hj
      rw [List.mem_range'_1] at hi
      omega
  · unfold BufPool.init
    dsimp only
    rw [List.length_range']
    omega
  · intro slot hNil
    exact absurd rfl hNil
  · intro slot
    exact List.nodup_nil
  · intro slot i hi
    cases hi
  · intro i
    constructor
    · intro hDirty
      cases hDirty
    · intro hIn
      rcases hIn with ⟨slot, hi⟩
      cases hi
  · intro slot i hi
    cases hi
  · intro slot i hi
    cases hi

theorem LinkedPool.refines_init :
    LinkedPool.init.Refines BufPool.init := by
  have hStart : (chain pageBuffers).Refines
      { entry := fun _ => Buf.zero
        list := List.range pageBuffers
        clone := []
        group := fun _ => { dirty := [], count := 0, lock := 0 } } := by
    refine ⟨rfl, fun _ => rfl, fun _ => rfl, chain_holds _, ?_,
      fun _ => rfl⟩
    exact Linked.nil_iff.mpr rfl
  have hFive := Platform.five_le_pageBuffers
  have hClones := hStart.prepareClones cloneBuffersThreshold
    (by
      unfold BufPool.Apart
      dsimp only
      rw [List.append_nil]
      exact List.nodup_range)
    (by
      dsimp only
      rw [List.length_range]
      unfold cloneBuffersThreshold
      omega)
  have hTwo : cloneBuffersThreshold ≤ pageBuffers := by
    unfold cloneBuffersThreshold
    omega
  dsimp only at hClones
  rw [List.take_range, Nat.min_eq_left hTwo, List.append_nil,
    List.range_eq_range' (n := pageBuffers), List.drop_range']
    at hClones
  rw [Nat.mul_one, Nat.zero_add] at hClones
  exact hClones

end Uffs
