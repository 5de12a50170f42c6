import Uffs.Links.Pools
import Uffs.Model.Emulator

/-
  Any functions of the page buffers one after the other: on
  the links they return, and return what they return on the
  lists.

  Main declarations:
    * `BufCall.meets`, `permitted`
    * `LinkedPool.Models`
    * `models_exec`
    * `bufCalls_refine`
-/

namespace Uffs

open Prog

section Calls

variable [Platform]

------------------------------------------------------------
-- Walks
------------------------------------------------------------

/- The links are those of the page buffers of a device. -/
structure LinkedPool.Models (c : LinkedPool) (s : Dev) :
    Prop where
  refines : c.Refines s.buf
  orderly : s.buf.Orderly

omit [Platform] in
theorem run_ofWalk
    {σ α : Type}
    {o : σ → Option α}
    {c : σ}
    {a : α}
    (h : o c = some a) : ofWalk o c = some (a, [], c) := by
  unfold ofWalk
  rw [run_bind, run_get]
  dsimp only
  rw [h]
  rfl

/- No cell fails a test if and only if all pass it. -/
omit [Platform] in
theorem isNone_find_not
    (l : List Nat)
    (test : Nat → Bool) :
    (l.find? fun j => !test j).isNone = l.all test := by
  rw [Bool.eq_iff_iff, Option.isNone_iff_eq_none,
    List.find?_eq_none, List.all_eq_true]
  simp

namespace LinkedPool.Models

variable {c : LinkedPool} {s : Dev}

theorem steps
    (h : c.Models s) : s.buf.list.length < bufSteps := by
  unfold bufSteps
  exact Nat.lt_succ_of_le h.orderly.size

theorem dirtySteps
    (h : c.Models s)
    (slot : Nat) :
    (s.buf.group slot).dirty.length < bufSteps := by
  unfold bufSteps
  exact Nat.lt_succ_of_le (h.orderly.dirtySize slot)

theorem run_bufFind
    (h : c.Models s)
    (parent serial pageId : Nat) :
    LinkedPool.bufFind parent serial pageId c =
      some (s.buf.find parent serial pageId, [], c) := by
  apply run_ofWalk
  have hWalk := h.refines.list.forth.walkFind_eq
    (fun i => (c.entry i).parent == parent &&
      (c.entry i).serial == serial &&
      (c.entry i).pageId == pageId &&
      (c.entry i).mark != .empty) h.steps
  rw [h.refines.entry] at hWalk ⊢
  exact hWalk

theorem run_findFreeBuf (h : c.Models s) :
    LinkedPool.findFreeBuf c =
      some
        (s.buf.list.reverse.find?
          fun i => (s.buf.entry i).isFree, [], c) := by
  apply run_ofWalk
  have hWalk := h.refines.list.back.walkFind_eq
    (fun i => (c.entry i).isFree)
    (by
      rw [List.length_reverse]
      exact h.steps)
  rw [h.refines.entry] at hWalk ⊢
  exact hWalk

theorem run_findBufInDirtyList
    (h : c.Models s)
    (slot pageId : Nat) :
    LinkedPool.findBufInDirtyList slot pageId c =
      some
        ((s.buf.group slot).dirty.find?
          fun i => (s.buf.entry i).pageId == pageId, [], c) := by
  apply run_ofWalk
  have hWalk := (h.refines.dirty slot).linked.walkFind_eq
    (fun i => (c.entry i).pageId == pageId)
    (h.dirtySteps slot)
  rw [h.refines.entry] at hWalk ⊢
  exact hWalk

theorem run_isBufInInDirtyList
    (h : c.Models s)
    (slot i : Nat) :
    LinkedPool.isBufInInDirtyList slot i c =
      some (decide (i ∈ (s.buf.group slot).dirty), [], c) := by
  apply run_ofWalk
  rw [(h.refines.dirty slot).linked.walkFind_eq _
    (h.dirtySteps slot), Option.map_some]
  congr 1
  rw [Bool.eq_iff_iff, decide_eq_true_iff,
    List.find?_isSome]
  constructor
  · intro hAny
    rcases hAny with ⟨j, hj, hEq⟩
    rw [beq_iff_eq] at hEq
    rw [← hEq]
    exact hj
  · intro hi
    exact ⟨i, hi, beq_self_eq_true i⟩

theorem findGroupSlot_eq
    (h : c.Models s)
    (parent serial : Nat) :
    c.findGroupSlot parent serial =
      s.buf.findGroupSlot parent serial := by
  unfold LinkedPool.findGroupSlot BufPool.findGroupSlot
  apply congrArg (List.find? · (List.range dirtyGroups))
  funext slot
  rw [(h.refines.dirty slot).linked.head, h.refines.entry]
  cases (s.buf.group slot).dirty with
  | nil => rfl
  | cons i rest => rfl

theorem run_bufFindGroupSlot
    (h : c.Models s)
    (parent serial : Nat) :
    LinkedPool.bufFindGroupSlot parent serial c =
      some (s.buf.findGroupSlot parent serial, [], c) := by
  unfold LinkedPool.bufFindGroupSlot
  rw [run_gets]
  rw [h.findGroupSlot_eq]

theorem run_bufFindFreeGroupSlot (h : c.Models s) :
    LinkedPool.bufFindFreeGroupSlot c =
      some
        ((List.range dirtyGroups).find? fun slot =>
          (s.buf.group slot).dirty.isEmpty, [], c) := by
  unfold LinkedPool.bufFindFreeGroupSlot
  rw [run_gets]
  congr 2
  apply congrArg (List.find? · (List.range dirtyGroups))
  funext slot
  rw [(h.refines.dirty slot).linked.head]
  cases (s.buf.group slot).dirty with
  | nil => rfl
  | cons i rest => rfl

theorem run_findMinimun
    (h : c.Models s)
    (slot : Nat) :
    LinkedPool.findMinimunPageIdFromDirtyList slot c =
      some
        (s.buf.findMinimunPageId (s.buf.group slot).dirty, [],
          c) := by
  apply run_ofWalk
  have hLinked := (h.refines.dirty slot).linked
  have hSteps := h.dirtySteps slot
  cases hDirty : (s.buf.group slot).dirty with
  | nil =>
      rw [hDirty] at hLinked
      rw [Linked.nil_iff.mp hLinked]
      rfl
  | cons i rest =>
      rw [hDirty, Linked.cons_iff] at hLinked
      rw [hDirty, List.length_cons] at hSteps
      rw [hLinked.1]
      dsimp only
      rw [hLinked.2.walkFold_eq _ _ (by omega),
        h.refines.entry]
      rfl

theorem run_checkDirtyList
    (h : c.Models s)
    (slot : Nat) :
    ∃ r, LinkedPool.checkDirtyList slot c = some (r, [], c) ∧
      Uffs.checkDirtyList slot s = some (r, [], s) := by
  have hLinked := (h.refines.dirty slot).linked
  have hSteps := h.dirtySteps slot
  unfold Uffs.checkDirtyList
  rw [run_gets]
  refine ⟨_, ?_, rfl⟩
  apply run_ofWalk
  cases hDirty : (s.buf.group slot).dirty with
  | nil =>
      rw [hDirty] at hLinked
      rw [Linked.nil_iff.mp hLinked]
  | cons i rest =>
      rw [hDirty, Linked.cons_iff] at hLinked
      rw [hDirty, List.length_cons] at hSteps
      rw [hLinked.1]
      dsimp only
      rw [hLinked.2.walkFind_eq _ (by omega), Option.map_some,
        h.refines.entry]
      rw [isNone_find_not]

theorem run_bufIsAllFree (h : c.Models s) :
    LinkedPool.bufIsAllFree c =
      some (s.buf.isAllFree, [], c) := by
  apply run_ofWalk
  have hWalk := h.refines.list.forth.walkFind_eq
    (fun i => !decide ((c.entry i).refCount = 0)) h.steps
  have hTest : (fun i => (c.entry i).refCount != 0) =
      fun i => !decide ((c.entry i).refCount = 0) := by
    funext i
    rw [Bool.eq_iff_iff]
    simp
  unfold lru at hWalk
  dsimp only at hWalk
  rw [hTest, hWalk, Option.map_some, isNone_find_not,
    h.refines.entry]
  rfl

------------------------------------------------------------
-- Changes
------------------------------------------------------------

theorem moveNodeToHead
    {i : Nat}
    (h : c.Models s)
    (hi : i ∈ s.buf.list) :
    (c.moveNodeToHead i).Models
      { s with
        buf := { s.buf with list := i :: s.buf.list.erase i } } where
  refines := h.refines.moveNodeToHead h.orderly hi
  orderly := h.orderly.front hi

/- A buffer changes; its mark and its key are kept. -/
theorem setBuf
    {i : Nat}
    {f : Buf → Buf}
    (h : c.Models s)
    (hMark : (f (s.buf.entry i)).mark = .dirty ↔
      (s.buf.entry i).mark = .dirty)
    (hKey : (s.buf.entry i).mark = .dirty →
      (f (s.buf.entry i)).groupKey =
        (s.buf.entry i).groupKey) :
    LinkedPool.Models
      { c with entry := upd c.entry i (f (c.entry i)) }
      { s with buf := s.buf.replace i (f (s.buf.entry i)) } where
  refines := h.refines.setBuf
  orderly := h.orderly.replace hMark hKey

/- A buffer that is dirty is taken off its list. -/
theorem run_breakFromDirty
    {i : Nat}
    (h : c.Models s)
    (hDirty : (s.buf.entry i).mark = .dirty) :
    ∃ slot,
      i ∈ (s.buf.group slot).dirty ∧
      LinkedPool.breakFromDirty i c =
        some (.succ, [], c.breakFromDirtyList slot i) ∧
      Uffs.breakFromDirty i s =
        some
          (.succ, [],
            { s with
              buf :=
                { s.buf with
                  group := upd s.buf.group slot
                    { s.buf.group slot with
                      dirty := (s.buf.group slot).dirty.erase i
                      count :=
                        (s.buf.group slot).count - 1 } } }) := by
  rcases (h.orderly.marked i).mp hDirty with ⟨slot, hSlot⟩
  have hFind := h.orderly.findGroupSlot_eq hSlot
  refine ⟨slot, hSlot, ?_, ?_⟩
  · unfold LinkedPool.breakFromDirty
    rw [run_bind, run_get]
    dsimp only
    rw [h.refines.entry, if_neg (fun hNe => hNe hDirty)]
    rw [run_bind, h.run_bufFindGroupSlot, hFind]
    rfl
  · unfold Uffs.breakFromDirty getBuf
    rw [run_gets_bind, if_neg (fun hNe => hNe hDirty)]
    unfold Uffs.bufFindGroupSlot
    rw [run_gets_bind, hFind]
    rfl

/- A buffer that is not dirty is in no list. -/
theorem run_breakFromDirty_fail
    {i : Nat}
    (h : c.Models s)
    (hClean : (s.buf.entry i).mark ≠ .dirty) :
    LinkedPool.breakFromDirty i c = some (.fail, [], c) ∧
      Uffs.breakFromDirty i s = some (.fail, [], s) := by
  constructor
  · unfold LinkedPool.breakFromDirty
    rw [run_bind, run_get]
    dsimp only
    rw [h.refines.entry, if_pos hClean]
    rfl
  · unfold Uffs.breakFromDirty getBuf
    rw [run_gets_bind, if_pos hClean]
    rfl

/- A buffer off its list is marked as clean. -/
theorem unlink
    {i slot : Nat}
    {f : Buf → Buf}
    (h : c.Models s)
    (hi : i ∈ (s.buf.group slot).dirty)
    (hMark : ∀ b, (f b).mark ≠ .dirty) :
    LinkedPool.Models
      { c.breakFromDirtyList slot i with
        entry := upd c.entry i (f (c.entry i)) }
      { s with buf := s.buf.clean slot i f } where
  refines := (h.refines.unlink h.orderly hi).setBuf
  orderly := h.orderly.clean hi hMark

------------------------------------------------------------
-- Functions
------------------------------------------------------------

/- Both sides keep to each other. -/
def Pairs
    {α : Type}
    (m : LM α)
    (m' : M α)
    (c : LinkedPool)
    (s : Dev) : Prop :=
  sim m m' (fun _ d t => d.Models t) c s

theorem pairs_bufGet
    (h : c.Models s)
    (parent serial pageId : Nat) :
    Pairs (LinkedPool.bufGet parent serial pageId)
      (Uffs.bufGet parent serial pageId) c s := by
  unfold LinkedPool.bufGet Uffs.bufGet
  apply sim_bind
  apply sim_of_run (h.run_bufFind parent serial pageId) rfl
  cases hFind : s.buf.find parent serial pageId with
  | none => exact sim_pure h
  | some i =>
      have hi := (BufPool.find_some hFind).1
      have hHeld := h.setBuf
        (f := fun b => { b with refCount := b.refCount + 1 })
        (i := i) Iff.rfl (fun _ => rfl)
      apply sim_bind
      apply sim_modify
      apply sim_bind
      apply sim_modify
      exact sim_pure (hHeld.moveNodeToHead hi)

theorem pairs_bufFreeClone
    {i : Nat}
    (h : c.Models s)
    (hMeets : (s.buf.entry i).refCount = cloneBufMark →
      i ∉ s.buf.list ∧ i ∉ s.buf.clone) :
    Pairs (LinkedPool.bufFreeClone i) (Uffs.bufFreeClone i)
      c s := by
  unfold LinkedPool.bufFreeClone Uffs.bufFreeClone getBuf
  apply sim_left rfl
  apply sim_right rfl
  rw [h.refines.entry]
  by_cases hRef : (s.buf.entry i).refCount ≠ cloneBufMark
  · rw [if_pos hRef, if_pos hRef]
    exact sim_pure h
  · rw [if_neg hRef, if_neg hRef]
    rw [not_not] at hRef
    have hOut := hMeets hRef
    have hClean : (s.buf.entry i).mark ≠ .dirty := by
      intro hDirty
      rcases (h.orderly.marked i).mp hDirty with ⟨slot, hi⟩
      exact hOut.1 (h.orderly.listed slot i hi)
    have hEmpty := h.setBuf
      (f := fun b => { b with refCount := 0, mark := .empty })
      (i := i)
      (by
        constructor
        · exact fun hBad => BufMark.noConfusion hBad
        · exact fun hBad => absurd hBad hClean)
      (fun hBad => absurd hBad hClean)
    apply sim_bind
    apply sim_modify
    apply sim_bind
    apply sim_modify
    apply sim_pure
    constructor
    · exact hEmpty.refines.insertToCloneBufList hOut.1 hOut.2
    · apply hEmpty.orderly.congr
      · have hApart := hEmpty.orderly.apart
        unfold BufPool.Apart at hApart ⊢
        apply (List.perm_middle.nodup_iff).mpr
        apply List.nodup_cons.mpr
        rw [List.mem_append, not_or]
        exact ⟨hOut, hApart⟩
      · exact List.Perm.refl _
      · intro slot
        rfl
      · intro j
        rfl
      · intro j _
        rfl

theorem pairs_bufPut
    {i : Nat}
    (h : c.Models s)
    (hMeets : (s.buf.entry i).refCount = cloneBufMark →
      i ∉ s.buf.list ∧ i ∉ s.buf.clone) :
    Pairs (LinkedPool.bufPut i) (Uffs.bufPut i) c s := by
  unfold LinkedPool.bufPut Uffs.bufPut getBuf
  apply sim_left rfl
  apply sim_right rfl
  rw [h.refines.entry]
  by_cases hZero : (s.buf.entry i).refCount = 0
  · rw [if_pos hZero, if_pos hZero]
    exact sim_pure h
  · rw [if_neg hZero, if_neg hZero]
    by_cases hRef : (s.buf.entry i).refCount = cloneBufMark
    · rw [if_pos hRef, if_pos hRef]
      exact h.pairs_bufFreeClone hMeets
    · rw [if_neg hRef, if_neg hRef]
      have hPut := h.setBuf
        (f := fun b => { b with refCount := b.refCount - 1 })
        (i := i) Iff.rfl (fun _ => rfl)
      apply sim_bind
      apply sim_modify
      exact sim_pure hPut

theorem pairs_bufClone (h : c.Models s) :
    Pairs LinkedPool.bufClone Uffs.bufClone c s := by
  unfold LinkedPool.bufClone Uffs.bufClone
  apply sim_left rfl
  apply sim_right rfl
  rw [h.refines.clone.head]
  cases hClone : s.buf.clone with
  | nil => exact sim_pure h
  | cons i rest =>
      have hTaken := h.refines.takeClone h.orderly hClone
      have hOrderly :
          ({ s.buf with clone := rest } : BufPool).Orderly := by
        apply h.orderly.congr
        · have hApart := h.orderly.apart
          unfold BufPool.Apart at hApart ⊢
          rw [hClone] at hApart
          have hMiddle := (List.perm_middle.nodup_iff).mp hApart
          exact (List.nodup_cons.mp hMiddle).2
        · exact List.Perm.refl _
        · intro slot
          rfl
        · intro j
          rfl
        · intro j _
          rfl
      have hLent := hTaken.setBuf
        (f := fun b => { b with refCount := cloneBufMark })
        (i := i)
      have hMarked := hOrderly.replace (i := i)
        (b := { s.buf.entry i with refCount := cloneBufMark })
        Iff.rfl (fun _ => rfl)
      apply sim_bind
      apply sim_modify
      apply sim_left rfl
      apply sim_bind
      apply sim_modify
      apply sim_pure
      exact ⟨hLent, hMarked⟩

theorem pairs_linkIfNew
    {slot i : Nat}
    (h : c.Models s)
    (hi : i ∈ s.buf.list)
    (hSlot : s.buf.SlotFor slot (s.buf.entry i).groupKey) :
    Pairs (LinkedPool.linkIfNew slot i) (Uffs.linkIfNew slot i)
      c s := by
  unfold LinkedPool.linkIfNew Uffs.linkIfNew getGroup
  apply sim_left (h.run_isBufInInDirtyList slot i)
  apply sim_right rfl
  by_cases hIn : i ∈ (s.buf.group slot).dirty
  · rw [if_neg (by simp [hIn]), if_neg (fun hNot => hNot hIn)]
    exact sim_pure h
  · rw [if_pos (by simp [hIn]), if_pos hIn]
    have hClean : (s.buf.entry i).mark ≠ .dirty := by
      intro hDirty
      rcases (h.orderly.marked i).mp hDirty with ⟨slot', hOld⟩
      rw [hSlot.sole slot' i hOld rfl] at hOld
      exact hIn hOld
    unfold Uffs.linkToDirtyList
    refine sim_of_run rfl rfl ?_
    constructor
    · exact h.refines.link h.orderly hClean
    · exact h.orderly.link hi hClean hSlot

theorem pairs_bufWritten
    (h : c.Models s)
    (i : Nat) :
    Pairs (LinkedPool.bufWritten i) (Uffs.bufWritten i) c s := by
  unfold LinkedPool.bufWritten Uffs.bufWritten
  by_cases hDirty : (s.buf.entry i).mark = .dirty
  · rcases h.run_breakFromDirty hDirty with
      ⟨slot, hi, hRun, hRun'⟩
    have hValid := h.unlink hi
      (f := fun b => { b with mark := .valid })
      (fun _ => BufMark.noConfusion)
    have hList := h.orderly.listed slot i hi
    apply sim_bind
    apply sim_of_run hRun hRun'
    apply sim_bind
    apply sim_modify
    apply sim_bind
    apply sim_modify
    exact sim_pure (hValid.moveNodeToHead hList)
  · have hFail := h.run_breakFromDirty_fail hDirty
    apply sim_bind
    apply sim_of_run hFail.1 hFail.2
    exact sim_pure h

theorem pairs_bufMarkEmpty
    (h : c.Models s)
    (i : Nat) :
    Pairs (LinkedPool.bufMarkEmpty i) (Uffs.bufMarkEmpty i)
      c s := by
  unfold LinkedPool.bufMarkEmpty Uffs.bufMarkEmpty getBuf
  apply sim_left rfl
  apply sim_right rfl
  rw [h.refines.entry]
  split
  · by_cases hDirty : (s.buf.entry i).mark = .dirty
    · rw [if_pos hDirty, if_pos hDirty]
      rcases h.run_breakFromDirty hDirty with
        ⟨slot, hi, hRun, hRun'⟩
      have hEmpty := h.unlink hi
        (f := fun b => { b with mark := .empty })
        (fun _ => BufMark.noConfusion)
      apply sim_bind
      apply sim_of_run hRun hRun'
      apply sim_modify
      exact hEmpty
    · rw [if_neg hDirty, if_neg hDirty]
      have hEmpty := h.setBuf
        (f := fun b => { b with mark := .empty })
        (i := i)
        (by
          constructor
          · exact fun hBad => BufMark.noConfusion hBad
          · exact fun hBad => absurd hBad hDirty)
        (fun hBad => absurd hBad hDirty)
      apply sim_modify
      exact hEmpty
  · exact sim_pure h

theorem pairs_cleanDirtyFrom
    (slot n : Nat) :
    ∀ {c : LinkedPool} {s : Dev} (i : Nat), c.Models s →
      Pairs (LinkedPool.cleanDirtyFrom slot n i)
        (Uffs.cleanDirtyFrom slot n i) c s := by
  induction n with
  | zero =>
      intro c s i h
      exact sim_pure h
  | succ n ih =>
      intro c s i h
      unfold LinkedPool.cleanDirtyFrom Uffs.cleanDirtyFrom
      apply sim_bind
      apply sim_of_run (h.run_findBufInDirtyList slot i) rfl
      cases hFind : (s.buf.group slot).dirty.find?
          fun j => (s.buf.entry j).pageId == i with
      | none => exact ih (i + 1) h
      | some d =>
          have hd := List.mem_of_find?_eq_some hFind
          have hDirty := (h.orderly.marked d).mpr ⟨slot, hd⟩
          rcases h.run_breakFromDirty hDirty with
            ⟨slot', hi, hRun, hRun'⟩
          have hValid := h.unlink hi
            (f := fun b =>
              { b with mark := .valid, truncTail := false })
            (fun _ => BufMark.noConfusion)
          have hList := h.orderly.listed slot d hd
          apply sim_bind
          apply sim_of_run hRun hRun'
          apply sim_bind
          apply sim_modify
          apply sim_bind
          apply sim_modify
          exact ih (i + 1) (hValid.moveNodeToHead hList)

end LinkedPool.Models

------------------------------------------------------------
-- Calls
------------------------------------------------------------

/-
  When the source makes a call.  A clone buffer is put back
  by the one who has it.  A slot for a dirty buffer is found
  as by `uffs_BufWrite`.  A change of a buffer keeps its mark
  and, while it is dirty, its key.
-/
def BufCall.meets (p : BufPool) : BufCall → Bool
| .put i | .freeClone i =>
    decide ((p.entry i).refCount = cloneBufMark →
      i ∉ p.list ∧ i ∉ p.clone)
| .link slot i =>
    decide (i ∈ p.list ∧ slot < dirtyGroups ∧
      (p.findGroupSlot (p.entry i).parent (p.entry i).serial =
          some slot ∨
        p.findGroupSlot (p.entry i).parent
            (p.entry i).serial = none ∧
          (p.group slot).dirty = []))
| .moveToHead i => decide (i ∈ p.list)
| .edit i b =>
    decide ((b.mark = .dirty ↔ (p.entry i).mark = .dirty) ∧
      ((p.entry i).mark = .dirty →
        b.groupKey = (p.entry i).groupKey))
| _ => true

/- Each call of a list is made when it may be made. -/
def permitted : List BufCall → Dev → Bool
| [], _ => true
| call :: rest, s =>
    call.meets s.buf &&
      match call.exec s with
      | none => true
      | some (_, _, t) => permitted rest t

/- The slot that is found for a buffer is for its key. -/
theorem BufPool.Orderly.slotFor
    {p : BufPool}
    {slot i : Nat}
    (h : p.Orderly)
    (hBound : slot < dirtyGroups)
    (hSlot :
      p.findGroupSlot (p.entry i).parent (p.entry i).serial =
          some slot ∨
        p.findGroupSlot (p.entry i).parent
            (p.entry i).serial = none ∧
          (p.group slot).dirty = []) :
    p.SlotFor slot (p.entry i).groupKey := by
  rcases hSlot with hFound | ⟨hNone, hFree⟩
  · rcases BufPool.findGroupSlot_some hFound with
      ⟨_, j, hj, hKey⟩
    constructor
    · exact hBound
    · intro k hk
      exact (h.sameKey slot k hk j hj).trans hKey
    · intro slot' k hk hEq
      exact h.sameSlot slot' k hk slot j hj
        (hEq.trans hKey.symm)
  · apply BufPool.slotFor_free hBound hFree
    intro slot' j hj hKey
    have hFind := h.findGroupSlot_eq hj
    unfold Buf.groupKey at hKey
    rw [Prod.mk.injEq] at hKey
    rw [hKey.1, hKey.2, hNone] at hFind
    cases hFind

/- A call whose answer is what a function returns. -/
theorem sim_answer
    {α : Type}
    {m : LM α}
    {m' : M α}
    {c : LinkedPool}
    {s : Dev}
    (f : α → BufAnswer)
    (h : LinkedPool.Models.Pairs m m' c s) :
    LinkedPool.Models.Pairs (m >>= fun a => pure (f a))
      (m' >>= fun a => pure (f a)) c s :=
  sim_bind (sim_mono h fun _ _ _ hModels => sim_pure hModels)

/- One call. -/
theorem models_exec
    {c : LinkedPool}
    {s : Dev}
    (call : BufCall)
    (h : c.Models s)
    (hMeets : call.meets s.buf) :
    LinkedPool.Models.Pairs call.execLinks call.exec c s := by
  unfold BufCall.meets at hMeets
  cases call with
  | find parent serial pageId =>
      apply sim_answer
      exact sim_of_run (h.run_bufFind parent serial pageId) rfl h
  | get parent serial pageId =>
      exact sim_answer _ (h.pairs_bufGet parent serial pageId)
  | put i =>
      have hOut := of_decide_eq_true hMeets
      exact sim_answer _ (h.pairs_bufPut hOut)
  | clone => exact sim_answer _ h.pairs_bufClone
  | freeClone i =>
      have hOut := of_decide_eq_true hMeets
      exact sim_answer _ (h.pairs_bufFreeClone hOut)
  | findFree =>
      apply sim_answer
      exact sim_of_run h.run_findFreeBuf rfl h
  | groupSlot parent serial =>
      apply sim_answer
      exact sim_of_run (h.run_bufFindGroupSlot parent serial)
        rfl h
  | freeGroupSlot =>
      apply sim_answer
      exact sim_of_run h.run_bufFindFreeGroupSlot rfl h
  | link slot i =>
      have hFound := of_decide_eq_true hMeets
      have hSlot := h.orderly.slotFor hFound.2.1 hFound.2.2
      exact sim_answer (fun _ => .none)
        (h.pairs_linkIfNew hFound.1 hSlot)
  | written i => exact sim_answer _ (h.pairs_bufWritten i)
  | dirtyPage slot pageId =>
      apply sim_answer
      exact sim_of_run (h.run_findBufInDirtyList slot pageId)
        rfl h
  | leastPage slot =>
      apply sim_answer
      exact sim_of_run (h.run_findMinimun slot) rfl h
  | check slot =>
      rcases h.run_checkDirtyList slot with ⟨r, hRun, hRun'⟩
      apply sim_answer
      exact sim_of_run hRun hRun' h
  | clean slot =>
      exact sim_answer (fun _ => .none)
        (LinkedPool.Models.pairs_cleanDirtyFrom slot _ 0 h)
  | moveToHead i =>
      apply sim_answer (fun _ => .none)
      apply sim_modify
      exact h.moveNodeToHead (of_decide_eq_true hMeets)
  | markEmpty i =>
      exact sim_answer (fun _ => .none)
        (h.pairs_bufMarkEmpty i)
  | isAllFree =>
      apply sim_left h.run_bufIsAllFree
      apply sim_right rfl
      exact sim_pure h
  | edit i b =>
      have hKept := of_decide_eq_true hMeets
      apply sim_answer (fun _ => .none)
      apply sim_modify
      exact h.setBuf (f := fun _ => b) hKept.1 hKept.2

/-
  From `uffs_BufInit` on, any calls return on the links what
  they return on the lists, and the links make these lists.
-/
theorem bufCalls_refine
    (calls : List BufCall)
    (s : Dev)
    (hInit : s.buf = BufPool.init)
    (hPermitted : permitted calls s) :
    ∃ answers es c t,
      runAll BufCall.execLinks calls LinkedPool.init =
          some (answers, es, c) ∧
        runAll BufCall.exec calls s =
          some (answers, es, t) ∧
        c.Refines t.buf ∧ t.buf.Orderly := by
  have hStart : LinkedPool.init.Models s := by
    constructor
    · rw [hInit]
      exact LinkedPool.refines_init
    · rw [hInit]
      exact BufPool.orderly_init
  have hStep : ∀ call rest (c : LinkedPool) (s : Dev),
      (c.Models s ∧ permitted (call :: rest) s = true) →
        sim (BufCall.execLinks call) (BufCall.exec call)
          (fun _ d t => d.Models t ∧ permitted rest t = true)
          c s := by
    intro call rest c s h
    rcases h with ⟨hModels, hAll⟩
    unfold permitted at hAll
    rw [Bool.and_eq_true] at hAll
    rcases hAll with ⟨hMeets, hRest⟩
    rcases models_exec call hModels hMeets with
      ⟨a, es, d, t, hRun, hRun', hNext⟩
    rw [hRun'] at hRest
    exact ⟨a, es, d, t, hRun, hRun', hNext, hRest⟩
  rcases sim_runAll
      (R := fun calls (c : LinkedPool) (s : Dev) =>
        c.Models s ∧ permitted calls s = true)
      hStep calls ⟨hStart, hPermitted⟩ with
    ⟨answers, es, c, t, hRun, hRun', hEnd⟩
  exact ⟨answers, es, c, t, hRun, hRun', hEnd.1.refines,
    hEnd.1.orderly⟩

end Calls

/-
  Two pages of one file are written to buffers, a clone is
  taken meanwhile, and the pages get clean one by one.
-/
def writeTwo [Platform] : List BufCall :=
  [.findFree,
    .edit 7
      { Buf.zero with parent := 1, serial := 5, mark := .valid },
    .moveToHead 7, .link 0 7, .findFree,
    .edit 6
      { Buf.zero with
        parent := 1
        serial := 5
        pageId := 1
        mark := .valid
        refCount := 1 },
    .moveToHead 6, .link 0 6, .link 0 7, .clone,
    .get 1 5 0, .put 7, .freeClone 1, .leastPage 0, .check 0,
    .written 7, .clean 0, .put 6, .markEmpty 6, .isAllFree]

theorem bufCalls_refine_writeTwo :
    letI := emulator alwaysOk
    ∃ answers es c t,
      runAll BufCall.execLinks writeTwo LinkedPool.init =
          some (answers, es, c) ∧
        runAll BufCall.exec writeTwo
            (Dev.init Flash.blank 0) =
          some (answers, es, t) ∧
        c.Refines t.buf ∧ t.buf.Orderly := by
  let _ := emulator alwaysOk
  have hPermitted : permitted writeTwo
      (Dev.init Flash.blank 0) = true := by
    decide +kernel
  exact bufCalls_refine writeTwo (Dev.init Flash.blank 0) rfl
    hPermitted

end Uffs
