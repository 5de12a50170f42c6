import Uffs.Cache.Sessions
import Uffs.Pool.Files

/-
  Dirty pages are in one dirty group each after every
  sequence of operations, as long as no dirty buffer is
  emptied and no buffer is moved onto another one.

  Main declarations:
    * `BufPool.Grouped`
    * `session_grouped`
    * `sessionsGrouped_false`
-/

namespace Uffs

open Prog

section Sessions

variable [Platform] {ok : Event → Prop}

/- The pool after `uffs_BufInit`. -/
theorem BufPool.idle_init : BufPool.init.Idle where
  sound := by
    have hNone : ∀ slot, (init.group slot).dirty = [] :=
      fun _ => rfl
    constructor
    · have hBuffers := Platform.five_le_pageBuffers
      have hRange : List.range pageBuffers =
          List.range cloneBuffersThreshold ++
            List.range' cloneBuffersThreshold
              (pageBuffers - cloneBuffersThreshold) := by
        have hTwo : cloneBuffersThreshold ≤ pageBuffers :=
          Nat.le_trans (by decide) hBuffers
        have hSplit := Nat.add_sub_of_le hTwo
        have hAppend := List.range'_append_1
          (s := 0) (m := cloneBuffersThreshold)
          (n := pageBuffers - cloneBuffersThreshold)
        rw [Nat.zero_add, hSplit] at hAppend
        rw [List.range_eq_range', List.range_eq_range', hAppend]
      rw [hRange]
      apply List.perm_append_comm.trans
      apply List.Perm.append_right
      exact List.reverse_perm _
    · exact fun _ _ => rfl
    · exact fun slot hDirty => absurd (hNone slot) hDirty
    · exact fun _ => List.nodup_nil
    · exact fun _ => rfl
    · intro slot i hi
      cases hi
    · intro i _ hDirty
      cases hDirty
    · intro slot i hi
      cases hi
    · intro slot i hi
      cases hi
    · intro i _ j _ hEmpty
      exact absurd rfl hEmpty
  idle := fun _ _ => rfl

theorem idle_exec
    (hMoved : ¬ ok (.note .movedOnto))
    (hEmptied : ¬ ok (.note .dirtyEmptied))
    (p : ObjPool)
    (op : Op)
    (s : Dev)
    (hs : op ≠ .mount → s.buf.Idle) :
    wlp ok (op.exec p) (fun _ t => t.buf.Idle) s := by
  have hLayer := sessionLayer_idles hMoved hEmptied
  by_cases hMount : op = .mount
  · subst hMount
    unfold Op.exec mount
    rw [wlp_bind, wlp_bind, wlp_modify]
    refine wlp_mono (hLayer.buildTree _) ?_
    intro r t ht
    have hIdle : t.buf.Idle := ht BufPool.idle_init
    cases r with
    | fail =>
        dsimp only
        rw [wlp_diverge]
        trivial
    | succ =>
        dsimp only
        rw [wlp_pure]
        exact hIdle
  · refine wlp_mono (hLayer.exec p op hMount s) ?_
    intro _ t ht
    exact ht (hs hMount)

theorem idle_session
    (hMoved : ¬ ok (.note .movedOnto))
    (hEmptied : ¬ ok (.note .dirtyEmptied))
    (ops : List Op)
    (s : Dev) :
    wlp ok (session ops) (fun _ t => t.buf.Idle) s := by
  have hRun := runOps_induct
    (fun p op s (hs : s.buf.Idle) =>
      idle_exec hMoved hEmptied p op s fun _ => hs)
    ops
  unfold session runOps
  refine wlp_seq (idle_exec hMoved hEmptied _ .mount s ?_) ?_
  · exact fun h => absurd rfl h
  intro q t ht
  refine wlp_seq (hRun q.2 t ht) ?_
  intro r u hu
  rw [wlp_pure]
  exact hu

------------------------------------------------------------
-- Dirty Groups
------------------------------------------------------------

/-
  A buffer is dirty if and only if it is in one dirty group.
  A group counts its buffers, which are for one file or
  directory block that no other group is for.  No page has
  two buffers, and each buffer is in one of the two lists.
-/
structure BufPool.Grouped (p : BufPool) : Prop where
  dirty : ∀ i < pageBuffers, (p.entry i).mark = .dirty ↔
    ∃! slot, slot < dirtyGroups ∧ i ∈ (p.group slot).dirty
  nodup : ∀ slot < dirtyGroups, (p.group slot).dirty.Nodup
  count : ∀ slot < dirtyGroups,
    (p.group slot).count = (p.group slot).dirty.length
  member : ∀ slot < dirtyGroups, ∀ i ∈ (p.group slot).dirty,
    i < pageBuffers
  oneKey : ∀ slot < dirtyGroups, ∀ i ∈ (p.group slot).dirty,
    ∀ j ∈ (p.group slot).dirty,
      (p.entry i).parent = (p.entry j).parent ∧
        (p.entry i).serial = (p.entry j).serial
  otherKey : ∀ slot < dirtyGroups, ∀ slot' < dirtyGroups,
    slot ≠ slot' → ∀ i ∈ (p.group slot).dirty,
      ∀ j ∈ (p.group slot').dirty,
        ¬ ((p.entry i).parent = (p.entry j).parent ∧
          (p.entry i).serial = (p.entry j).serial)
  onePage : ∀ i < pageBuffers, ∀ j < pageBuffers,
    (p.entry i).mark ≠ .empty → (p.entry j).mark ≠ .empty →
      (p.entry i).parent = (p.entry j).parent →
        (p.entry i).serial = (p.entry j).serial →
          (p.entry i).pageId = (p.entry j).pageId → i = j
  lists : (p.list ++ p.clone).Perm (List.range pageBuffers)

namespace BufPool

variable {p : BufPool}

theorem Sound.mem_list
    {i : Nat}
    (h : p.Sound)
    (hi : i < pageBuffers)
    (hMark : (p.entry i).mark ≠ .empty) : i ∈ p.list := by
  have hMem := h.perm.mem_iff.mpr (List.mem_range.mpr hi)
  rcases List.mem_append.mp hMem with hList | hClone
  · exact hList
  · exact absurd (h.free i hClone) hMark

theorem Sound.grouped (h : p.Sound) : p.Grouped where
  dirty := by
    intro i hi
    constructor
    · intro hDirty
      have hMem := h.mem_list hi fun hEmpty => by
        rw [hEmpty] at hDirty
        cases hDirty
      rcases h.dirty i hMem hDirty with ⟨slot, hSlot⟩
      have hBound := h.slots slot (List.ne_nil_of_mem hSlot)
      refine ⟨slot, ⟨hBound, hSlot⟩, ?_⟩
      intro slot' hOther
      exact h.sameSlot slot' i hOther.2 slot i hSlot rfl
    · intro hOne
      rcases hOne.exists with ⟨slot, _, hSlot⟩
      exact (h.linked slot i hSlot).2
  nodup := fun slot _ => h.nodup slot
  count := fun slot _ => h.count slot
  member := by
    intro slot _ i hi
    apply List.mem_range.mp
    apply h.perm.mem_iff.mp
    exact List.mem_append_left _ (h.linked slot i hi).1
  oneKey := by
    intro slot _ i hi j hj
    exact Prod.mk.inj (h.sameKey slot i hi j hj)
  otherKey := by
    intro slot _ slot' _ hNe i hi j hj hKey
    apply hNe
    apply h.sameSlot slot i hi slot' j hj
    unfold Buf.groupKey
    rw [hKey.1, hKey.2]
  onePage := by
    intro i hi j hj hMarkI hMarkJ hParent hSerial hPage
    apply h.pages i (h.mem_list hi hMarkI) j
      (h.mem_list hj hMarkJ) hMarkI hMarkJ
    unfold Buf.pageKey
    rw [hParent, hSerial, hPage]
  lists := h.perm

end BufPool

/-
  After every session in which no dirty buffer is emptied
  and no buffer is moved onto another one, whatever the
  driver answers.
-/
theorem session_grouped
    (F : Flash)
    (clock : Nat)
    (ops : List Op)
    {replies : List Reply × ObjPool}
    {es : List Event}
    {t : Dev}
    (hRun : session ops (Dev.init F clock) =
      some (replies, es, t))
    (hMoved : .note .movedOnto ∉ es)
    (hEmptied : .note .dirtyEmptied ∉ es) :
    t.buf.Grouped := by
  have hIdle : wlp
      (fun e => e ≠ .note .movedOnto ∧
        e ≠ .note .dirtyEmptied)
      (session ops) (fun _ t => t.buf.Idle)
      (Dev.init F clock) :=
    idle_session (fun h => h.1 rfl) (fun h => h.2 rfl) ops _
  have hEnd := hIdle replies es t hRun fun e he =>
    ⟨fun hEq => hMoved (hEq ▸ he),
      fun hEq => hEmptied (hEq ▸ he)⟩
  exact hEnd.sound.grouped

/- Is a buffer that is not dirty in a dirty group? -/
def BufPool.strayLink (p : BufPool) : Bool :=
  (List.range dirtyGroups).any fun slot =>
    (p.group slot).dirty.any fun i =>
      decide (i < pageBuffers) && (p.entry i).mark != .dirty

theorem BufPool.Grouped.no_stray
    {p : BufPool}
    (h : p.Grouped) : p.strayLink = false := by
  by_contra hStray
  rw [Bool.not_eq_false] at hStray
  rcases List.any_eq_true.mp hStray with ⟨slot, hSlot, hAny⟩
  rcases List.any_eq_true.mp hAny with ⟨i, hi, hTest⟩
  simp only [Bool.and_eq_true, decide_eq_true_eq, bne_iff_ne]
    at hTest
  have hBound := List.mem_range.mp hSlot
  apply hTest.2
  apply (h.dirty i hTest.1).mpr
  refine ⟨slot, ⟨hBound, hi⟩, ?_⟩
  intro slot' hOther
  by_contra hNe
  exact h.otherKey slot' hOther.1 slot hBound hNe i hOther.2 i
    hi ⟨rfl, rfl⟩

/- The property for every session. -/
def SessionsGrouped : Prop :=
  ∀ (F : Flash) (clock : Nat) (ops : List Op) q es t,
    session ops (Dev.init F clock) = some (q, es, t) →
      t.buf.Grouped

end Sessions

theorem session_grouped_appendA :
    letI := emulator alwaysOk
    ∃ q es t,
      session appendA (Dev.init Flash.blank 0) =
          some (q, es, t) ∧
        t.buf.Grouped := by
  let _ := emulator alwaysOk
  have hCheck : (session appendA).check
      (fun _ es _ => noNotes es)
      (Dev.init Flash.blank 0) = true := by
    decide +kernel
  rcases wp_of_check hCheck with ⟨q, es, t, hRun, hTest⟩
  have hNone : ∀ n, .note n ∉ es := by
    intro n hNote
    have hTestNote := List.all_eq_true.mp hTest _ hNote
    cases hTestNote
  have hGrouped := session_grouped Flash.blank 0 appendA hRun
    (hNone _) (hNone _)
  exact ⟨q, es, t, hRun, hGrouped⟩

/-
  When the flush before a deletion fails, the buffer that it
  could not write is emptied and stays in its dirty group.
-/
theorem sessionsGrouped_false :
    ¬ @SessionsGrouped (emulator (failFrom 54 .ioErr)) := by
  let _ := emulator (failFrom 54 .ioErr)
  intro hAll
  have hCheck : (session deleteA).check
      (fun _ _ t => t.buf.strayLink)
      (Dev.init Flash.blank 0) = true := by
    decide +kernel
  rcases wp_of_check hCheck with ⟨q, es, t, hRun, hStray⟩
  have hGrouped := hAll _ _ _ _ _ _ hRun
  rw [hGrouped.no_stray] at hStray
  cases hStray

end Uffs
