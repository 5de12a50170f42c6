import Uffs.Files.Flush
import Uffs.Pool.Frame

/-
  The page buffers and the dirty groups during a flush,
  whatever the driver answers.

  Main declarations:
    * `BufPool.Sound`, `BufPool.Flushed`
    * `BufPool.Sound.clean`
    * `wlp_recoverFrom_shuffled`
    * `flushes_bufFlushSlot`
-/

namespace Uffs

open Prog

variable [Platform]

------------------------------------------------------------
-- Sound Pools
------------------------------------------------------------

/-
  Each buffer is in one of the two lists.  A buffer is dirty
  if and only if it is in a dirty group, where the buffers
  of one group, and no others, have one key.  No two buffers
  that are not empty are for one page.
-/
structure BufPool.Sound (p : BufPool) : Prop where
  perm : (p.list ++ p.clone).Perm (List.range pageBuffers)
  free : ∀ i ∈ p.clone, (p.entry i).mark = .empty
  slots : ∀ slot, (p.group slot).dirty ≠ [] →
    slot < dirtyGroups
  nodup : ∀ slot, (p.group slot).dirty.Nodup
  count : ∀ slot,
    (p.group slot).count = (p.group slot).dirty.length
  linked : ∀ slot, ∀ i ∈ (p.group slot).dirty,
    i ∈ p.list ∧ (p.entry i).mark = .dirty
  dirty : ∀ i ∈ p.list, (p.entry i).mark = .dirty →
    ∃ slot, i ∈ (p.group slot).dirty
  sameKey : ∀ slot, ∀ i ∈ (p.group slot).dirty,
    ∀ j ∈ (p.group slot).dirty,
      (p.entry i).groupKey = (p.entry j).groupKey
  sameSlot : ∀ slot, ∀ i ∈ (p.group slot).dirty,
    ∀ slot', ∀ j ∈ (p.group slot').dirty,
      (p.entry i).groupKey = (p.entry j).groupKey →
        slot = slot'
  pages : ∀ i ∈ p.list, ∀ j ∈ p.list,
    (p.entry i).mark ≠ .empty → (p.entry j).mark ≠ .empty →
      (p.entry i).pageKey = (p.entry j).pageKey → i = j

/- A buffer may be held once more. -/
def BufPool.Few (p : BufPool) : Prop :=
  ∀ i ∈ p.list, (p.entry i).refCount + 1 < cloneBufMark

/-
  Dirty buffers may be clean now; nothing else has changed
  of a buffer that is no clone.
-/
structure BufPool.Flushed (p q : BufPool) : Prop where
  list : q.list.Perm p.list
  clone : q.clone = p.clone
  pageKey : ∀ i ∈ p.list,
    (q.entry i).pageKey = (p.entry i).pageKey
  refCount : ∀ i ∈ p.list,
    (q.entry i).refCount = (p.entry i).refCount
  mark : ∀ i ∈ p.list,
    (q.entry i).mark = (p.entry i).mark ∨
      ((p.entry i).mark = .dirty ∧ (q.entry i).mark = .valid)

/- What a flush leaves of the page buffers. -/
def Flushes (s t : Dev) : Prop :=
  s.buf.Sound → s.buf.Few →
    t.buf.Sound ∧ s.buf.Flushed t.buf

namespace BufPool

variable {p q r : BufPool}

theorem Sound.apart (h : p.Sound) : p.Apart :=
  h.perm.nodup_iff.mpr List.nodup_range

theorem Sound.not_free
    {i : Nat}
    (h : p.Sound)
    (hi : i ∈ p.list) : i ∉ p.clone := by
  intro hFree
  have hApart := h.apart
  unfold BufPool.Apart at hApart
  exact (List.nodup_append.mp hApart).2.2 i hi i hFree rfl

omit [Platform] in
theorem Flushed.refl (p : BufPool) : p.Flushed p where
  list := List.Perm.refl _
  clone := rfl
  pageKey := fun _ _ => rfl
  refCount := fun _ _ => rfl
  mark := fun _ _ => Or.inl rfl

omit [Platform] in
theorem Flushed.trans
    (h : p.Flushed q)
    (h' : q.Flushed r) : p.Flushed r := by
  have hMem : ∀ i ∈ p.list, i ∈ q.list :=
    fun i hi => h.list.mem_iff.mpr hi
  constructor
  · exact h'.list.trans h.list
  · exact h'.clone.trans h.clone
  · intro i hi
    exact (h'.pageKey i (hMem i hi)).trans (h.pageKey i hi)
  · intro i hi
    exact (h'.refCount i (hMem i hi)).trans (h.refCount i hi)
  · intro i hi
    rcases h.mark i hi with hSame | ⟨hDirty, hValid⟩
    · rw [← hSame]
      exact h'.mark i (hMem i hi)
    · right
      refine ⟨hDirty, ?_⟩
      rcases h'.mark i (hMem i hi) with hSame | ⟨hBad, _⟩
      · rw [hSame]
        exact hValid
      · rw [hValid] at hBad
        cases hBad

omit [Platform] in
theorem Flushed.few
    (h : p.Flushed q)
    (hp : p.Few) : q.Few := by
  intro i hi
  have hMem := h.list.mem_iff.mp hi
  rw [h.refCount i hMem]
  exact hp i hMem

/- An empty buffer stays empty, and no other gets empty. -/
omit [Platform] in
theorem Flushed.empty
    {i : Nat}
    (h : p.Flushed q)
    (hi : i ∈ p.list) :
    (q.entry i).mark = .empty ↔ (p.entry i).mark = .empty := by
  rcases h.mark i hi with hSame | ⟨hDirty, hValid⟩
  · rw [hSame]
  · rw [hDirty, hValid]
    constructor
    · exact fun hBad => BufMark.noConfusion hBad
    · exact fun hBad => BufMark.noConfusion hBad

theorem Shuffled.same
    {i : Nat}
    (h : p.Shuffled q)
    (hp : p.Sound)
    (hi : i ∈ p.list) : (p.entry i).Same (q.entry i) :=
  h.entry i (hp.not_free hi)

theorem Shuffled.flushed
    (h : p.Shuffled q)
    (hp : p.Sound) : p.Flushed q where
  list := h.list
  clone := h.clone
  pageKey := fun _ hi => (h.same hp hi).pageKey
  refCount := fun _ hi => (h.same hp hi).refCount
  mark := fun _ hi => Or.inl (h.same hp hi).mark

/- The buffers are for the same pages and marked as before. -/
structure Alike (p q : BufPool) : Prop where
  list : q.list.Perm p.list
  clone : q.clone = p.clone
  dirty : ∀ slot, (q.group slot).dirty = (p.group slot).dirty
  count : ∀ slot, (q.group slot).count = (p.group slot).count
  pageKey : ∀ i ∈ p.list,
    (q.entry i).pageKey = (p.entry i).pageKey
  mark : ∀ i ∈ p.list, (q.entry i).mark = (p.entry i).mark
  free : ∀ i ∈ p.clone, (p.entry i).mark = .empty →
    (q.entry i).mark = .empty

theorem Alike.sound
    (h : p.Alike q)
    (hp : p.Sound) : q.Sound := by
  have hMem : ∀ i, i ∈ q.list ↔ i ∈ p.list :=
    fun i => h.list.mem_iff
  have hMark : ∀ slot, ∀ i ∈ (p.group slot).dirty,
      (q.entry i).mark = (p.entry i).mark :=
    fun slot i hi => h.mark i (hp.linked slot i hi).1
  have hKey : ∀ slot, ∀ i ∈ (p.group slot).dirty,
      (q.entry i).groupKey = (p.entry i).groupKey := by
    intro slot i hi
    apply Buf.groupKey_congr
    exact h.pageKey i (hp.linked slot i hi).1
  constructor
  · rw [h.clone]
    exact (h.list.append_right p.clone).trans hp.perm
  · intro i hi
    rw [h.clone] at hi
    exact h.free i hi (hp.free i hi)
  · intro slot
    rw [h.dirty]
    exact hp.slots slot
  · intro slot
    rw [h.dirty]
    exact hp.nodup slot
  · intro slot
    rw [h.dirty, h.count]
    exact hp.count slot
  · intro slot i hi
    rw [h.dirty] at hi
    rw [hMem, hMark slot i hi]
    exact hp.linked slot i hi
  · intro i hi hDirty
    rw [hMem] at hi
    rw [h.mark i hi] at hDirty
    rcases hp.dirty i hi hDirty with ⟨slot, hSlot⟩
    refine ⟨slot, ?_⟩
    rw [h.dirty]
    exact hSlot
  · intro slot i hi j hj
    rw [h.dirty] at hi hj
    rw [hKey slot i hi, hKey slot j hj]
    exact hp.sameKey slot i hi j hj
  · intro slot i hi slot' j hj
    rw [h.dirty] at hi hj
    rw [hKey slot i hi, hKey slot' j hj]
    exact hp.sameSlot slot i hi slot' j hj
  · intro i hi j hj
    rw [hMem] at hi hj
    rw [h.mark i hi, h.mark j hj, h.pageKey i hi,
      h.pageKey j hj]
    exact hp.pages i hi j hj

theorem Shuffled.alike
    (h : p.Shuffled q)
    (hp : p.Sound) : p.Alike q where
  list := h.list
  clone := h.clone
  dirty := fun slot => by rw [h.group]
  count := fun slot => by rw [h.group]
  pageKey := fun _ hi => (h.same hp hi).pageKey
  mark := fun _ hi => (h.same hp hi).mark
  free := h.free

theorem Shuffled.sound
    (h : p.Shuffled q)
    (hp : p.Sound) : q.Sound :=
  (h.alike hp).sound hp

end BufPool

instance : IsPreorder Dev Flushes where
  refl s := fun hs _ => ⟨hs, BufPool.Flushed.refl s.buf⟩
  trans _ _ _ h h' hs hFew := by
    have hFirst := h hs hFew
    have hNext := h' hFirst.1 (hFirst.2.few hFew)
    exact ⟨hNext.1, hFirst.2.trans hNext.2⟩

theorem Shuffles.flushes
    {s t : Dev}
    (h : Shuffles s t) : Flushes s t := by
  intro hs _
  have hShuffled := h hs.apart
  exact ⟨hShuffled.sound hs, hShuffled.flushed hs⟩

theorem Shuffles.within_flushes
    {ok : Event → Prop}
    {α : Type}
    {m : M α}
    (h : Within ok Shuffles m) : Within ok Flushes m :=
  h.mono fun _ _ => Shuffles.flushes

------------------------------------------------------------
-- Dirty Groups
------------------------------------------------------------

namespace BufPool

variable {p : BufPool} {parent serial slot i : Nat}

theorem findGroupSlot_some
    (h : p.findGroupSlot parent serial = some slot) :
    slot < dirtyGroups ∧
      ∃ j ∈ (p.group slot).dirty,
        (p.entry j).groupKey = (parent, serial) := by
  unfold findGroupSlot at h
  have hMem := List.mem_of_find?_eq_some h
  have hTest := List.find?_some h
  refine ⟨List.mem_range.mp hMem, ?_⟩
  cases hDirty : (p.group slot).dirty with
  | nil =>
      rw [hDirty] at hTest
      cases hTest
  | cons j rest =>
      rw [hDirty] at hTest
      simp only [Bool.and_eq_true, beq_iff_eq] at hTest
      refine ⟨j, List.mem_cons_self, ?_⟩
      unfold Buf.groupKey
      rw [hTest.1, hTest.2]

theorem Sound.findGroupSlot_none
    (h : p.Sound)
    (hNone : p.findGroupSlot parent serial = none) :
    ∀ slot, ∀ j ∈ (p.group slot).dirty,
      (p.entry j).groupKey ≠ (parent, serial) := by
  intro slot j hj hKey
  unfold findGroupSlot at hNone
  have hSlot : slot < dirtyGroups := by
    apply h.slots slot
    exact List.ne_nil_of_mem hj
  have hTest := List.find?_eq_none.mp hNone slot
    (List.mem_range.mpr hSlot)
  cases hDirty : (p.group slot).dirty with
  | nil =>
      rw [hDirty] at hj
      cases hj
  | cons k rest =>
      have hk : k ∈ (p.group slot).dirty := by
        rw [hDirty]
        exact List.mem_cons_self
      have hSame := (h.sameKey slot k hk j hj).trans hKey
      unfold Buf.groupKey at hSame
      rw [Prod.mk.injEq] at hSame
      apply hTest
      rw [hDirty]
      simp [hSame.1, hSame.2]

/- The group of a dirty buffer is found by its key. -/
theorem Sound.findGroupSlot_eq
    (h : p.Sound)
    (hi : i ∈ (p.group slot).dirty) :
    p.findGroupSlot (p.entry i).parent (p.entry i).serial =
      some slot := by
  cases hFind : p.findGroupSlot (p.entry i).parent
      (p.entry i).serial with
  | none =>
      exact absurd rfl
        (h.findGroupSlot_none hFind slot i hi)
  | some slot' =>
      rcases (findGroupSlot_some hFind).2 with ⟨j, hj, hKey⟩
      rw [h.sameSlot slot i hi slot' j hj hKey.symm]

/- Buffer `d` is taken off a dirty list and changed. -/
def clean
    (p : BufPool)
    (slot d : Nat)
    (f : Buf → Buf) : BufPool :=
  { p with
    group := upd p.group slot
      { p.group slot with
        dirty := (p.group slot).dirty.erase d
        count := (p.group slot).count - 1 }
    entry := upd p.entry d (f (p.entry d)) }

theorem clean_mem_dirty
    {f : Buf → Buf}
    {d slot' : Nat}
    (h : p.Sound) :
    i ∈ ((p.clean slot d f).group slot').dirty →
      i ∈ (p.group slot').dirty ∧
        (d ∈ (p.group slot).dirty → i ≠ d) := by
  intro hi
  unfold clean at hi
  dsimp only at hi
  by_cases hSlot : slot' = slot
  · subst hSlot
    rw [upd_same] at hi
    have hErase := (h.nodup slot').mem_erase_iff.mp hi
    exact ⟨hErase.2, fun _ => hErase.1⟩
  · rw [upd_other _ _ hSlot] at hi
    refine ⟨hi, ?_⟩
    intro hd hEq
    subst hEq
    exact hSlot (h.sameSlot slot' i hi slot i hd rfl)

/- A buffer that is taken off its dirty list and cleaned. -/
theorem Sound.clean
    {f : Buf → Buf}
    {d : Nat}
    (h : p.Sound)
    (hd : d ∈ (p.group slot).dirty)
    (hKey : ∀ b, (f b).pageKey = b.pageKey)
    (hMark : ∀ b, (f b).mark ≠ .dirty) :
    (p.clean slot d f).Sound := by
  have hList := (h.linked slot d hd).1
  have hEntry : ∀ j, j ≠ d →
      (p.clean slot d f).entry j = p.entry j :=
    fun j hj => upd_other _ _ hj
  have hChanged : (p.clean slot d f).entry d =
      f (p.entry d) :=
    upd_same _ _ _
  have hPage : ∀ j, ((p.clean slot d f).entry j).pageKey =
      (p.entry j).pageKey := by
    intro j
    by_cases hj : j = d
    · rw [hj, hChanged, hKey]
    · rw [hEntry j hj]
  have hMarks : ∀ j,
      ((p.clean slot d f).entry j).mark ≠ .empty →
        (p.entry j).mark ≠ .empty := by
    intro j hj
    by_cases hjd : j = d
    · rw [hjd, (h.linked slot d hd).2]
      exact BufMark.noConfusion
    · rw [hEntry j hjd] at hj
      exact hj
  have hDirty : ∀ slot' j,
      j ∈ ((p.clean slot d f).group slot').dirty →
        j ∈ (p.group slot').dirty ∧ j ≠ d := by
    intro slot' j hj
    have hMem := clean_mem_dirty h hj
    exact ⟨hMem.1, hMem.2 hd⟩
  constructor
  · exact h.perm
  · intro j hj
    have hjd : j ≠ d := by
      intro hEq
      rw [hEq] at hj
      exact h.not_free hList hj
    rw [hEntry j hjd]
    exact h.free j hj
  · intro slot' hNil
    rcases List.exists_mem_of_ne_nil _ hNil with ⟨j, hj⟩
    apply h.slots slot'
    exact List.ne_nil_of_mem (hDirty slot' j hj).1
  · intro slot'
    unfold BufPool.clean
    dsimp only
    by_cases hSlot : slot' = slot
    · subst hSlot
      rw [upd_same]
      exact (h.nodup slot').erase d
    · rw [upd_other _ _ hSlot]
      exact h.nodup slot'
  · intro slot'
    unfold BufPool.clean
    dsimp only
    by_cases hSlot : slot' = slot
    · subst hSlot
      rw [upd_same]
      dsimp only
      rw [h.count slot', List.length_erase_of_mem hd]
      have hPos := List.length_pos_of_mem hd
      omega
    · rw [upd_other _ _ hSlot]
      exact h.count slot'
  · intro slot' j hj
    rcases hDirty slot' j hj with ⟨hOld, hjd⟩
    rw [hEntry j hjd]
    exact h.linked slot' j hOld
  · intro j hj hMarked
    by_cases hjd : j = d
    · rw [hjd, hChanged] at hMarked
      exact absurd hMarked (hMark _)
    · rw [hEntry j hjd] at hMarked
      rcases h.dirty j hj hMarked with ⟨slot', hOld⟩
      refine ⟨slot', ?_⟩
      unfold BufPool.clean
      dsimp only
      by_cases hSlot : slot' = slot
      · subst hSlot
        rw [upd_same]
        exact (List.mem_erase_of_ne hjd).mpr hOld
      · rw [upd_other _ _ hSlot]
        exact hOld
  · intro slot' j hj k hk
    rcases hDirty slot' j hj with ⟨hOldJ, hjd⟩
    rcases hDirty slot' k hk with ⟨hOldK, hkd⟩
    rw [hEntry j hjd, hEntry k hkd]
    exact h.sameKey slot' j hOldJ k hOldK
  · intro slot' j hj slot'' k hk
    rcases hDirty slot' j hj with ⟨hOldJ, hjd⟩
    rcases hDirty slot'' k hk with ⟨hOldK, hkd⟩
    rw [hEntry j hjd, hEntry k hkd]
    exact h.sameSlot slot' j hOldJ slot'' k hOldK
  · intro j hj k hk hMarkJ hMarkK
    rw [hPage j, hPage k]
    exact h.pages j hj k hk (hMarks j hMarkJ) (hMarks k hMarkK)

theorem Flushed.of_clean
    {f : Buf → Buf}
    {d : Nat}
    (h : p.Sound)
    (hd : d ∈ (p.group slot).dirty)
    (hKey : ∀ b, (f b).pageKey = b.pageKey)
    (hRef : ∀ b, (f b).refCount = b.refCount)
    (hMark : ∀ b, (f b).mark = .valid) :
    p.Flushed (p.clean slot d f) := by
  have hEntry : ∀ j, j ≠ d →
      (p.clean slot d f).entry j = p.entry j :=
    fun j hj => upd_other _ _ hj
  have hChanged : (p.clean slot d f).entry d =
      f (p.entry d) :=
    upd_same _ _ _
  constructor
  · exact List.Perm.refl _
  · rfl
  · intro i _
    by_cases hi : i = d
    · rw [hi, hChanged, hKey]
    · rw [hEntry i hi]
  · intro i _
    by_cases hi : i = d
    · rw [hi, hChanged, hRef]
    · rw [hEntry i hi]
  · intro i _
    by_cases hi : i = d
    · rw [hi, hChanged]
      exact Or.inr ⟨(h.linked slot d hd).2, hMark _⟩
    · rw [hEntry i hi]
      exact Or.inl rfl

/- Buffer `i` is the first of the list now. -/
omit [Platform] in
theorem Shuffled.toHead
    (hi : i ∈ p.list) :
    p.Shuffled { p with list := i :: p.list.erase i } where
  list := (List.perm_cons_erase hi).symm
  clone := rfl
  group := rfl
  entry := fun _ _ => Buf.Same.refl _
  free := fun _ _ => id

end BufPool

section Cleaning

variable {ok : Event → Prop}

omit [Platform] in
theorem wlp_moveNodeToHead
    {s : Dev}
    {i : Nat}
    (hi : i ∈ s.buf.list) :
    wlp ok (moveNodeToHead i) (fun _ t => Shuffles s t) s := by
  unfold moveNodeToHead
  rw [wlp_modify]
  intro _
  exact BufPool.Shuffled.toHead hi

/- A dirty buffer is always taken off its list. -/
theorem wlp_breakFromDirty
    {s : Dev}
    {slot d : Nat}
    (hs : s.buf.Sound)
    (hd : d ∈ (s.buf.group slot).dirty) :
    wlp ok (breakFromDirty d)
      (fun r t => r = .succ ∧
        t.buf = s.buf.clean slot d id) s := by
  unfold breakFromDirty getBuf bufFindGroupSlot setGroup
  rw [wlp_bind, wlp_gets]
  split
  · rename_i hMark
    exact absurd (hs.linked slot d hd).2 hMark
  · rw [wlp_bind, wlp_gets, hs.findGroupSlot_eq hd]
    dsimp only
    rw [wlp_bind, wlp_modify, wlp_pure]
    refine ⟨rfl, ?_⟩
    unfold BufPool.clean
    dsimp only [id]
    congr 1
    funext j
    unfold upd
    split
    · rename_i hj
      rw [hj]
    · rfl

omit [Platform] in
theorem BufPool.clean_clean
    (p : BufPool)
    (slot d : Nat)
    (f : Buf → Buf) :
    { p.clean slot d id with
      entry := upd (p.clean slot d id).entry d
        (f ((p.clean slot d id).entry d)) } =
      p.clean slot d f := by
  unfold BufPool.clean
  dsimp only [id]
  congr 1
  funext j
  unfold upd
  split
  · rw [if_pos rfl]
  · rfl

/- A buffer that is off its dirty list is clean. -/
theorem wlp_cleaned
    {α : Type}
    {m : M α}
    {Q : α → Dev → Prop}
    {s t : Dev}
    {slot d : Nat}
    {f : Buf → Buf}
    (hs : s.buf.Sound)
    (hd : d ∈ (s.buf.group slot).dirty)
    (ht : t.buf = s.buf.clean slot d id)
    (hKey : ∀ b, (f b).pageKey = b.pageKey)
    (hRef : ∀ b, (f b).refCount = b.refCount)
    (hMark : ∀ b, (f b).mark = .valid)
    (hNext : ∀ u, u.buf.Sound → s.buf.Flushed u.buf →
      wlp ok m Q u) :
    wlp ok (do
      setBuf d f
      moveNodeToHead d
      m) Q t := by
  unfold setBuf
  rw [wlp_bind, wlp_modify, wlp_bind, ht, BufPool.clean_clean]
  have hSound := hs.clean hd hKey fun b hDirty => by
    rw [hMark b] at hDirty
    cases hDirty
  have hFlushed := BufPool.Flushed.of_clean hs hd hKey hRef hMark
  have hMem : d ∈ (s.buf.clean slot d f).list :=
    (hs.linked slot d hd).1
  refine wlp_mono (wlp_moveNodeToHead hMem) ?_
  intro _ u hu
  have hShuffled := hu hSound.apart
  apply hNext u (hShuffled.sound hSound)
  exact hFlushed.trans (hShuffled.flushed hSound)

theorem flushes_cleanDirtyFrom
    (slot n : Nat) :
    ∀ i, Within ok Flushes (cleanDirtyFrom slot n i) := by
  induction n with
  | zero =>
      intro i
      exact Within.pure _
  | succ n ih =>
      intro i s
      unfold cleanDirtyFrom findBufInDirtyList
      rw [wlp_bind, wlp_gets]
      cases hFind : (s.buf.group slot).dirty.find? fun d =>
          (s.buf.entry d).pageId == i with
      | none => exact ih _ s
      | some d =>
          have hd := List.mem_of_find?_eq_some hFind
          by_cases hs : s.buf.Sound
          · dsimp only
            rw [wlp_bind]
            refine wlp_mono (wlp_breakFromDirty hs hd) ?_
            intro r t ht
            cases ht.1
            refine wlp_cleaned hs hd ht.2 ?_ ?_ ?_ ?_
            · exact fun _ => rfl
            · exact fun _ => rfl
            · exact fun _ => rfl
            · intro u hSound hFlushed
              refine wlp_mono (ih (i + 1) u) ?_
              intro _ v hv _ hFew
              have hNext := hv hSound (hFlushed.few hFew)
              exact ⟨hNext.1, hFlushed.trans hNext.2⟩
          · intro _ _ t _ _ hSound
            exact absurd hSound hs

end Cleaning

------------------------------------------------------------
-- Holding a Buffer
------------------------------------------------------------

/- Buffer `d` is held once more. -/
structure BufPool.Taken (d : Nat) (p q : BufPool) : Prop where
  mem : d ∈ p.list
  list : q.list.Perm p.list
  clone : q.clone = p.clone
  group : q.group = p.group
  entry : ∀ i ∉ p.clone, i ≠ d →
    (p.entry i).Same (q.entry i)
  pageKey : (q.entry d).pageKey = (p.entry d).pageKey
  mark : (q.entry d).mark = (p.entry d).mark
  refCount : (q.entry d).refCount = (p.entry d).refCount + 1
  free : ∀ i ∈ p.clone, (p.entry i).mark = .empty →
    (q.entry i).mark = .empty

namespace BufPool

variable {p q r : BufPool} {d : Nat}

omit [Platform]

theorem Taken.apart
    (h : p.Taken d q)
    (hp : p.Apart) : q.Apart := by
  unfold BufPool.Apart
  rw [h.clone, (h.list.append_right p.clone).nodup_iff]
  exact hp

theorem Taken.not_free
    (h : p.Taken d q)
    (hp : p.Apart) : d ∉ p.clone := by
  intro hFree
  unfold BufPool.Apart at hp
  exact (List.nodup_append.mp hp).2.2 d h.mem d hFree rfl

theorem Taken.shuffle
    (h : p.Taken d q)
    (hp : p.Apart)
    (h' : q.Shuffled r) : p.Taken d r := by
  have hSame : ∀ i ∉ p.clone,
      (q.entry i).Same (r.entry i) := by
    intro i hi
    apply h'.entry i
    rw [h.clone]
    exact hi
  have hd := hSame d (h.not_free hp)
  constructor
  · exact h.mem
  · exact h'.list.trans h.list
  · exact h'.clone.trans h.clone
  · exact h'.group.trans h.group
  · intro i hi hid
    exact (h.entry i hi hid).trans (hSame i hi)
  · exact hd.pageKey.trans h.pageKey
  · exact hd.mark.trans h.mark
  · exact hd.refCount.trans h.refCount
  · intro i hi hEmpty
    apply h'.free i
    · rw [h.clone]
      exact hi
    · exact h.free i hi hEmpty

end BufPool

section Holding

variable {ok : Event → Prop}

omit [Platform] in
theorem wlp_bufGet_taken
    (parent serial pageId : Nat)
    (s : Dev) :
    wlp ok (bufGet parent serial pageId)
      (fun o t =>
        match o with
        | none =>
            t = s ∧ s.buf.find parent serial pageId = none
        | some d =>
            s.buf.find parent serial pageId = some d ∧
              (s.buf.Apart → s.buf.Taken d t.buf)) s := by
  unfold bufGet bufFind
  rw [wlp_bind, wlp_gets]
  cases hFind : s.buf.find parent serial pageId with
  | none =>
      rw [wlp_pure]
      exact ⟨rfl, rfl⟩
  | some d =>
      have hMem := List.mem_of_find?_eq_some hFind
      unfold setBuf moveNodeToHead
      dsimp only
      rw [wlp_bind, wlp_modify, wlp_bind, wlp_modify, wlp_pure]
      refine ⟨rfl, ?_⟩
      intro hs
      have hFree : d ∉ s.buf.clone := by
        intro hFree
        unfold BufPool.Apart at hs
        exact (List.nodup_append.mp hs).2.2 d hMem d hFree rfl
      constructor
      · exact hMem
      · exact (List.perm_cons_erase hMem).symm
      · rfl
      · rfl
      · intro i _ hid
        dsimp only
        rw [upd_other _ _ hid]
        exact Buf.Same.refl _
      · dsimp only
        rw [upd_same]
        rfl
      · dsimp only
        rw [upd_same]
      · dsimp only
        rw [upd_same]
      · intro i hi hEmpty
        have hid : i ≠ d := by
          intro hEq
          rw [hEq] at hi
          exact hFree hi
        dsimp only
        rw [upd_other _ _ hid]
        exact hEmpty

/- The buffer is held no more. -/
omit [Platform] in
theorem wlp_bufPut_taken
    {s t : Dev}
    {d : Nat}
    (hs : s.buf.Apart)
    (hFew : s.buf.Few)
    (h : s.buf.Taken d t.buf) :
    wlp ok (bufPut d)
      (fun _ u => s.buf.Shuffled u.buf) t := by
  have hRef := h.refCount
  have hLt := hFew d h.mem
  unfold bufPut getBuf setBuf
  rw [wlp_bind, wlp_gets]
  split
  · omega
  split
  · omega
  rw [wlp_bind, wlp_modify, wlp_pure]
  constructor
  · exact h.list
  · exact h.clone
  · exact h.group
  · intro i hi
    dsimp only
    by_cases hid : i = d
    · rw [hid, upd_same]
      refine ⟨h.pageKey, h.mark, ?_⟩
      dsimp only
      omega
    · rw [upd_other _ _ hid]
      exact h.entry i hi hid
  · intro i hi hEmpty
    have hid : i ≠ d := by
      intro hEq
      rw [hEq] at hi
      exact h.not_free hs hi
    dsimp only
    rw [upd_other _ _ hid]
    exact h.free i hi hEmpty

/-
  A buffer that a block recover writes from: a clone or one
  that is held.
-/
def Borrows (clone : Bool) (d : Nat) (s t : Dev) : Prop :=
  if clone then s.buf.Lent d t.buf else s.buf.Taken d t.buf

omit [Platform] in
theorem Borrows.shuffle
    {clone : Bool}
    {d : Nat}
    {s t u : Dev}
    (h : Borrows clone d s t)
    (hs : s.buf.Apart)
    (h' : Shuffles t u) : Borrows clone d s u := by
  cases clone with
  | true =>
      have hLends : Lends d s t := fun _ => h
      exact hLends.shuffle h' hs
  | false =>
      have hTaken : s.buf.Taken d t.buf := h
      exact hTaken.shuffle hs (h' (hTaken.apart hs))

omit [Platform] in
theorem Borrows.giveBack
    {clone : Bool}
    {d : Nat}
    {s t : Dev}
    (h : Borrows clone d s t)
    (hs : s.buf.Apart)
    (hFew : s.buf.Few) :
    (clone = true → wlp ok (bufFreeClone d)
      (fun _ u => s.buf.Shuffled u.buf) t) ∧
    (clone = false → wlp ok (bufPut d)
      (fun _ u => s.buf.Shuffled u.buf) t) := by
  constructor
  · intro hClone
    subst hClone
    have hLends : Lends d s t := fun _ => h
    refine wlp_mono hLends.giveBack ?_
    intro _ u hu
    exact hu hs
  · intro hClone
    subst hClone
    exact wlp_bufPut_taken hs hFew h

theorem wlp_recoverSource_borrows
    {s : Dev}
    (key : GroupKey)
    (bc page i : Nat)
    (hs : s.buf.Apart) :
    wlp ok (recoverSource key bc page i)
      (fun o t =>
        match o with
        | none => s.buf.Shuffled t.buf
        | some (d, clone) => Borrows clone d s t) s := by
  unfold recoverSource getTag
  rw [wlp_bind, wlp_gets, wlp_bind]
  refine wlp_mono
    (wlp_bufGet_taken key.parent key.serial i s) ?_
  intro o t ht
  cases o with
  | some b =>
      rw [wlp_pure]
      exact ht.2 hs
  | none =>
      cases ht.1
      dsimp only
      rw [wlp_bind]
      refine wlp_mono (wlp_bufClone_lends s) ?_
      intro o u hu
      cases o with
      | none =>
          rw [wlp_pure]
          exact hu hs
      | some b =>
          have hEnd : ∀ {f : Buf → Buf} v, Lends b s v →
              (∀ x, (f x).refCount = x.refCount) →
              wlp ok (do
                  setBuf b f
                  pure (some (b, true)))
                (fun o t =>
                  match o with
                  | none => s.buf.Shuffled t.buf
                  | some (d, clone) => Borrows clone d s t)
                v := by
            intro f v hv hRef
            rw [wlp_bind]
            refine wlp_mono (hv.setBuf hRef) ?_
            intro _ w hw
            rw [wlp_pure]
            exact hw hs
          unfold getInfo
          dsimp only at hu ⊢
          rw [wlp_bind, wlp_gets, wlp_bind]
          refine wlp_mono (shuffles_flashReadPage _ _ b _ u) ?_
          intro ret v hv
          rw [wlp_bind]
          refine wlp_mono
            (shuffles_badBlockAddByFlashResult _ _ v) ?_
          intro mark w hw
          have hLent := (hu.shuffle hv).shuffle hw
          cases mark with
          | some mark => exact hEnd w hLent fun _ => rfl
          | none =>
              dsimp only
              split
              · rw [wlp_bind]
                refine wlp_mono hLent.giveBack ?_
                intro _ x hx
                rw [wlp_pure]
                exact hx hs
              · exact hEnd w hLent fun _ => rfl

end Holding

------------------------------------------------------------
-- Block Recovers
------------------------------------------------------------

omit [Platform] in
theorem BufPool.Shuffled.few
    {p q : BufPool}
    (h : p.Shuffled q)
    (hp : p.Apart)
    (hFew : p.Few) : q.Few := by
  intro i hi
  have hMem := h.list.mem_iff.mp hi
  have hFree : i ∉ p.clone := by
    intro hFree
    unfold BufPool.Apart at hp
    exact (List.nodup_append.mp hp).2.2 i hMem i hFree rfl
  rw [(h.entry i hFree).refCount]
  exact hFew i hMem

section Recovering

variable {ok : Event → Prop}

theorem wlp_recoverFrom_shuffled
    (slot : Nat)
    (key : GroupKey)
    (bc newBc newBlock timeStamp n : Nat) :
    ∀ i sum s, s.buf.Apart → s.buf.Few →
      wlp ok
        (recoverFrom slot key bc newBc newBlock timeStamp n i
          sum)
        (fun _ t => s.buf.Shuffled t.buf) s := by
  have hBlocks : BlockLayer ok Shuffles := blockLayer_shuffles
  induction n with
  | zero =>
      intro i sum s _ _
      unfold recoverFrom
      rw [wlp_pure]
      exact BufPool.Shuffled.refl s.buf
  | succ n ih =>
      intro i sum s hs hFew
      have hNext : ∀ k (u : Dev), s.buf.Shuffled u.buf →
          wlp ok
            (recoverFrom slot key bc newBc newBlock timeStamp n
              (i + 1) k)
            (fun _ t => s.buf.Shuffled t.buf) u := by
        intro k u hu
        refine wlp_mono
          (ih (i + 1) k u (hu.apart hs) (hu.few hs hFew)) ?_
        intro _ t ht
        exact hu.trans ht
      have hPure : ∀ (r : Recovery) (u : Dev),
          s.buf.Shuffled u.buf →
          wlp ok (pure r)
            (fun _ t => s.buf.Shuffled t.buf) u := by
        intro r u hu
        rw [wlp_pure]
        exact hu
      have hWith : ∀ {t u : Dev}, s.buf.Shuffled t.buf →
          Shuffles t u → s.buf.Shuffled u.buf := by
        intro t u ht hu
        exact ht.trans (hu (ht.apart hs))
      unfold recoverFrom getTag findBufInDirtyList getBuf setTag
      rw [wlp_bind, wlp_gets]
      dsimp only
      rw [wlp_bind]
      refine wlp_mono (shuffles_setInfo newBc _ s) ?_
      intro _ t ht
      have hst : s.buf.Shuffled t.buf := ht hs
      rw [wlp_bind, wlp_gets]
      split
      · -- the page is dirty
        rename_i d _
        rw [wlp_bind, wlp_gets, wlp_bind]
        refine wlp_mono (shuffles_setInfo newBc _ t) ?_
        intro _ u hu
        have hsu := hWith hst hu
        split
        · split
          · rw [wlp_bind]
            refine wlp_mono
              (shuffles_flashWritePageCombine _ _ d _ u) ?_
            intro op v hv
            exact hPure _ v (hWith hsu hv)
          · have hDropped : Within ok Shuffles
                (noteDropped slot i) :=
              BlockLayer.noteWhen _ _
            generalize (if i = 0 then
              getDirOrFileNameSum (t.buf.entry d)
              else sum) = sum'
            split
            · rw [wlp_bind]
              refine wlp_mono (hDropped u) ?_
              intro _ v hv
              exact hPure _ v (hWith hsu hv)
            · exact hPure _ u hsu
        · rw [wlp_bind]
          refine wlp_mono
            (shuffles_flashWritePageCombine _ _ d _ u) ?_
          intro op v hv
          have hsv := hWith hsu hv
          split
          · exact hPure _ v hsv
          · exact hNext _ v hsv
      · -- the page comes from the old block
        rw [wlp_bind]
        refine wlp_mono
          (hBlocks.findPageInBlockWithPageId bc i t) ?_
        intro o u hu
        have hsu := hWith hst hu
        cases o with
        | none =>
            have hDropped : Within ok Shuffles
                (noteDropped slot i) :=
              BlockLayer.noteWhen _ _
            dsimp only
            rw [wlp_bind]
            refine wlp_mono (hDropped u) ?_
            intro _ v hv
            exact hPure _ v (hWith hsu hv)
        | some page =>
        dsimp only
        rw [wlp_bind]
        refine wlp_mono (hBlocks.findBestPageInBlock bc page u)
          ?_
        intro o v hv
        have hsv := hWith hsu hv
        cases o with
        | none => exact hPure _ v hsv
        | some page =>
        dsimp only
        rw [wlp_bind]
        refine wlp_mono (wlp_recoverSource_borrows key bc page i
          (hsv.apart hs)) ?_
        intro o w hw
        rcases o with _ | ⟨d, clone⟩
        · exact hPure _ w (hsv.trans hw)
        have hvs := hsv.apart hs
        have hBorrow : Borrows clone d v w := hw
        dsimp only
        rw [wlp_bind]
        have hCut : Within ok Shuffles (setBuf d fun x =>
            { x with dataLen := min x.dataLen pgDataSize }) :=
          shuffles_setBuf d fun _ => ⟨rfl, rfl, rfl⟩
        refine wlp_mono (hCut w) ?_
        intro _ x hx
        have hBorrow := hBorrow.shuffle hvs hx
        rw [wlp_bind, wlp_gets, wlp_bind]
        refine wlp_mono (shuffles_setInfo newBc _ x) ?_
        intro _ y hy
        have hBorrow := hBorrow.shuffle hvs hy
        rw [wlp_bind]
        refine wlp_mono
          (shuffles_flashWritePageCombine _ _ d _ y) ?_
        intro op z hz
        have hBorrow := hBorrow.shuffle hvs hz
        have hFewV := hsv.few hs hFew
        generalize (if i = 0 then
          getDirOrFileNameSum (x.buf.entry d) else sum) = sum'
        have hRest : ∀ z' : Dev, v.buf.Shuffled z'.buf →
            wlp ok
              (if op ≠ .noErr then
                pure
                  { page := i, op := op
                    succ := false, sum := sum' }
              else
                recoverFrom slot key bc newBc newBlock
                  timeStamp n (i + 1) sum')
              (fun _ t => s.buf.Shuffled t.buf) z' := by
          intro z' hz'
          split
          · exact hPure _ z' (hsv.trans hz')
          · exact hNext _ z' (hsv.trans hz')
        cases clone with
        | true =>
            rw [if_pos rfl, wlp_bind]
            refine wlp_mono
              ((hBorrow.giveBack hvs hFewV).1 rfl) ?_
            intro _ z' hz'
            exact hRest z' hz'
        | false =>
            rw [if_neg Bool.noConfusion, wlp_bind]
            refine wlp_mono
              ((hBorrow.giveBack hvs hFewV).2 rfl) ?_
            intro _ z' hz'
            exact hRest z' hz'

theorem blockLayer_flushes : BlockLayer ok Flushes :=
  blockLayer_shuffles.mono fun _ _ => Shuffles.flushes

theorem flushLayer_flushes : FlushLayer ok Flushes where
  toBlockLayer := blockLayer_flushes
  pendingRemove b :=
    Shuffles.within_flushes (shuffles_badBlockPendingRemove b)
  cleanDirty := flushes_cleanDirtyFrom

theorem flushes_recoverFrom
    (slot : Nat)
    (key : GroupKey)
    (bc newBc newBlock timeStamp n i sum : Nat) :
    Within ok Flushes
      (recoverFrom slot key bc newBc newBlock timeStamp n i
        sum) := by
  intro s
  by_cases hs : s.buf.Sound ∧ s.buf.Few
  · refine wlp_mono (wlp_recoverFrom_shuffled slot key bc newBc
      newBlock timeStamp n i sum s hs.1.apart hs.2) ?_
    intro _ t ht hSound _
    exact ⟨ht.sound hSound, ht.flushed hSound⟩
  · intro _ _ t _ _ hSound hFew
    exact absurd ⟨hSound, hFew⟩ hs

theorem flushes_recoverOnce
    (slot : Nat)
    (key : GroupKey)
    (node bc : Nat)
    (badBlock : Bool)
    {retry : M URet}
    (hRetry : Within ok Flushes retry) :
    Within ok Flushes
      (recoverOnce slot key node bc badBlock retry) := by
  have hFlush : FlushLayer ok Flushes := flushLayer_flushes
  have hEnd := hFlush.recoverEnd slot key node bc
  unfold recoverOnce blockInfoExpire
  apply Within.bind (hFlush.infoLoadAll bc)
  intro _
  apply Within.bind hFlush.treeGetErasedNode
  intro o
  cases o with
  | none => exact Within.pure _
  | some newNode =>
  apply Within.bind (Within.gets _)
  intro n
  apply Within.bind (hFlush.infoGet _)
  intro o
  cases o with
  | none =>
      apply Within.bind (hFlush.insertToErasedListHead _)
      intro _
      exact Within.pure _
  | some newBc =>
  apply Within.bind (hFlush.infoLoadAll newBc)
  intro _
  apply Within.bind (hFlush.getBlockTimeStamp bc)
  intro timeStamp
  apply Within.bind (flushes_recoverFrom _ _ _ _ _ _ _ _ _)
  intro r
  apply Within.ite
  · apply Within.bind
      (Shuffles.within_flushes (shuffles_setInfo newBc _))
    intro _
    exact hEnd _ _ _ _ r hRetry
  · exact hEnd _ _ _ _ r hRetry

theorem flushes_bufFlushExistWithBlockRecover
    (slot node bc : Nat)
    (badBlock : Bool) :
    Within ok Flushes
      (bufFlushExistWithBlockRecover slot node bc badBlock) :=
  by
  have hFuel : ∀ key fuel, Within ok Flushes
      (recoverFuel slot key node bc badBlock fuel) := by
    intro key fuel
    induction fuel with
    | zero =>
        exact flushes_recoverOnce slot key node bc badBlock
          Within.diverge
    | succ fuel ih =>
        exact flushes_recoverOnce slot key node bc badBlock ih
  apply BlockLayer.existWithBlockRecover
  · exact Shuffles.within_flushes (shuffles_modify fun _ => rfl)
  · intro key
    exact hFuel key _

------------------------------------------------------------
-- Flushing a Group
------------------------------------------------------------

omit [Platform] in
theorem BufPool.findMinimunPageId_mem
    {p : BufPool}
    {l : List Nat}
    {d : Nat}
    (h : p.findMinimunPageId l = some d) : d ∈ l := by
  cases l with
  | nil => cases h
  | cons i rest =>
      unfold BufPool.findMinimunPageId at h
      cases h
      have hFold : ∀ (l : List Nat) best,
          l.foldl
              (fun best j =>
                if (p.entry j).pageId < (p.entry best).pageId
                then j else best)
              best = best ∨
            l.foldl
              (fun best j =>
                if (p.entry j).pageId < (p.entry best).pageId
                then j else best)
              best ∈ l := by
        intro l
        induction l with
        | nil =>
            intro best
            exact Or.inl rfl
        | cons j rest ih =>
            intro best
            rw [List.foldl_cons]
            split
            · rcases ih j with hEq | hMem
              · rw [hEq]
                exact Or.inr List.mem_cons_self
              · exact Or.inr (List.mem_cons_of_mem _ hMem)
            · rcases ih best with hEq | hMem
              · exact Or.inl hEq
              · exact Or.inr (List.mem_cons_of_mem _ hMem)
      rcases hFold rest i with hEq | hMem
      · rw [hEq]
        exact List.mem_cons_self
      · exact List.mem_cons_of_mem _ hMem

/- One page of an append has been written. -/
theorem flushes_appended
    {slot d : Nat}
    {s : Dev}
    {m : M (Option URet)}
    (hd : d ∈ (s.buf.group slot).dirty)
    (hNext : Within ok Flushes m) :
    wlp ok (do
        match ← breakFromDirty d with
        | .succ =>
            setBuf d fun b => { b with mark := .valid }
            moveNodeToHead d
            m
        | .fail => m)
      (fun _ t => Flushes s t) s := by
  by_cases hs : s.buf.Sound
  · rw [wlp_bind]
    refine wlp_mono (wlp_breakFromDirty hs hd) ?_
    intro r t ht
    cases ht.1
    refine wlp_cleaned hs hd ht.2 ?_ ?_ ?_ ?_
    · exact fun _ => rfl
    · exact fun _ => rfl
    · exact fun _ => rfl
    · intro u hSound hFlushed
      refine wlp_mono (hNext u) ?_
      intro _ v hv _ hFew
      have hAll := hv hSound (hFlushed.few hFew)
      exact ⟨hAll.1, hFlushed.trans hAll.2⟩
  · intro _ _ t _ _ hSound
    exact absurd hSound hs

theorem flushes_enoughFrom
    (slot node bc n : Nat) :
    ∀ page, Within ok Flushes
      (enoughFrom slot node bc n page) := by
  have hBlocks : BlockLayer ok Flushes := blockLayer_flushes
  have hShuffle : BlockLayer ok Shuffles := blockLayer_shuffles
  induction n with
  | zero =>
      intro page
      exact Within.pure _
  | succ n ih =>
      intro page
      unfold enoughFrom findMinimunPageIdFromDirtyList getBuf
        getInfo setTag
      apply Within.bind (Within.gets _)
      intro g
      apply Within.ite (Within.pure _)
      apply Within.bind (hBlocks.findErasedPageFrom _ _ _)
      intro page
      apply Within.ite (Within.pure _)
      intro s
      rw [wlp_bind, wlp_gets]
      cases hMin : s.buf.findMinimunPageId
          (s.buf.group slot).dirty with
      | none =>
          rw [wlp_pure]
          exact refl_of Flushes s
      | some d =>
      have hMem := BufPool.findMinimunPageId_mem hMin
      have hTail : ∀ w, Shuffles s w →
          wlp ok (do
              match ← breakFromDirty d with
              | .succ =>
                  setBuf d fun b => { b with mark := .valid }
                  moveNodeToHead d
                  enoughFrom slot node bc n (page + 1)
              | .fail => enoughFrom slot node bc n (page + 1))
            (fun _ t => Flushes s t) w := by
        intro w hw
        by_cases hs : s.buf.Sound
        · have hGroup := (hw hs.apart).group
          have hd : d ∈ (w.buf.group slot).dirty := by
            rw [hGroup]
            exact hMem
          refine wlp_mono (flushes_appended hd (ih _)) ?_
          intro _ t ht
          exact trans_of Flushes hw.flushes ht
        · intro _ _ t _ _ hSound
          exact absurd hSound hs
      dsimp only
      rw [wlp_bind, wlp_gets, wlp_bind]
      refine wlp_mono (hShuffle.getBlockTimeStamp bc s) ?_
      intro blockTs t ht
      rw [wlp_bind]
      refine wlp_mono (shuffles_setInfo bc _ t) ?_
      intro _ u hu
      rw [wlp_bind, wlp_gets, wlp_bind]
      refine wlp_mono
        (shuffles_flashWritePageCombine _ _ d _ u) ?_
      intro x v hv
      rw [wlp_bind]
      refine wlp_mono (shuffles_noteNotStored _ _ _ v) ?_
      intro _ w hw
      have hsw : Shuffles s w :=
        trans_of Shuffles (trans_of Shuffles
          (trans_of Shuffles ht hu) hv) hw
      split
      · rw [wlp_pure]
        exact hsw.flushes
      split
      · rw [wlp_bind]
        refine wlp_mono (flushes_bufFlushExistWithBlockRecover
          slot node bc true w) ?_
        intro ret y hy
        rw [wlp_pure]
        exact trans_of Flushes hsw.flushes hy
      split
      · unfold note
        rw [wlp_bind, wlp_emit]
        intro _
        exact hTail w hsw
      · exact hTail w hsw

theorem flushes_bufFlushExist
    (slot node : Nat)
    (force : Bool) :
    Within ok Flushes (bufFlushExist slot node force) := by
  have hBlocks : BlockLayer ok Flushes := blockLayer_flushes
  have hPut : ∀ bc {m : M URet}, Within ok Flushes m →
      Within ok Flushes (do
        let ret ← m
        blockInfoPut bc
        pure ret) := by
    intro bc m hm
    apply Within.bind hm
    intro ret
    apply Within.bind (hBlocks.infoPut bc)
    intro _
    exact Within.pure _
  have hEnough : ∀ bc, Within ok Flushes
      (bufFlushExistWithEnoughFreePage slot node bc) := by
    intro bc
    unfold bufFlushExistWithEnoughFreePage
    apply Within.bind (flushes_enoughFrom _ _ _ _ _)
    intro o
    cases o with
    | some ret => exact Within.pure _
    | none =>
        apply Within.bind (Within.gets _)
        intro g
        exact Within.ite (Within.pure _) (Within.pure _)
  unfold bufFlushExist
  apply Within.bind (Within.gets _)
  intro n
  apply Within.bind (hBlocks.infoGet _)
  intro o
  cases o with
  | none => exact Within.pure _
  | some bc =>
  apply Within.bind (hBlocks.infoLoadAll bc)
  intro r
  cases r with
  | fail =>
      apply Within.bind (hBlocks.infoPut bc)
      intro _
      exact Within.pure _
  | succ =>
  apply Within.bind (hBlocks.getFreePagesCount bc)
  intro k
  apply Within.bind (Within.gets _)
  intro g
  dsimp only
  apply Within.ite
  · exact hPut bc (hEnough bc)
  · exact hPut bc
      (flushes_bufFlushExistWithBlockRecover slot node bc false)

theorem flushes_bufFlushSlot (force : Bool) (slot : Nat) :
    Within ok Flushes (bufFlushSlot force slot) := by
  apply BlockLayer.bufFlushSlot
  · apply blockLayer_flushes.bufFlushNewBlock
    intro node bc
    exact flushes_bufFlushExistWithBlockRecover _ _ _ _
  · intro node
    exact flushes_bufFlushExist slot node force

end Recovering

end Uffs
