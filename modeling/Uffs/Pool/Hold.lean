import Uffs.Pool.Flush

/-
  Getting, filling, writing and putting back page buffers,
  whatever the driver answers.

  Between operations no buffer is held.  An operation holds
  one buffer at a time, which no other buffer of the pool
  can be for the page of.

  Main declarations:
    * `BufPool.Idle`, `BufPool.Held`
    * `Idles`, `Holds`, `Opens`
    * `opens_bufNew`, `opens_bufGetEx`
    * `holds_bufWrite`, `wlp_bufPut_idle`
-/

namespace Uffs

open Prog

variable [Platform]

------------------------------------------------------------
-- Changing One Buffer
------------------------------------------------------------

/- No other buffer has the page of buffer `i` or of `b`. -/
def BufPool.Alone (p : BufPool) (i : Nat) (b : Buf) : Prop :=
  ∀ j ∈ p.list, j ≠ i → (p.entry j).mark ≠ .empty →
    (p.entry j).pageKey ≠ b.pageKey

/- No buffer has this page. -/
def BufPool.Lacks
    (p : BufPool)
    (key : Nat × Nat × Nat) : Prop :=
  ∀ j ∈ p.list, (p.entry j).mark ≠ .empty →
    (p.entry j).pageKey ≠ key

/- Buffer `i` becomes `b`. -/
def BufPool.replace
    (p : BufPool)
    (i : Nat)
    (b : Buf) : BufPool :=
  { p with entry := upd p.entry i b }

/- The group in which buffers of this key are. -/
structure BufPool.SlotFor
    (p : BufPool)
    (slot : Nat)
    (key : Nat × Nat) : Prop where
  bound : slot < dirtyGroups
  mem : ∀ j ∈ (p.group slot).dirty,
    (p.entry j).groupKey = key
  sole : ∀ slot', ∀ j ∈ (p.group slot').dirty,
    (p.entry j).groupKey = key → slot' = slot

namespace BufPool

variable {p q : BufPool} {i slot : Nat} {b : Buf}

omit [Platform] in
theorem replace_same : (p.replace i b).entry i = b :=
  upd_same _ _ _

omit [Platform] in
theorem replace_other
    {j : Nat}
    (h : j ≠ i) : (p.replace i b).entry j = p.entry j :=
  upd_other _ _ h

omit [Platform] in
theorem find_none_lacks
    {parent serial pageId : Nat}
    (h : p.find parent serial pageId = none) :
    p.Lacks (parent, serial, pageId) := by
  intro j hj hMark hKey
  unfold BufPool.find at h
  have hTest := List.find?_eq_none.mp h j hj
  unfold Buf.pageKey at hKey
  rw [Prod.mk.injEq, Prod.mk.injEq] at hKey
  apply hTest
  simp [hKey.1, hKey.2.1, hKey.2.2, hMark]

omit [Platform] in
theorem find_some
    {parent serial pageId : Nat}
    (h : p.find parent serial pageId = some i) :
    i ∈ p.list ∧ (p.entry i).mark ≠ .empty ∧
      (p.entry i).pageKey = (parent, serial, pageId) := by
  unfold BufPool.find at h
  have hTest := List.find?_some h
  simp only [Bool.and_eq_true, beq_iff_eq, bne_iff_ne]
    at hTest
  refine ⟨List.mem_of_find?_eq_some h, hTest.2, ?_⟩
  unfold Buf.pageKey
  rw [hTest.1.1.1, hTest.1.1.2, hTest.1.2]

omit [Platform] in
theorem Lacks.alone
    {key : Nat × Nat × Nat}
    (h : p.Lacks key)
    (hKey : b.pageKey = key) : p.Alone i b := by
  intro j hj _ hMark hEq
  exact h j hj hMark (hEq.trans hKey)

omit [Platform] in
theorem Flushed.lacks
    {key : Nat × Nat × Nat}
    (h : p.Flushed q)
    (hLacks : p.Lacks key) : q.Lacks key := by
  intro j hj hMark
  have hMem := h.list.mem_iff.mp hj
  rw [h.pageKey j hMem]
  apply hLacks j hMem
  intro hEmpty
  exact hMark ((h.empty hMem).mpr hEmpty)

omit [Platform] in
theorem Flushed.alone
    (h : p.Flushed q)
    (hAlone : p.Alone i b) : q.Alone i b := by
  intro j hj hji hMark
  have hMem := h.list.mem_iff.mp hj
  rw [h.pageKey j hMem]
  apply hAlone j hMem hji
  intro hEmpty
  exact hMark ((h.empty hMem).mpr hEmpty)

/- A buffer that is in no dirty group is in no group's list. -/
theorem Sound.not_linked
    (h : p.Sound)
    (hMark : (p.entry i).mark ≠ .dirty) :
    ∀ slot, i ∉ (p.group slot).dirty :=
  fun slot hi => hMark (h.linked slot i hi).2

/- A buffer that is not dirty gets a new page or is emptied. -/
theorem Sound.replace
    (h : p.Sound)
    (hi : i ∈ p.list)
    (hClean : (p.entry i).mark ≠ .dirty)
    (hMark : b.mark ≠ .dirty)
    (hAlone : b.mark ≠ .empty → p.Alone i b) :
    (p.replace i b).Sound := by
  have hOther : ∀ slot, ∀ j ∈ (p.group slot).dirty,
      (p.replace i b).entry j = p.entry j := by
    intro slot j hj
    apply replace_other
    intro hEq
    subst hEq
    exact h.not_linked hClean slot hj
  constructor
  · exact h.perm
  · intro j hj
    rw [replace_other]
    · exact h.free j hj
    · intro hEq
      rw [hEq] at hj
      exact h.not_free hi hj
  · exact h.slots
  · exact h.nodup
  · exact h.count
  · intro slot j hj
    rw [hOther slot j hj]
    exact h.linked slot j hj
  · intro j hj hDirty
    by_cases hji : j = i
    · rw [hji, replace_same] at hDirty
      exact absurd hDirty hMark
    · rw [replace_other hji] at hDirty
      exact h.dirty j hj hDirty
  · intro slot j hj k hk
    rw [hOther slot j hj, hOther slot k hk]
    exact h.sameKey slot j hj k hk
  · intro slot j hj slot' k hk
    rw [hOther slot j hj, hOther slot' k hk]
    exact h.sameSlot slot j hj slot' k hk
  · intro j hj k hk hMarkJ hMarkK hKey
    by_cases hji : j = i
    · by_cases hki : k = i
      · rw [hji, hki]
      · rw [hji, replace_same] at hMarkJ hKey
        rw [replace_other hki] at hMarkK hKey
        exact absurd hKey.symm (hAlone hMarkJ k hk hki hMarkK)
    · rw [replace_other hji] at hMarkJ hKey
      by_cases hki : k = i
      · rw [hki, replace_same] at hMarkK hKey
        exact absurd hKey (hAlone hMarkK j hj hji hMarkJ)
      · rw [replace_other hki] at hMarkK hKey
        exact h.pages j hj k hk hMarkJ hMarkK hKey

/- A buffer that is not dirty is put into a dirty list. -/
def link (p : BufPool) (slot i : Nat) : BufPool :=
  { p with
    entry := upd p.entry i { p.entry i with mark := .dirty }
    group := upd p.group slot
      { p.group slot with
        dirty := i :: (p.group slot).dirty
        count := (p.group slot).count + 1 } }

omit [Platform] in
theorem link_mem
    {slot' j : Nat}
    (hj : j ∈ ((p.link slot i).group slot').dirty) :
    j ∈ (p.group slot').dirty ∨ (j = i ∧ slot' = slot) := by
  unfold link at hj
  dsimp only at hj
  by_cases hSlot : slot' = slot
  · subst hSlot
    rw [upd_same] at hj
    rcases List.mem_cons.mp hj with hEq | hMem
    · exact Or.inr ⟨hEq, rfl⟩
    · exact Or.inl hMem
  · rw [upd_other _ _ hSlot] at hj
    exact Or.inl hj

omit [Platform] in
theorem link_pageKey (j : Nat) :
    ((p.link slot i).entry j).pageKey =
      (p.entry j).pageKey := by
  unfold link upd
  dsimp only
  split
  · rename_i hj
    rw [hj]
    rfl
  · rfl

omit [Platform] in
theorem link_refCount (j : Nat) :
    ((p.link slot i).entry j).refCount =
      (p.entry j).refCount := by
  unfold link upd
  dsimp only
  split
  · rename_i hj
    rw [hj]
  · rfl

theorem Sound.link
    (h : p.Sound)
    (hi : i ∈ p.list)
    (hClean : (p.entry i).mark ≠ .dirty)
    (hAlone : p.Alone i (p.entry i))
    (hSlot : p.SlotFor slot (p.entry i).groupKey) :
    (p.link slot i).Sound := by
  have hOther : ∀ j, j ≠ i →
      (p.link slot i).entry j = p.entry j :=
    fun j hj => upd_other _ _ hj
  have hMark : ((p.link slot i).entry i).mark = .dirty := by
    unfold BufPool.link
    dsimp only
    rw [upd_same]
  have hKey : ∀ j,
      ((p.link slot i).entry j).groupKey =
        (p.entry j).groupKey :=
    fun j => Buf.groupKey_congr (link_pageKey j)
  have hNot := h.not_linked hClean
  constructor
  · exact h.perm
  · intro j hj
    rw [hOther]
    · exact h.free j hj
    · intro hEq
      rw [hEq] at hj
      exact h.not_free hi hj
  · intro slot' hNil
    rcases List.exists_mem_of_ne_nil _ hNil with ⟨j, hj⟩
    rcases link_mem hj with hOld | ⟨_, hEq⟩
    · exact h.slots slot' (List.ne_nil_of_mem hOld)
    · rw [hEq]
      exact hSlot.bound
  · intro slot'
    unfold BufPool.link
    dsimp only
    by_cases hEq : slot' = slot
    · subst hEq
      rw [upd_same]
      exact List.nodup_cons.mpr ⟨hNot slot', h.nodup slot'⟩
    · rw [upd_other _ _ hEq]
      exact h.nodup slot'
  · intro slot'
    unfold BufPool.link
    dsimp only
    by_cases hEq : slot' = slot
    · subst hEq
      rw [upd_same]
      dsimp only
      rw [h.count slot', List.length_cons]
      omega
    · rw [upd_other _ _ hEq]
      exact h.count slot'
  · intro slot' j hj
    rcases link_mem hj with hOld | ⟨hEq, _⟩
    · have hji : j ≠ i := by
        intro hEq
        rw [hEq] at hOld
        exact hNot slot' hOld
      rw [hOther j hji]
      exact h.linked slot' j hOld
    · rw [hEq]
      exact ⟨hi, hMark⟩
  · intro j hj hDirty
    by_cases hji : j = i
    · refine ⟨slot, ?_⟩
      unfold BufPool.link
      dsimp only
      rw [upd_same, hji]
      exact List.mem_cons_self
    · rw [hOther j hji] at hDirty
      rcases h.dirty j hj hDirty with ⟨slot', hOld⟩
      refine ⟨slot', ?_⟩
      unfold BufPool.link
      dsimp only
      by_cases hEq : slot' = slot
      · subst hEq
        rw [upd_same]
        exact List.mem_cons_of_mem _ hOld
      · rw [upd_other _ _ hEq]
        exact hOld
  · intro slot' j hj k hk
    rw [hKey, hKey]
    rcases link_mem hj with hOldJ | ⟨hEqJ, hSlotJ⟩
    · rcases link_mem hk with hOldK | ⟨hEqK, hSlotK⟩
      · exact h.sameKey slot' j hOldJ k hOldK
      · rw [hSlotK] at hOldJ
        rw [hEqK]
        exact hSlot.mem j hOldJ
    · rcases link_mem hk with hOldK | ⟨hEqK, _⟩
      · rw [hSlotJ] at hOldK
        rw [hEqJ]
        exact (hSlot.mem k hOldK).symm
      · rw [hEqJ, hEqK]
  · intro slot' j hj slot'' k hk hEq
    rw [hKey, hKey] at hEq
    rcases link_mem hj with hOldJ | ⟨hEqJ, hSlotJ⟩
    · rcases link_mem hk with hOldK | ⟨hEqK, hSlotK⟩
      · exact h.sameSlot slot' j hOldJ slot'' k hOldK hEq
      · rw [hSlotK]
        rw [hEqK] at hEq
        exact hSlot.sole slot' j hOldJ hEq
    · rcases link_mem hk with hOldK | ⟨_, hSlotK⟩
      · rw [hSlotJ]
        rw [hEqJ] at hEq
        exact (hSlot.sole slot'' k hOldK hEq.symm).symm
      · rw [hSlotJ, hSlotK]
  · intro j hj k hk hMarkJ hMarkK hEq
    rw [link_pageKey, link_pageKey] at hEq
    by_cases hji : j = i
    · by_cases hki : k = i
      · rw [hji, hki]
      · rw [hOther k hki] at hMarkK
        rw [hji] at hEq
        exact absurd hEq.symm (hAlone k hk hki hMarkK)
    · rw [hOther j hji] at hMarkJ
      by_cases hki : k = i
      · rw [hki] at hEq
        exact absurd hEq (hAlone j hj hji hMarkJ)
      · rw [hOther k hki] at hMarkK
        exact h.pages j hj k hk hMarkJ hMarkK hEq

/- The group of a key, as `findGroupSlot` finds it. -/
theorem Sound.slotFor
    {parent serial : Nat}
    (h : p.Sound)
    (hFind : p.findGroupSlot parent serial = some slot) :
    p.SlotFor slot (parent, serial) := by
  rcases findGroupSlot_some hFind with ⟨hBound, j, hj, hKey⟩
  constructor
  · exact hBound
  · intro k hk
    exact (h.sameKey slot k hk j hj).trans hKey
  · intro slot' k hk hEq
    exact h.sameSlot slot' k hk slot j hj (hEq.trans hKey.symm)

/- A group without buffers does for a key no buffer has. -/
theorem slotFor_free
    {key : Nat × Nat}
    (hBound : slot < dirtyGroups)
    (hFree : (p.group slot).dirty = [])
    (hNone : ∀ slot', ∀ j ∈ (p.group slot').dirty,
      (p.entry j).groupKey ≠ key) :
    p.SlotFor slot key := by
  constructor
  · exact hBound
  · intro j hj
    rw [hFree] at hj
    cases hj
  · intro slot' j hj hEq
    exact absurd hEq (hNone slot' j hj)

/- A flush puts no buffer into a group. -/
theorem Flushed.no_group
    {key : Nat × Nat}
    (h : p.Flushed q)
    (hp : p.Sound)
    (hq : q.Sound)
    (hNone : ∀ slot, ∀ j ∈ (p.group slot).dirty,
      (p.entry j).groupKey ≠ key) :
    ∀ slot, ∀ j ∈ (q.group slot).dirty,
      (q.entry j).groupKey ≠ key := by
  intro slot j hj
  have hLinked := hq.linked slot j hj
  have hMem := h.list.mem_iff.mp hLinked.1
  have hDirty : (p.entry j).mark = .dirty := by
    rcases h.mark j hMem with hSame | ⟨_, hValid⟩
    · rw [← hSame]
      exact hLinked.2
    · rw [hLinked.2] at hValid
      cases hValid
  rcases hp.dirty j hMem hDirty with ⟨slot', hOld⟩
  rw [Buf.groupKey_congr (h.pageKey j hMem)]
  exact hNone slot' j hOld

------------------------------------------------------------
-- Held Buffers
------------------------------------------------------------

/- No buffer is held. -/
structure Idle (p : BufPool) : Prop where
  sound : p.Sound
  idle : ∀ i ∈ p.list, (p.entry i).refCount = 0

/- Buffer `i` is held, and it is the only one of its page. -/
structure Held (p : BufPool) (i : Nat) : Prop where
  sound : p.Sound
  mem : i ∈ p.list
  held : (p.entry i).refCount = 1
  idle : ∀ j ∈ p.list, j ≠ i → (p.entry j).refCount = 0
  alone : p.Alone i (p.entry i)

theorem Idle.few (h : p.Idle) : p.Few := by
  intro i hi
  rw [h.idle i hi]
  decide

theorem Held.few (h : p.Held i) : p.Few := by
  intro j hj
  by_cases hji : j = i
  · rw [hji, h.held]
    decide
  · rw [h.idle j hj hji]
    decide

theorem Flushed.idle
    (h : p.Flushed q)
    (hq : q.Sound)
    (hp : p.Idle) : q.Idle where
  sound := hq
  idle := fun i hi => by
    have hMem := h.list.mem_iff.mp hi
    rw [h.refCount i hMem]
    exact hp.idle i hMem

theorem Flushed.held
    (h : p.Flushed q)
    (hq : q.Sound)
    (hp : p.Held i) : q.Held i where
  sound := hq
  mem := h.list.mem_iff.mpr hp.mem
  held := by
    rw [h.refCount i hp.mem]
    exact hp.held
  idle := fun j hj hji => by
    have hMem := h.list.mem_iff.mp hj
    rw [h.refCount j hMem]
    exact hp.idle j hMem hji
  alone := fun j hj hji hMark => by
    rw [h.pageKey i hp.mem]
    exact h.alone hp.alone j hj hji hMark

/- A change after which the buffers are used as before. -/
theorem Alike.idle
    (h : p.Alike q)
    (hRef : ∀ i ∈ p.list,
      (q.entry i).refCount = (p.entry i).refCount)
    (hp : p.Idle) : q.Idle where
  sound := h.sound hp.sound
  idle := fun i hi => by
    have hMem := h.list.mem_iff.mp hi
    rw [hRef i hMem]
    exact hp.idle i hMem

omit [Platform] in
theorem Alike.alone
    {b' : Buf}
    (h : p.Alike q)
    (hKey : b'.pageKey = b.pageKey)
    (hAlone : p.Alone i b) : q.Alone i b' := by
  intro j hj hji hMark
  have hMem := h.list.mem_iff.mp hj
  rw [h.pageKey j hMem, hKey]
  rw [h.mark j hMem] at hMark
  exact hAlone j hMem hji hMark

theorem Alike.held
    (h : p.Alike q)
    (hRef : ∀ j ∈ p.list,
      (q.entry j).refCount = (p.entry j).refCount)
    (hp : p.Held i) : q.Held i where
  sound := h.sound hp.sound
  mem := h.list.mem_iff.mpr hp.mem
  held := by
    rw [hRef i hp.mem]
    exact hp.held
  idle := fun j hj hji => by
    have hMem := h.list.mem_iff.mp hj
    rw [hRef j hMem]
    exact hp.idle j hMem hji
  alone := h.alone (h.pageKey i hp.mem) hp.alone

/- A buffer of an idle pool that is taken is held. -/
theorem Taken.alike
    {d : Nat}
    (h : p.Taken d q)
    (hp : p.Sound) : p.Alike q where
  list := h.list
  clone := h.clone
  dirty := fun slot => by rw [h.group]
  count := fun slot => by rw [h.group]
  pageKey := fun i hi => by
    by_cases hid : i = d
    · rw [hid]
      exact h.pageKey
    · exact (h.entry i (hp.not_free hi) hid).pageKey
  mark := fun i hi => by
    by_cases hid : i = d
    · rw [hid]
      exact h.mark
    · exact (h.entry i (hp.not_free hi) hid).mark
  free := h.free

theorem Taken.held
    {d : Nat}
    (h : p.Taken d q)
    (hp : p.Idle)
    (hMark : (p.entry d).mark ≠ .empty) : q.Held d where
  sound := (h.alike hp.sound).sound hp.sound
  mem := h.list.mem_iff.mpr h.mem
  held := by
    rw [h.refCount, hp.idle d h.mem]
  idle := fun j hj hjd => by
    have hMem := h.list.mem_iff.mp hj
    rw [(h.entry j (hp.sound.not_free hMem) hjd).refCount]
    exact hp.idle j hMem
  alone := by
    apply (h.alike hp.sound).alone h.pageKey
    intro j hj hjd hMarkJ hKey
    exact hjd (hp.sound.pages j hj d h.mem hMarkJ hMark hKey)

/- A free buffer of an idle pool is filled and held. -/
theorem Idle.hold
    (h : p.Idle)
    (hi : i ∈ p.list)
    (hClean : (p.entry i).mark ≠ .dirty)
    (hMark : b.mark ≠ .dirty)
    (hRef : b.refCount = 1)
    (hAlone : p.Alone i b) : (p.replace i b).Held i where
  sound := h.sound.replace hi hClean hMark fun _ => hAlone
  mem := hi
  held := by
    rw [replace_same]
    exact hRef
  idle := fun j hj hji => by
    rw [replace_other hji]
    exact h.idle j hj
  alone := fun j hj hji hMarkJ => by
    rw [replace_other hji] at hMarkJ ⊢
    rw [replace_same]
    exact hAlone j hj hji hMarkJ

theorem Held.link
    (h : p.Held i)
    (hClean : (p.entry i).mark ≠ .dirty)
    (hSlot : p.SlotFor slot (p.entry i).groupKey) :
    (p.link slot i).Held i where
  sound := h.sound.link h.mem hClean h.alone hSlot
  mem := h.mem
  held := by
    rw [link_refCount]
    exact h.held
  idle := fun j hj hji => by
    rw [link_refCount]
    exact h.idle j hj hji
  alone := fun j hj hji hMark => by
    rw [link_pageKey, link_pageKey]
    have hOther : (p.link slot i).entry j = p.entry j :=
      upd_other _ _ hji
    rw [hOther] at hMark
    exact h.alone j hj hji hMark

end BufPool

------------------------------------------------------------
-- Idle Pools
------------------------------------------------------------

/- No buffer is held, before and after. -/
def Idles (s t : Dev) : Prop :=
  s.buf.Idle → t.buf.Idle

/- Buffer `i` is held, before and after. -/
def Holds (i : Nat) (s t : Dev) : Prop :=
  s.buf.Held i → t.buf.Held i

instance : IsPreorder Dev Idles where
  refl _ := id
  trans _ _ _ h h' := h' ∘ h

instance (i : Nat) : IsPreorder Dev (Holds i) where
  refl _ := id
  trans _ _ _ h h' := h' ∘ h

theorem Flushes.idles
    {s t : Dev}
    (h : Flushes s t) : Idles s t := by
  intro hs
  have hNext := h hs.sound hs.few
  exact hNext.2.idle hNext.1 hs

theorem Flushes.holds
    {s t : Dev}
    {i : Nat}
    (h : Flushes s t) : Holds i s t := by
  intro hs
  have hNext := h hs.sound hs.few
  exact hNext.2.held hNext.1 hs

theorem Shuffles.idles
    {s t : Dev}
    (h : Shuffles s t) : Idles s t :=
  h.flushes.idles

section Holding

variable {ok : Event → Prop} {α : Type}

/- It is enough to start with an idle pool. -/
theorem within_idles
    {m : M α}
    (h : ∀ s, s.buf.Idle →
      wlp ok m (fun _ t => t.buf.Idle) s) :
    Within ok Idles m := by
  intro s
  by_cases hs : s.buf.Idle
  · refine wlp_mono (h s hs) ?_
    intro _ t ht _
    exact ht
  · intro _ _ t _ _ hIdle
    exact absurd hIdle hs

theorem within_holds
    {i : Nat}
    {m : M α}
    (h : ∀ s, s.buf.Held i →
      wlp ok m (fun _ t => t.buf.Held i) s) :
    Within ok (Holds i) m := by
  intro s
  by_cases hs : s.buf.Held i
  · refine wlp_mono (h s hs) ?_
    intro _ t ht _
    exact ht
  · intro _ _ t _ _ hHeld
    exact absurd hHeld hs

theorem Flushes.within_idles
    {m : M α}
    (h : Within ok Flushes m) : Within ok Idles m :=
  h.mono fun _ _ => Flushes.idles

theorem Flushes.within_holds
    {i : Nat}
    {m : M α}
    (h : Within ok Flushes m) : Within ok (Holds i) m :=
  h.mono fun _ _ => Flushes.holds

/- A change of a buffer that leaves its page and its use. -/
theorem holds_setBuf
    {f : Buf → Buf}
    {i : Nat}
    (j : Nat)
    (hSame : ∀ b : Buf, b.Same (f b)) :
    Within ok (Holds i) (setBuf j f) :=
  Flushes.within_holds
    (Shuffles.within_flushes (shuffles_setBuf j hSame))

theorem holds_moveNodeToHead (i : Nat) :
    Within ok (Holds i) (moveNodeToHead i) := by
  apply within_holds
  intro s hs
  refine wlp_mono (wlp_moveNodeToHead hs.mem) ?_
  intro _ t ht
  exact ht.flushes.holds hs

/- A group is locked or unlocked. -/
omit [Platform] in
theorem BufPool.alike_lock
    {f : DirtyGroup → DirtyGroup}
    (p : BufPool)
    (slot : Nat)
    (hDirty : ∀ g, (f g).dirty = g.dirty)
    (hCount : ∀ g, (f g).count = g.count) :
    p.Alike
      { p with group := upd p.group slot (f (p.group slot)) }
    where
  list := List.Perm.refl _
  clone := rfl
  dirty := fun slot' => by
    by_cases hEq : slot' = slot
    · subst hEq
      dsimp only
      rw [upd_same, hDirty]
    · dsimp only
      rw [upd_other _ _ hEq]
  count := fun slot' => by
    by_cases hEq : slot' = slot
    · subst hEq
      dsimp only
      rw [upd_same, hCount]
    · dsimp only
      rw [upd_other _ _ hEq]
  pageKey := fun _ _ => rfl
  mark := fun _ _ => rfl
  free := fun _ _ => id

theorem idles_setGroup
    {f : DirtyGroup → DirtyGroup}
    (slot : Nat)
    (hDirty : ∀ g, (f g).dirty = g.dirty)
    (hCount : ∀ g, (f g).count = g.count) :
    Within ok Idles (setGroup slot f) := by
  apply within_idles
  intro s hs
  unfold setGroup
  rw [wlp_modify]
  have hAlike := s.buf.alike_lock slot hDirty hCount
  exact hAlike.idle (fun _ _ => rfl) hs

theorem holds_setGroup
    {f : DirtyGroup → DirtyGroup}
    {i : Nat}
    (slot : Nat)
    (hDirty : ∀ g, (f g).dirty = g.dirty)
    (hCount : ∀ g, (f g).count = g.count) :
    Within ok (Holds i) (setGroup slot f) := by
  apply within_holds
  intro s hs
  unfold setGroup
  rw [wlp_modify]
  have hAlike := s.buf.alike_lock slot hDirty hCount
  exact hAlike.held (fun _ _ => rfl) hs

/- The buffer is put back. -/
theorem wlp_bufPut_idle
    {s : Dev}
    {i : Nat}
    (hs : s.buf.Held i) :
    wlp ok (bufPut i) (fun _ t => t.buf.Idle) s := by
  have hRef := hs.held
  unfold bufPut getBuf setBuf
  rw [wlp_bind, wlp_gets]
  split
  · omega
  split
  · rename_i _ hClone
    rw [hRef] at hClone
    cases hClone
  rw [wlp_bind, wlp_modify, wlp_pure]
  have hSame : ∀ j,
      (upd s.buf.entry i
          { s.buf.entry i with
            refCount := (s.buf.entry i).refCount - 1 }
          j).pageKey = (s.buf.entry j).pageKey ∧
        (upd s.buf.entry i
          { s.buf.entry i with
            refCount := (s.buf.entry i).refCount - 1 }
          j).mark = (s.buf.entry j).mark := by
    intro j
    by_cases hji : j = i
    · rw [hji, upd_same]
      exact ⟨rfl, rfl⟩
    · rw [upd_other _ _ hji]
      exact ⟨rfl, rfl⟩
  constructor
  · apply BufPool.Alike.sound _ hs.sound
    constructor
    · exact List.Perm.refl _
    · rfl
    · exact fun _ => rfl
    · exact fun _ => rfl
    · exact fun j _ => (hSame j).1
    · exact fun j _ => (hSame j).2
    · intro j _ hEmpty
      exact (hSame j).2.trans hEmpty
  · intro j hj
    dsimp only
    by_cases hji : j = i
    · rw [hji, upd_same]
      dsimp only
      omega
    · rw [upd_other _ _ hji]
      exact hs.idle j hj hji

/- What is done with a held buffer before it is put back. -/
theorem wlp_thenPut
    {β : Type}
    {m : M α}
    {k : α → M β}
    {s : Dev}
    {i : Nat}
    (hm : Within ok (Holds i) m)
    (hk : ∀ a, Within ok Idles (k a))
    (hs : s.buf.Held i) :
    wlp ok (do
      let a ← m
      let _ ← bufPut i
      k a) (fun _ t => t.buf.Idle) s := by
  rw [wlp_bind]
  refine wlp_mono (hm s) ?_
  intro a t ht
  rw [wlp_bind]
  refine wlp_mono (wlp_bufPut_idle (ht hs)) ?_
  intro _ u hu
  refine wlp_mono (hk a u) ?_
  intro _ v hv
  exact hv hu

/- A program that gets a buffer, or none. -/
def Opens (ok : Event → Prop) (m : M (Option Nat)) : Prop :=
  ∀ s, s.buf.Idle → wlp ok m
    (fun o t =>
      match o with
      | none => t.buf.Idle
      | some i => t.buf.Held i) s

/- A buffer is got and then used. -/
theorem Opens.idles
    {m : M (Option Nat)}
    {k : Option Nat → M α}
    (hm : Opens ok m)
    (hNone : Within ok Idles (k none))
    (hSome : ∀ i s, s.buf.Held i →
      wlp ok (k (some i)) (fun _ t => t.buf.Idle) s) :
    Within ok Idles (m >>= k) := by
  apply within_idles
  intro s hs
  rw [wlp_bind]
  refine wlp_mono (hm s hs) ?_
  intro o t ht
  cases o with
  | none =>
      refine wlp_mono (hNone t) ?_
      intro _ u hu
      exact hu ht
  | some i => exact hSome i t ht

------------------------------------------------------------
-- Flushing Other Groups
------------------------------------------------------------

theorem flushes_bufFlushMostDirtyGroup :
    Within ok Flushes bufFlushMostDirtyGroup := by
  unfold bufFlushMostDirtyGroup
  apply Within.bind Within.get
  intro s
  cases s.buf.findMostDirtyGroup with
  | none => exact Within.pure _
  | some slot => exact flushes_bufFlushSlot false slot

theorem flushes_bufFlushGroupEx
    (parent serial : Nat)
    (force : Bool) :
    Within ok Flushes
      (bufFlushGroupEx parent serial force) := by
  unfold bufFlushGroupEx bufFindGroupSlot
  apply Within.bind (Within.gets _)
  intro o
  cases o with
  | none => exact Within.pure _
  | some slot => exact flushes_bufFlushSlot force slot

------------------------------------------------------------
-- Free Buffers
------------------------------------------------------------

omit [Platform] in
theorem wlp_findFreeBuf
    (s : Dev) :
    wlp ok findFreeBuf
      (fun o t => t = s ∧ ∀ i, o = some i →
        i ∈ s.buf.list ∧ (s.buf.entry i).refCount = 0 ∧
          (s.buf.entry i).mark ≠ .dirty) s := by
  unfold findFreeBuf
  rw [wlp_gets]
  refine ⟨rfl, ?_⟩
  intro i hi
  have hMem := List.mem_of_find?_eq_some hi
  have hFree := List.find?_some hi
  unfold Buf.isFree at hFree
  simp only [Bool.and_eq_true, beq_iff_eq, bne_iff_ne]
    at hFree
  exact ⟨List.mem_reverse.mp hMem, hFree.1, hFree.2⟩

/- A free buffer is idle and no page is in the pool anew. -/
theorem wlp_findFreeBufOrFlush
    {s : Dev}
    {key : Nat × Nat × Nat}
    (hs : s.buf.Idle)
    (hLacks : s.buf.Lacks key) :
    wlp ok findFreeBufOrFlush
      (fun o t => t.buf.Idle ∧ t.buf.Lacks key ∧
        ∀ i, o = some i →
          i ∈ t.buf.list ∧ (t.buf.entry i).mark ≠ .dirty) s :=
  by
  unfold findFreeBufOrFlush
  rw [wlp_bind]
  refine wlp_mono (wlp_findFreeBuf s) ?_
  intro o t ht
  rcases ht with ⟨rfl, hFree⟩
  cases o with
  | some i =>
      rw [wlp_pure]
      refine ⟨hs, hLacks, ?_⟩
      intro j hj
      have hThis := hFree j hj
      exact ⟨hThis.1, hThis.2.2⟩
  | none =>
      dsimp only
      rw [wlp_bind]
      refine wlp_mono (flushes_bufFlushMostDirtyGroup t) ?_
      intro _ u hu
      have hFlushed := hu hs.sound hs.few
      have hIdle := hFlushed.2.idle hFlushed.1 hs
      have hNone := hFlushed.2.lacks hLacks
      refine wlp_mono (wlp_findFreeBuf u) ?_
      intro o v hv
      rcases hv with ⟨rfl, hFree⟩
      refine ⟨hIdle, hNone, ?_⟩
      intro j hj
      have hThis := hFree j hj
      exact ⟨hThis.1, hThis.2.2⟩

/- A free buffer becomes `f` of it and is held. -/
theorem wlp_setBuf_held
    {s : Dev}
    {i : Nat}
    {f : Buf → Buf}
    (hs : s.buf.Idle)
    (hi : i ∈ s.buf.list)
    (hClean : (s.buf.entry i).mark ≠ .dirty)
    (hMark : (f (s.buf.entry i)).mark ≠ .dirty)
    (hRef : (f (s.buf.entry i)).refCount =
      (s.buf.entry i).refCount + 1)
    (hAlone : s.buf.Alone i (f (s.buf.entry i))) :
    wlp ok (do
      setBuf i f
      moveNodeToHead i
      pure (some i))
      (fun o t =>
        match o with
        | none => t.buf.Idle
        | some i => t.buf.Held i) s := by
  unfold setBuf
  rw [wlp_bind, wlp_modify, wlp_bind]
  rw [hs.idle i hi] at hRef
  have hHeld := hs.hold hi hClean hMark hRef hAlone
  refine wlp_mono (holds_moveNodeToHead i _) ?_
  intro _ t ht
  rw [wlp_pure]
  exact ht hHeld

theorem opens_bufNew
    (type : BlockType)
    (parent serial pageId : Nat) :
    Opens ok (bufNew type parent serial pageId) := by
  intro s hs
  unfold bufNew
  rw [wlp_bind]
  refine wlp_mono (wlp_bufGet_taken parent serial pageId s) ?_
  intro o t ht
  cases o with
  | some i =>
      have hFound := BufPool.find_some ht.1
      have hHeld := (ht.2 hs.sound.apart).held hs hFound.2.1
      have hEnd : ∀ u : Dev, u.buf.Held i →
          wlp ok (do
            moveNodeToHead i
            pure (some i))
            (fun o t =>
              match o with
              | none => t.buf.Idle
              | some i => t.buf.Held i) u := by
        intro u hu
        rw [wlp_bind]
        refine wlp_mono (holds_moveNodeToHead i u) ?_
        intro _ v hv
        rw [wlp_pure]
        exact hv hu
      unfold getBuf
      dsimp only
      rw [wlp_bind, wlp_gets]
      split
      · have hCut : Within ok (Holds i) (setBuf i fun b =>
            { b with dataLen := 0 }) :=
          holds_setBuf i fun _ => ⟨rfl, rfl, rfl⟩
        rw [wlp_bind]
        refine wlp_mono (hCut t) ?_
        intro _ u hu
        exact hEnd u (hu hHeld)
      · exact hEnd t hHeld
  | none =>
      have hLacks := BufPool.find_none_lacks ht.2
      cases ht.1
      dsimp only
      rw [wlp_bind]
      refine wlp_mono (wlp_findFreeBufOrFlush hs hLacks) ?_
      intro o u hu
      rcases hu with ⟨hIdle, hNone, hFree⟩
      cases o with
      | none =>
          rw [wlp_pure]
          exact hIdle
      | some i =>
          have hThis := hFree i rfl
          apply wlp_setBuf_held hIdle hThis.1 hThis.2
          · exact BufMark.noConfusion
          · rfl
          · exact hNone.alone rfl

------------------------------------------------------------
-- Loading a Page
------------------------------------------------------------

/-
  A buffer is being filled: it is empty, and no buffer has
  the page that it is for.
-/
structure BufPool.Filling
    (p : BufPool)
    (i : Nat)
    (key : Nat × Nat × Nat) : Prop where
  idle : p.Idle
  mem : i ∈ p.list
  mark : (p.entry i).mark = .empty
  pageKey : (p.entry i).pageKey = key
  lacks : p.Lacks key

theorem BufPool.Shuffled.lacks
    {p q : BufPool}
    {key : Nat × Nat × Nat}
    (h : p.Shuffled q)
    (hp : p.Sound)
    (hLacks : p.Lacks key) : q.Lacks key :=
  (h.flushed hp).lacks hLacks

theorem Shuffles.filling
    {s t : Dev}
    {i : Nat}
    {key : Nat × Nat × Nat}
    (h : Shuffles s t)
    (hs : s.buf.Filling i key) : t.buf.Filling i key := by
  have hSound := hs.idle.sound
  have hShuffled := h hSound.apart
  have hSame := hShuffled.same hSound hs.mem
  constructor
  · exact h.idles hs.idle
  · exact hShuffled.list.mem_iff.mpr hs.mem
  · exact hSame.mark.trans hs.mark
  · exact hSame.pageKey.trans hs.pageKey
  · exact hShuffled.lacks hSound hs.lacks

theorem opens_bufLoad
    {s : Dev}
    {i : Nat}
    (type : BlockType)
    (parent serial pageId : Nat)
    (noEcc : Bool)
    (node : Nat)
    (hs : s.buf.Idle)
    (hi : i ∈ s.buf.list)
    (hClean : (s.buf.entry i).mark ≠ .dirty)
    (hLacks : s.buf.Lacks (parent, serial, pageId)) :
    wlp ok (bufLoad type parent serial pageId noEcc node i)
      (fun o t =>
        match o with
        | none => t.buf.Idle
        | some i => t.buf.Held i) s := by
  have hBlocks : BlockLayer ok Shuffles := blockLayer_shuffles
  have hNone : ∀ t, Shuffles s t →
      wlp ok (pure none : M (Option Nat))
        (fun o t =>
          match o with
          | none => t.buf.Idle
          | some i => t.buf.Held i) t := by
    intro t ht
    rw [wlp_pure]
    exact ht.idles hs
  unfold bufLoad getNode
  rw [wlp_bind, wlp_gets, wlp_bind]
  refine wlp_mono (hBlocks.infoGet _ s) ?_
  intro o t ht
  cases o with
  | none => exact hNone t ht
  | some bc =>
  dsimp only
  rw [wlp_bind]
  refine wlp_mono (hBlocks.findPageInBlockWithPageId bc pageId t)
    ?_
  intro o u hu
  have hsu := trans_of Shuffles ht hu
  cases o with
  | none =>
      dsimp only
      rw [wlp_bind]
      refine wlp_mono (hBlocks.infoPut bc u) ?_
      intro _ v hv
      exact hNone v (trans_of Shuffles hsu hv)
  | some page =>
  dsimp only
  rw [wlp_bind]
  refine wlp_mono (hBlocks.findBestPageInBlock bc page u) ?_
  intro o v hv
  have hsv := trans_of Shuffles hsu hv
  cases o with
  | none => exact hNone v hsv
  | some page =>
  dsimp only
  rw [wlp_bind]
  refine wlp_mono (hBlocks.infoPut bc v) ?_
  intro _ w hw
  have hsw := trans_of Shuffles hsv hw
  have hShuffled := hsw hs.sound.apart
  have hIdle := hsw.idles hs
  have hMem := hShuffled.list.mem_iff.mpr hi
  have hSame := hShuffled.same hs.sound hi
  have hMark : (w.buf.entry i).mark ≠ .dirty := by
    rw [hSame.mark]
    exact hClean
  have hNoPage := hShuffled.lacks hs.sound hLacks
  have hFill : ∀ x : Buf, x.mark = .empty →
      x.refCount = (w.buf.entry i).refCount →
      x.pageKey = (parent, serial, pageId) →
      (w.buf.replace i x).Filling i
        (parent, serial, pageId) := by
    intro x hEmpty hRef hKey
    constructor
    · constructor
      · apply hIdle.sound.replace hMem hMark
        · rw [hEmpty]
          exact BufMark.noConfusion
        · exact fun hBad => absurd hEmpty hBad
      · intro j hj
        by_cases hji : j = i
        · rw [hji, BufPool.replace_same, hRef]
          exact hIdle.idle i hMem
        · rw [BufPool.replace_other hji]
          exact hIdle.idle j hj
    · exact hMem
    · rw [BufPool.replace_same]
      exact hEmpty
    · rw [BufPool.replace_same]
      exact hKey
    · intro j hj hMarkJ
      by_cases hji : j = i
      · rw [hji, BufPool.replace_same] at hMarkJ
        exact absurd hEmpty hMarkJ
      · rw [BufPool.replace_other hji] at hMarkJ ⊢
        exact hNoPage j hj hMarkJ
  have hRest : ∀ x : Dev,
      x.buf.Filling i (parent, serial, pageId) →
      wlp ok (do
          let tag ← getTag bc page
          setBuf i fun b =>
            { b with
              dataLen := tag.dataLen
              mark := .valid
              refCount := b.refCount + 1 }
          moveNodeToHead i
          pure (some i))
        (fun o t =>
          match o with
          | none => t.buf.Idle
          | some i => t.buf.Held i) x := by
    intro x hx
    unfold getTag
    rw [wlp_bind, wlp_gets]
    apply wlp_setBuf_held hx.idle hx.mem
    · rw [hx.mark]
      exact BufMark.noConfusion
    · exact BufMark.noConfusion
    · rfl
    · exact hx.lacks.alone hx.pageKey
  unfold setBuf
  rw [wlp_bind, wlp_modify, wlp_bind]
  refine wlp_mono (shuffles_flashReadPage _ _ i _ _) ?_
  intro ret x hx
  rw [wlp_bind]
  refine wlp_mono (shuffles_badBlockAddByFlashResult _ _ x) ?_
  intro pending y hy
  have hFilling := (trans_of Shuffles hx hy).filling
    (hFill _ rfl rfl rfl)
  split
  · rw [wlp_pure]
    exact hFilling.idle
  split
  · rw [wlp_pure]
    exact hFilling.idle
  · exact hRest y hFilling

theorem opens_bufGetEx
    (type : BlockType)
    (node pageId : Nat)
    (noEcc : Bool) :
    Opens ok (bufGetEx type node pageId noEcc) := by
  intro s hs
  unfold bufGetEx getNode bufFind
  split
  · rw [wlp_pure]
    exact hs
  rw [wlp_bind, wlp_gets, wlp_bind, wlp_gets]
  cases hFind : s.buf.find (s.tree.node node).parent
      (s.tree.node node).serial pageId with
  | some i =>
      have hFound := BufPool.find_some hFind
      unfold setBuf
      dsimp only
      rw [wlp_bind, wlp_modify, wlp_pure]
      have hTaken : s.buf.Taken i
          (s.buf.replace i
            { s.buf.entry i with
              refCount := (s.buf.entry i).refCount + 1 }) := by
        constructor
        · exact hFound.1
        · exact List.Perm.refl _
        · rfl
        · rfl
        · intro j _ hji
          rw [BufPool.replace_other hji]
          exact Buf.Same.refl _
        · rw [BufPool.replace_same]
          rfl
        · rw [BufPool.replace_same]
        · rw [BufPool.replace_same]
        · intro j hj hEmpty
          have hji : j ≠ i := by
            intro hEq
            rw [hEq] at hj
            exact hs.sound.not_free hFound.1 hj
          rw [BufPool.replace_other hji]
          exact hEmpty
      exact hTaken.held hs hFound.2.1
  | none =>
      have hLacks := BufPool.find_none_lacks hFind
      dsimp only
      rw [wlp_bind]
      refine wlp_mono (wlp_findFreeBufOrFlush hs hLacks) ?_
      intro o t ht
      rcases ht with ⟨hIdle, hNone, hFree⟩
      cases o with
      | none =>
          rw [wlp_pure]
          exact hIdle
      | some i =>
          have hThis := hFree i rfl
          exact opens_bufLoad type _ _ _ noEcc node hIdle
            hThis.1 hThis.2 hNone

------------------------------------------------------------
-- Writing a Buffer
------------------------------------------------------------

/- The slot that a held buffer is put in is for its key. -/
theorem wlp_bufWriteSlot
    {s : Dev}
    {i : Nat}
    (hs : s.buf.Held i) :
    wlp ok
      (bufWriteSlot (s.buf.entry i).parent
        (s.buf.entry i).serial)
      (fun o t => t.buf.Held i ∧
        ∀ slot, o = some slot →
          t.buf.SlotFor slot (t.buf.entry i).groupKey) s := by
  have hFree : ∀ t : Dev, t.buf.Sound →
      (∀ slot, ∀ j ∈ (t.buf.group slot).dirty,
        (t.buf.entry j).groupKey ≠
          (s.buf.entry i).groupKey) →
      (t.buf.entry i).groupKey = (s.buf.entry i).groupKey →
      wlp ok bufFindFreeGroupSlot
        (fun o u => u = t ∧ ∀ slot, o = some slot →
          t.buf.SlotFor slot (t.buf.entry i).groupKey) t := by
    intro t _ hNone hKey
    unfold bufFindFreeGroupSlot
    rw [wlp_gets]
    refine ⟨rfl, ?_⟩
    intro slot hSlot
    have hMem := List.mem_of_find?_eq_some hSlot
    have hEmpty := List.find?_some hSlot
    rw [hKey]
    apply BufPool.slotFor_free (List.mem_range.mp hMem) _ hNone
    exact List.isEmpty_iff.mp hEmpty
  unfold bufWriteSlot bufFindGroupSlot
  rw [wlp_bind, wlp_gets]
  cases hFind : s.buf.findGroupSlot (s.buf.entry i).parent
      (s.buf.entry i).serial with
  | some slot =>
      rw [wlp_pure]
      refine ⟨hs, ?_⟩
      intro slot' hEq
      cases hEq
      exact hs.sound.slotFor hFind
  | none =>
      have hNone := hs.sound.findGroupSlot_none hFind
      dsimp only
      rw [wlp_bind]
      refine wlp_mono (hFree s hs.sound hNone rfl) ?_
      intro o t ht
      rcases ht with ⟨rfl, hSlot⟩
      cases o with
      | some slot =>
          rw [wlp_pure]
          exact ⟨hs, hSlot⟩
      | none =>
          dsimp only
          rw [wlp_bind]
          refine wlp_mono (flushes_bufFlushMostDirtyGroup t) ?_
          intro r u hu
          have hNext := hu hs.sound hs.few
          have hHeld := hNext.2.held hNext.1 hs
          cases r with
          | fail =>
              rw [wlp_pure]
              refine ⟨hHeld, ?_⟩
              intro slot hEq
              cases hEq
          | succ =>
              have hKey := Buf.groupKey_congr
                (hNext.2.pageKey i hs.mem)
              have hStill := hNext.2.no_group hs.sound hNext.1
                hNone
              refine wlp_mono (hFree u hNext.1 hStill hKey) ?_
              intro o v hv
              rcases hv with ⟨rfl, hSlot⟩
              exact ⟨hHeld, hSlot⟩

/- A held buffer is put in a group, unless it is there. -/
theorem wlp_linkToDirtyList
    {s : Dev}
    {i slot : Nat}
    (hs : s.buf.Held i)
    (hSlot : s.buf.SlotFor slot (s.buf.entry i).groupKey)
    (hNot : i ∉ (s.buf.group slot).dirty) :
    wlp ok (linkToDirtyList slot i)
      (fun _ t => t.buf.Held i) s := by
  have hClean : (s.buf.entry i).mark ≠ .dirty := by
    intro hDirty
    rcases hs.sound.dirty i hs.mem hDirty with ⟨slot', hi⟩
    rw [hSlot.sole slot' i hi rfl] at hi
    exact hNot hi
  unfold linkToDirtyList setBuf setGroup
  rw [wlp_bind, wlp_modify, wlp_modify]
  exact hs.link hClean hSlot

theorem holds_bufWrite
    (i : Nat)
    (data : List Byte)
    (ofs : Nat) :
    Within ok (Holds i) (bufWrite i data ofs) := by
  apply within_holds
  intro s hs
  unfold bufWrite getBuf
  dsimp only
  split
  · rw [wlp_pure]
    exact hs
  rw [wlp_bind, wlp_gets, wlp_bind]
  refine wlp_mono (wlp_bufWriteSlot hs) ?_
  intro o t ht
  rcases ht with ⟨hHeld, hSlots⟩
  cases o with
  | none =>
      rw [wlp_pure]
      exact hHeld
  | some slot =>
  have hSlot := hSlots slot rfl
  have hEnd : Within ok (Holds i) (do
      let g ← getGroup slot
      if g.count ≥ dirtyBufMax then
        bufFlushGroup (s.buf.entry i).parent
          (s.buf.entry i).serial
      else
        pure .succ) := by
    apply Within.bind (Within.gets _)
    intro g
    apply Within.ite _ (Within.pure _)
    exact Flushes.within_holds (flushes_bufFlushGroupEx _ _ _)
  have hFill : Within ok Shuffles (setBuf i fun b =>
      { b with
        data := blit b.data ofs data
        dataLen :=
          if ofs + data.length > b.dataLen then
            ofs + data.length
          else b.dataLen }) :=
    shuffles_setBuf i fun _ => ⟨rfl, rfl, rfl⟩
  unfold getGroup
  dsimp only
  rw [wlp_bind]
  refine wlp_mono (hFill t) ?_
  intro _ u hu
  have hShuffled := hu hHeld.sound.apart
  have hHeldU : u.buf.Held i := hu.flushes.holds hHeld
  have hSlotU : u.buf.SlotFor slot
      (u.buf.entry i).groupKey := by
    have hKeys : ∀ slot', ∀ j ∈ (t.buf.group slot').dirty,
        (u.buf.entry j).groupKey = (t.buf.entry j).groupKey := by
      intro slot' j hj
      have hMem := (hHeld.sound.linked slot' j hj).1
      exact Buf.groupKey_congr
        (hShuffled.same hHeld.sound hMem).pageKey
    have hKey := Buf.groupKey_congr
      (hShuffled.same hHeld.sound hHeld.mem).pageKey
    rw [hKey]
    constructor
    · exact hSlot.bound
    · intro j hj
      rw [hShuffled.group] at hj
      rw [hKeys slot j hj]
      exact hSlot.mem j hj
    · intro slot' j hj hEq
      rw [hShuffled.group] at hj
      rw [hKeys slot' j hj] at hEq
      exact hSlot.sole slot' j hj hEq
  have hLast : ∀ v : Dev, v.buf.Held i →
      wlp ok (do
          let g ← getGroup slot
          if g.count ≥ dirtyBufMax then
            bufFlushGroup (s.buf.entry i).parent
              (s.buf.entry i).serial
          else
            pure .succ)
        (fun _ t => t.buf.Held i) v := by
    intro v hv
    refine wlp_mono (hEnd v) ?_
    intro _ w hw
    exact hw hv
  rw [wlp_bind, wlp_gets]
  split
  · rename_i hNot
    rw [wlp_bind]
    refine wlp_mono
      (wlp_linkToDirtyList hHeldU hSlotU hNot) ?_
    intro _ v hv
    exact hLast v hv
  · exact hLast u hHeldU

end Holding

end Uffs
