import Mathlib.Data.List.Nodup
import Mathlib.Data.List.Perm.Basic
import Uffs.Good.Read

/-
  The block info cache on a flash where every operation
  succeeds.

  In a calm device every tag of the cache is the tag on
  flash, no block is cached twice, and the reference counts
  are the ones that the running functions account for (`H`).

  Main declarations:
    * `Calm`
    * `Gets`, `wp_blockInfoGet`, `calm_blockInfoPut`
    * `Erases`, `wp_flashEraseBlock`
-/

namespace Uffs

open Prog

variable [Platform]

------------------------------------------------------------
-- Calm Devices
------------------------------------------------------------

/- Nothing in the cache contradicts the flash. -/
structure Calm (s : Dev) (H : Nat → Nat) : Prop where
  good : GoodFrom s.clock
  spare : 2 ≤ s.spareFree
  clone : s.buf.clone ≠ []
  two : 2 ≤ s.bc.list.length
  nodup : s.bc.list.Nodup
  fresh : ∀ i ∈ s.bc.list, (s.bc.info i).Fresh s.flash
  unique : ∀ i ∈ s.bc.list, ∀ j ∈ s.bc.list,
    (s.bc.info i).block = (s.bc.info j).block →
      (s.bc.info i).block ≠ invalidBlock → i = j
  refs : ∀ i ∈ s.bc.list, (s.bc.info i).refCount = H i

namespace Calm

variable {s t : Dev} {H : Nat → Nat} {i : Nat}

theorem readable
    (hCalm : Calm s H)
    (hMem : i ∈ s.bc.list) : Readable s i where
  good := hCalm.good
  spare := Nat.lt_of_lt_of_le (by decide) hCalm.spare
  fresh := hCalm.fresh i hMem

theorem reads
    (hCalm : Calm s H)
    (hMem : i ∈ s.bc.list)
    (hst : Reads i s t) : Calm t H where
  good := hCalm.good.mono hst.clock
  spare := by
    rw [hst.spareFree]
    exact hCalm.spare
  clone := by
    rw [hst.buf]
    exact hCalm.clone
  two := by
    rw [hst.list]
    exact hCalm.two
  nodup := by
    rw [hst.list]
    exact hCalm.nodup
  fresh := by
    intro j hj
    rw [hst.list] at hj
    rw [hst.flash]
    by_cases hji : j = i
    · subst hji
      exact hst.fresh (hCalm.fresh j hMem)
    · rw [hst.other j hji]
      exact hCalm.fresh j hj
  unique := by
    intro j hj k hk
    have hBlock : ∀ j, (t.bc.info j).block =
        (s.bc.info j).block := by
      intro j
      by_cases hji : j = i
      · subst hji
        exact hst.block
      · rw [hst.other j hji]
    rw [hst.list] at hj hk
    rw [hBlock j, hBlock k]
    exact hCalm.unique j hj k hk
  refs := by
    intro j hj
    rw [hst.list] at hj
    by_cases hji : j = i
    · subst hji
      rw [hst.refCount]
      exact hCalm.refs j hj
    · rw [hst.other j hji]
      exact hCalm.refs j hj

/- Only the parts named here matter to being calm. -/
theorem congr
    (hCalm : Calm s H)
    (hClock : s.clock ≤ t.clock)
    (hSpare : t.spareFree = s.spareFree)
    (hClone : t.buf.clone = s.buf.clone)
    (hBc : t.bc = s.bc)
    (hFlash : t.flash = s.flash) : Calm t H where
  good := hCalm.good.mono hClock
  spare := by
    rw [hSpare]
    exact hCalm.spare
  clone := by
    rw [hClone]
    exact hCalm.clone
  two := by
    rw [hBc]
    exact hCalm.two
  nodup := by
    rw [hBc]
    exact hCalm.nodup
  fresh := by
    rw [hBc, hFlash]
    exact hCalm.fresh
  unique := by
    rw [hBc]
    exact hCalm.unique
  refs := by
    rw [hBc]
    exact hCalm.refs

end Calm

------------------------------------------------------------
-- Getting and Putting a Block Info
------------------------------------------------------------

/- Move an entry of the list to its end. -/
omit [Platform] in
theorem perm_moveToTail
    {l : List Nat}
    {i : Nat}
    (hMem : i ∈ l) : (l.erase i ++ [i]).Perm l :=
  (List.perm_append_singleton i (l.erase i)).trans
    (List.perm_cons_erase hMem).symm

/- Entry `i` is taken for block `b`. -/
structure Gets (i b : Nat) (s t : Dev) : Prop where
  rest : t = { s with bc := t.bc }
  mem : i ∈ s.bc.list
  perm : t.bc.list.Perm s.bc.list
  other : ∀ j, j ≠ i → t.bc.info j = s.bc.info j
  block : (t.bc.info i).block = b
  refCount :
    (t.bc.info i).refCount = (s.bc.info i).refCount + 1
  kept : ((s.bc.info i).block = b ∧
      (t.bc.info i).spares = (s.bc.info i).spares) ∨
    ((s.bc.info i).refCount = 0 ∧
      (∀ j ∈ s.bc.list, (s.bc.info j).block ≠ b) ∧
      ∀ p, ((t.bc.info i).spares p).expired = true)

namespace Gets

variable {i b : Nat} {s t : Dev} {H : Nat → Nat}

omit [Platform] in
theorem memAfter (h : Gets i b s t) : i ∈ t.bc.list :=
  h.perm.mem_iff.mpr h.mem

omit [Platform] in
theorem flash (h : Gets i b s t) : t.flash = s.flash := by
  rw [h.rest]

omit [Platform] in
theorem buf (h : Gets i b s t) : t.buf = s.buf := by
  rw [h.rest]

omit [Platform] in
theorem tree (h : Gets i b s t) : t.tree = s.tree := by
  rw [h.rest]

omit [Platform] in
theorem clock (h : Gets i b s t) : t.clock = s.clock := by
  rw [h.rest]

omit [Platform] in
theorem spareFree (h : Gets i b s t) :
    t.spareFree = s.spareFree := by
  rw [h.rest]

omit [Platform] in
theorem pending (h : Gets i b s t) :
    t.pending = s.pending := by
  rw [h.rest]

/- An entry in use elsewhere keeps its block. -/
omit [Platform] in
theorem held
    (h : Gets i b s t)
    {j : Nat}
    (hRef : 0 < (s.bc.info j).refCount) :
    (t.bc.info j).block = (s.bc.info j).block := by
  by_cases hji : j = i
  · subst hji
    rcases h.kept with ⟨hBlock, _⟩ | ⟨hZero, _, _⟩
    · rw [h.block, hBlock]
    · omega
  · rw [h.other j hji]

theorem calm
    (h : Gets i b s t)
    (hCalm : Calm s H) :
    Calm t (upd H i (H i + 1)) where
  good := by
    rw [h.clock]
    exact hCalm.good
  spare := by
    rw [h.spareFree]
    exact hCalm.spare
  clone := by
    rw [h.buf]
    exact hCalm.clone
  two := by
    rw [h.perm.length_eq]
    exact hCalm.two
  nodup := h.perm.nodup_iff.mpr hCalm.nodup
  fresh := by
    intro j hj
    rw [h.flash]
    by_cases hji : j = i
    · subst hji
      rcases h.kept with ⟨hBlock, hSpares⟩ | ⟨_, _, hExpired⟩
      · intro p hp hKept
        rw [hSpares] at hKept
        rw [h.block, ← hBlock, hSpares]
        exact hCalm.fresh j h.mem p hp hKept
      · intro p _ hKept
        rw [hExpired p] at hKept
        cases hKept
    · rw [h.other j hji]
      exact hCalm.fresh j (h.perm.mem_iff.mp hj)
  unique := by
    intro j hj k hk hEq hValid
    have hj' := h.perm.mem_iff.mp hj
    have hk' := h.perm.mem_iff.mp hk
    have hNew : ∀ j ∈ s.bc.list, j ≠ i →
        (s.bc.info j).block = b → b ≠ invalidBlock →
        False := by
      intro j hj hji hb hbValid
      rcases h.kept with ⟨hBlock, _⟩ | ⟨_, hNone, _⟩
      · refine hji (hCalm.unique j hj i h.mem ?_ ?_)
        · rw [hb, hBlock]
        · rw [hb]
          exact hbValid
      · exact hNone j hj hb
    by_cases hji : j = i
    · by_cases hki : k = i
      · rw [hji, hki]
      · exfalso
        rw [hji, h.block] at hEq hValid
        rw [h.other k hki] at hEq
        exact hNew k hk' hki hEq.symm hValid
    · by_cases hki : k = i
      · exfalso
        rw [hki, h.block, h.other j hji] at hEq
        rw [h.other j hji, hEq] at hValid
        exact hNew j hj' hji hEq hValid
      · rw [h.other j hji, h.other k hki] at hEq
        rw [h.other j hji] at hValid
        exact hCalm.unique j hj' k hk' hEq hValid
  refs := by
    intro j hj
    by_cases hji : j = i
    · subst hji
      rw [h.refCount, upd_same, hCalm.refs j h.mem]
    · rw [h.other j hji, upd_other _ _ hji]
      exact hCalm.refs j (h.perm.mem_iff.mp hj)

end Gets

/- A block info is found or a free entry is taken for it. -/
theorem wp_blockInfoGet
    {s : Dev}
    {H : Nat → Nat}
    (b : Nat)
    (hCalm : Calm s H)
    (hFree : ∃ j ∈ s.bc.list, H j = 0) :
    wp (blockInfoGet b)
      (fun r es t =>
        es = [] ∧ ∃ i, r = some i ∧ Gets i b s t) s := by
  simp only [blockInfoGet, blockInfoFindInCache, wp_bind,
    wp_get]
  cases hFind : s.bc.list.find? fun i =>
      (s.bc.info i).block == b with
  | some i =>
      have hMem := List.mem_of_find?_eq_some hFind
      have hBlock : (s.bc.info i).block = b := by
        simpa using List.find?_some hFind
      simp only [setInfo, moveBcToTail, wp_bind, wp_modify,
        wp_pure, List.append_nil, true_and]
      refine ⟨i, rfl, rfl, hMem, perm_moveToTail hMem, ?_, ?_,
        ?_, Or.inl ⟨hBlock, ?_⟩⟩
      · intro j hj
        exact upd_other _ _ hj
      · simp [hBlock]
      · simp
      · simp
  | none =>
      have hNone : ∀ j ∈ s.bc.list,
          (s.bc.info j).block ≠ b := by
        simpa using List.find?_eq_none.mp hFind
      simp only [wp_pure, wp_get, wp_bind]
      cases hUnused : s.bc.list.find? fun i =>
          (s.bc.info i).refCount == 0 with
      | none =>
          exfalso
          rcases hFree with ⟨j, hj, hZero⟩
          have hAll := List.find?_eq_none.mp hUnused j hj
          rw [hCalm.refs j hj, hZero] at hAll
          simp at hAll
      | some i =>
          have hMem := List.mem_of_find?_eq_some hUnused
          have hZero : (s.bc.info i).refCount = 0 := by
            simpa using List.find?_some hUnused
          simp only [setInfo, moveBcToTail, wp_bind, wp_modify,
            wp_pure, List.append_nil, true_and]
          refine ⟨i, rfl, rfl, hMem, perm_moveToTail hMem, ?_,
            ?_, ?_, Or.inr ⟨hZero, hNone, ?_⟩⟩
          · intro j hj
            exact upd_other _ _ hj
          · simp
          · simp [hZero]
          · intro p
            simp

/- Putting an entry back keeps the device calm. -/
theorem calm_blockInfoPut
    {s : Dev}
    {H : Nat → Nat}
    {i : Nat}
    (hCalm : Calm s H) :
    wp (blockInfoPut i)
      (fun _ es t =>
        es = [] ∧ Calm t (upd H i (H i - 1)) ∧
          t = { s with bc := t.bc } ∧
          t.bc.list = s.bc.list ∧
          (∀ j, (t.bc.info j).block = (s.bc.info j).block) ∧
          ∀ j, (t.bc.info j).spares = (s.bc.info j).spares)
      s := by
  simp only [blockInfoPut, setInfo, wp_modify, true_and]
  have hBlock : ∀ j,
      (upd s.bc.info i
        { s.bc.info i with
          refCount := (s.bc.info i).refCount - 1 } j).block =
        (s.bc.info j).block := by
    intro j
    by_cases hji : j = i
    · subst hji
      simp
    · rw [upd_other _ _ hji]
  have hSpares : ∀ j,
      (upd s.bc.info i
        { s.bc.info i with
          refCount := (s.bc.info i).refCount - 1 } j).spares =
        (s.bc.info j).spares := by
    intro j
    by_cases hji : j = i
    · subst hji
      simp
    · rw [upd_other _ _ hji]
  refine ⟨⟨hCalm.good, hCalm.spare, hCalm.clone, hCalm.two,
    hCalm.nodup, ?_, ?_, ?_⟩, hBlock, hSpares⟩
  · intro j hj
    by_cases hji : j = i
    · subst hji
      simp only [upd_same]
      exact hCalm.fresh j hj
    · simp only [upd_other _ _ hji]
      exact hCalm.fresh j hj
  · intro j hj k hk hEq hValid
    simp only [hBlock] at hEq hValid
    exact hCalm.unique j hj k hk hEq hValid
  · intro j hj
    by_cases hji : j = i
    · subst hji
      simp only [upd_same, hCalm.refs j hj]
    · simp only [upd_other _ _ hji]
      exact hCalm.refs j hj

------------------------------------------------------------
-- Erasing a Block
------------------------------------------------------------

/- The flash with one block erased. -/
def Flash.eraseBlock (F : Flash) (b : Nat) : Flash where
  page := upd F.page b fun _ => Page.erased pgDataSize
  bad := upd F.bad b false

/- Block `b` is erased from `s` to `t`. -/
structure Erases (b : Nat) (s t : Dev) : Prop where
  rest : t =
    { s with
      flash := s.flash.eraseBlock b
      clock := s.clock + 1
      bc := t.bc
      pending := s.pending.remove b
      watch := t.watch }
  list : t.bc.list = s.bc.list
  block : ∀ i, (t.bc.info i).block = (s.bc.info i).block
  refCount : ∀ i,
    (t.bc.info i).refCount = (s.bc.info i).refCount
  spares : ∀ i ∈ s.bc.list,
    (s.bc.info i).block ≠ b →
      (t.bc.info i).spares = (s.bc.info i).spares
  expired : ∀ i ∈ s.bc.list,
    (s.bc.info i).block = b →
      ∀ p, ((t.bc.info i).spares p).expired = true

theorem Erases.calm
    {b : Nat}
    {s t : Dev}
    {H : Nat → Nat}
    (h : Erases b s t)
    (hCalm : Calm s H) : Calm t H := by
  have hFlash : t.flash = s.flash.eraseBlock b := by
    rw [h.rest]
  refine ⟨?_, ?_, ?_, ?_, ?_, ?_, ?_, ?_⟩
  · rw [h.rest]
    exact hCalm.good.mono (Nat.le_succ _)
  · rw [h.rest]
    exact hCalm.spare
  · rw [h.rest]
    exact hCalm.clone
  · rw [h.list]
    exact hCalm.two
  · rw [h.list]
    exact hCalm.nodup
  · intro i hi p hp hKept
    rw [h.list] at hi
    by_cases hb : (s.bc.info i).block = b
    · rw [h.expired i hi hb p] at hKept
      cases hKept
    · rw [h.spares i hi hb] at hKept ⊢
      rw [hFlash, h.block]
      simp only [Flash.eraseBlock, upd_other _ _ hb]
      exact hCalm.fresh i hi p hp hKept
  · intro i hi j hj
    rw [h.list] at hi hj
    rw [h.block, h.block]
    exact hCalm.unique i hi j hj
  · intro i hi
    rw [h.list] at hi
    rw [h.refCount]
    exact hCalm.refs i hi

/- Expiring what the cache holds of block `b`. -/
theorem wp_expireCached
    {s : Dev}
    (b : Nat)
    (hUnique : ∀ i ∈ s.bc.list, ∀ j ∈ s.bc.list,
      (s.bc.info i).block = b → (s.bc.info j).block = b →
        i = j) :
    wp (expireCached b)
      (fun _ es t =>
        es = [] ∧ t = { s with bc := t.bc } ∧
        t.bc.list = s.bc.list ∧
        (∀ i, (t.bc.info i).block = (s.bc.info i).block) ∧
        (∀ i, (t.bc.info i).refCount =
          (s.bc.info i).refCount) ∧
        (∀ i ∈ s.bc.list, (s.bc.info i).block ≠ b →
          (t.bc.info i).spares = (s.bc.info i).spares) ∧
        ∀ i ∈ s.bc.list, (s.bc.info i).block = b →
          ∀ p, ((t.bc.info i).spares p).expired = true)
      s := by
  simp only [expireCached, blockInfoFindInCache, wp_bind,
    wp_get]
  cases hFind : s.bc.list.find? fun i =>
      (s.bc.info i).block == b with
  | none =>
      have hNone : ∀ j ∈ s.bc.list,
          (s.bc.info j).block ≠ b := by
        simpa using List.find?_eq_none.mp hFind
      simp only [wp_pure, List.append_nil, implies_true,
        true_and]
      intro i hi hb
      exact absurd hb (hNone i hi)
  | some k =>
      have hMem := List.mem_of_find?_eq_some hFind
      have hBlock : (s.bc.info k).block = b := by
        simpa using List.find?_some hFind
      simp only [setInfo, blockInfoExpireAll, blockInfoPut,
        wp_bind, wp_modify, wp_pure, List.append_nil, true_and]
      refine ⟨?_, ?_, ?_, ?_⟩
      · intro i
        by_cases hik : i = k
        · subst hik
          simp
        · simp [upd_other _ _ hik]
      · intro i
        by_cases hik : i = k
        · subst hik
          simp
        · simp [upd_other _ _ hik]
      · intro i hi hb
        have hik : i ≠ k := by
          rintro rfl
          exact hb hBlock
        simp [upd_other _ _ hik]
      · intro i hi hb p
        have hik := hUnique i hi k hMem hb hBlock
        subst hik
        simp

/- An erase on a good flash. -/
theorem wp_flashEraseBlock
    {s : Dev}
    {H : Nat → Nat}
    {b : Nat}
    (hCalm : Calm s H)
    (hb : b ≠ invalidBlock) :
    wp (flashEraseBlock b)
      (fun r es t =>
        r = .noErr ∧
          es = [.erase b .noErr
            (some fun _ => Page.erased pgDataSize)] ∧
          Erases b s t) s := by
  have hRet := hCalm.good s.clock (Nat.le_refl _)
  simp only [flashEraseBlock, badBlockPendingRemove,
    driverEraseBlock, nextAnswer, medium, wp_bind, wp_get,
    wp_modify, wp_emit, wp_pure, hRet, FlashRet.haveErr,
    Bool.not_false, if_true, Event.apply, List.nil_append,
    List.append_nil]
  refine wp_mono (wp_expireCached b ?_) ?_
  · intro i hi j hj hib hjb
    refine hCalm.unique i hi j hj ?_ ?_
    · exact hib.trans hjb.symm
    · intro hInv
      exact hb (hib.symm.trans hInv)
  · rintro _ es t ⟨rfl, hRest, hList, hBlock, hRef, hSpares,
      hExpired⟩
    refine ⟨trivial, by simp, ?_, hList, hBlock, hRef, hSpares,
      hExpired⟩
    rw [hRest]
    rfl

end Uffs
