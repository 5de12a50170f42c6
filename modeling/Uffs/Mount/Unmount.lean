import Uffs.Files.Plain
import Uffs.Model.Emulator
import Uffs.Model.MountTable

/-
  Unmounting a device whose page buffers are dirty.

  `uffs_ReleaseDevice` gives up the cached block infos before
  the page buffers are flushed.  A flush that finds no block
  info fails, so that a device with a dirty group is not
  released, and its buffers are not written.

  Main declarations:
    * `NoInfo`
    * `bufFlushSlot_noInfo`
    * `MountTable.LosesNothing`
    * `unMount_losesNothing_iff`
    * `unMountsLoseNothing_false`
-/

namespace Uffs

open Prog

section Unmount

variable [Platform] {ok : Event → Prop}

------------------------------------------------------------
-- A Device without Block Infos
------------------------------------------------------------

/- A device whose block infos are released stays so. -/
def NoInfo (s t : Dev) : Prop :=
  s.bc.list = [] → t.bc.list = []

instance : IsPreorder Dev NoInfo where
  refl _ h := h
  trans _ _ _ hFirst hSecond h := hSecond (hFirst h)

omit [Platform] in
theorem blockInfoFindInCache_noInfo
    {s : Dev}
    (hNone : s.bc.list = [])
    (b : Nat) :
    wlp ok (blockInfoFindInCache b)
      (fun o t => o = none ∧ t = s) s := by
  unfold blockInfoFindInCache
  rw [wlp_bind, wlp_get, hNone, List.find?_nil, wlp_pure]
  exact ⟨rfl, rfl⟩

theorem blockInfoGet_noInfo
    {s : Dev}
    (hNone : s.bc.list = [])
    (b : Nat) :
    wlp ok (blockInfoGet b)
      (fun o t => o = none ∧ t = s) s := by
  unfold blockInfoGet
  refine wlp_seq (blockInfoFindInCache_noInfo hNone b) ?_
  intro o t ht
  rcases ht with ⟨ho, ht⟩
  subst ho ht
  dsimp only
  rw [wlp_bind, wlp_get, hNone, List.find?_nil, wlp_pure]
  exact ⟨rfl, rfl⟩

theorem plainLayer_noInfo : PlainLayer ok NoInfo where
  same s t _ hList hNone := by
    rw [hList]
    exact hNone
  infoFind b := by
    unfold blockInfoFindInCache
    apply Within.bind Within.get
    intro s
    cases s.bc.list.find? fun i =>
        (s.bc.info i).block == b with
    | none => exact Within.pure _
    | some i =>
        apply Within.bind
        · exact Within.modify fun _ hNone => hNone
        intro _
        exact Within.pure _
  infoGet b := by
    intro s
    by_cases hNone : s.bc.list = []
    · refine wlp_mono (blockInfoGet_noInfo hNone b) ?_
      intro o t ht
      rw [ht.2]
      exact id
    · apply wlp_of_forall
      intro _ t h
      exact absurd h hNone

------------------------------------------------------------
-- Flushing without Block Infos
------------------------------------------------------------

theorem bufFlushNewBlock_noInfo
    {s : Dev}
    (hNone : s.bc.list = [])
    (slot : Nat) :
    wlp ok (bufFlushNewBlock slot)
      (fun ret _ => ret = .fail) s := by
  unfold bufFlushNewBlock
  refine wlp_seq
    (plainLayer_noInfo.blockLayer.treeGetErasedNode s) ?_
  intro o t ht
  cases o with
  | none =>
      dsimp only
      rw [wlp_pure]
  | some node =>
      dsimp only [getNode]
      rw [wlp_bind, wlp_gets]
      refine wlp_seq (blockInfoGet_noInfo (ht hNone) _) ?_
      intro o u hu
      rcases hu with ⟨ho, hu⟩
      subst ho hu
      dsimp only
      rw [wlp_bind]
      apply wlp_of_forall
      intro _ v
      rw [wlp_pure]

theorem bufFlushExist_noInfo
    {s : Dev}
    (hNone : s.bc.list = [])
    (slot node : Nat)
    (force : Bool) :
    wlp ok (bufFlushExist slot node force)
      (fun ret _ => ret = .fail) s := by
  unfold bufFlushExist getNode
  rw [wlp_bind, wlp_gets]
  refine wlp_seq (blockInfoGet_noInfo hNone _) ?_
  intro o t ht
  rcases ht with ⟨ho, ht⟩
  subst ho ht
  dsimp only
  rw [wlp_pure]

/- A dirty group is not flushed without block infos. -/
theorem bufFlushSlot_noInfo
    {s : Dev}
    (hNone : s.bc.list = [])
    {slot : Nat}
    (hDirty : (s.buf.group slot).count ≠ 0)
    (force : Bool) :
    wlp ok (bufFlushSlot force slot)
      (fun ret _ => ret = .fail) s := by
  unfold bufFlushSlot getGroup checkDirtyList dirtyHeadKey
  rw [wlp_bind, wlp_gets, if_neg hDirty, wlp_bind, wlp_gets]
  split
  · rw [wlp_pure]
  · rw [wlp_bind, wlp_gets]
    split
    · rw [wlp_pure]
    · refine wlp_seq (DeviceLayer.findFromTree (R := NoInfo)
        _ _ _ s) ?_
      intro o t ht
      cases o with
      | none => exact bufFlushNewBlock_noInfo (ht hNone) slot
      | some node =>
          exact bufFlushExist_noInfo (ht hNone) slot node force

/- A group that is not dirty is passed over. -/
theorem bufFlushSlot_of_clean
    {s : Dev}
    {slot : Nat}
    (hClean : (s.buf.group slot).count = 0)
    (force : Bool) :
    bufFlushSlot force slot s = some (.succ, [], s) := by
  unfold bufFlushSlot getGroup
  rw [run_bind, run_gets]
  dsimp only
  rw [if_pos hClean, run_pure]
  rfl

theorem bufFlushAllFrom_noInfo
    {s : Dev}
    (hNone : s.bc.list = [])
    (n : Nat) :
    ∀ first slot, first ≤ slot → slot < first + n →
      (s.buf.group slot).count ≠ 0 →
      wlp ok (bufFlushAllFrom n first)
        (fun ret _ => ret = .fail) s := by
  induction n with
  | zero =>
      intro first slot hFrom hTo _
      omega
  | succ n ih =>
      intro first slot hFrom hTo hDirty
      unfold bufFlushAllFrom
      by_cases hFirst : (s.buf.group first).count = 0
      · have hNe : first ≠ slot := by
          intro hEq
          rw [hEq] at hFirst
          exact hDirty hFirst
        have hRest := ih (first + 1) slot (by omega) (by omega)
          hDirty
        have hPass : wlp ok (bufFlushSlot false first)
            (fun ret t => ret = .succ ∧ t = s) s := by
          intro ret es t hRun _
          rw [bufFlushSlot_of_clean hFirst] at hRun
          cases hRun
          exact ⟨rfl, rfl⟩
        refine wlp_seq hPass ?_
        intro ret t ht
        rcases ht with ⟨hRet, ht⟩
        subst hRet ht
        exact hRest
      · refine wlp_seq (bufFlushSlot_noInfo hNone hFirst _) ?_
        intro ret t hRet
        subst hRet
        dsimp only
        rw [wlp_pure]

theorem bufFlushAllFrom_of_clean
    {s : Dev}
    (n : Nat) :
    ∀ first, (∀ slot < first + n,
        (s.buf.group slot).count = 0) →
      bufFlushAllFrom n first s = some (.succ, [], s) := by
  induction n with
  | zero =>
      intro first _
      unfold bufFlushAllFrom
      exact run_pure _ _
  | succ n ih =>
      intro first hClean
      have hFirst := hClean first (by omega)
      have hRest := ih (first + 1) (by
        intro slot hSlot
        exact hClean slot (by omega))
      unfold bufFlushAllFrom
      rw [run_bind, bufFlushSlot_of_clean hFirst]
      dsimp only
      rw [hRest]
      rfl

------------------------------------------------------------
-- What Unmounting Is For
------------------------------------------------------------

/- Every call of the driver succeeds in an attempt. -/
def MountEnv.Good (env : MountEnv) : Prop :=
  ∀ k, (env.answer k).ret = .noErr

/- The page `i` is in the list of a dirty group. -/
def BufPool.InDirtyGroup
    (p : BufPool)
    (i : Nat) : Prop :=
  ∃ slot < dirtyGroups, (p.group slot).count ≠ 0 ∧
    i ∈ (p.group slot).dirty

/- A call of the driver programs the content of a buffer. -/
def Event.Programs (e : Event) (b : Buf) : Prop :=
  ∃ block page ret c, e = .program block page ret (some c) ∧
    ret.haveErr = false ∧ c.data = b.data ∧
    c.tag.type = b.type ∧ c.tag.parent = b.parent ∧
    c.tag.serial = b.serial ∧ c.tag.pageId = b.pageId ∧
    c.tag.dataLen = b.dataLen

/- Reading the page of a buffer yields its content. -/
def Dev.Shows (s : Dev) (b : Buf) : Prop :=
  ∃ node es t i fs u,
    findFromTree b.type b.parent b.serial s =
      some (some node, es, t) ∧
    bufGetEx b.type node b.pageId false t =
      some (some i, fs, u) ∧
    (u.buf.entry i).dataLen = b.dataLen ∧
    (u.buf.entry i).data.take b.dataLen =
      b.data.take b.dataLen

namespace MountTable

/- A mount point of a device that is set up. -/
structure Mounted
    (t : MountTable)
    (name : List Byte) : Prop where
  mounted : name ∈ t.mounted
  notUnmounted : name ∉ t.unmounted
  bcHead : (t.device name).bcHead = true

/-
  Unmounting succeeds, every dirty page has been programmed,
  and a later mount shows what was buffered.
-/
def LosesNothing
    (t : MountTable)
    (env : ReleaseEnv)
    (name : List Byte) : Prop :=
  ∃ es u, t.unMount env name = some (0, es, u) ∧
    ∀ i, (t.device name).dev.buf.InDirtyGroup i →
      (∃ e ∈ es,
        e.Programs ((t.device name).dev.buf.entry i)) ∧
      ∀ menv v, menv.Good →
        u.mount menv name = some (0, v) →
        letI := menv.platform
        (v.device name).dev.Shows
          ((t.device name).dev.buf.entry i)

end MountTable

/- No group is dirty, and no page buffer is held. -/
structure BufPool.Quiet (p : BufPool) : Prop where
  clean : ∀ slot < dirtyGroups, (p.group slot).count = 0
  free : p.isAllFree = true

/- Nor is a block info held. -/
structure Dev.Idle (s : Dev) : Prop where
  buf : s.buf.Quiet
  infos : s.bc.isAllFree = true

------------------------------------------------------------
-- Releasing a Device
------------------------------------------------------------

omit [Platform] in
theorem blockInfoReleaseCache_of_free
    {m : MountDev}
    (hFree : m.dev.bc.isAllFree = true) :
    ∃ n, blockInfoReleaseCache m = (.succ, n) ∧
      n.dev.bc.list = [] ∧ n.dev.buf = m.dev.buf := by
  unfold BcCache.isAllFree at hFree
  unfold blockInfoReleaseCache
  dsimp only
  rw [hFree, Bool.not_true, Bool.and_false,
    if_neg Bool.false_ne_true]
  exact ⟨_, rfl, rfl, rfl⟩

omit [Platform] in
theorem blockInfoReleaseCache_of_held
    {m : MountDev}
    (hHead : m.bcHead = true)
    (hHeld : m.dev.bc.isAllFree = false) :
    blockInfoReleaseCache m = (.fail, m) := by
  unfold BcCache.isAllFree at hHeld
  unfold blockInfoReleaseCache
  dsimp only
  rw [hHeld, hHead]
  rfl

/-
  Without block infos the page buffers are released if and
  only if there is nothing to flush.
-/
theorem bufReleaseAll_succ_iff
    {m : MountDev}
    (hNone : m.dev.bc.list = []) :
    (∃ es n, bufReleaseAll m = some (.succ, es, n)) ↔
      m.dev.buf.Quiet := by
  unfold bufReleaseAll
  constructor
  · intro h
    rcases h with ⟨es, n, h⟩
    split at h
    · cases h
    · rename_i hFree
      rw [Bool.not_eq_true, Bool.not_eq_false'] at hFree
      constructor
      · intro slot hSlot
        by_contra hDirty
        have hFail : wlp (fun _ => True) bufFlushAll
            (fun ret _ => ret = .fail) m.dev :=
          bufFlushAllFrom_noInfo hNone dirtyGroups 0 slot
            (Nat.zero_le slot) (by omega) hDirty
        split at h
        · cases h
        · cases h
        · rename_i hRun
          have hRet := hFail _ _ _ hRun fun _ _ => trivial
          cases hRet
      · exact hFree
  · intro hIdle
    have hRun : bufFlushAll m.dev = some (.succ, [], m.dev) :=
      bufFlushAllFrom_of_clean dirtyGroups 0
        fun slot hSlot => hIdle.clean slot (by omega)
    rw [hIdle.free, hRun]
    exact ⟨_, _, rfl⟩

/- A device is released if and only if it is idle. -/
theorem releaseDevice_succ_iff
    {env : ReleaseEnv}
    {m : MountDev}
    (hHead : m.bcHead = true)
    (hFlash : env.releaseFlash = .succ)
    (hMem : env.memRelease = .succ) :
    (∃ es n, releaseDevice env m = some (.succ, es, n)) ↔
      m.dev.Idle := by
  unfold releaseDevice
  cases hInfos : m.dev.bc.isAllFree with
  | false =>
      rw [blockInfoReleaseCache_of_held hHead hInfos]
      constructor
      · intro h
        rcases h with ⟨_, _, h⟩
        cases h
      · intro hIdle
        rw [hIdle.infos] at hInfos
        cases hInfos
  | true =>
  rcases blockInfoReleaseCache_of_free hInfos with
    ⟨n, hRelease, hNone, hBuf⟩
  have hIff : m.dev.Idle ↔ n.dev.buf.Quiet := by
    rw [hBuf]
    exact ⟨fun h => h.buf, fun h => ⟨h, hInfos⟩⟩
  rw [hRelease, hIff]
  dsimp only
  constructor
  · intro h
    rcases h with ⟨es, u, h⟩
    split at h
    · cases h
    · cases h
    · rename_i hAll
      exact (bufReleaseAll_succ_iff hNone).mp ⟨_, _, hAll⟩
  · intro hIdle
    rcases (bufReleaseAll_succ_iff hNone).mpr hIdle with
      ⟨fs, u, hAll⟩
    rw [hAll]
    unfold flashInterfaceRelease
    rw [hFlash]
    dsimp only
    rw [hMem]
    exact ⟨_, _, rfl⟩

------------------------------------------------------------
-- Unmounting
------------------------------------------------------------

namespace MountTable

variable {t : MountTable} {env : ReleaseEnv}
  {name : List Byte}

omit [Platform] in
theorem setDevice_self :
    t.setDevice name (t.device name) = t := by
  unfold setDevice
  congr
  funext n
  split
  · rename_i hEq
    rw [hEq]
  · rfl

/- Without a pending block nothing is recovered. -/
theorem unMount_of_noPending
    (hMounted : t.Mounted name)
    (hPending : (t.device name).dev.pending.count = 0) :
    t.unMount env name = t.unMountIdle env name := by
  have hRecover : recoverIfPending (t.device name).dev =
      some ((), [], (t.device name).dev) := by
    unfold recoverIfPending haveBadBlock
    rw [run_bind, run_gets]
    dsimp only
    rw [hPending]
    rfl
  unfold unMount
  rw [if_neg (not_not_intro hMounted.mounted),
    if_neg hMounted.notUnmounted, hRecover]
  dsimp only
  rw [setDevice_self]
  cases t.unMountIdle env name with
  | none => rfl
  | some r => rfl

/- Unmounting returns 0 when the device is released. -/
theorem unMountIdle_zero_iff
    (hRef : (t.device name).dev.refCount = 0) :
    (∃ es u, t.unMountIdle env name = some (0, es, u)) ↔
      ∃ es m, releaseDevice env (t.device name) =
        some (.succ, es, m) := by
  unfold unMountIdle
  rw [if_neg (not_not_intro hRef)]
  constructor
  · intro h
    rcases h with ⟨es, u, h⟩
    split at h
    · cases h
    · cases h
    · rename_i hRelease
      exact ⟨_, _, hRelease⟩
  · intro h
    rcases h with ⟨es, m, hRelease⟩
    rw [hRelease]
    exact ⟨_, _, rfl⟩

end MountTable

/- Nothing is buffered in an idle device. -/
theorem BufPool.Quiet.not_inDirtyGroup
    {p : BufPool}
    (h : p.Quiet)
    (i : Nat) : ¬ p.InDirtyGroup i := by
  intro hDirty
  rcases hDirty with ⟨slot, hSlot, hCount, _⟩
  exact hCount (h.clean slot hSlot)

/-
  For a mounted device that no object refers to and that has
  no pending block, unmounting loses nothing if and only if
  nothing is dirty and nothing is held.
-/
theorem unMount_losesNothing_iff
    {t : MountTable}
    {env : ReleaseEnv}
    {name : List Byte}
    (hMounted : t.Mounted name)
    (hRef : (t.device name).dev.refCount = 0)
    (hPending : (t.device name).dev.pending.count = 0)
    (hFlash : env.releaseFlash = .succ)
    (hMem : env.memRelease = .succ) :
    t.LosesNothing env name ↔ (t.device name).dev.Idle := by
  unfold MountTable.LosesNothing
  rw [MountTable.unMount_of_noPending hMounted hPending]
  have hZero : _ ↔ ∃ es m, releaseDevice env
      (t.device name) = some (.succ, es, m) :=
    MountTable.unMountIdle_zero_iff hRef
  have hIdle := releaseDevice_succ_iff hMounted.bcHead hFlash hMem
  constructor
  · intro h
    rcases h with ⟨es, u, hRun, _⟩
    exact hIdle.mp (hZero.mp ⟨es, u, hRun⟩)
  · intro h
    rcases hZero.mpr (hIdle.mpr h) with ⟨es, u, hRun⟩
    refine ⟨es, u, hRun, ?_⟩
    intro i hDirty
    exact absurd hDirty (h.buf.not_inDirtyGroup i)

/- The property for every device that a session leaves. -/
def UnmountsLoseNothing : Prop :=
  ∀ (F : Flash) (ops : List Op) (t : MountTable)
    (env : ReleaseEnv) (name : List Byte),
    (∀ k, (Platform.answer k).ret = .noErr) →
    (∃ r es, session ops (Dev.init F 0) =
      some (r, es, (t.device name).dev)) →
    t.Mounted name →
    (t.device name).dev.refCount = 0 →
    (t.device name).dev.pending.count = 0 →
    env.releaseFlash = .succ →
    env.memRelease = .succ →
    t.LosesNothing env name

end Unmount

/- One mount point with a device that is set up. -/
def MountTable.single (dev : Dev) : MountTable where
  mounted := [[47]]
  unmounted := []
  device := fun _ =>
    { size := fun _ => true
      bufPool := true
      bcHead := true
      dev := dev }

theorem MountTable.single_mounted
    (dev : Dev) : (MountTable.single dev).Mounted [47] where
  mounted := List.mem_singleton_self _
  notUnmounted := List.not_mem_nil
  bcHead := rfl

theorem unMount_losesNothing_mounted :
    letI := emulator alwaysOk
    ∃ s : Dev, s.Idle ∧
      ((MountTable.single s).LosesNothing ⟨.succ, .succ⟩ [47] ↔
        s.Idle) := by
  let _ := emulator alwaysOk
  have hCheck : mount.check
      (fun _ _ s => decide (s.refCount = 0) &&
        decide (s.pending.count = 0) &&
        s.bc.isAllFree && s.buf.isAllFree &&
        decide (∀ slot < dirtyGroups,
          (s.buf.group slot).count = 0))
      (Dev.init Flash.blank 0) = true := by
    decide +kernel
  rcases wp_of_check hCheck with ⟨_, _, s, _, hEnd⟩
  simp only [Bool.and_eq_true, decide_eq_true_iff] at hEnd
  rcases hEnd with ⟨⟨⟨⟨hRef, hPending⟩, hInfos⟩, hFree⟩, hClean⟩
  exact ⟨s, ⟨⟨hClean, hFree⟩, hInfos⟩,
    unMount_losesNothing_iff (MountTable.single_mounted s)
      hRef hPending rfl rfl⟩

/-
  A file that was moved to another directory before it was
  closed leaves a dirty group without an object.
-/
theorem unMountsLoseNothing_false :
    letI := emulator alwaysOk
    ¬ UnmountsLoseNothing := by
  let _ := emulator alwaysOk
  intro h
  have hCheck : (session
      ([.getObject, .createObject 0 [47, 98, 47] { dir := true },
          .closeObject 0, .putObject 0] ++ createA ++
        [.openObject 0 pathA { rdwr := true },
          .writeObject 0 [1, 2, 3],
          .renameObject pathA [47, 98, 47, 97],
          .closeObject 0, .putObject 0])).check
      (fun _ _ s => decide (s.refCount = 0) &&
        decide (s.pending.count = 0) &&
        decide ((s.buf.group 0).count ≠ 0))
      (Dev.init Flash.blank 0) = true := by
    decide +kernel
  rcases wp_of_check hCheck with ⟨r, es, s, hRun, hEnd⟩
  simp only [Bool.and_eq_true, decide_eq_true_iff] at hEnd
  rcases hEnd with ⟨⟨hRef, hPending⟩, hDirty⟩
  have hMounted := MountTable.single_mounted s
  rcases h Flash.blank _ (MountTable.single s) ⟨.succ, .succ⟩
    [47] (fun _ => rfl) ⟨r, es, hRun⟩ hMounted hRef hPending
    rfl rfl with ⟨fs, u, hZero, _⟩
  rw [MountTable.unMount_of_noPending hMounted hPending]
    at hZero
  have hIdle := (releaseDevice_succ_iff rfl rfl rfl).mp
    ((MountTable.unMountIdle_zero_iff hRef).mp ⟨fs, u, hZero⟩)
  exact hDirty (hIdle.buf.clean 0 (by decide))

end Uffs
