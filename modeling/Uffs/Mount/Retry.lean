import Uffs.Model.Emulator
import Uffs.Model.MountTable

/-
  Mounting again after an attempt that failed.

  An attempt leaves the parts of the device that it set up as
  they are.  Setting up the page buffers a second time is
  refused, so that all depends on whether the first attempt
  came that far.

  Main declarations:
    * `MountEnv.StopsEarly`
    * `MountDev.ready`
    * `initDevice_succ_iff`
    * `mount_retried`
    * `mountsRetried_false`
-/

namespace Uffs

section Retry

------------------------------------------------------------
-- Memory of a Device
------------------------------------------------------------

/- The memory of a pool is there or can be allocated. -/
def MountDev.hasMemory
    (m : MountDev)
    (env : MountEnv)
    (p : MemPool) : Bool :=
  m.size p || env.malloc p

/-
  The attempt fails before the page buffers are set up: the
  driver, the memory allocator, the flash interface, or the
  memory of the page buffers.
-/
def MountEnv.StopsEarly
    (env : MountEnv)
    (m : MountDev) : Prop :=
  env.driverInit = .fail ∨ env.memInit = .fail ∨
    m.hasMemory env .spare = false ∨
    env.initFlash = .fail ∨
    m.hasMemory env .pagebuf = false

namespace MountDev

/- What the flash interface leaves, with `n` spare buffers. -/
def flashed
    (m : MountDev)
    (env : MountEnv)
    (n : Nat) : MountDev :=
  { m.allocate env .spare with
    dev := { m.dev with spareFree := n } }

/-
  The block infos of `m` have memory when they are set up
  again.
-/
def infoSize (m : MountDev) : Bool :=
  if m.bcHead then (blockInfoReleaseCache m).2.size .blockinfo
  else m.size .blockinfo

/-
  An attempt that fails early changes no more than this: it
  may have allocated memory, counts no pending block, and
  sets the number of spare buffers.
-/
structure Kept (m m' : MountDev) : Prop where
  size : ∀ p, m.size p = true → m'.size p = true
  bufPool : m'.bufPool = m.bufPool
  bcHead : m'.bcHead = m.bcHead
  dev : m'.dev =
    { m.dev with
      spareFree := m'.dev.spareFree
      pending := { m.dev.pending with
        count := m'.dev.pending.count
        blockInRecovery := m'.dev.pending.blockInRecovery } }

@[simp] theorem allocate_dev
    (m : MountDev) (env : MountEnv) (p : MemPool) :
    (m.allocate env p).dev = m.dev := rfl

@[simp] theorem allocate_bufPool
    (m : MountDev) (env : MountEnv) (p : MemPool) :
    (m.allocate env p).bufPool = m.bufPool := rfl

@[simp] theorem allocate_bcHead
    (m : MountDev) (env : MountEnv) (p : MemPool) :
    (m.allocate env p).bcHead = m.bcHead := rfl

@[simp] theorem allocate_size
    (m : MountDev) (env : MountEnv) (p : MemPool) :
    (m.allocate env p).size p = m.hasMemory env p := by
  simp [allocate, hasMemory]

theorem allocate_size_mono
    (m : MountDev) (env : MountEnv) (p : MemPool)
    {q : MemPool} (h : m.size q = true) :
    (m.allocate env p).size q = true := by
  simp [allocate, h]

theorem allocate_size_of_ne
    (m : MountDev) (env : MountEnv) {p q : MemPool}
    (h : q ≠ p) : (m.allocate env p).size q = m.size q := by
  simp [allocate, h]

variable {m m' : MountDev}

/- The parts of a device that the block infos depend on. -/
theorem infoSize_mono
    (hHead : m'.bcHead = m.bcHead)
    (hBc : m'.dev.bc = m.dev.bc)
    (hSize : m.size .blockinfo = true →
      m'.size .blockinfo = true)
    (h : m.infoSize = true) : m'.infoSize = true := by
  unfold infoSize blockInfoReleaseCache at h ⊢
  rw [hHead, hBc]
  split at h
  · rename_i hInit
    dsimp only at h ⊢
    rw [if_pos hInit]
    split at h
    · rename_i hBusy
      rw [if_pos hBusy]
      exact hSize h
    · rename_i hFree
      rw [if_neg hFree]
      simp [hInit] at h
  · rename_i hInit
    rw [if_neg hInit]
    exact hSize h

namespace Kept

theorem refl : m.Kept m where
  size := fun _ hSize => hSize
  bufPool := rfl
  bcHead := rfl
  dev := rfl

/- What an attempt leaves that fails at the flash interface. -/
theorem flashed
    (m : MountDev) (env : MountEnv) (n : Nat) :
    m.Kept (m.initPending.flashed env n) where
  size := fun _ => m.initPending.allocate_size_mono env .spare
  bufPool := rfl
  bcHead := rfl
  dev := rfl

/- Allocating memory. -/
theorem allocate
    (h : m.Kept m')
    (env : MountEnv) (p : MemPool) :
    m.Kept (m'.allocate env p) where
  size := fun q hq => m'.allocate_size_mono env p (h.size q hq)
  bufPool := h.bufPool
  bcHead := h.bcHead
  dev := h.dev

theorem infoSize
    (h : m.Kept m')
    (hSize : m.infoSize = true) : m'.infoSize = true := by
  apply infoSize_mono h.bcHead _ (h.size _) hSize
  rw [h.dev]

end Kept

end MountDev

variable {env : MountEnv} {m m' u : MountDev}

/- Memory that is there is not allocated again. -/
theorem MountDev.Kept.hasMemory
    {p : MemPool}
    (h : m.Kept m')
    (hMemory : m.hasMemory env p = true) :
    m'.hasMemory env p = true := by
  unfold MountDev.hasMemory at hMemory ⊢
  rw [Bool.or_eq_true] at hMemory ⊢
  exact hMemory.imp_left (h.size p)

/- Memory for the page buffers does not depend on the spares. -/
theorem MountDev.hasMemory_flashed
    (n : Nat) :
    (m.initPending.flashed env n).hasMemory env .pagebuf =
      m.hasMemory env .pagebuf := by
  unfold MountDev.hasMemory
  exact congrArg (· || _)
    (m.initPending.allocate_size_of_ne env (by decide))

------------------------------------------------------------
-- What an Attempt Needs
------------------------------------------------------------

/- An attempt that comes past the page buffers. -/
structure MountEnv.Pages
    (env : MountEnv)
    (m : MountDev) : Prop where
  memInit : env.memInit = .succ
  spare : m.hasMemory env .spare = true
  initFlash : env.initFlash = .succ
  bufPool : m.bufPool = false
  pagebuf : m.hasMemory env .pagebuf = true

theorem MountEnv.not_pages
    (h : env.memInit = .fail ∨
      m.hasMemory env .spare = false ∨
      env.initFlash = .fail ∨
      m.hasMemory env .pagebuf = false) :
    ¬ env.Pages m := by
  intro hPages
  rcases h with h | h | h | h
  · rw [hPages.memInit] at h
    cases h
  · rw [hPages.spare] at h
    cases h
  · rw [hPages.initFlash] at h
    cases h
  · rw [hPages.pagebuf] at h
    cases h

theorem MountEnv.stops_of_not_pages
    (hPool : m.bufPool = false)
    (h : ¬ env.Pages m) :
    env.memInit = .fail ∨
      m.hasMemory env .spare = false ∨
      env.initFlash = .fail ∨
      m.hasMemory env .pagebuf = false := by
  by_contra hNone
  rw [not_or, not_or, not_or, Bool.not_eq_false,
    Bool.not_eq_false] at hNone
  rcases hNone with ⟨hMem, hSpare, hFlash, hPage⟩
  apply h
  refine ⟨?_, hSpare, ?_, hPool, hPage⟩
  · cases hRet : env.memInit with
    | succ => rfl
    | fail => exact absurd hRet hMem
  · cases hRet : env.initFlash with
    | succ => rfl
    | fail => exact absurd hRet hFlash

/- An attempt that comes to building the tree. -/
structure MountEnv.Usable
    (env : MountEnv)
    (m : MountDev) : Prop extends env.Pages m where
  blockinfo : (m.infoSize || env.malloc .blockinfo) = true
  treeNodes : m.hasMemory env .treeNodes = true

/- An attempt that failed early has taken nothing away. -/
theorem MountEnv.Usable.kept
    (hKept : m.Kept m')
    (h : env.Usable m) : env.Usable m' where
  memInit := h.memInit
  spare := hKept.hasMemory h.spare
  initFlash := h.initFlash
  bufPool := hKept.bufPool.trans h.bufPool
  pagebuf := hKept.hasMemory h.pagebuf
  blockinfo := by
    have hOld := h.blockinfo
    rw [Bool.or_eq_true] at hOld ⊢
    exact hOld.imp_left hKept.infoSize
  treeNodes := hKept.hasMemory h.treeNodes

theorem flashInterfaceInit_of
    (h : m.hasMemory env .spare = true) :
    flashInterfaceInit env m =
      (env.initFlash, m.flashed env maxSpareBuffers) :=
  if_pos ((m.allocate_size env .spare).trans h)

theorem flashInterfaceInit_of_not
    (h : ¬ m.hasMemory env .spare = true) :
    flashInterfaceInit env m = (.fail, m.flashed env 0) := by
  apply if_neg
  rw [MountDev.allocate_size]
  exact h

theorem MountTable.setDevice_setDevice
    {t : MountTable} {name : List Byte}
    (m u : MountDev) :
    (t.setDevice name m).setDevice name u =
      t.setDevice name u := by
  unfold MountTable.setDevice
  dsimp only
  congr
  funext n
  split
  · rfl
  · rfl

@[simp] theorem MountTable.setDevice_device
    {t : MountTable} {name : List Byte}
    (m : MountDev) :
    (t.setDevice name m).device name = m :=
  if_pos rfl

variable [Platform]

/- The device of `m` when building the tree starts. -/
def MountDev.ready (m : MountDev) : MountDev where
  size := fun _ => true
  bufPool := true
  bcHead := true
  dev :=
    { m.dev with
      spareFree := maxSpareBuffers
      bc := BcCache.init
      buf := BufPool.init
      tree := { Tree.init with suspend := m.dev.tree.suspend }
      pending := { m.dev.pending with
        count := 0
        blockInRecovery := invalidBlock } }

/- The device of `m` when its page buffers are set up. -/
def MountDev.paged
    (m : MountDev)
    (size : MemPool → Bool) : MountDev where
  size := size
  bufPool := true
  bcHead := m.bcHead
  dev :=
    { m.dev with
      spareFree := maxSpareBuffers
      buf := BufPool.init
      pending := { m.dev.pending with
        count := 0
        blockInRecovery := invalidBlock } }

theorem MountDev.Kept.ready_eq
    (h : m.Kept m') : m'.ready = m.ready := by
  unfold MountDev.ready
  rw [h.dev]

theorem bufInit_of
    (hPool : m.bufPool = false)
    (h : m.hasMemory env .pagebuf = true) :
    bufInit env m =
      (.succ, { m.allocate env .pagebuf with
        bufPool := true
        dev := { m.dev with buf := BufPool.init } }) := by
  unfold bufInit
  rw [hPool]
  exact if_pos ((m.allocate_size env .pagebuf).trans h)

theorem bufInit_of_not
    (hPool : m.bufPool = false)
    (h : ¬ m.hasMemory env .pagebuf = true) :
    bufInit env m = (.fail, m.allocate env .pagebuf) := by
  unfold bufInit
  rw [hPool, if_neg Bool.false_ne_true]
  apply if_neg
  rw [MountDev.allocate_size]
  exact h

/- Page buffers are not set up a second time. -/
theorem bufInit_again
    (hPool : m.bufPool = true) :
    bufInit env m = (.fail, m) :=
  if_pos hPool

theorem initDevice_of_pages
    (h : env.Pages m) :
    ∃ size : MemPool → Bool,
      size .spare = true ∧ size .pagebuf = true ∧
      (∀ p, p ≠ .spare → p ≠ .pagebuf →
        size p = m.size p) ∧
      initDevice env m = initDeviceTree env (m.paged size) := by
  have hFlash := flashInterfaceInit_of (m := m.initPending)
    h.spare
  rw [h.initFlash] at hFlash
  let w := m.initPending.flashed env maxSpareBuffers
  have hMemory : w.hasMemory env .pagebuf = true :=
    (MountDev.hasMemory_flashed _).trans h.pagebuf
  have hBuf := bufInit_of (m := w) h.bufPool hMemory
  have hSpare : w.size .spare = true :=
    (m.initPending.allocate_size env .spare).trans h.spare
  refine ⟨(w.allocate env .pagebuf).size, ?_, ?_, ?_, ?_⟩
  · exact w.allocate_size_mono env .pagebuf hSpare
  · exact (w.allocate_size env .pagebuf).trans hMemory
  · intro q hq hq'
    exact (w.allocate_size_of_ne env hq').trans
      (m.initPending.allocate_size_of_ne env hq)
  · unfold initDevice
    rw [h.memInit, hFlash]
    dsimp only
    rw [hBuf]
    rfl

/- Setting up the block infos when they have memory. -/
theorem blockInfoInitCache_of
    (h : (m.infoSize || env.malloc .blockinfo) = true) :
    ∃ size : MemPool → Bool,
      size .blockinfo = true ∧
      (∀ p, p ≠ .blockinfo → size p = m.size p) ∧
      blockInfoInitCache env m =
        (.succ,
          { size := size
            bufPool := m.bufPool
            bcHead := true
            dev := { m.dev with bc := BcCache.init } }) := by
  let m₁ := if m.bcHead then (blockInfoReleaseCache m).2 else m
  have hFrom : m₁.bufPool = m.bufPool ∧
      { m₁.dev with bc := BcCache.init } =
        { m.dev with bc := BcCache.init } ∧
      (∀ p, p ≠ .blockinfo → m₁.size p = m.size p) ∧
      m₁.size .blockinfo = m.infoSize := by
    unfold m₁ MountDev.infoSize blockInfoReleaseCache
    dsimp only
    split
    · split
      · exact ⟨rfl, rfl, fun _ _ => rfl, rfl⟩
      · refine ⟨rfl, rfl, ?_, rfl⟩
        intro p hp
        simp [hp]
    · exact ⟨rfl, rfl, fun _ _ => rfl, rfl⟩
  rcases hFrom with ⟨hPool, hDev, hOther, hSize⟩
  have hAlloc : (m₁.allocate env .blockinfo).size .blockinfo =
      true := by
    rw [MountDev.allocate_size, MountDev.hasMemory, hSize]
    exact h
  refine ⟨(m₁.allocate env .blockinfo).size, hAlloc, ?_, ?_⟩
  · intro p hp
    rw [MountDev.allocate_size_of_ne _ _ hp, hOther p hp]
  · unfold blockInfoInitCache
    dsimp only
    rw [if_pos hAlloc, MountDev.allocate_dev,
      MountDev.allocate_bufPool, hPool]
    exact congrArg (fun d => (URet.succ,
      ({ size := (m₁.allocate env .blockinfo).size
         bufPool := m.bufPool
         bcHead := true
         dev := d } : MountDev))) hDev

theorem blockInfoInitCache_of_not
    (h : ¬ (m.infoSize || env.malloc .blockinfo) = true) :
    ∃ m', blockInfoInitCache env m = (.fail, m') := by
  unfold blockInfoInitCache
  dsimp only
  rw [if_neg]
  · exact ⟨_, rfl⟩
  · rw [MountDev.allocate_size, MountDev.hasMemory]
    unfold MountDev.infoSize at h
    split
    · rename_i hHead
      rw [if_pos hHead] at h
      exact h
    · rename_i hHead
      rw [if_neg hHead] at h
      exact h

theorem initDevice_of_usable
    (h : env.Usable m) :
    initDevice env m = buildTreeIn env m.ready := by
  rcases initDevice_of_pages h.toPages with
    ⟨size₂, hSpare, hPage, hKept, hInit⟩
  have hInfoSize : ((m.paged size₂).infoSize ||
      env.malloc .blockinfo) = true := by
    have hOld := h.blockinfo
    rw [Bool.or_eq_true] at hOld ⊢
    apply hOld.imp_left
    apply MountDev.infoSize_mono
    · rfl
    · rfl
    · exact (hKept _ (by decide) (by decide)).trans
  rcases blockInfoInitCache_of hInfoSize with
    ⟨size, hSize, hOther, hInfo⟩
  let w₃ : MountDev :=
    { size := size
      bufPool := true
      bcHead := true
      dev := { (m.paged size₂).dev with bc := BcCache.init } }
  have hTree : (w₃.allocate env .treeNodes).size .treeNodes =
      true := by
    rw [MountDev.allocate_size, MountDev.hasMemory]
    change (size _ || _) = true
    rw [hOther _ (by decide)]
    change (size₂ _ || _) = true
    rw [hKept _ (by decide) (by decide)]
    exact h.treeNodes
  have hAll : (w₃.allocate env .treeNodes).size =
      fun _ => true := by
    funext q
    cases q with
    | treeNodes => exact hTree
    | blockinfo =>
        exact (w₃.allocate_size_of_ne env (by decide)).trans
          hSize
    | pagebuf =>
        exact (w₃.allocate_size_of_ne env (by decide)).trans
          ((hOther _ (by decide)).trans hPage)
    | spare =>
        exact (w₃.allocate_size_of_ne env (by decide)).trans
          ((hOther _ (by decide)).trans hSpare)
  have hTreeInit : treeInitPool env w₃ = (.succ, m.ready) := by
    unfold treeInitPool
    dsimp only
    rw [if_pos hTree, hAll]
    rfl
  have hCache : blockInfoInitCache env (m.paged size₂) =
      (.succ, w₃) := hInfo
  rw [hInit]
  unfold initDeviceTree
  rw [hCache]
  dsimp only
  rw [hTreeInit]

------------------------------------------------------------
-- Attempts That Fail
------------------------------------------------------------

/- An attempt that fails before the page buffers are set up. -/
theorem initDevice_stops
    (hPool : m.bufPool = false)
    (hStop : ¬ env.Pages m) :
    ∃ m', initDevice env m = some (.fail, m') ∧ m.Kept m' := by
  unfold initDevice
  cases hMem : env.memInit with
  | fail => exact ⟨m, rfl, .refl⟩
  | succ =>
      dsimp only
      by_cases hSpare : m.hasMemory env .spare = true
      · rw [flashInterfaceInit_of (m := m.initPending) hSpare]
        cases hFlash : env.initFlash with
        | fail => exact ⟨_, rfl, .flashed m env _⟩
        | succ =>
            dsimp only
            rw [bufInit_of_not
              (m := m.initPending.flashed env _) hPool]
            · exact ⟨_, rfl, (MountDev.Kept.flashed m env
                _).allocate env .pagebuf⟩
            · rw [MountDev.hasMemory_flashed]
              intro hPage
              exact hStop
                ⟨hMem, hSpare, hFlash, hPool, hPage⟩
      · rw [flashInterfaceInit_of_not (m := m.initPending) hSpare]
        exact ⟨_, rfl, .flashed m env 0⟩

/- An attempt after one that set up the page buffers. -/
theorem initDevice_again
    (hPool : m.bufPool = true) :
    ∃ m', initDevice env m = some (.fail, m') := by
  unfold initDevice
  cases env.memInit with
  | fail => exact ⟨m, rfl⟩
  | succ =>
      dsimp only
      by_cases hSpare : m.hasMemory env .spare = true
      · rw [flashInterfaceInit_of (m := m.initPending) hSpare]
        cases env.initFlash with
        | fail => exact ⟨_, rfl⟩
        | succ =>
            dsimp only
            rw [bufInit_again
              (m := m.initPending.flashed env _) hPool]
            exact ⟨_, rfl⟩
      · rw [flashInterfaceInit_of_not (m := m.initPending) hSpare]
        exact ⟨_, rfl⟩

/- From the block infos on, the page buffers are set up. -/
theorem initDeviceTree_bufPool
    {ret : URet}
    (hPool : m.bufPool = true)
    (h : initDeviceTree env m = some (ret, u)) :
    u.bufPool = true := by
  have hFree : (blockInfoReleaseCache m).2.bufPool = true := by
    unfold blockInfoReleaseCache
    dsimp only
    split
    · exact hPool
    · exact hPool
  have hStart : (if m.bcHead then (blockInfoReleaseCache m).2
      else m).bufPool = true := by
    split
    · exact hFree
    · exact hPool
  have hInfo : (blockInfoInitCache env m).2.bufPool = true := by
    unfold blockInfoInitCache
    dsimp only
    generalize (if m.bcHead then (blockInfoReleaseCache m).2
      else m) = w at hStart ⊢
    split
    · exact hStart
    · exact hStart
  have hTree : ∀ w : MountDev, w.bufPool = true →
      (treeInitPool env w).2.bufPool = true := by
    intro w hw
    unfold treeInitPool
    dsimp only
    split
    · exact hw
    · exact hw
  unfold initDeviceTree at h
  rcases hCache : blockInfoInitCache env m with ⟨r, w⟩
  rw [hCache] at h hInfo
  cases r with
  | fail =>
      cases h
      exact hInfo
  | succ =>
      dsimp only at h
      have hNodes := hTree w hInfo
      rcases hInit : treeInitPool env w with ⟨r, v⟩
      rw [hInit] at h hNodes
      cases r with
      | fail =>
          cases h
          exact hNodes
      | succ =>
          dsimp only at h
          unfold buildTreeIn at h
          dsimp only at h
          split at h
          · cases h
          · cases h
            exact hNodes

theorem usable_of_initDevice
    (h : initDevice env m = some (.succ, u)) :
    env.Usable m := by
  have hPool : m.bufPool = false := by
    by_contra hInit
    rw [Bool.not_eq_false] at hInit
    have hRefused : ∃ v, initDevice env m = some (.fail, v) :=
      initDevice_again hInit
    rcases hRefused with ⟨v, hFail⟩
    rw [hFail] at h
    cases h
  have hPages : env.Pages m := by
    by_contra hStop
    rcases initDevice_stops hPool hStop with ⟨v, hFail, _⟩
    rw [hFail] at h
    cases h
  rcases initDevice_of_pages hPages with
    ⟨size, hSpare, hPage, hKept, hInit⟩
  rw [hInit] at h
  unfold initDeviceTree at h
  have hInfo : ((m.paged size).infoSize ||
      env.malloc .blockinfo) = true := by
    by_contra hNone
    rcases blockInfoInitCache_of_not hNone with ⟨v, hFail⟩
    rw [hFail] at h
    cases h
  rcases blockInfoInitCache_of hInfo with
    ⟨size₃, hSize, hOther, hCache⟩
  rw [hCache] at h
  refine ⟨hPages, ?_, ?_⟩
  · rw [Bool.or_eq_true] at hInfo ⊢
    apply hInfo.imp_left
    apply MountDev.infoSize_mono
    · rfl
    · rfl
    · exact (hKept _ (by decide) (by decide)).symm.trans
  · by_contra hNone
    dsimp only at h
    unfold treeInitPool at h
    dsimp only at h
    rw [if_neg] at h
    · cases h
    · rw [MountDev.allocate_size, MountDev.hasMemory]
      change ¬ (size₃ _ || _) = true
      rw [hOther _ (by decide)]
      change ¬ (size _ || _) = true
      rw [hKept _ (by decide) (by decide)]
      exact hNone

------------------------------------------------------------
-- Mounting Again
------------------------------------------------------------

/- A device that has not been mounted yet. -/
def MountDev.fresh (flash : Flash) : MountDev where
  size := fun _ => false
  bufPool := false
  bcHead := false
  dev := Dev.init flash 0

/- Building the tree starts on a new device as in a session. -/
theorem MountDev.ready_fresh
    (flash : Flash) :
    (fresh flash).ready.dev = Dev.init flash 0 := rfl

namespace MountTable

variable {t : MountTable} {name : List Byte}

/- How the mount point got mounted. -/
theorem mount_succ
    {t' : MountTable}
    (h : t.mount env name = some (0, t')) :
    (name ∉ t.mounted ∧ name ∈ t.unmounted ∧
      env.driverInit = .succ) ∧
    ∃ u, initDevice env (t.device name) = some (.succ, u) ∧
      t' = (t.setDevice name u).linkMounted name := by
  unfold mount at h
  split at h
  · cases h
  · rename_i hFree
    split at h
    · cases h
    · rename_i hKnown
      split at h
      · cases h
      · rename_i hDriver
        split at h
        · cases h
        · cases h
        · rename_i u hInit
          cases h
          exact ⟨⟨hFree, not_not.mp hKnown, hDriver⟩, u, hInit,
            rfl⟩

/- What comes of a mount point that is not mounted. -/
theorem mount_of
    (hFree : name ∉ t.mounted)
    (hKnown : name ∈ t.unmounted)
    (hDriver : env.driverInit = .succ) :
    t.mount env name =
      match initDevice env (t.device name) with
      | none => none
      | some (.fail, m) => some (-1, t.setDevice name m)
      | some (.succ, m) =>
          some (0, (t.setDevice name m).linkMounted name) := by
  unfold mount
  rw [if_neg hFree, if_neg (not_not.mpr hKnown)]
  cases hResult : env.driverInit with
  | fail =>
      rw [hResult] at hDriver
      cases hDriver
  | succ => rfl

end MountTable

/-
  When a mount fails and the device, had it not been tried,
  can be mounted now: mounting again gives the same result,
  the same tree included, exactly when the first attempt did
  not come past the page buffers.
-/
theorem mount_retried
    {env env' : MountEnv}
    {name : List Byte}
    {t t₁ t₂ : MountTable}
    (hFail : t.mount env name = some (-1, t₁))
    (hGone : t.mount env' name = some (0, t₂)) :
    t₁.mount env' name = some (0, t₂) ↔
      env.StopsEarly (t.device name) := by
  rcases MountTable.mount_succ hGone with
    ⟨⟨hFree, hKnown, hDriver'⟩, u, hInit, rfl⟩
  have hUsable := usable_of_initDevice hInit
  have hTree := initDevice_of_usable hUsable
  cases hDriver : env.driverInit with
  | fail =>
      -- the device has not been touched
      have hSame : t₁ = t := by
        unfold MountTable.mount at hFail
        rw [if_neg hFree, if_neg (not_not.mpr hKnown),
          hDriver] at hFail
        cases hFail
        rfl
      rw [hSame]
      exact ⟨fun _ => .inl hDriver, fun _ => hGone⟩
  | succ =>
      rw [MountTable.mount_of hFree hKnown hDriver] at hFail
      by_cases hPages : env.Pages (t.device name)
      · rcases initDevice_of_pages hPages with
          ⟨size, _, _, _, hStart⟩
        rw [hStart] at hFail
        split at hFail
        · cases hFail
        · rename_i m hDevice
          cases hFail
          have hPool := initDeviceTree_bufPool rfl hDevice
          have hRefused :
              ∃ v, initDevice env' m = some (.fail, v) :=
            initDevice_again hPool
          rcases hRefused with ⟨v, hAgain⟩
          constructor
          · intro h
            rw [MountTable.mount_of (t := t.setDevice name m)
              hFree hKnown hDriver',
              MountTable.setDevice_device, hAgain] at h
            cases h
          · intro h
            rcases h with h | h
            · rw [hDriver] at h
              cases h
            · exact absurd hPages (MountEnv.not_pages h)
        · cases hFail
      · rcases initDevice_stops hUsable.bufPool hPages with
          ⟨m, hStop, hKept⟩
        rw [hStop] at hFail
        cases hFail
        have hRetry := initDevice_of_usable (hUsable.kept hKept)
        rw [hKept.ready_eq, ← hTree, hInit] at hRetry
        constructor
        · intro _
          exact .inr (env.stops_of_not_pages hUsable.bufPool
            hPages)
        · intro _
          rw [MountTable.mount_of (t := t.setDevice name m)
            hFree hKnown hDriver',
            MountTable.setDevice_device, hRetry]
          dsimp only
          rw [MountTable.setDevice_setDevice]

/- The property for all attempts. -/
def MountsRetried : Prop :=
  ∀ (env env' : MountEnv) (name : List Byte)
    (t t₁ t₂ : MountTable),
    t.mount env name = some (-1, t₁) →
      t.mount env' name = some (0, t₂) →
        t₁.mount env' name = some (0, t₂)

/- One mount point with a new device on a blank medium. -/
def MountTable.fresh (name : List Byte) : MountTable where
  mounted := []
  unmounted := [name]
  device := fun _ => MountDev.fresh Flash.blank

end Retry

/-
  An attempt in which everything works but the memory of one
  pool, if any.
-/
def MountEnv.without (p : Option MemPool) : MountEnv where
  driverInit := .succ
  memInit := .succ
  malloc := fun q => some q != p
  initFlash := .succ
  answer := alwaysOk

section Runs

variable [Platform]

/- Does mounting return `ret`? -/
def MountTable.returns
    (t : MountTable)
    (env : MountEnv)
    (name : List Byte)
    (ret : Int) : Bool :=
  (t.mount env name).any fun r => r.1 = ret

theorem MountTable.mount_of_returns
    {t : MountTable}
    {env : MountEnv}
    {name : List Byte}
    {ret : Int}
    (h : t.returns env name ret = true) :
    ∃ t', t.mount env name = some (ret, t') := by
  unfold returns at h
  cases hMount : t.mount env name with
  | none =>
      rw [hMount] at h
      cases h
  | some r =>
      rw [hMount] at h
      have hRet := of_decide_eq_true h
      exact ⟨r.2, by rw [← hRet]⟩

end Runs

theorem mount_retried_pagebuf :
    letI := emulator alwaysOk
    ∃ t₁ t₂ : MountTable,
      (MountTable.fresh [47]).mount
          (.without (some .pagebuf)) [47] = some (-1, t₁) ∧
        t₁.mount (.without none) [47] = some (0, t₂) := by
  let _ := emulator alwaysOk
  have hFails : (MountTable.fresh [47]).returns
      (.without (some .pagebuf)) [47] (-1) = true := by
    decide +kernel
  have hMounts : (MountTable.fresh [47]).returns
      (.without none) [47] 0 = true := by
    decide +kernel
  rcases MountTable.mount_of_returns hFails with ⟨t₁, hFail⟩
  rcases MountTable.mount_of_returns hMounts with ⟨t₂, hGone⟩
  refine ⟨t₁, t₂, hFail, ?_⟩
  apply (mount_retried hFail hGone).mpr
  exact .inr (.inr (.inr (.inr rfl)))

/-
  Without memory for the block infos the page buffers stay
  set up, and every later attempt is refused.
-/
theorem mountsRetried_false :
    ¬ @MountsRetried (emulator alwaysOk) := by
  let _ := emulator alwaysOk
  intro hAll
  have hFails : (MountTable.fresh [47]).returns
      (.without (some .blockinfo)) [47] (-1) = true := by
    decide +kernel
  have hMounts : (MountTable.fresh [47]).returns
      (.without none) [47] 0 = true := by
    decide +kernel
  have hRefused : (((MountTable.fresh [47]).mount
      (.without (some .blockinfo)) [47]).any fun r =>
        r.2.returns (.without none) [47] (-1)) = true := by
    decide +kernel
  rcases MountTable.mount_of_returns hFails with ⟨t₁, hFail⟩
  rcases MountTable.mount_of_returns hMounts with ⟨t₂, hGone⟩
  have hRetry := hAll _ _ _ _ _ _ hFail hGone
  rw [hFail] at hRefused
  rcases MountTable.mount_of_returns hRefused with ⟨t₃, hAgain⟩
  rw [hRetry] at hAgain
  cases hAgain

end Uffs
