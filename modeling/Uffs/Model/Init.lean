import Uffs.Model.Build

/-
  Initialising a device: `uffs_InitDevice` and the functions
  that set up its parts.

  Main declarations:
    * `MountEnv`
    * `MountDev`
    * `initDevice`
-/

namespace Uffs

------------------------------------------------------------
-- Surroundings of an Attempt
------------------------------------------------------------

/-
  The memory of a device: spare buffers, page buffers, block
  infos and tree nodes.
-/
inductive MemPool where
| spare
| pagebuf
| blockinfo
| treeNodes
deriving DecidableEq, Repr

/-
  What one attempt to mount meets: the results of `Init` of
  the driver and of `mem.init`, whether `mem.malloc` gives
  memory, whether `InitFlash` and the checks of the driver's
  functions and layout in `uffs_FlashInterfaceInit` succeed,
  and the answers of the driver while the tree is built.
-/
structure MountEnv where
  driverInit : URet
  memInit : URet
  malloc : MemPool → Bool
  initFlash : URet
  answer : Nat → Answer

/-
  A device and the marks of what is set up: the sizes of its
  pools that are not zero, `buf.pool` and `bc.head`.
-/
structure MountDev where
  size : MemPool → Bool
  bufPool : Bool
  bcHead : Bool
  dev : Dev

/- The memory of a pool, allocated if there is none yet. -/
def MountDev.allocate
    (m : MountDev)
    (env : MountEnv)
    (p : MemPool) : MountDev :=
  { m with
    size := fun q => m.size q || (decide (q = p) && env.malloc p) }

variable [Platform]

/- The device with the answers of the driver in an attempt. -/
@[reducible] def MountEnv.platform (env : MountEnv) : Platform :=
  { (inferInstance : Platform) with answer := env.answer }

------------------------------------------------------------
-- Parts of a Device
------------------------------------------------------------

/- `uffs_BadBlockInit` -/
def MountDev.initPending (m : MountDev) : MountDev :=
  { m with
    dev := { m.dev with
      pending := { m.dev.pending with
        count := 0
        blockInRecovery := invalidBlock } } }

/- `uffs_FlashInterfaceInit` -/
def flashInterfaceInit
    (env : MountEnv)
    (m : MountDev) : URet × MountDev :=
  let m := m.allocate env .spare
  if m.size .spare then
    (env.initFlash,
      { m with dev := { m.dev with
        spareFree := maxSpareBuffers } })
  else
    (.fail, { m with dev := { m.dev with spareFree := 0 } })

/- `uffs_BufInit` -/
def bufInit
    (env : MountEnv)
    (m : MountDev) : URet × MountDev :=
  if m.bufPool then
    (.fail, m)
  else
    let m := m.allocate env .pagebuf
    if m.size .pagebuf then
      (.succ,
        { m with
          bufPool := true
          dev := { m.dev with buf := BufPool.init } })
    else
      (.fail, m)

/- `uffs_BlockInfoReleaseCache` -/
def blockInfoReleaseCache (m : MountDev) : URet × MountDev :=
  let free := m.dev.bc.list.all fun i =>
    (m.dev.bc.info i).refCount = 0
  if m.bcHead && !free then
    (.fail, m)
  else
    (.succ,
      { m with
        bcHead := false
        size := fun q =>
          m.size q && !(m.bcHead && decide (q = .blockinfo))
        dev := { m.dev with bc := { m.dev.bc with list := [] } } })

/- `uffs_BlockInfoInitCache` -/
def blockInfoInitCache
    (env : MountEnv)
    (m : MountDev) : URet × MountDev :=
  let m := if m.bcHead then (blockInfoReleaseCache m).2 else m
  let m := m.allocate env .blockinfo
  if m.size .blockinfo then
    (.succ,
      { m with
        bcHead := true
        dev := { m.dev with bc := BcCache.init } })
  else
    (.fail, m)

/- `uffs_TreeInit` -/
def treeInitPool
    (env : MountEnv)
    (m : MountDev) : URet × MountDev :=
  let m := m.allocate env .treeNodes
  if m.size .treeNodes then
    (.succ,
      { m with dev := { m.dev with
        tree := { Tree.init with
          suspend := m.dev.tree.suspend } } })
  else
    (.fail, m)

/-
  `uffs_BuildTree` in an attempt, whose answers are counted
  from its start.
-/
def buildTreeIn
    (env : MountEnv)
    (m : MountDev) : Option (URet × MountDev) :=
  let _ := env.platform
  match buildTree { m.dev with clock := 0 } with
  | none => none
  | some (ret, _, dev) => some (ret, { m with dev := dev })

------------------------------------------------------------
-- The Device
------------------------------------------------------------

/- `uffs_InitDevice` from the block infos on. -/
def initDeviceTree
    (env : MountEnv)
    (m : MountDev) : Option (URet × MountDev) :=
  match blockInfoInitCache env m with
  | (.fail, m) => some (.fail, m)
  | (.succ, m) =>
      match treeInitPool env m with
      | (.fail, m) => some (.fail, m)
      | (.succ, m) => buildTreeIn env m

/-
  `uffs_InitDevice`.  A platform meets the checks of the
  configuration, and creating and deleting the lock of a
  device are not modelled.
-/
def initDevice
    (env : MountEnv)
    (m : MountDev) : Option (URet × MountDev) :=
  match env.memInit with
  | .fail => some (.fail, m)
  | .succ =>
      match flashInterfaceInit env m.initPending with
      | (.fail, m) => some (.fail, m)
      | (.succ, m) =>
          match bufInit env m with
          | (.fail, m) => some (.fail, m)
          | (.succ, m) => initDeviceTree env m

end Uffs
