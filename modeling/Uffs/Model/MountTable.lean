import Uffs.Model.BadBlock
import Uffs.Model.Init
import Uffs.Model.Session

/-
  The mount points: `uffs_Mount`, `uffs_UnMount`, and
  `uffs_ReleaseDevice` with the functions that take down the
  parts of a device.

  Main declarations:
    * `MountTable`
    * `MountTable.mount`
    * `ReleaseEnv`
    * `releaseDevice`
    * `MountTable.unMount`
-/

namespace Uffs

variable [Platform]

------------------------------------------------------------
-- Mounting
------------------------------------------------------------

/-
  The mount points in the lists `m_head` and `m_free_head`,
  and the devices of the mount points.
-/
structure MountTable where
  mounted : List (List Byte)
  unmounted : List (List Byte)
  device : List Byte → MountDev

namespace MountTable

/- The table with another device at a mount point. -/
def setDevice
    (t : MountTable)
    (name : List Byte)
    (m : MountDev) : MountTable :=
  { t with
    device := fun n => if n = name then m else t.device n }

/- The part of `uffs_Mount` that moves the mount point. -/
def linkMounted
    (t : MountTable)
    (name : List Byte) : MountTable :=
  { t with
    mounted := name :: t.mounted
    unmounted := t.unmounted.erase name }

/-
  `uffs_Mount`; nothing is returned when building the tree
  does not end.
-/
def mount
    (env : MountEnv)
    (name : List Byte)
    (t : MountTable) : Option (Int × MountTable) :=
  if name ∈ t.mounted then
    some (-1, t)
  else if name ∉ t.unmounted then
    some (-1, t)
  else
    match env.driverInit with
    | .fail => some (-1, t)
    | .succ =>
        match initDevice env (t.device name) with
        | none => none
        | some (.fail, m) => some (-1, t.setDevice name m)
        | some (.succ, m) =>
            some (0, (t.setDevice name m).linkMounted name)

end MountTable

------------------------------------------------------------
-- Parts of a Device
------------------------------------------------------------

/-
  What releasing a device meets: the results of
  `ReleaseFlash` of the driver and of `mem.release`.
-/
structure ReleaseEnv where
  releaseFlash : URet
  memRelease : URet

/- The memory of a pool is given back. -/
def MountDev.freePool
    (m : MountDev)
    (p : MemPool) : MountDev :=
  { m with size := fun q => m.size q && decide (q ≠ p) }

/-
  `uffs_BufReleaseAll`; nothing is returned when the flush
  does not end.
-/
def bufReleaseAll
    (m : MountDev) : Option (URet × List Event × MountDev) :=
  if !m.dev.buf.isAllFree then
    some (.fail, [], m)
  else
    match bufFlushAll m.dev with
    | none => none
    | some (.fail, es, dev) =>
        some (.fail, es, { m with dev := dev })
    | some (.succ, es, dev) =>
        let m := m.freePool .pagebuf
        some (.succ, es,
          { m with
            bufPool := false
            dev := { dev with
              buf := { dev.buf with list := [] } } })

/- `uffs_FlashInterfaceRelease` -/
def flashInterfaceRelease
    (env : ReleaseEnv)
    (m : MountDev) : URet × MountDev :=
  let m := m.freePool .spare
  (env.releaseFlash,
    { m with dev := { m.dev with spareFree := 0 } })

------------------------------------------------------------
-- The Device
------------------------------------------------------------

/-
  `uffs_ReleaseDevice`, with `uffs_TreeRelease`, which does
  not fail.
-/
def releaseDevice
    (env : ReleaseEnv)
    (m : MountDev) : Option (URet × List Event × MountDev) :=
  match blockInfoReleaseCache m with
  | (.fail, m) => some (.fail, [], m)
  | (.succ, m) =>
      match bufReleaseAll m with
      | none => none
      | some (.fail, es, m) => some (.fail, es, m)
      | some (.succ, es, m) =>
          match flashInterfaceRelease env
              (m.freePool .treeNodes) with
          | (.fail, m) => some (.fail, es, m)
          | (.succ, m) => some (env.memRelease, es, m)

------------------------------------------------------------
-- Unmounting
------------------------------------------------------------

namespace MountTable

/- The part of `uffs_UnMount` that moves the mount point. -/
def linkUnmounted
    (t : MountTable)
    (name : List Byte) : MountTable :=
  { t with
    mounted := t.mounted.erase name
    unmounted := name :: t.unmounted }

/-
  The part of `uffs_UnMount` after the recovery of pending
  blocks.
-/
def unMountIdle
    (env : ReleaseEnv)
    (name : List Byte)
    (t : MountTable) :
    Option (Int × List Event × MountTable) :=
  if (t.device name).dev.refCount ≠ 0 then
    some (-1, [], t)
  else
    match releaseDevice env (t.device name) with
    | none => none
    | some (.fail, es, m) => some (-1, es, t.setDevice name m)
    | some (.succ, es, m) =>
        some (0, es, (t.setDevice name m).linkUnmounted name)

/-
  `uffs_UnMount`; nothing is returned when a recovery or a
  flush does not end.
-/
def unMount
    (env : ReleaseEnv)
    (name : List Byte)
    (t : MountTable) :
    Option (Int × List Event × MountTable) :=
  if name ∉ t.mounted then
    some (-1, [], t)
  else if name ∈ t.unmounted then
    some (-1, [], t)
  else
    match recoverIfPending (t.device name).dev with
    | none => none
    | some (_, es, dev) =>
        match unMountIdle env name
            (t.setDevice name
              { t.device name with dev := dev }) with
        | none => none
        | some (ret, fs, t) => some (ret, es ++ fs, t)

end MountTable

end Uffs
