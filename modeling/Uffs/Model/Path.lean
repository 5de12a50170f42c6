import Uffs.Model.Fs

/-
  Paths below several mount points (`uffs_mtb.c`): the mount
  point that a path begins with, and `uffs_ParseObject` on
  the device that is mounted there.

  The other functions of the model take one device, mounted
  at "/".

  Main declarations:
    * `MountedAt`
    * `getMatchedMountPointSize`
    * `getDeviceFromMountPointEx`
    * `parseObjectAt`
-/

namespace Uffs

variable [Platform]

/- An entry of the list of mounted entries. -/
structure MountedAt where
  mount : List Byte
  dev : Nat
deriving DecidableEq, Repr

/- All devices, by the number that entries know them by. -/
abbrev Devs : Type := Nat → Dev

/- Run a function on one of the devices. -/
def onDev
    {α : Type}
    (i : Nat)
    (m : M α) : Prog Devs Event α :=
  fun S =>
    match m (S i) with
    | none => none
    | some (a, es, t) => some (a, es, upd S i t)

/- `dev->ref_count++` -/
def takeDevice : M Unit :=
  Prog.modify fun s => { s with refCount := s.refCount + 1 }

/-
  The entry that `uffs_GetDeviceFromMountPointEx` finds: its
  mount point is the first `len` bytes of the path.
-/
def findMounted
    (mtb : List MountedAt)
    (path : List Byte)
    (len : Nat) : Option MountedAt :=
  mtb.find? fun w =>
    w.mount.length == len && path.take len == w.mount

/- `uffs_GetDeviceFromMountPointEx` -/
def getDeviceFromMountPointEx
    (mtb : List MountedAt)
    (path : List Byte)
    (len : Nat) : Prog Devs Event (Option Nat) :=
  match findMounted mtb path len with
  | none => pure none
  | some w => do
      onDev w.dev takeDevice
      pure (some w.dev)

/- Search backward for the end of a '/', from `pos` on. -/
def backToSlash (path : List Byte) : Nat → Nat
| 0 => 0
| pos + 1 =>
    if path[pos]? = some slash then
      pos + 1
    else
      backToSlash path pos

/-
  The loop of `uffs_GetMatchedMountPointSize` from `pos` on;
  `pos` goes down in each round.
-/
def matchedFrom
    (mtb : List MountedAt)
    (path : List Byte) : Nat → Nat → Prog Devs Event Nat
| 0, pos => pure pos
| n + 1, pos =>
    if pos = 0 then
      pure pos
    else do
      match ← getDeviceFromMountPointEx mtb path pos with
      | some dev =>
          onDev dev putDevice
          pure pos
      | none =>
          let pos :=
            if path[pos - 1]? = some slash then pos - 1 else pos
          matchedFrom mtb path n (backToSlash path pos)

/- `uffs_GetMatchedMountPointSize` -/
def getMatchedMountPointSize
    (mtb : List MountedAt)
    (path : List Byte) : Prog Devs Event Nat :=
  if path.head? ≠ some slash then
    pure 0
  else
    matchedFrom mtb path path.length path.length

/-
  `uffs_ParseObject`; the device of the object comes along
  with it.
-/
def parseObjectAt
    (mtb : List MountedAt)
    (obj : Obj)
    (path : List Byte) :
    Prog Devs Event (URet × Obj × Option Nat) := do
  if obj.openSucc then
    pure (.fail, obj, none)
  else do
    let obj := Obj.zero
    let mLen ← getMatchedMountPointSize mtb path
    match ← getDeviceFromMountPointEx mtb path mLen with
    | none => pure (.fail, { obj with err := .noent }, none)
    | some dev => do
        let start := path.drop mLen
        let dLen := getDirLengthFromPath start
        let obj := { obj with dev := true }
        if mLen = path.length then
          pure (.succ, { obj with parent := parentOfRoot },
            some dev)
        else do
          let (found, dir) ← onDev dev
            (parseDirs dLen (dLen + 1) 0 start rootDirSerial)
          let obj :=
            { obj with parent := dir, name := nameOfPath start }
          if found then
            pure (.succ, obj, some dev)
          else do
            onDev dev putDevice
            pure (.fail,
              { obj with err := .noent, dev := false }, none)

end Uffs
