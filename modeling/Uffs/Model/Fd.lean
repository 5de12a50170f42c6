import Uffs.Model.Session

/-
  The POSIX like functions (`uffs_fd.c`) over one device that
  is mounted at "/", and the pools (`uffs_pool.c`) of objects
  and of open directories that they take their handles from.

  Main declarations:
    * `Pool`
    * `Fds`
    * `uffsOpen`, `uffsClose`, `uffsStat`
    * `uffsOpendir`, `uffsClosedir`, `uffsMkdir`
    * `uffsRename`, `uffsRemove`, `uffsFormat`
    * `FdCall`, `FdCall.exec`
    * `unMountBusy`
-/

namespace Uffs

------------------------------------------------------------
-- Pools
------------------------------------------------------------

/- `uffs_Pool`: the buffers, and the list of the free ones. -/
structure Pool (α : Type) where
  numBufs : Nat
  mem : Nat → α
  freeList : List Nat

namespace Pool

variable {α : Type}

/- `uffs_PoolInit` -/
def init (numBufs : Nat) (x : α) : Pool α where
  numBufs := numBufs
  mem := fun _ => x
  freeList := List.range numBufs

/- `uffs_PoolGet` -/
def get (p : Pool α) : Option (Nat × Pool α) :=
  match p.freeList with
  | [] => none
  | i :: rest => some (i, { p with freeList := rest })

/- `uffs_PoolPut` -/
def put (p : Pool α) (i : Nat) : Pool α :=
  { p with freeList := i :: p.freeList }

/- Write to a buffer. -/
def set (p : Pool α) (i : Nat) (x : α) : Pool α :=
  { p with mem := upd p.mem i x }

/-
  Is `i` the index of a buffer (`uffs_PoolVerify`) that is
  not free (`uffs_PoolCheckFreeList`)?
-/
def allocated (p : Pool α) (i : Nat) : Bool :=
  decide (i < p.numBufs) && !p.freeList.contains i

/-
  Put back the allocated buffers with a property, in the
  order in which `uffs_PoolFindNextAllocated` finds them.
-/
def putAll (p : Pool α) (f : α → Bool) : Pool α :=
  (List.range p.numBufs).foldl (fun q i =>
    if q.allocated i && f (q.mem i) then q.put i else q) p

/- The number of allocated buffers with a property. -/
def count (p : Pool α) (f : α → Bool) : Nat :=
  (List.range p.numBufs).countP fun i =>
    p.allocated i && f (p.mem i)

end Pool

------------------------------------------------------------
-- Handles
------------------------------------------------------------

variable [Platform]

/- `MAX_DIR_HANDLE` -/
def maxDirHandle : Nat := 10

/- `FD_OFFSET` -/
def fdOffset : Int := 3

/- `1 << FD_SIGNATURE_SHIFT` -/
def fdSignatureUnit : Nat := 64

/- `MAX_FD_SIGNATURE_ROUND` -/
def maxFdSignatureRound : Nat := 100

/-
  `_object_pool`, `_dir_pool` with the `obj` of its entries,
  `_fd_signature` and `_uffs_errno`.
-/
structure Fds where
  objs : Pool Obj
  dirs : Pool (Option Nat)
  fdSignature : Nat
  err : UErr

namespace Fds

/- All pools after their initialisation. -/
def init : Fds where
  objs := Pool.init maxObjectHandle Obj.zero
  dirs := Pool.init maxDirHandle none
  fdSignature := 0
  err := .noErr

/- `uffs_set_error` -/
def setError (s : Fds) (err : UErr) : Fds :=
  { s with err := err }

/- `uffs_GetObject` -/
def getObject (s : Fds) : Option (Nat × Fds) :=
  match s.objs.get with
  | none => none
  | some (i, p) => some (i, { s with objs := p.set i Obj.zero })

/- Write to the object `i`. -/
def setObject (s : Fds) (i : Nat) (obj : Obj) : Fds :=
  { s with objs := s.objs.set i obj }

/- `uffs_PutObject` -/
def putObject (s : Fds) (i : Nat) : Fds :=
  { s with objs := s.objs.put i }

/- The object pool as the file layer sees it. -/
def objPool (s : Fds) : ObjPool :=
  fun h => if s.objs.allocated h then some (s.objs.mem h) else none

/- `OBJ2FD` -/
def obj2fd (s : Fds) (i : Nat) : Int :=
  ((i ||| s.fdSignature * fdSignatureUnit : Nat) : Int) + fdOffset

/-
  `CHK_OBJ_LOCK`: the index of the object of a descriptor.
  The shift and the mask of a negative number are those of
  two's complement.
-/
def fd2obj (s : Fds) (fd : Int) : Option Nat :=
  let fd := fd - fdOffset
  if fd / fdSignatureUnit ≠ s.fdSignature then
    none
  else
    let i := (fd % fdSignatureUnit).toNat
    if s.objs.allocated i then some i else none

/- `uffs_FdSignatureIncrease` -/
def signatureIncrease (s : Fds) : Fds :=
  { s with
    fdSignature :=
      if s.fdSignature > maxFdSignatureRound then 0
      else s.fdSignature + 1 }

/- `GetDirEntry` -/
def getDirEntry (s : Fds) : Option (Nat × Fds) :=
  match s.dirs.get with
  | none => none
  | some (d, p) => some (d, { s with dirs := p.set d none })

/- `dirp->obj = ...` -/
def setDirEntry (s : Fds) (d : Nat) (o : Option Nat) : Fds :=
  { s with dirs := s.dirs.set d o }

/- `PutDirEntry` -/
def putDirEntry (s : Fds) (d : Nat) : Fds :=
  { s with dirs := s.dirs.put d }

/- `dirp->obj && dirp->obj->dev` -/
def dirAttached (s : Fds) (o : Option Nat) : Bool :=
  o.any fun i => (s.objs.mem i).dev

/-
  `uffs_DirEntryBufPutAll`, `uffs_PutAllObjectBuf` and
  `uffs_FdSignatureIncrease`.  The search of the small pool
  for the entry after the last one ends in `uffs_Panic`, so
  it does not return when the last entry is allocated.
-/
def putAll (s : Fds) : M Fds :=
  if s.dirs.allocated (maxDirHandle - 1) then
    Prog.diverge
  else
    pure <| signatureIncrease
      { s with
        dirs := s.dirs.putAll s.dirAttached
        objs := s.objs.putAll Obj.dev }

end Fds

------------------------------------------------------------
-- Files
------------------------------------------------------------

/- `uffs_open` -/
def uffsOpen
    (s : Fds)
    (name : List Byte)
    (oflag : OFlag) : M (Int × Fds) := do
  match s.getObject with
  | none => pure (-1, s.setError .mfile)
  | some (i, s) =>
      let (ret, obj) ← openObject Obj.zero name oflag
      let s := s.setObject i obj
      match ret with
      | .fail => pure (-1, (s.setError obj.err).putObject i)
      | .succ => pure (s.obj2fd i, s)

/- `uffs_close` -/
def uffsClose (s : Fds) (fd : Int) : M (Int × Fds) := do
  match s.fd2obj fd with
  | none => pure (-1, s.setError .badf)
  | some i =>
      let (ret, obj) ←
        closeObject { s.objs.mem i with err := .noErr }
      let s := s.setObject i obj
      match ret with
      | .fail => pure (-1, s.setError obj.err)
      | .succ => pure (0, s.putObject i)

/- `uffs_stat`, less the fields that are always 0 -/
structure Stat where
  ino : Nat
  mode : Nat
  size : Nat
  blksize : Nat
  atime : Nat
  mtime : Nat
  ctime : Nat
deriving DecidableEq, Repr

/- `US_IFDIR` -/
def usIfdir : Nat := 0x4000

/- `US_IFREG` -/
def usIfreg : Nat := 0x8000

/- `US_IRWXU` -/
def usIrwxu : Nat := 0o700

/- The four bytes at an offset as a little endian number. -/
def readLe32 (data : List Byte) (ofs : Nat) : Nat :=
  ((data.drop ofs).take 4).foldr (fun b n => b.toNat + 256 * n) 0

/- What `do_stat` reads off a `uffs_ObjectInfo`. -/
def Stat.ofInfo (o : ObjectInfo) : Stat :=
  let attr := readLe32 o.info 0
  { ino := o.serial
    mode :=
      (if attr.testBit 7 then usIfdir else usIfreg) |||
        (if attr.testBit 0 then usIrwxu else 0)
    size := o.len
    blksize := pgDataSize
    atime := readLe32 o.info 8
    mtime := readLe32 o.info 8
    ctime := readLe32 o.info 4 }

/- `do_stat` -/
def doStat (obj : Obj) : M (Int × Option Stat × UErr) := do
  let (info, err) ← getObjectInfo obj
  match info with
  | none => pure (-1, none, err)
  | some info => pure (0, some (Stat.ofInfo info), err)

/- The part of `uffs_stat` that opens the object. -/
def openForStat (name : List Byte) : M (URet × Obj) := do
  if name.getLast? = some slash then
    openObject Obj.zero name { dir := true }
  else do
    -- try file, then try dir
    let (ret, obj) ← openObject Obj.zero name OFlag.rdonly
    match ret with
    | .succ => pure (ret, obj)
    | .fail => openObject obj name { dir := true }

/- `uffs_stat` -/
def uffsStat
    (s : Fds)
    (name : List Byte) : M ((Int × Option Stat) × Fds) := do
  match s.getObject with
  | none => pure ((-1, none), s.setError .nomem)
  | some (i, s) =>
      let (ret, obj) ← openForStat name
      match ret with
      | .fail =>
          let s := (s.setObject i obj).putObject i
          pure ((-1, none), s.setError obj.err)
      | .succ =>
          let (r, stat, _) ← doStat obj
          let (_, obj) ← closeObject obj
          let s := (s.setObject i obj).putObject i
          pure ((r, stat), s.setError .noErr)

------------------------------------------------------------
-- Directories
------------------------------------------------------------

/-
  `uffs_opendir`; `uffs_FindObjectOpen` fails when the object
  is not open.
-/
def uffsOpendir
    (s : Fds)
    (path : List Byte) : M (Option Nat × Fds) := do
  match s.getDirEntry with
  | none => pure (none, s.setError .mfile)
  | some (d, s) =>
      match s.getObject with
      | none => pure (none, (s.putDirEntry d).setError .mfile)
      | some (i, s) =>
          let s := s.setDirEntry d (some i)
          let (ret, obj) ←
            openObject Obj.zero path { dir := true }
          match ret with
          | .succ =>
              if obj.dev && obj.openSucc then
                pure (some d, (s.setObject i obj).setError .noErr)
              else do
                let (_, obj) ← closeObject obj
                let s := (s.setObject i obj).putObject i
                let s := (s.setDirEntry d none).putDirEntry d
                pure (none, s.setError .noErr)
          | .fail =>
              let s := (s.setObject i obj).putObject i
              let s := (s.setDirEntry d none).putDirEntry d
              pure (none, s.setError obj.err)

/- `uffs_closedir` -/
def uffsClosedir (s : Fds) (d : Nat) : M (Int × Fds) := do
  if !s.dirs.allocated d then
    pure (-1, s.setError .badf)
  else
    match s.dirs.mem d with
    | none => pure (0, s.putDirEntry d)
    | some i =>
        let (_, obj) ← closeObject (s.objs.mem i)
        let s := (s.setObject i obj).putObject i
        pure (0, s.putDirEntry d)

/- `uffs_mkdir` -/
def uffsMkdir
    (s : Fds)
    (name : List Byte) : M (Int × Fds) := do
  match s.getObject with
  | none => pure (-1, s.setError .mfile)
  | some (i, s) =>
      let (ret, obj) ← createObject Obj.zero name
        { create := true, dir := true }
      match ret with
      | .fail =>
          let s := (s.setObject i obj).putObject i
          pure (-1, s.setError obj.err)
      | .succ =>
          let (_, obj) ← closeObject obj
          let s := (s.setObject i obj).putObject i
          pure (0, s.setError .noErr)

------------------------------------------------------------
-- Names
------------------------------------------------------------

/-
  `uffs_rename`.  Two objects are taken and put back in the
  order in which they were taken.
-/
def uffsRename
    (s : Fds)
    (oldName newName : List Byte) : M (Int × Fds) := do
  let (ret, err) ← renameObject oldName newName s.objPool.used
  let s :=
    match s.objs.freeList with
    | i :: j :: rest =>
        { s with objs := { s.objs with freeList := j :: i :: rest } }
    | _ => s
  match ret with
  | .succ => pure (0, s.setError err)
  | .fail => pure (-1, s.setError err)

/-
  `uffs_remove` and `uffs_rmdir`: the mode must have the bit
  of a directory or not.
-/
def removeWhen
    (dir : Bool)
    (otherwise : UErr)
    (s : Fds)
    (name : List Byte) : M (Int × Fds) := do
  let ((ret, stat), s) ← uffsStat s name
  if ret < 0 then
    pure (-1, s.setError .noent)
  else if stat.any fun st =>
      decide (st.mode &&& usIfdir ≠ 0) != dir then
    pure (-1, s.setError otherwise)
  else do
    let (ret, err) ←
      deleteObject name s.objPool.used s.objPool.attached
    match ret with
    | .succ => pure (0, s.setError err)
    | .fail => pure (-1, s.setError err)

/- `uffs_remove` -/
def uffsRemove (s : Fds) (name : List Byte) : M (Int × Fds) :=
  removeWhen false .isdir s name

/- `uffs_rmdir` -/
def uffsRmdir (s : Fds) (name : List Byte) : M (Int × Fds) :=
  removeWhen true .notdir s name

------------------------------------------------------------
-- The Device
------------------------------------------------------------

/-
  `uffs_format`, and formatting without force.  A format with
  force that is not refused puts back all handles.
-/
def uffsFormat (s : Fds) (force : Bool) : M (Int × Fds) := do
  Prog.modify fun d => { d with refCount := d.refCount + 1 }
  match ← formatDevice force with
  | .refused =>
      putDevice
      pure (-1, s)
  | .noTree => do
      let s ← if force then s.putAll else pure s
      putDevice
      pure (-1, s)
  | .formatted => do
      let s ← if force then s.putAll else pure s
      putDevice
      pure (0, s)

/- The part of `uffs_UnMount` that tells a device to be busy. -/
def unMountBusy : M Bool := do
  recoverIfPending
  let s ← Prog.get
  pure (decide (s.refCount ≠ 0))

------------------------------------------------------------
-- Calls
------------------------------------------------------------

/- A call of the POSIX like functions. -/
inductive FdCall where
| open (name : List Byte) (oflag : OFlag)
| close (fd : Int)
| opendir (path : List Byte)
| closedir (d : Nat)
| stat (name : List Byte)
| mkdir (name : List Byte)
| rename (oldName newName : List Byte)
| remove (name : List Byte)
| rmdir (name : List Byte)
| format (force : Bool)
deriving DecidableEq

/- What a call returns. -/
inductive FdReply where
| int (n : Int)
| dir (d : Option Nat)
| stat (n : Int) (buf : Option Stat)
deriving DecidableEq

/- One call. -/
def FdCall.exec (s : Fds) : FdCall → M (FdReply × Fds)
| .open name oflag => do
    let (n, s) ← uffsOpen s name oflag
    pure (.int n, s)
| .close fd => do
    let (n, s) ← uffsClose s fd
    pure (.int n, s)
| .opendir path => do
    let (d, s) ← uffsOpendir s path
    pure (.dir d, s)
| .closedir d => do
    let (n, s) ← uffsClosedir s d
    pure (.int n, s)
| .stat name => do
    let ((n, buf), s) ← uffsStat s name
    pure (.stat n buf, s)
| .mkdir name => do
    let (n, s) ← uffsMkdir s name
    pure (.int n, s)
| .rename oldName newName => do
    let (n, s) ← uffsRename s oldName newName
    pure (.int n, s)
| .remove name => do
    let (n, s) ← uffsRemove s name
    pure (.int n, s)
| .rmdir name => do
    let (n, s) ← uffsRmdir s name
    pure (.int n, s)
| .format force => do
    let (n, s) ← uffsFormat s force
    pure (.int n, s)

end Uffs
