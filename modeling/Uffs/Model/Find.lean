import Uffs.Model.Partition

/-
  Listing the objects of a directory (`uffs_find.c`) over the
  chains of tree nodes.

  A search that follows a chain looks at fewer than
  `emptyNode` nodes; its result is `none` when the chain goes
  on after that.

  Main declarations:
    * `FindInfo`
    * `doFindObject`
    * `findObjectFirst`, `findObjectNext`
-/

namespace Uffs

/- `DIR_NODE_ENTRY_LEN` -/
def dirNodeEntryLen : Nat := 32

/- `FILE_NODE_ENTRY_LEN` -/
def fileNodeEntryLen : Nat := 64

/- `uffs_FindInfo` -/
structure FindInfo where
  serial : Nat
  step : Nat
  hash : Nat
  work : Option Nat
  pos : Nat
deriving DecidableEq, Repr

/- `ResetFindInfo` -/
def FindInfo.reset (f : FindInfo) : FindInfo :=
  { f with hash := 0, work := none, step := 0, pos := 0 }

/-
  What a search sees of the tree: the chains, the parents of
  the nodes in them, and the result of `_LoadObjectInfo` for
  each node (a call without `info` loads nothing).
-/
structure FindView where
  table : HashTable
  parent : Nat → Nat
  load : Nat → URet

namespace FindView

/- Search one chain for a child of a directory, from `x` on. -/
def searchChain
    (v : FindView)
    (serial : Nat) : Nat → Nat → Option (Option Nat)
| 0, _ => none
| n + 1, x =>
    if x = emptyNode then
      some none
    else if v.parent x = serial then
      some (some x)
    else
      v.searchChain serial n (v.table.hashNext x)

/- Search `n` chains for a child, the first one of `hash`. -/
def searchEntries
    (v : FindView)
    (serial : Nat)
    (type : BlockType) :
    Nat → Nat → Option (Option (Nat × Nat))
| 0, _ => some none
| n + 1, hash => do
    match ← v.searchChain serial (emptyNode + 1)
        (v.table.entry ⟨type, hash⟩) with
    | some x => some (some (hash, x))
    | none => v.searchEntries serial type n (hash + 1)

/-
  One of the two steps of `do_FindObject`: go on with the
  chain at `x`, then with the next hash entries.  The second
  result is whether a child was found.
-/
def searchStep
    (v : FindView)
    (type : BlockType)
    (entryLen : Nat)
    (f : FindInfo)
    (x : Nat) : Option (FindInfo × Bool) := do
  match ← v.searchChain f.serial (emptyNode + 1) x with
  | some n =>
      some ({ f with work := some n, pos := f.pos + 1 }, true)
  | none =>
      -- come to next hash entry
      match ← v.searchEntries f.serial type
          (entryLen - (f.hash + 1)) (f.hash + 1) with
      | some (hash, n) =>
          some
            ({ f with
                hash := hash
                work := some n
                pos := f.pos + 1 }, true)
      | none => some ({ f with hash := entryLen }, false)

/- The result of loading the information of what was found. -/
def loadFound (v : FindView) (f : FindInfo) : URet :=
  match f.work with
  | some n => v.load n
  | none => .succ

/- The second step of `do_FindObject`, working on files. -/
def findFile
    (v : FindView)
    (f : FindInfo)
    (x : Nat) : Option (URet × FindInfo) := do
  if f.step = 1 then
    match ← v.searchStep .file fileNodeEntryLen f x with
    | (f, true) => some (v.loadFound f, f)
    | (f, false) => some (.fail, { f with step := f.step + 1 })
  else
    some (.fail, f)

/- `do_FindObject` -/
def doFindObject
    (v : FindView)
    (f : FindInfo)
    (x : Nat) : Option (URet × FindInfo) := do
  if f.step = 0 then
    match ← v.searchStep .dir dirNodeEntryLen f x with
    | (f, true) => some (v.loadFound f, f)
    | (f, false) =>
        -- no subdirs, then lookup files
        v.findFile { f with step := f.step + 1, hash := 0 }
          (v.table.entry ⟨.file, 0⟩)
  else
    v.findFile f x

/- `uffs_FindObjectFirst` -/
def findObjectFirst
    (v : FindView)
    (f : FindInfo) : Option (URet × FindInfo) :=
  v.doFindObject f.reset (v.table.entry ⟨.dir, 0⟩)

/- `uffs_FindObjectNext` -/
def findObjectNext
    (v : FindView)
    (f : FindInfo) : Option (URet × FindInfo) :=
  if f.step > 1 then
    some (.fail, f)
  else
    match f.work with
    | none => v.findObjectFirst f
    | some n => v.doFindObject f (v.table.hashNext n)

end FindView

end Uffs
