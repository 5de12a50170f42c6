import Uffs.Model.Device

/-
  Pools of fixed-size buffers (`uffs_pool.c`).

  A pointer is an address, a null pointer is `none`; a free
  buffer holds the address of the next free one.  A function
  that walks over the free list follows at most `numBufs`
  links; its result is `none` when the walk goes on after
  that or when an assertion that ends in `uffs_Panic` fails.

  Main declarations:
    * `MemoryPool`, `MemoryPool.create`
    * `MemoryPool.get`, `MemoryPool.put`
    * `MemoryPool.findNextAllocated`
    * `MemoryPool.putAll`
-/

namespace Uffs

/- `uffs_PoolSt`, with the links in the free buffers -/
structure MemoryPool where
  mem : Nat
  bufSize : Nat
  numBufs : Nat
  freeList : Option Nat
  next : Nat → Option Nat

namespace MemoryPool

------------------------------------------------------------
-- Getting and Putting Buffers
------------------------------------------------------------

/-
  The loop of `uffs_PoolInit`: `n` more buffers, the first
  one of index `i`, are linked behind the entry at `e1`.
-/
def linkFrom
    (mem bufSize : Nat) :
    Nat → Nat → Nat → (Nat → Option Nat) → Nat → Option Nat
| 0, _, e1, next => fun p => if p = e1 then none else next p
| n + 1, i, e1, next =>
    let e2 := mem + i * bufSize
    linkFrom mem bufSize n (i + 1) e2
      fun p => if p = e1 then some e2 else next p

/-
  `uffs_PoolInit` of some memory; `ptrSize` is the size of a
  pointer.
-/
def create
    (ptrSize mem memSize bufSize numBufs : Nat) :
    Option MemoryPool :=
  if numBufs > 0 ∧ bufSize % ptrSize = 0 ∧
      memSize = numBufs * bufSize then
    some
      { mem := mem
        bufSize := bufSize
        numBufs := numBufs
        freeList := some mem
        next := linkFrom mem bufSize (numBufs - 1) 1 mem
          fun _ => none }
  else
    none

/- `uffs_PoolVerify` -/
def verify (P : MemoryPool) (p : Nat) : Bool :=
  decide (P.mem ≤ p) &&
    decide (p < P.mem + P.bufSize * P.numBufs) &&
    (p - P.mem) % P.bufSize == 0

/- `uffs_PoolGet` -/
def get (P : MemoryPool) : Option Nat × MemoryPool :=
  match P.freeList with
  | none => (none, P)
  | some e => (some e, { P with freeList := P.next e })

/- `uffs_PoolPut` -/
def put (P : MemoryPool) (p : Nat) : MemoryPool :=
  { P with
    next := fun q => if q = p then P.freeList else P.next q
    freeList := some p }

/- `uffs_PoolGetBufByIndex` of an index in range -/
def getBufByIndex (P : MemoryPool) (index : Nat) : Nat :=
  P.mem + index * P.bufSize

/- `uffs_PoolGetIndex`; `none` is the panic. -/
def getIndex (P : MemoryPool) (p : Nat) : Option Nat :=
  if P.mem ≤ p ∧ p < P.mem + P.numBufs * P.bufSize then
    some ((p - P.mem) / P.bufSize)
  else
    none

------------------------------------------------------------
-- Iterating
------------------------------------------------------------

/- The map of the free buffers, from the entry `e` on. -/
def freeMapFrom (P : MemoryPool) :
    Nat → Option Nat → Nat → Option Nat
| _, none, map => some map
| 0, some _, _ => none
| n + 1, some e, map => do
    let i ← P.getIndex e
    P.freeMapFrom n (P.next e) (map ||| 1 <<< i)

/- The second loop of `FindNextAllocatedInSmallPool`. -/
def skipFree (map numBufs : Nat) : Nat → Nat → Nat
| 0, i => i
| n + 1, i =>
    if map &&& 1 <<< i ≠ 0 ∧ i < 32 ∧ i < numBufs then
      skipFree map numBufs n (i + 1)
    else
      i

/- `FindNextAllocatedInSmallPool` -/
def findNextAllocatedInSmallPool
    (P : MemoryPool)
    (start : Nat) : Option (Option Nat) := do
  let map ← P.freeMapFrom P.numBufs P.freeList 0
  let first ← P.getIndex start
  let i := skipFree map P.numBufs 32 first
  if i < 32 ∧ i < P.numBufs then
    some (some (P.getBufByIndex i))
  else
    some none

/- Is `p` among the free buffers from the entry `e` on? -/
def isFreeFrom (P : MemoryPool) (p : Nat) :
    Nat → Option Nat → Option Bool
| _, none => some false
| 0, some _ => none
| n + 1, some e =>
    if p = e then
      some true
    else
      P.isFreeFrom p n (P.next e)

/- The outer loop of `uffs_PoolFindNextAllocated`. -/
def skipFreeBufs (P : MemoryPool) : Nat → Nat → Option Nat
| 0, p => some p
| n + 1, p =>
    if P.verify p then do
      if ← P.isFreeFrom p P.numBufs P.freeList then
        P.skipFreeBufs n (p + P.bufSize)
      else
        some p
    else
      some p

/- Where the search of `uffs_PoolFindNextAllocated` starts. -/
def start (P : MemoryPool) : Option Nat → Nat
| none => P.mem
| some p => p + P.bufSize

/- `uffs_PoolFindNextAllocated` -/
def findNextAllocated
    (P : MemoryPool)
    (prev : Option Nat) : Option (Option Nat) := do
  let p := P.start prev
  if P.numBufs < 32 then
    P.findNextAllocatedInSmallPool p
  else
    let p ←
      match P.freeList with
      | none => some p
      | some _ => P.skipFreeBufs P.numBufs p
    some (if P.verify p then some p else none)

/- The loop of `uffs_PoolPutAll`. -/
def putAllFrom :
    Nat → Option Nat → Nat → MemoryPool → Option (Nat × MemoryPool)
| 0, _, _, _ => none
| n + 1, p, count, P => do
    match ← P.findNextAllocated p with
    | none => some (count, P)
    | some q => putAllFrom n (some q) (count + 1) (P.put q)

/- `uffs_PoolPutAll`, at most one round for each buffer -/
def putAll (P : MemoryPool) : Option (Nat × MemoryPool) :=
  putAllFrom (P.numBufs + 1) none 0 P

end MemoryPool

end Uffs
