import Uffs.Model.Flash

/-
  Partitions with the 16 bit numbers of the source: the
  arithmetic of the mount table, the loops over the blocks of
  a partition, and the chains of tree nodes by index.

  The rest of the model takes partitions that stay below the
  reserved numbers, and knows a chain as a list of nodes.

  Main declarations:
    * `MountEntry.partition`
    * `formatBlocks`, `stepOneBlocks`
    * `HashTable`
    * `HashTable.insertToEntry`
    * `HashTable.breakFromEntry`
-/

namespace Uffs

------------------------------------------------------------
-- Mount Table
------------------------------------------------------------

/- A value stored in a `u16`. -/
def toU16 (i : Int) : Nat :=
  (i % 65536).toNat

theorem toU16_lt (i : Int) : toU16 i < 65536 := by
  unfold toU16
  omega

/- `uffs_PartitionSt` -/
structure Partition where
  start : Nat
  stop : Nat
  start_lt : start < 65536
  stop_lt : stop < 65536

/-
  `uffs_MountTableEntrySt`, with `total_blocks` of the storage
  attributes of its device.
-/
structure MountEntry where
  startBlock : Int
  endBlock : Int
  totalBlocks : Nat

/- The part of `uffs_Mount` that sets the partition. -/
def MountEntry.partition (e : MountEntry) : Partition where
  start := toU16 e.startBlock
  stop :=
    if e.endBlock < 0 then
      toU16 (e.totalBlocks + e.endBlock)
    else
      toU16 e.endBlock
  start_lt := toU16_lt _
  stop_lt := by
    split
    · exact toU16_lt _
    · exact toU16_lt _

namespace Partition

/- Is this a block of the partition? -/
def Has (p : Partition) (block : Nat) : Prop :=
  p.start ≤ block ∧ block ≤ p.stop

/- The number of tree nodes in the pool. -/
def nodes (p : Partition) : Nat :=
  p.stop + 1 - p.start

/- The blocks of the partition in their order. -/
def blocks (p : Partition) : List Nat :=
  List.range' p.start p.nodes

end Partition

------------------------------------------------------------
-- Loops over the Blocks
------------------------------------------------------------

/-
  The blocks that a loop up to `stop` visits from block `i`
  on, when it ends within `fuel` rounds.
-/
def blockLoop
    (next : Nat → Nat)
    (stop : Nat) : Nat → Nat → Option (List Nat)
| 0, _ => none
| fuel + 1, i =>
    if i ≤ stop then
      (blockLoop next stop fuel (next i)).map (i :: ·)
    else
      some []

/- The loop of `uffs_FormatDeviceEx`, whose counter is a `u16`. -/
def formatBlocks (stop : Nat) : Nat → Nat → Option (List Nat) :=
  blockLoop (fun i => (i + 1) % 65536) stop

/- The loop of `_BuildTreeStepOne`, whose counter is an `int`. -/
def stepOneBlocks (stop : Nat) :
    Nat → Nat → Option (List Nat) :=
  blockLoop (fun i => i + 1) stop

------------------------------------------------------------
-- Chains of Tree Nodes
------------------------------------------------------------

/- `EMPTY_NODE` -/
def emptyNode : Nat := 0xffff

/- One entry of `dir_entry`, `file_entry` or `data_entry`. -/
structure EntryKey where
  type : BlockType
  hash : Nat
deriving DecidableEq, Repr

/-
  The entries of the tree, and `hash_next` and `hash_prev` of
  the nodes, which are known by their index in the pool.
-/
structure HashTable where
  entry : EntryKey → Nat
  hashNext : Nat → Nat
  hashPrev : Nat → Nat

namespace HashTable

/- `_InsertToEntry` -/
def insertToEntry
    (t : HashTable)
    (k : EntryKey)
    (node : Nat) : HashTable where
  entry := fun k' => if k' = k then node else t.entry k'
  hashNext := upd t.hashNext node (t.entry k)
  hashPrev :=
    let prev := upd t.hashPrev node emptyNode
    if t.entry k ≠ emptyNode then
      upd prev (t.entry k) node
    else
      prev

/- `uffs_BreakFromEntry` -/
def breakFromEntry
    (t : HashTable)
    (k : EntryKey)
    (node : Nat) : HashTable where
  entry := fun k' =>
    if k' = k ∧ t.entry k = node then t.hashNext node
    else t.entry k'
  hashNext :=
    if t.hashPrev node ≠ emptyNode then
      upd t.hashNext (t.hashPrev node) (t.hashNext node)
    else
      t.hashNext
  hashPrev :=
    if t.hashNext node ≠ emptyNode then
      upd t.hashPrev (t.hashNext node) (t.hashPrev node)
    else
      t.hashPrev

/- The node that an index stands for, if any. -/
def link (x : Nat) : Option Nat :=
  if x = emptyNode then none else some x

end HashTable

end Uffs
