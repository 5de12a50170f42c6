import Uffs.Model.Build
import Uffs.Model.Partition

/-
  The hash entries by the links of the source: the searches
  along `hash_next`, and the round over the data blocks that
  takes nodes out of the chain that it walks.

  A walk is given as many rounds as there are nodes, and one
  more; a longer one does not end.

  Main declarations:
    * `HashTable.findFrom`
    * `HashTable.findDirNode`, `HashTable.findFileNode`,
      `HashTable.findDataNode`
    * `HashTable.insertNode`, `HashTable.breakNode`
    * `sweepNode`, `sweepChain`, `sweepDataNodes`
-/

namespace Uffs

------------------------------------------------------------
-- Insertions and Removals
------------------------------------------------------------

/- The entry that a node belongs to, by its key of now. -/
def TreeNode.entryKey
    (x : TreeNode)
    (type : BlockType) : EntryKey where
  type := type
  hash :=
    match type with
    | .dir => getDirHash x.serial
    | .file => getFileHash x.serial
    | .data => getDataHash x.parent x.serial
    | .resv => 0

namespace HashTable

/- `uffs_InsertNodeToTree` of the node `n`, which is `x` -/
def insertNode
    (t : HashTable)
    (type : BlockType)
    (n : Nat)
    (x : TreeNode) : HashTable :=
  match type with
  | .resv => t
  | _ => t.insertToEntry (x.entryKey type) n

/- `uffs_BreakFromEntry` of the node `n`, which is `x` -/
def breakNode
    (t : HashTable)
    (type : BlockType)
    (n : Nat)
    (x : TreeNode) : HashTable :=
  match type with
  | .resv => t
  | _ => t.breakFromEntry (x.entryKey type) n

------------------------------------------------------------
-- Searches by Key
------------------------------------------------------------

/- The loop of a search from index `x` on. -/
def findFrom
    (t : HashTable)
    (test : Nat → Bool) : Nat → Nat → Option (Option Nat)
| 0, _ => none
| fuel + 1, x =>
    if x = emptyNode then
      some none
    else if test x then
      some (some x)
    else
      t.findFrom test fuel (t.hashNext x)

/- `uffs_TreeFindDirNode` -/
def findDirNode
    (t : HashTable)
    (node : Nat → TreeNode)
    (fuel serial : Nat) : Option (Option Nat) :=
  t.findFrom (fun x => (node x).serial == serial) fuel
    (t.entry ⟨.dir, getDirHash serial⟩)

/- `uffs_TreeFindFileNode` -/
def findFileNode
    (t : HashTable)
    (node : Nat → TreeNode)
    (fuel serial : Nat) : Option (Option Nat) :=
  t.findFrom (fun x => (node x).serial == serial) fuel
    (t.entry ⟨.file, getFileHash serial⟩)

/- `uffs_TreeFindDataNode` -/
def findDataNode
    (t : HashTable)
    (node : Nat → TreeNode)
    (fuel parent serial : Nat) : Option (Option Nat) :=
  t.findFrom
    (fun x => (node x).parent == parent &&
      (node x).serial == serial) fuel
    (t.entry ⟨.data, getDataHash parent serial⟩)

end HashTable

------------------------------------------------------------
-- Step Three
------------------------------------------------------------

section Sweep

variable [Platform]

/-
  The locals of `_BuildTreeStepThree` beside the links:
  `cache` is the last file node looked for, `cacheSerial` its
  serial number.  `visited` are the data nodes met so far.
-/
structure Sweep where
  table : HashTable
  cache : Option Nat
  cacheSerial : Nat
  visited : List Nat

/- The file node of a data node, from the cache if it can. -/
def sweepFile
    (c : Sweep)
    (parent : Nat) : M (Option Nat × Sweep) := do
  if parent = c.cacheSerial then
    pure (c.cache, c)
  else do
    let s ← Prog.get
    match c.table.findFileNode s.tree.node (nodeCount + 1)
        parent with
    | none => Prog.diverge
    | some node =>
        pure (node, { c with cache := node, cacheSerial := parent })

/-
  One round of the loop of `_BuildTreeStepThree` at the data
  node `work`; the index of the next one is read before the
  node is taken out, and before its fields are overwritten.
-/
def sweepNode (c : Sweep) (work : Nat) : M (Nat × Sweep) := do
  let w ← getNode work
  let (node, c) ← sweepFile c w.parent
  let x := c.table.hashNext work
  match node with
  | none =>
      breakFromEntry .data work
      let s ← Prog.get
      setNode work fun x => .list none none x.block 0
      eraseAndFile work w.block
      pure (x,
        { c with
          table := c.table.breakNode .data work
            (s.tree.node work)
          visited := c.visited ++ [work] })
  | some n =>
      setNode n fun x => x.setLen (x.len + w.len)
      pure (x, { c with visited := c.visited ++ [work] })

/- The loop over one hash entry, from index `x` on. -/
def sweepChain : Nat → Nat → Sweep → M Sweep
| 0, _, _ => Prog.diverge
| fuel + 1, x, c => do
    if x = emptyNode then
      pure c
    else do
      let (x, c) ← sweepNode c x
      sweepChain fuel x c

/- The loop over the hash entries from `i` on. -/
def sweepFrom : Nat → Nat → Sweep → M Sweep
| 0, _, c => pure c
| n + 1, i, c => do
    let c ← sweepChain (nodeCount + 1)
      (c.table.entry ⟨.data, i⟩) c
    sweepFrom n (i + 1) c

/- `_BuildTreeStepThree` -/
def sweepDataNodes (table : HashTable) : M Sweep :=
  sweepFrom 512 0
    { table := table
      cache := none
      cacheSerial := invalidUffsSerial
      visited := [] }

end Sweep

end Uffs
