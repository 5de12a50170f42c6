import Uffs.Lib.Chain
import Uffs.Model.Partition
import Uffs.Model.Tree

/-
  The reserved block number and the reserved node index.

  A partition that stays below the reserved numbers has none
  of them among its blocks and nodes.  Chains of nodes by
  index then are the lists of nodes of the tree, and the
  loops over the blocks end.

  Main declarations:
    * `EntryRun`
    * `EntryRun.chained`
    * `formatBlocks_eq`, `stepOneBlocks_eq`
    * `SentinelsApart`
    * `sentinelsApart_iff`
    * `sentinelsApart_false`
-/

namespace Uffs

------------------------------------------------------------
-- Runs on the Chains
------------------------------------------------------------

/- The nodes of each entry, as the tree has them. -/
abbrev Chains : Type := EntryKey → List Nat

namespace Chains

/- The chains with another one at an entry. -/
def set (c : Chains) (k : EntryKey) (l : List Nat) : Chains :=
  fun k' => if k' = k then l else c k'

/- Is the node in some chain? -/
def Has (c : Chains) (n : Nat) : Prop :=
  ∃ k, n ∈ c k

theorem set_same
    (c : Chains) (k : EntryKey) (l : List Nat) :
    c.set k l k = l :=
  if_pos rfl

theorem set_ne
    (c : Chains) {k k' : EntryKey} (l : List Nat)
    (h : k' ≠ k) : c.set k l k' = c k' :=
  if_neg h

end Chains

namespace Tree

/- The chains of a tree. -/
def chains (t : Tree) : Chains := fun k =>
  match k.type with
  | .dir => t.dirEntry k.hash
  | .file => t.fileEntry k.hash
  | .data => t.dataEntry k.hash
  | .resv => []

/- The entry that a node belongs to. -/
def entryOf
    (t : Tree)
    (type : BlockType)
    (n : Nat) : EntryKey where
  type := type
  hash :=
    match type with
    | .dir => getDirHash (t.node n).serial
    | .file => getFileHash (t.node n).serial
    | .data =>
        getDataHash (t.node n).parent (t.node n).serial
    | .resv => 0

/- Changing one of the three kinds of entries. -/
theorem chains_eq_set
    {t t' : Tree}
    {k : EntryKey}
    {l : List Nat}
    (hSame : t'.chains k = l)
    (hOther : ∀ k', k' ≠ k → t'.chains k' = t.chains k') :
    t'.chains = t.chains.set k l := by
  funext k'
  by_cases hk : k' = k
  · rw [hk, Chains.set_same, hSame]
  · rw [Chains.set_ne _ _ hk, hOther k' hk]

theorem chains_insertNode
    (t : Tree)
    {type : BlockType}
    (n : Nat)
    (hType : type ≠ .resv) :
    (t.insertNode type n).chains =
      t.chains.set (t.entryOf type n)
        (n :: t.chains (t.entryOf type n)) := by
  apply chains_eq_set
  · cases type with
    | resv => exact absurd rfl hType
    | _ => exact upd_same _ _ _
  · intro k' hk
    rcases k' with ⟨type', hash⟩
    unfold insertNode chains entryOf at *
    cases type <;> cases type' <;>
      simp_all [upd]

theorem chains_breakNode
    (t : Tree)
    {type : BlockType}
    (n : Nat)
    (hType : type ≠ .resv) :
    (t.breakNode type n).chains =
      t.chains.set (t.entryOf type n)
        ((t.chains (t.entryOf type n)).erase n) := by
  apply chains_eq_set
  · cases type with
    | resv => exact absurd rfl hType
    | _ => exact upd_same _ _ _
  · intro k' hk
    rcases k' with ⟨type', hash⟩
    unfold breakNode chains entryOf at *
    cases type <;> cases type' <;>
      simp_all [upd]

end Tree

/-
  What a run of insertions and removals makes of the table
  and of the chains, with `nodes` nodes in the pool.  A node
  is only inserted when it is in no chain, and only removed
  from the chain that it is in.
-/
inductive EntryRun (nodes : Nat) :
    HashTable → Chains → Prop
| init
    (hashNext hashPrev : Nat → Nat) :
    EntryRun nodes
      { entry := fun _ => emptyNode
        hashNext := hashNext
        hashPrev := hashPrev }
      (fun _ => [])
| insert
    {t : HashTable}
    {c : Chains}
    {n : Nat}
    (k : EntryKey)
    (hRun : EntryRun nodes t c)
    (hNew : ¬ c.Has n)
    (hPool : n < nodes) :
    EntryRun nodes (t.insertToEntry k n) (c.set k (n :: c k))
| remove
    {t : HashTable}
    {c : Chains}
    {k : EntryKey}
    {n : Nat}
    (hRun : EntryRun nodes t c)
    (hIn : n ∈ c k) :
    EntryRun nodes (t.breakFromEntry k n)
      (c.set k ((c k).erase n))

namespace HashTable

/- The node after a node, and the one before it. -/
def after (t : HashTable) (n : Nat) : Option Nat :=
  link (t.hashNext n)

/- The node before a node. -/
def before (t : HashTable) (n : Nat) : Option Nat :=
  link (t.hashPrev n)

/- A search from the entry on comes to the node. -/
def Reaches
    (t : HashTable)
    (k : EntryKey)
    (n : Nat) : Prop :=
  ∃ l, Linked t.after (link (t.entry k)) l ∧ n ∈ l

/- The table holds these chains. -/
structure Chained
    (t : HashTable)
    (nodes : Nat)
    (c : Chains) : Prop where
  linked : ∀ k,
    DLinked t.after t.before none (link (t.entry k)) (c k)
  nodup : ∀ k, (c k).Nodup
  apart : ∀ k k' n, n ∈ c k → n ∈ c k' → k' = k
  pool : ∀ k, ∀ n ∈ c k, n < nodes

theorem link_of_lt
    {n nodes : Nat}
    (hNodes : nodes ≤ emptyNode)
    (h : n < nodes) : link n = some n :=
  if_neg (Nat.ne_of_lt (Nat.lt_of_lt_of_le h hNodes))

theorem link_eq_some
    {x n : Nat} : link x = some n ↔ x = n ∧ x ≠ emptyNode := by
  unfold link
  split
  · rename_i hEmpty
    simp [hEmpty]
  · rename_i hNode
    rw [Option.some.injEq]
    exact (and_iff_left hNode).symm

theorem link_eq_none
    {x : Nat} : link x = none ↔ x = emptyNode := by
  unfold link
  split
  · rename_i hEmpty
    simp [hEmpty]
  · rename_i hNode
    simp [hNode]

theorem link_ne
    {x n : Nat}
    (h : x = emptyNode ∨ n ≠ x) : ¬ link x = some n := by
  rw [link_eq_some]
  intro hEq
  rcases h with h | h
  · exact hEq.2 h
  · exact h hEq.1.symm

/- The links after an insertion. -/
theorem after_insert
    (t : HashTable) (k : EntryKey) (n m : Nat) :
    (t.insertToEntry k n).after m =
      if m = n then link (t.entry k) else t.after m := by
  unfold after insertToEntry upd
  dsimp only
  split
  · rfl
  · rfl

theorem before_insert
    (t : HashTable) (k : EntryKey) {n : Nat} (m : Nat)
    {nodes : Nat}
    (hNodes : nodes ≤ emptyNode)
    (hPool : n < nodes) :
    (t.insertToEntry k n).before m =
      if link (t.entry k) = some m then some n
      else if m = n then none else t.before m := by
  unfold before insertToEntry upd
  dsimp only
  by_cases hHead : t.entry k = emptyNode
  · rw [if_neg (not_not.mpr hHead),
      if_neg (link_ne (n := m) (.inl hHead))]
    split
    · exact link_eq_none.mpr rfl
    · rfl
  · rw [if_pos hHead]
    by_cases hm : m = t.entry k
    · rw [if_pos hm,
        if_pos (link_eq_some.mpr ⟨hm.symm, hHead⟩)]
      exact link_of_lt hNodes hPool
    · rw [if_neg hm, if_neg (link_ne (.inr hm))]
      split
      · exact link_eq_none.mpr rfl
      · rfl

/- The links after a removal. -/
theorem after_break
    (t : HashTable) (k : EntryKey) (n m : Nat) :
    (t.breakFromEntry k n).after m =
      if t.before n = some m then t.after n else t.after m := by
  unfold after before breakFromEntry upd
  dsimp only
  by_cases hEmpty : t.hashPrev n = emptyNode
  · rw [if_neg (not_not.mpr hEmpty),
      if_neg (link_ne (.inl hEmpty))]
  · rw [if_pos hEmpty]
    by_cases hm : m = t.hashPrev n
    · rw [if_pos hm,
        if_pos (link_eq_some.mpr ⟨hm.symm, hEmpty⟩)]
    · rw [if_neg hm, if_neg (link_ne (.inr hm))]

theorem before_break
    (t : HashTable) (k : EntryKey) (n m : Nat) :
    (t.breakFromEntry k n).before m =
      if t.after n = some m then t.before n
      else t.before m := by
  unfold after before breakFromEntry upd
  dsimp only
  by_cases hEmpty : t.hashNext n = emptyNode
  · rw [if_neg (not_not.mpr hEmpty),
      if_neg (link_ne (.inl hEmpty))]
  · rw [if_pos hEmpty]
    by_cases hm : m = t.hashNext n
    · rw [if_pos hm,
        if_pos (link_eq_some.mpr ⟨hm.symm, hEmpty⟩)]
    · rw [if_neg hm, if_neg (link_ne (.inr hm))]

namespace Chained

variable {t : HashTable} {nodes : Nat} {c : Chains}

theorem init
    (hashNext hashPrev : Nat → Nat) :
    Chained
      { entry := fun _ => emptyNode
        hashNext := hashNext
        hashPrev := hashPrev }
      nodes (fun _ => []) where
  linked := fun _ => rfl
  nodup := fun _ => List.nodup_nil
  apart := fun _ _ _ hIn => absurd hIn List.not_mem_nil
  pool := fun _ _ hIn => absurd hIn List.not_mem_nil

/- The first node of a chain. -/
theorem head_mem
    {k : EntryKey}
    {n : Nat}
    (h : t.Chained nodes c)
    (hHead : link (t.entry k) = some n) : n ∈ c k := by
  have hFirst := (h.linked k).linked.head
  rw [hHead] at hFirst
  exact List.mem_of_mem_head? hFirst.symm

theorem insert
    {n : Nat}
    (k : EntryKey)
    (hNodes : nodes ≤ emptyNode)
    (h : t.Chained nodes c)
    (hNew : ¬ c.Has n)
    (hPool : n < nodes) :
    (t.insertToEntry k n).Chained nodes
      (c.set k (n :: c k)) := by
  have hNotIn : ∀ k', n ∉ c k' := fun k' hIn =>
    hNew ⟨k', hIn⟩
  have hMem : ∀ k' m, m ∈ c.set k (n :: c k) k' →
      k' = k ∧ m = n ∨ m ∈ c k' := by
    intro k' m hm
    by_cases hk : k' = k
    · rw [hk, c.set_same, List.mem_cons] at hm
      rcases hm with hm | hm
      · exact .inl ⟨hk, hm⟩
      · rw [hk]
        exact .inr hm
    · rw [c.set_ne _ hk] at hm
      exact .inr hm
  constructor
  · intro k'
    by_cases hk : k' = k
    · have hEntry : link ((t.insertToEntry k n).entry k) =
          some n := by
        unfold insertToEntry
        dsimp only
        rw [if_pos rfl]
        exact link_of_lt hNodes hPool
      rw [hk, c.set_same, hEntry]
      apply (h.linked k).push (hNotIn k) (h.nodup k)
      · intro m hm
        rw [after_insert, if_neg hm]
      · intro m hm
        rw [t.before_insert k m hNodes hPool, if_neg hm]
      · rw [after_insert, if_pos rfl]
      · rw [t.before_insert k n hNodes hPool, if_pos rfl,
          if_neg]
        intro hHead
        exact hNotIn k (h.head_mem hHead)
    · have hEntry : (t.insertToEntry k n).entry k' =
          t.entry k' := if_neg hk
      rw [c.set_ne _ hk, hEntry]
      apply (h.linked k').congr
      · intro m hm
        rw [after_insert, if_neg]
        intro hEq
        exact hNotIn k' (hEq ▸ hm)
      · intro m hm
        rw [t.before_insert k m hNodes hPool, if_neg, if_neg]
        · intro hEq
          exact hNotIn k' (hEq ▸ hm)
        · intro hHead
          exact hk (h.apart k k' m (h.head_mem hHead) hm)
  · intro k'
    by_cases hk : k' = k
    · rw [hk, c.set_same]
      exact List.nodup_cons.mpr ⟨hNotIn k, h.nodup k⟩
    · rw [c.set_ne _ hk]
      exact h.nodup k'
  · intro k₁ k₂ m h₁ h₂
    rcases hMem k₁ m h₁ with ⟨hk₁, hm⟩ | h₁
    · rcases hMem k₂ m h₂ with ⟨hk₂, _⟩ | h₂
      · exact hk₂.trans hk₁.symm
      · exact absurd h₂ (hm ▸ hNotIn k₂)
    · rcases hMem k₂ m h₂ with ⟨_, hm⟩ | h₂
      · exact absurd h₁ (hm ▸ hNotIn k₁)
      · exact h.apart k₁ k₂ m h₁ h₂
  · intro k' m hm
    rcases hMem k' m hm with ⟨_, rfl⟩ | hm
    · exact hPool
    · exact h.pool k' m hm

theorem remove
    {k : EntryKey}
    {n : Nat}
    (h : t.Chained nodes c)
    (hIn : n ∈ c k) :
    (t.breakFromEntry k n).Chained nodes
      (c.set k ((c k).erase n)) := by
  obtain ⟨l₁, l₂, hSplit⟩ := List.mem_iff_append.mp hIn
  have hLinked := h.linked k
  have hNodup := h.nodup k
  rw [hSplit] at hLinked hNodup
  have hAfter : t.after n = l₂.head? := hLinked.next_eq
  have hBefore : t.before n = l₁.getLast? := by
    have hBack := hLinked.prev_eq
    rw [Option.or_none] at hBack
    exact hBack
  have hErase : (c k).erase n = l₁ ++ l₂ := by
    have hMiddle := List.nodup_cons.mp
      (List.perm_middle.nodup_iff.mp hNodup)
    rw [hSplit, List.erase_append_right, List.erase_cons_head]
    intro hLeft
    exact hMiddle.1 (List.mem_append_left _ hLeft)
  have hSub : ∀ k' m, m ∈ c.set k ((c k).erase n) k' →
      m ∈ c k' := by
    intro k' m hm
    by_cases hk : k' = k
    · rw [hk, c.set_same] at hm
      rw [hk]
      exact List.mem_of_mem_erase hm
    · rw [c.set_ne _ hk] at hm
      exact hm
  constructor
  · intro k'
    by_cases hk : k' = k
    · have hEntry : link ((t.breakFromEntry k n).entry k) =
          if l₁ = [] then t.after n else link (t.entry k) := by
        have hHead := hLinked.linked.head
        unfold breakFromEntry
        dsimp only
        cases l₁ with
        | nil =>
            have hFirst := (link_eq_some.mp hHead).1
            rw [if_pos ⟨rfl, hFirst⟩, if_pos rfl]
            rfl
        | cons m l₁ =>
            have hFirst := (link_eq_some.mp hHead).1
            rw [if_neg, if_neg (List.cons_ne_nil _ _)]
            intro hEq
            rw [hFirst] at hEq
            rw [hEq.2, List.cons_append,
              List.nodup_cons] at hNodup
            exact hNodup.1 (List.mem_append_right _
              List.mem_cons_self)
      rw [hk, c.set_same, hErase, hEntry]
      apply DLinked.remove hNodup _ _ hLinked
      · intro m _
        rw [after_break, hBefore]
      · intro m _
        rw [before_break, hAfter]
    · have hEntry : (t.breakFromEntry k n).entry k' =
          t.entry k' := if_neg fun hEq => hk hEq.1
      rw [c.set_ne _ hk, hEntry]
      apply (h.linked k').congr
      · intro m hm
        rw [after_break, hBefore, if_neg]
        intro hLast
        have hLeft := List.mem_of_getLast? hLast
        apply hk
        apply h.apart k k' m _ hm
        rw [hSplit]
        exact List.mem_append_left _ hLeft
      · intro m hm
        rw [before_break, hAfter, if_neg]
        intro hFirst
        have hRight := List.mem_of_mem_head? hFirst
        apply hk
        apply h.apart k k' m _ hm
        rw [hSplit]
        exact List.mem_append_right _
          (List.mem_cons_of_mem _ hRight)
  · intro k'
    by_cases hk : k' = k
    · rw [hk, c.set_same]
      exact (h.nodup k).erase n
    · rw [c.set_ne _ hk]
      exact h.nodup k'
  · intro k₁ k₂ m h₁ h₂
    exact h.apart k₁ k₂ m (hSub k₁ m h₁) (hSub k₂ m h₂)
  · intro k' m hm
    exact h.pool k' m (hSub k' m hm)

theorem reaches
    {k : EntryKey}
    {n : Nat}
    (h : t.Chained nodes c)
    (hIn : n ∈ c k) : t.Reaches k n :=
  ⟨c k, (h.linked k).linked, hIn⟩

end Chained

end HashTable

/- The chains by index are the chains of the tree. -/
theorem EntryRun.chained
    {t : HashTable}
    {nodes : Nat}
    {c : Chains}
    (hNodes : nodes ≤ emptyNode)
    (hRun : EntryRun nodes t c) : t.Chained nodes c := by
  induction hRun with
  | init hashNext hashPrev => exact .init hashNext hashPrev
  | insert k _ hNew hPool ih =>
      exact ih.insert k hNodes hNew hPool
  | remove _ hIn ih => exact ih.remove hIn

------------------------------------------------------------
-- Loops That End
------------------------------------------------------------

/- A loop whose counter goes up by one to the end. -/
theorem blockLoop_eq
    {next : Nat → Nat}
    {stop : Nat}
    (hNext : ∀ i ≤ stop, next i = i + 1)
    (n : Nat) :
    ∀ i, i + n = stop + 1 →
      blockLoop next stop (n + 1) i = some (List.range' i n) := by
  induction n with
  | zero =>
      intro i hi
      unfold blockLoop
      rw [if_neg (by omega)]
      rfl
  | succ n ih =>
      intro i hi
      unfold blockLoop
      rw [if_pos (by omega), hNext i (by omega),
        ih (i + 1) (by omega)]
      rfl

/- A loop that starts behind the end. -/
theorem blockLoop_nil
    {next : Nat → Nat}
    {stop i : Nat}
    (h : stop < i) : blockLoop next stop 1 i = some [] := by
  unfold blockLoop
  rw [if_neg (Nat.not_le_of_lt h)]

namespace Partition

variable (p : Partition)

theorem blockLoop_blocks
    {next : Nat → Nat}
    (hNext : ∀ i ≤ p.stop, next i = i + 1) :
    ∃ fuel,
      blockLoop next p.stop fuel p.start = some p.blocks := by
  unfold blocks nodes
  by_cases hEmpty : p.stop < p.start
  · refine ⟨1, ?_⟩
    rw [blockLoop_nil hEmpty,
      Nat.sub_eq_zero_of_le (Nat.succ_le_of_lt hEmpty)]
    rfl
  · exact ⟨_, blockLoop_eq hNext (p.stop + 1 - p.start) p.start
      (by omega)⟩

theorem stepOneBlocks_eq :
    ∃ fuel,
      stepOneBlocks p.stop fuel p.start = some p.blocks :=
  p.blockLoop_blocks fun _ _ => rfl

theorem formatBlocks_eq
    (h : p.stop < 65535) :
    ∃ fuel,
      formatBlocks p.stop fuel p.start = some p.blocks := by
  apply p.blockLoop_blocks
  intro i hi
  exact Nat.mod_eq_of_lt (by omega)

end Partition

/- The counter wraps around before it is past the last block. -/
theorem formatBlocks_none
    (fuel : Nat) :
    ∀ i, i < 65536 → formatBlocks 65535 fuel i = none := by
  induction fuel with
  | zero =>
      intro i _
      rfl
  | succ fuel ih =>
      intro i hi
      unfold formatBlocks blockLoop
      rw [if_pos (Nat.le_of_lt_succ hi)]
      have hRest := ih ((i + 1) % 65536)
        (Nat.mod_lt _ (by decide))
      unfold formatBlocks at hRest
      rw [hRest]
      rfl

------------------------------------------------------------
-- Reports of Bad Blocks
------------------------------------------------------------

/- The block is in the pending list. -/
def Pending.Lists (q : Pending) (block : Nat) : Prop :=
  ∃ i < q.count, (q.slot i).block = block

/- A block that is reported while no block is recovered. -/
theorem Pending.lists_add
    {q : Pending}
    {block : Nat}
    (mark : PendingMark)
    (hIdle : q.blockInRecovery = invalidBlock)
    (hRoom : q.count < maxPendingBlocks)
    (hBlock : block ≠ invalidBlock) :
    (q.add block mark).Lists block := by
  unfold add
  rw [if_neg (by rw [hIdle]; exact Ne.symm hBlock)]
  cases hFind : q.find block with
  | some i =>
      have hTest := List.find?_some hFind
      have hCount := List.mem_range.mp
        (List.mem_of_find?_eq_some hFind)
      rw [beq_iff_eq] at hTest
      dsimp only
      split
      · refine ⟨i, hCount, ?_⟩
        dsimp only
        rw [upd_same]
        exact hTest
      · exact ⟨i, hCount, hTest⟩
  | none =>
      dsimp only
      rw [if_neg (Nat.not_le_of_lt hRoom)]
      refine ⟨q.count, Nat.lt_succ_self _, ?_⟩
      dsimp only
      rw [upd_same]

------------------------------------------------------------
-- Reserved Numbers
------------------------------------------------------------

/-
  No block and no node of the partition has a reserved
  number, every node that is inserted can be found, every
  block can be reported, and the loops over the blocks visit
  each of them once and end.
-/
structure SentinelsApart (p : Partition) : Prop where
  block : ∀ b, p.Has b → b ≠ invalidBlock
  index : ∀ i < p.nodes, i ≠ emptyNode
  reachable : ∀ t c, EntryRun p.nodes t c →
    ∀ k, ∀ n ∈ c k, t.Reaches k n
  reported : ∀ b, p.Has b → ∀ q : Pending,
    q.blockInRecovery = invalidBlock →
      q.count < maxPendingBlocks →
        ∀ mark, (q.add b mark).Lists b
  format : ∃ fuel,
    formatBlocks p.stop fuel p.start = some p.blocks
  stepOne : ∃ fuel,
    stepOneBlocks p.stop fuel p.start = some p.blocks

/-
  The partition ends below the reserved block number, or has
  no block at all.
-/
theorem sentinelsApart_iff (e : MountEntry) :
    SentinelsApart e.partition ↔
      e.partition.stop < 0xfffe ∨
        e.partition.stop = 0xfffe ∧
          e.partition.start = 0xffff := by
  generalize e.partition = p
  have hStart := p.start_lt
  have hStop := p.stop_lt
  constructor
  · intro h
    by_contra hNot
    by_cases hLast : p.stop = 65535
    · rcases h.format with ⟨fuel, hFormat⟩
      rw [hLast, formatBlocks_none fuel p.start hStart]
        at hFormat
      cases hFormat
    · apply h.block 0xfffe _ rfl
      unfold Partition.Has
      omega
  · intro h
    have hHas : ∀ b, p.Has b → b ≠ invalidBlock := by
      unfold Partition.Has invalidBlock
      omega
    have hNodes : p.nodes ≤ emptyNode := by
      unfold Partition.nodes emptyNode
      omega
    constructor
    · exact hHas
    · intro i hi
      exact Nat.ne_of_lt (Nat.lt_of_lt_of_le hi hNodes)
    · intro t c hRun k n hIn
      exact (hRun.chained hNodes).reaches hIn
    · intro b hb q hIdle hRoom mark
      exact q.lists_add mark hIdle hRoom (hHas b hb)
    · exact p.formatBlocks_eq (by omega)
    · exact p.stepOneBlocks_eq

/-
  A partition of all the blocks of a medium with as many
  blocks as there are 16 bit numbers.
-/
theorem sentinelsApart_false :
    ¬ ∀ e : MountEntry, SentinelsApart e.partition := by
  intro hAll
  let e : MountEntry :=
    { startBlock := 0, endBlock := -1, totalBlocks := 65536 }
  have hLast : e.partition.stop = 65535 := by decide
  rcases (hAll e).format with ⟨fuel, hFormat⟩
  rw [hLast, formatBlocks_none fuel _ e.partition.start_lt]
    at hFormat
  cases hFormat

end Uffs
