import Uffs.Links.Find

/-
  The hash entries over runs of insertions and removals, and
  of the changes of nodes in place: by flush, by rename, by
  mount, by deletion, and by the recovery of blocks.

  Main declarations:
    * `LinkedTree`, `LinkAct`, `LinkedTree.step`
    * `LinkAct.Meets`, `LinkRun`
    * `LinkedTree.Intact`
    * `LinkedTree.findNode`, `LinkedTree.Intact.flush_meets`
    * `LinkRun.integrity`
-/

namespace Uffs

------------------------------------------------------------
-- Acts
------------------------------------------------------------

/- The pool of nodes, and the links between them. -/
structure LinkedTree where
  node : Nat → TreeNode
  table : HashTable

/-
  What is done to the pool.  `fill` writes any field of a
  node that is not in the tree: its key and block when it is
  mounted, or the links of the erased, the bad or the
  suspend list.  `flush` is the end of
  `uffs_BufFlush_Exist_With_BlockRecover`, `rename` that of
  `do_MoveObjectEx`; `setBlock` is the end of
  `process_pending_recover`.
-/
inductive LinkAct where
| insert (type : BlockType) (n : Nat)
| remove (type : BlockType) (n : Nat)
| fill (n : Nat) (x : TreeNode)
| flush (n : Nat) (key : GroupKey) (newBlock sum : Nat)
| rename (n sum parent : Nat)
| setBlock (n block : Nat)
| setLen (n len : Nat)

namespace LinkedTree

/- Change one node. -/
def setNode
    (s : LinkedTree)
    (n : Nat)
    (f : TreeNode → TreeNode) : LinkedTree :=
  { s with node := upd s.node n (f (s.node n)) }

/- One act. -/
def step (s : LinkedTree) : LinkAct → LinkedTree
| .insert type n =>
    { s with table := s.table.insertNode type n (s.node n) }
| .remove type n =>
    { s with table := s.table.breakNode type n (s.node n) }
| .fill n x => s.setNode n fun _ => x
| .flush n key newBlock sum =>
    s.setNode n fun x => x.recovered key newBlock sum
| .rename n sum parent =>
    s.setNode n fun x => x.setName sum parent
| .setBlock n block => s.setNode n fun x => x.setBlock block
| .setLen n len => s.setNode n fun x => x.setLen len

end LinkedTree

/- The region that each node was inserted in, if any. -/
abbrev Regions : Type := Nat → Option BlockType

/- The regions after an act. -/
def Regions.step (r : Regions) : LinkAct → Regions
| .insert type n => upd r n (some type)
| .remove _ n => upd r n none
| _ => r

/- Is this a node that the key stands for? -/
def TreeNode.HasKey (x : TreeNode) (key : GroupKey) : Prop :=
  x.serial = key.serial ∧
    (key.type = .data → x.parent = key.parent)

/-
  When the source does each of these.  A node is inserted
  when its key has been written, and it comes from outside of
  the tree.  The node that is flushed has been found by the
  key of the dirty group, or it is a new one.  The key that
  is written is taken from what is left of the group: an
  append that meets a bad block may have taken buffers out of
  it.  They have one parent and serial number; that a group
  has buffers of two types is left out here, and noted as a
  mixed group by the sessions.
-/
def LinkAct.Meets
    (nodes : Nat)
    (s : LinkedTree)
    (r : Regions) : LinkAct → Prop
| .insert type n =>
    n < nodes ∧ type ≠ .resv ∧ (s.node n).type = type ∧
      r n = none
| .remove type n => r n = some type
| .fill n _ => r n = none
| .flush n key _ _ =>
    r n = none ∨
      r n = some key.type ∧ (s.node n).HasKey key
| .rename n _ _ => r n = some .dir ∨ r n = some .file
| .setBlock _ _ => True
| .setLen _ _ => True

/- What a run makes of the pool that `uffs_TreeInit` leaves. -/
inductive LinkRun (nodes : Nat) : LinkedTree → Regions → Prop
| init
    (node : Nat → TreeNode)
    (hashNext hashPrev : Nat → Nat) :
    LinkRun nodes
      { node := node
        table :=
          { entry := fun _ => emptyNode
            hashNext := hashNext
            hashPrev := hashPrev } }
      (fun _ => none)
| step
    {s : LinkedTree}
    {r : Regions}
    (a : LinkAct)
    (hRun : LinkRun nodes s r)
    (hMeets : a.Meets nodes s r) :
    LinkRun nodes (s.step a) (r.step a)

------------------------------------------------------------
-- Intact Chains
------------------------------------------------------------

/-
  The table holds the chains, and the chain of an entry has
  the nodes that were inserted and have its hash value now.
-/
structure LinkedTree.Intact
    (nodes : Nat)
    (s : LinkedTree)
    (r : Regions)
    (c : Chains) : Prop where
  chained : s.table.Chained nodes c
  mem : ∀ k n, n ∈ c k ↔
    r n = some k.type ∧ (s.node n).entryKey k.type = k
  used : ∀ n, r n ≠ some .resv

namespace LinkedTree.Intact

variable {nodes : Nat} {s : LinkedTree} {r : Regions}
  {c : Chains}

/- A node changes, and its hash value does not. -/
theorem setNode
    {n : Nat}
    {f : TreeNode → TreeNode}
    (h : Intact nodes s r c)
    (hKey : ∀ type, r n = some type →
      (f (s.node n)).entryKey type =
        (s.node n).entryKey type) :
    Intact nodes (s.setNode n f) r c where
  chained := h.chained
  mem := by
    intro k m
    rw [h.mem k m]
    unfold LinkedTree.setNode
    dsimp only
    by_cases hm : m = n
    · rw [hm, upd_same]
      constructor
      · intro hIn
        rw [hKey _ hIn.1]
        exact hIn
      · intro hIn
        rw [hKey _ hIn.1] at hIn
        exact hIn
    · rw [upd_other _ _ hm]
  used := h.used

theorem insert
    {type : BlockType}
    {n : Nat}
    (hNodes : nodes ≤ emptyNode)
    (h : Intact nodes s r c)
    (hPool : n < nodes)
    (hResv : type ≠ .resv)
    (hNew : r n = none) :
    Intact nodes (s.step (.insert type n))
      (upd r n (some type))
      (c.set ((s.node n).entryKey type)
        (n :: c ((s.node n).entryKey type))) := by
  have hTable : (s.step (.insert type n)).table =
      s.table.insertToEntry ((s.node n).entryKey type) n := by
    unfold step HashTable.insertNode
    cases type with
    | resv => exact absurd rfl hResv
    | _ => rfl
  have hOut : ∀ k, n ∉ c k := by
    intro k hIn
    rw [h.mem, hNew] at hIn
    cases hIn.1
  constructor
  · rw [hTable]
    apply h.chained.insert _ hNodes _ hPool
    intro hHas
    rcases hHas with ⟨k, hk⟩
    exact hOut k hk
  · intro k m
    change _ ↔ _ ∧ (s.node m).entryKey k.type = k
    by_cases hm : m = n
    · rw [hm, upd_same, Option.some.injEq]
      by_cases hk : k = (s.node n).entryKey type
      · rw [hk, c.set_same]
        constructor
        · intro _
          exact ⟨rfl, rfl⟩
        · intro _
          exact List.mem_cons_self
      · rw [c.set_ne _ hk]
        constructor
        · intro hIn
          exact absurd hIn (hOut k)
        · intro hEq
          rw [← hEq.1] at hEq
          exact absurd hEq.2.symm hk
    · rw [upd_other _ _ hm, ← h.mem k m]
      by_cases hk : k = (s.node n).entryKey type
      · rw [hk, c.set_same, List.mem_cons]
        constructor
        · intro hIn
          exact hIn.resolve_left hm
        · exact Or.inr
      · rw [c.set_ne _ hk]
  · intro m
    by_cases hm : m = n
    · rw [hm, upd_same]
      intro hEq
      exact hResv (Option.some.inj hEq)
    · rw [upd_other _ _ hm]
      exact h.used m

theorem remove
    {type : BlockType}
    {n : Nat}
    (h : Intact nodes s r c)
    (hIn : r n = some type) :
    Intact nodes (s.step (.remove type n))
      (upd r n none)
      (c.set ((s.node n).entryKey type)
        ((c ((s.node n).entryKey type)).erase n)) := by
  have hTable : (s.step (.remove type n)).table =
      s.table.breakFromEntry ((s.node n).entryKey type) n := by
    unfold step HashTable.breakNode
    cases type with
    | resv => exact absurd hIn (h.used n)
    | _ => rfl
  have hMem : n ∈ c ((s.node n).entryKey type) :=
    (h.mem _ n).mpr ⟨hIn, rfl⟩
  constructor
  · rw [hTable]
    exact h.chained.remove hMem
  · intro k m
    change _ ↔ _ ∧ (s.node m).entryKey k.type = k
    by_cases hm : m = n
    · rw [hm, upd_same]
      constructor
      · intro hOut
        by_cases hk : k = (s.node n).entryKey type
        · rw [hk, c.set_same] at hOut
          exact absurd hOut
            (h.chained.nodup _).not_mem_erase
        · rw [c.set_ne _ hk] at hOut
          exact absurd (h.chained.apart _ k n hMem hOut) hk
      · intro hNone
        cases hNone.1
    · rw [upd_other _ _ hm, ← h.mem k m]
      by_cases hk : k = (s.node n).entryKey type
      · rw [hk, c.set_same]
        exact List.mem_erase_of_ne hm
      · rw [c.set_ne _ hk]
  · intro m
    by_cases hm : m = n
    · rw [hm, upd_same]
      intro hEq
      cases hEq
    · rw [upd_other _ _ hm]
      exact h.used m

/- A change of a node that keeps its key. -/
theorem setField
    {f : TreeNode → TreeNode}
    (n : Nat)
    (h : Intact nodes s r c)
    (hParent : ∀ x : TreeNode, (f x).parent = x.parent)
    (hSerial : ∀ x : TreeNode, (f x).serial = x.serial) :
    Intact nodes (s.setNode n f) r c := by
  apply h.setNode
  intro type _
  unfold TreeNode.entryKey
  rw [hParent, hSerial]

/- The node of a dirty group keeps the key of the group. -/
theorem flush
    {n newBlock sum : Nat}
    {key : GroupKey}
    (h : Intact nodes s r c)
    (hFound : r n = none ∨
      r n = some key.type ∧ (s.node n).HasKey key) :
    Intact nodes (s.step (.flush n key newBlock sum)) r c := by
  unfold LinkedTree.step
  apply h.setNode
  intro type hType
  rcases hFound with hNew | ⟨hOld, hSerial, hParent⟩
  · rw [hNew] at hType
    cases hType
  · rw [hOld, Option.some.injEq] at hType
    unfold TreeNode.recovered TreeNode.entryKey
    rw [← hType]
    cases hKey : key.type with
    | dir => rw [hSerial]; rfl
    | file => rw [hSerial]; rfl
    | data => rw [hSerial, hParent hKey]; rfl
    | resv => rfl

theorem step
    {a : LinkAct}
    (hNodes : nodes ≤ emptyNode)
    (h : Intact nodes s r c)
    (hMeets : a.Meets nodes s r) :
    ∃ c', Intact nodes (s.step a) (r.step a) c' := by
  cases a with
  | insert type n =>
      rcases hMeets with ⟨hPool, hResv, _, hNew⟩
      exact ⟨_, h.insert hNodes hPool hResv hNew⟩
  | remove type n => exact ⟨_, h.remove hMeets⟩
  | fill n x =>
      refine ⟨c, ?_⟩
      unfold LinkedTree.step Regions.step
      apply h.setNode
      intro type hType
      rw [show r n = none from hMeets] at hType
      cases hType
  | flush n key newBlock sum => exact ⟨c, h.flush hMeets⟩
  | rename n sum parent =>
      refine ⟨c, ?_⟩
      unfold LinkedTree.step Regions.step
      apply h.setNode
      intro type hType
      have hSerial : ((s.node n).setName sum parent).serial =
          (s.node n).serial := by
        cases s.node n <;> rfl
      unfold TreeNode.entryKey
      rw [hSerial]
      -- the parent does not count for a directory or a file
      rcases hMeets with hDir | hFile
      · rw [hDir, Option.some.injEq] at hType
        rw [← hType]
      · rw [hFile, Option.some.injEq] at hType
        rw [← hType]
  | setBlock n block =>
      refine ⟨c, ?_⟩
      unfold LinkedTree.step Regions.step
      apply h.setField n
      · intro x
        cases x <;> rfl
      · intro x
        cases x <;> rfl
  | setLen n len =>
      refine ⟨c, ?_⟩
      unfold LinkedTree.step Regions.step
      apply h.setField n
      · intro x
        cases x <;> rfl
      · intro x
        cases x <;> rfl

end LinkedTree.Intact

/- Every run leaves the chains intact. -/
theorem LinkRun.intact
    {nodes : Nat}
    {s : LinkedTree}
    {r : Regions}
    (hNodes : nodes ≤ emptyNode)
    (hRun : LinkRun nodes s r) :
    ∃ c, s.Intact nodes r c := by
  induction hRun with
  | init node hashNext hashPrev =>
      refine ⟨fun _ => [], .init hashNext hashPrev, ?_, ?_⟩
      · intro k n
        constructor
        · intro hIn
          cases hIn
        · intro hIn
          cases hIn.1
      · intro n hEq
        cases hEq
  | step a _ hMeets ih =>
      rcases ih with ⟨c, hIntact⟩
      exact hIntact.step hNodes hMeets

------------------------------------------------------------
-- Searches
------------------------------------------------------------

/-
  The search ends; it finds a node with `P`, or there is none
  in the pool.
-/
def FindsNode (o : Option (Option Nat)) (P : Nat → Prop) :
    Prop :=
  (∃ n, o = some (some n) ∧ P n) ∨
    (o = some none ∧ ∀ n, ¬ P n)

/- What a search of an entry finds is in its region. -/
theorem LinkedTree.Intact.found
    {nodes n : Nat}
    {s : LinkedTree}
    {r : Regions}
    {c : Chains}
    {test : Nat → Bool}
    (h : s.Intact nodes r c)
    (k : EntryKey)
    (hFind : s.table.findFrom test (nodes + 1)
      (s.table.entry k) = some (some n)) :
    r n = some k.type ∧ test n = true := by
  rw [h.chained.find, Option.some.injEq] at hFind
  have hIn := (h.mem k n).mp (List.mem_of_find?_eq_some hFind)
  exact ⟨hIn.1, List.find?_some hFind⟩

/- A search of the entry that all nodes with `P` belong to. -/
theorem LinkedTree.Intact.finds
    {nodes : Nat}
    {s : LinkedTree}
    {r : Regions}
    {c : Chains}
    {test : Nat → Bool}
    {P : Nat → Prop}
    (h : s.Intact nodes r c)
    (k : EntryKey)
    (hTest : ∀ n, test n = true → r n = some k.type → P n)
    (hAll : ∀ n, P n → test n = true ∧ r n = some k.type ∧
      (s.node n).entryKey k.type = k) :
    FindsNode
      (s.table.findFrom test (nodes + 1) (s.table.entry k)) P
    := by
  rw [h.chained.find]
  cases hFind : (c k).find? test with
  | none =>
      right
      refine ⟨rfl, ?_⟩
      intro n hn
      rcases hAll n hn with ⟨hYes, hIn⟩
      exact List.find?_eq_none.mp hFind n ((h.mem k n).mpr hIn)
        hYes
  | some n =>
      left
      refine ⟨n, rfl, ?_⟩
      have hIn := (h.mem k n).mp (List.mem_of_find?_eq_some hFind)
      exact hTest n (List.find?_some hFind) hIn.1

/- The search of `_BufFlush`, by the key of the group. -/
def LinkedTree.findNode
    (s : LinkedTree)
    (fuel : Nat)
    (key : GroupKey) : Option (Option Nat) :=
  match key.type with
  | .dir => s.table.findDirNode s.node fuel key.serial
  | .file => s.table.findFileNode s.node fuel key.serial
  | .data =>
      s.table.findDataNode s.node fuel key.parent key.serial
  | .resv => some none

/- What the search finds meets the condition of a flush. -/
theorem LinkedTree.Intact.flush_meets
    {nodes n newBlock sum : Nat}
    {s : LinkedTree}
    {r : Regions}
    {c : Chains}
    {key : GroupKey}
    (h : s.Intact nodes r c)
    (hFind : s.findNode (nodes + 1) key = some (some n)) :
    (LinkAct.flush n key newBlock sum).Meets nodes s r := by
  apply Or.inr
  rcases key with ⟨type, parent, serial⟩
  unfold LinkedTree.findNode at hFind
  cases type with
  | dir =>
      have hFound := h.found ⟨.dir, getDirHash serial⟩ hFind
      exact ⟨hFound.1, eq_of_beq hFound.2, BlockType.noConfusion⟩
  | file =>
      have hFound := h.found ⟨.file, getFileHash serial⟩ hFind
      exact ⟨hFound.1, eq_of_beq hFound.2, BlockType.noConfusion⟩
  | data =>
      have hFound :=
        h.found ⟨.data, getDataHash parent serial⟩ hFind
      have hKey := hFound.2
      rw [Bool.and_eq_true, beq_iff_eq, beq_iff_eq] at hKey
      exact ⟨hFound.1, hKey.2, fun _ => hKey.1⟩
  | resv => cases hFind

/-
  After any run, every chain is a list that links forth and
  back through exactly the nodes that were inserted and not
  removed and have its hash value, and the searches end with
  a node that has the key, if there is one in the tree.
-/
theorem LinkRun.integrity
    {nodes : Nat}
    {s : LinkedTree}
    {r : Regions}
    (hNodes : nodes < 65535)
    (hRun : LinkRun nodes s r) :
    (∀ k : EntryKey, ∃ l : List Nat,
      DLinked s.table.after s.table.before none
        (HashTable.link (s.table.entry k)) l ∧
      l.Nodup ∧
      ∀ n, n ∈ l ↔ r n = some k.type ∧
        (s.node n).entryKey k.type = k) ∧
    (∀ serial, FindsNode
      (s.table.findDirNode s.node (nodes + 1) serial)
      fun n => r n = some .dir ∧ (s.node n).serial = serial) ∧
    (∀ serial, FindsNode
      (s.table.findFileNode s.node (nodes + 1) serial)
      fun n => r n = some .file ∧ (s.node n).serial = serial) ∧
    ∀ parent serial, FindsNode
      (s.table.findDataNode s.node (nodes + 1) parent serial)
      fun n => r n = some .data ∧
        (s.node n).parent = parent ∧
        (s.node n).serial = serial := by
  rcases hRun.intact (Nat.le_of_lt hNodes) with ⟨c, h⟩
  refine ⟨?_, ?_, ?_, ?_⟩
  · intro k
    exact ⟨c k, h.chained.linked k, h.chained.nodup k, h.mem k⟩
  · intro serial
    apply h.finds ⟨.dir, getDirHash serial⟩
    · intro n hTest hIn
      exact ⟨hIn, eq_of_beq hTest⟩
    · intro n hn
      refine ⟨beq_iff_eq.mpr hn.2, hn.1, ?_⟩
      unfold TreeNode.entryKey
      rw [hn.2]
  · intro serial
    apply h.finds ⟨.file, getFileHash serial⟩
    · intro n hTest hIn
      exact ⟨hIn, eq_of_beq hTest⟩
    · intro n hn
      refine ⟨beq_iff_eq.mpr hn.2, hn.1, ?_⟩
      unfold TreeNode.entryKey
      rw [hn.2]
  · intro parent serial
    apply h.finds ⟨.data, getDataHash parent serial⟩
    · intro n hTest hIn
      rw [Bool.and_eq_true, beq_iff_eq, beq_iff_eq] at hTest
      exact ⟨hIn, hTest⟩
    · intro n hn
      refine ⟨?_, hn.1, ?_⟩
      · rw [Bool.and_eq_true, beq_iff_eq, beq_iff_eq]
        exact hn.2
      · unfold TreeNode.entryKey
        rw [hn.2.1, hn.2.2]

/-
  Two files of one hash value: the second one is renamed and
  flushed, and the first one deleted.
-/
theorem linkRun_twoFiles :
    ∃ s r, LinkRun 10 s r ∧
      s.table.findFileNode s.node 11 65 = some (some 1) ∧
      (s.node 1).parent = 3 ∧
      FindsNode (s.table.findFileNode s.node 11 1)
        (fun n => r n = some .file ∧ (s.node n).serial = 1) ∧
      s.table.findFileNode s.node 11 1 = some none := by
  let x : TreeNode := .file 4 7 0 1 10
  let y : TreeNode := .file 5 8 0 65 20
  have h₀ : LinkRun 10 _ _ :=
    .init (fun _ => .list none none 0 0) (fun _ => 0)
      (fun _ => 0)
  have h₁ := h₀.step (.fill 0 x) rfl
  have h₂ := h₁.step (.insert .file 0)
    ⟨by decide, by decide, rfl, rfl⟩
  have h₃ := h₂.step (.fill 1 y) rfl
  have h₄ := h₃.step (.insert .file 1)
    ⟨by decide, by decide, rfl, rfl⟩
  have h₅ := h₄.step (.rename 1 9 3) (.inr rfl)
  have h₆ := h₅.step
    (.flush 1 { type := .file, parent := 3, serial := 65 } 6 9)
    (.inr ⟨rfl, rfl, by decide⟩)
  have h₇ := h₆.step (.remove .file 0) rfl
  have h₈ := h₇.step (.fill 0 (.list none none 4 1)) rfl
  exact ⟨_, _, h₈, by decide, rfl,
    (h₈.integrity (by decide)).2.2.1 1, by decide⟩

end Uffs
