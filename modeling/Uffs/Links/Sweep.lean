import Uffs.Good.BuildTree
import Uffs.Links.Find
import Uffs.Model.Emulator
import Uffs.Retry.Always

/-
  The round over the data blocks (`_BuildTreeStepThree`) by
  the links, whatever the driver answers.

  Main declarations:
    * `Tree.adoptedBy`, `Tree.Swept`
    * `Sweep.Holds`
    * `wp_sweepNode`, `wp_sweepChain`
    * `sweepDataNodes_correct`
-/

namespace Uffs

open Prog

section Sweeping

variable [Platform]

------------------------------------------------------------
-- Orphans
------------------------------------------------------------

/- Is there no file for this data node? -/
def Tree.isOrphan (t : Tree) (n : Nat) : Bool :=
  (t.findFileNode (t.node n).parent).isNone

/- The nodes of `P` whose file is found to be `n`. -/
def Tree.adoptedBy (t : Tree) (P : List Nat) (n : Nat) :
    List Nat :=
  P.filter fun w =>
    t.findFileNode (t.node w).parent == some n

/- The bytes of these nodes. -/
def Tree.adoptedLen (t : Tree) (P : List Nat) (n : Nat) : Nat :=
  ((t.adoptedBy P n).map fun w => (t.node w).len).sum

omit [Platform] in
theorem Tree.adoptedLen_append
    (t : Tree)
    (P : List Nat)
    (w n : Nat) :
    t.adoptedLen (P ++ [w]) n =
      t.adoptedLen P n +
        if t.findFileNode (t.node w).parent = some n then
          (t.node w).len
        else 0 := by
  unfold adoptedLen adoptedBy
  rw [List.filter_append, List.map_append, List.sum_append]
  by_cases hEq : t.findFileNode (t.node w).parent = some n
  · simp [hEq]
  · simp [hEq]

/-
  What the rounds over the data nodes `P` have made of the
  tree `t₀`, whose erased list is `E` and bad list `B`.
-/
structure Tree.Swept
    (t₀ : Tree)
    (E B H : List Nat)
    (own : Nat → Nat)
    (P : List Nat)
    (t : Tree) : Prop where
  parts : ∃ E₁ B₁, t.Parts (E ++ E₁) (B₁ ++ B) H own ∧
    (E₁ ++ B₁).Perm (P.filter t₀.isOrphan)
  dirEntry : t.dirEntry = t₀.dirEntry
  fileEntry : t.fileEntry = t₀.fileEntry
  dataEntry : ∀ k, t.dataEntry k =
    (t₀.dataEntry k).filter fun n =>
      !(P.contains n && t₀.isOrphan n)
  same : ∀ n ∈ t.entryNodes, n ∉ t₀.region .file →
    t.node n = t₀.node n
  grown : ∀ n ∈ t₀.region .file,
    t.node n = (t₀.node n).setLen
      ((t₀.node n).len + t₀.adoptedLen P n)

namespace Tree.Swept

variable {t₀ t : Tree} {E B H : List Nat} {own : Nat → Nat}
  {P : List Nat}

theorem nil
    (hParts : t₀.Parts E B H own) :
    Swept t₀ E B H own [] t₀ := by
  constructor
  · refine ⟨[], [], ?_, List.Perm.nil⟩
    rw [List.append_nil]
    exact hParts
  · rfl
  · rfl
  · intro k
    simp
  · intro _ _ _
    rfl
  · intro n _
    simp [adoptedLen, adoptedBy, TreeNode.setLen_self]

/- The files are found as before. -/
theorem findFileNode
    (h : Swept t₀ E B H own P t)
    (serial : Nat) :
    t.findFileNode serial = t₀.findFileNode serial := by
  unfold Tree.findFileNode
  rw [h.fileEntry]
  apply List.find?_congr
  intro n hn
  have hRegion : n ∈ t₀.region .file :=
    Tree.mem_region.mpr ⟨_, Nat.mod_lt _ (by decide), hn⟩
  rw [h.grown n hRegion, TreeNode.setLen_serial]

/- A data node that has not been met is still there. -/
theorem mem_data
    {n : Nat}
    (h : Swept t₀ E B H own P t)
    (hData : n ∈ t₀.region .data)
    (hNew : n ∉ P) : n ∈ t.region .data := by
  rcases Tree.mem_region.mp hData with ⟨k, hk, hIn⟩
  refine Tree.mem_region.mpr ⟨k, hk, ?_⟩
  change n ∈ t.dataEntry k
  rw [h.dataEntry k, List.mem_filter]
  refine ⟨hIn, ?_⟩
  simp [hNew]

/- It is as it was. -/
theorem node_eq
    {n : Nat}
    (h : Swept t₀ E B H own P t)
    (hParts : t₀.Parts E B H own)
    (hData : n ∈ t₀.region .data)
    (hNew : n ∉ P) : t.node n = t₀.node n := by
  apply h.same n (Tree.region_subset (h.mem_data hData hNew))
  intro hFile
  have hType := hParts.type_of_mem hData
  rw [hParts.type_of_mem hFile] at hType
  cases hType

/- A data node is added to its file. -/
theorem grow
    {work n : Nat}
    (h : Swept t₀ E B H own P t)
    (hParts : t₀.Parts E B H own)
    (hFind : t₀.findFileNode (t₀.node work).parent = some n) :
    Swept t₀ E B H own (P ++ [work])
      (t.setNode n fun x =>
        x.setLen (x.len + (t₀.node work).len)) := by
  rcases h.parts with ⟨E₁, B₁, hNow, hPerm⟩
  have hFile := (Tree.findFileNode_some hFind).1
  have hOrphan : t₀.isOrphan work = false := by
    unfold isOrphan
    rw [hFind]
    rfl
  have hEntry : n ∈ t.entryNodes := by
    rcases Tree.mem_region.mp hFile with ⟨k, hk, hIn⟩
    refine Tree.mem_entryNodes.mpr ⟨.file, k, hk, ?_⟩
    change n ∈ t.fileEntry k
    rw [h.fileEntry]
    exact hIn
  have hOther : ∀ m, m ≠ n → (t.setNode n fun x =>
      x.setLen (x.len + (t₀.node work).len)).node m = t.node m :=
    fun m hm => Tree.setNode_other _ _ hm
  constructor
  · refine ⟨E₁, B₁, ?_, ?_⟩
    · apply hNow.change rfl
      · intro m hm
        refine ⟨hOther m ?_, rfl⟩
        intro hmn
        rw [hmn] at hm
        have hNodup := (List.nodup_append.mp hNow.nodup).1
        exact (List.nodup_append.mp hNodup).2.2 n hm n hEntry rfl
      · intro m hm
        have hBlock := hNow.block m
          (List.mem_append_right _ hm)
        by_cases hmn : m = n
        · rw [hmn] at hBlock ⊢
          simp [hBlock]
        · rw [hOther m hmn]
          exact ⟨hBlock, rfl, rfl⟩
      · exact hNow.owned
    · rw [List.filter_append, List.filter_singleton, hOrphan]
      simp [hPerm]
  · exact h.dirEntry
  · exact h.fileEntry
  · intro k
    have hOld := h.dataEntry k
    change t.dataEntry k = _
    rw [hOld]
    apply List.filter_congr
    intro m _
    by_cases hm : m = work
    · rw [hm, hOrphan, Bool.and_false, Bool.and_false]
    · simp [hm]
  · intro m hm hNot
    rw [hOther m fun hmn => hNot (hmn ▸ hFile)]
    exact h.same m hm hNot
  · intro m hm
    rw [Tree.adoptedLen_append, hFind]
    by_cases hmn : m = n
    · have hType := hParts.type_of_mem hFile
      rw [hmn, Tree.setNode_same, h.grown n hFile,
        TreeNode.setLen_setLen,
        TreeNode.setLen_len _ _ (Or.inl hType), if_pos rfl,
        Nat.add_assoc]
    · rw [hOther m hmn, if_neg]
      · exact h.grown m hm
      · intro hEq
        exact hmn (Option.some.inj hEq).symm

end Tree.Swept

/- The tree with a data node taken out and marked with `b`. -/
def Tree.orphaned (t : Tree) (work b : Nat) : Tree :=
  ((t.breakNode .data work).setNode work fun x =>
    .list none none x.block 0).setNode work fun x =>
      x.setListBlock b

/- Taking out a data node, as a filter of the entries. -/
theorem Tree.Parts.breakNode_dataEntry
    {t : Tree}
    {E B H : List Nat}
    {own : Nat → Nat}
    (hNow : t.Parts E B H own)
    (work k : Nat) :
    (t.breakNode .data work).dataEntry k =
      (t.dataEntry k).filter (· != work) := by
  have hBreak : (t.breakNode .data work).dataEntry k =
      upd t.dataEntry
        (getDataHash (t.node work).parent (t.node work).serial)
        ((t.dataEntry (getDataHash (t.node work).parent
          (t.node work).serial)).erase work) k := rfl
  rw [hBreak]
  by_cases hk : k = getDataHash (t.node work).parent
      (t.node work).serial
  · rw [hk, upd_same]
    apply List.Nodup.erase_eq_filter
    have hNodup := (List.nodup_append.mp hNow.nodup).1
    have hNodes := (List.nodup_append.mp hNodup).2.1
    have hAll := (List.nodup_append.mp hNodes).2.1
    have hMem : getDataHash (t.node work).parent
        (t.node work).serial ∈ List.range 512 :=
      List.mem_range.mpr (Nat.mod_lt _ (by decide))
    exact (List.nodup_flatMap.mp hAll).1 _ hMem
  · rw [upd_other _ _ hk]
    apply Eq.symm
    apply List.filter_eq_self.mpr
    intro m hm
    rw [bne_iff_ne]
    intro hEq
    rw [hEq] at hm
    exact hk (hNow.hash .data k work hm).2.symm

/- How `eraseAndFile` leaves the tree. -/
def Tree.FiledIn (t : Tree) (n : Nat) (u : Tree) : Prop :=
  u = t.appendErased n (some 0) ∨ u = t.pushBad n

namespace Tree.Swept

variable {t₀ t u : Tree} {E B H : List Nat} {own : Nat → Nat}
  {P : List Nat}

/- What a data node taken out of the tree leaves behind. -/
theorem filed
    {work : Nat}
    (hNow : t.Parts E B H own)
    (hIn : work ∈ t.region .data)
    (hFiled : (t.orphaned work (own work)).FiledIn work u) :
    u.entry = (t.breakNode .data work).entry ∧
      (∀ m ∈ (t.breakNode .data work).entryNodes,
        u.node m = t.node m) ∧
      (u.Parts (E ++ [work]) B H own ∨
        u.Parts E (work :: B) H own) := by
  have hMem : work ∈ work :: H := List.mem_cons_self
  have hErase : (work :: H).erase work = H :=
    List.erase_cons_head _ _
  have hBroken := hNow.breakOff hIn
  have hHeld := (hBroken.setHeld hMem fun x =>
    .list none none x.block 0).setHeld hMem fun x =>
      x.setListBlock (own work)
  have hEntry : (t.orphaned work (own work)).entry =
      (t.breakNode .data work).entry := by
    unfold orphaned
    rw [Tree.setNode_entry, Tree.setNode_entry]
  have hNodes := (t.breakNode .data work).entryNodes_congr
    hEntry
  have hOld : ∀ m ∈ (t.breakNode .data work).entryNodes,
      (t.orphaned work (own work)).node m = t.node m := by
    intro m hm
    have hNe : m ≠ work := by
      intro hEq
      rw [hEq] at hm
      exact hBroken.held hMem (List.mem_append_right _ hm)
    unfold orphaned
    rw [Tree.setNode_other _ _ hNe, Tree.setNode_other _ _ hNe,
      Tree.breakNode_node]
  have hBlock : ((t.orphaned work (own work)).node
      work).listBlock = own work := by
    unfold orphaned
    rw [Tree.setNode_same]
    rfl
  rcases hFiled with hFiled | hFiled
  · refine ⟨?_, ?_, .inl ?_⟩
    · rw [hFiled, Tree.appendErased_entry, hEntry]
    · intro m hm
      rw [hFiled, ← hOld m hm]
      apply hHeld.append_other hMem (some 0)
      rw [← hNodes] at hm
      exact List.mem_append_right _ hm
    · have hParts := hHeld.append hMem hBlock (some 0)
      rw [hErase] at hParts
      rw [hFiled]
      exact hParts
  · refine ⟨?_, ?_, .inr ?_⟩
    · rw [hFiled, Tree.pushBad_entry, hEntry]
    · intro m hm
      rw [hFiled, ← hOld m hm]
      rw [← hNodes] at hm
      exact hHeld.pushBad_entryNode hMem hm
    · have hParts := hHeld.pushBad hMem hBlock
      rw [hErase] at hParts
      rw [hFiled]
      exact hParts

/- A data node without a file is taken out. -/
theorem disown
    {work : Nat}
    (h : Swept t₀ E B H own P t)
    (hParts : t₀.Parts E B H own)
    (hWork : work ∈ t₀.region .data)
    (hNew : work ∉ P)
    (hOrphan : t₀.isOrphan work = true)
    (hFiled : (t.orphaned work (t₀.node work).block).FiledIn
      work u) :
    Swept t₀ E B H own (P ++ [work]) u ∧
      u.chains = (t.breakNode .data work).chains := by
  rcases h.parts with ⟨E₁, B₁, hNow, hPerm⟩
  have hIn := h.mem_data hWork hNew
  have hNode := h.node_eq hParts hWork hNew
  have hOwn : own work = (t₀.node work).block := by
    rw [← hNode]
    exact (hNow.block work
      (List.mem_append_right _ (Tree.region_subset hIn))).symm
  rw [← hOwn] at hFiled
  rcases filed hNow hIn hFiled with ⟨hEntry, hSame, hLists⟩
  have hEntryNodes := (t.breakNode .data work).entryNodes_congr
    hEntry
  have hSub : ∀ m ∈ u.entryNodes, m ∈ t.entryNodes := by
    intro m hm
    rw [hEntryNodes] at hm
    rcases Tree.mem_entryNodes.mp hm with ⟨type, k, hk, hmk⟩
    exact Tree.mem_entryNodes.mpr
      ⟨type, k, hk, Tree.mem_entry_breakNode hmk⟩
  have hNotFile : work ∉ t₀.region .file := by
    intro hFile
    have hType := hParts.type_of_mem hWork
    rw [hParts.type_of_mem hFile] at hType
    cases hType
  refine ⟨?_, Tree.chains_congr hEntry⟩
  constructor
  · have hFilter : (P ++ [work]).filter t₀.isOrphan =
        P.filter t₀.isOrphan ++ [work] := by
      rw [List.filter_append, List.filter_singleton, hOrphan]
      rfl
    rw [hFilter]
    rcases hLists with hLists | hLists
    · refine ⟨E₁ ++ [work], B₁, ?_, ?_⟩
      · rw [← List.append_assoc]
        exact hLists
      · apply List.Perm.trans _ (hPerm.append_right [work])
        rw [List.append_assoc, List.append_assoc]
        exact List.perm_append_comm.append_left E₁
    · refine ⟨E₁, work :: B₁, hLists, ?_⟩
      apply List.perm_middle.trans
      apply List.Perm.trans (hPerm.cons work)
      exact (List.perm_append_singleton _ _).symm
  · exact (congrFun hEntry .dir).trans h.dirEntry
  · exact (congrFun hEntry .file).trans h.fileEntry
  · intro k
    have hData : u.dataEntry k =
        (t.breakNode .data work).dataEntry k :=
      congrFun (congrFun hEntry .data) k
    rw [hData]
    have hDrop : (t₀.dataEntry k).filter (fun n =>
        !((P ++ [work]).contains n && t₀.isOrphan n)) =
          (t.dataEntry k).filter (· != work) := by
      rw [h.dataEntry k, List.filter_filter]
      apply List.filter_congr
      intro m _
      by_cases hm : m = work
      · simp [hm, hOrphan]
      · simp [hm]
    rw [hDrop]
    exact hNow.breakNode_dataEntry work k
  · intro m hm hNot
    rw [hEntryNodes] at hm
    rw [hSame m hm]
    rw [← hEntryNodes] at hm
    exact h.same m (hSub m hm) hNot
  · intro m hm
    rw [Tree.adoptedLen_append, if_neg, Nat.add_zero]
    · rw [hSame m, h.grown m hm]
      rcases Tree.mem_region.mp hm with ⟨k, hk, hmk⟩
      refine Tree.mem_entryNodes.mpr ⟨.file, k, hk, ?_⟩
      change m ∈ t.fileEntry k
      rw [h.fileEntry]
      exact hmk
    · intro hEq
      unfold isOrphan at hOrphan
      rw [hEq] at hOrphan
      cases hOrphan

end Tree.Swept

------------------------------------------------------------
-- One Round
------------------------------------------------------------

/- The block is erased, and the node filed, in any case. -/
theorem wp_eraseAndFile_any
    (n block : Nat)
    (s : Dev) :
    wp (eraseAndFile n block)
      (fun _ _ t => Tree.FiledIn
        (s.tree.setNode n fun x => x.setListBlock block) n
        t.tree) s := by
  unfold eraseAndFile setNode modifyTree
  rw [wp_bind, wp_modify]
  apply (always_flashEraseBlock block).seq
  intro ret _ t hTree
  dsimp only
  split
  · unfold badBlockProcessNode
    apply (always_getNode n).seq
    intro node _ u hu
    apply (always_flashMarkBadBlock _).seq
    intro _ _ v hv
    unfold treeInsertToBadBlockList modifyTree
    rw [wp_modify]
    right
    dsimp only
    rw [hv.tree, hu.tree, hTree.tree]
    rfl
  · have hInsert : ∀ u : Dev, u.tree = t.tree →
        wp (treeInsertToErasedListTail n)
          (fun _ _ v => Tree.FiledIn
            (s.tree.setNode n fun x => x.setListBlock block) n
            v.tree) u := by
      intro u hu
      unfold treeInsertToErasedListTail
        treeInsertToErasedListTailEx modifyTree
      rw [wp_modify]
      left
      dsimp only
      rw [hu, hTree.tree]
      rfl
    split
    · unfold note
      rw [wp_bind, wp_emit]
      exact hInsert t rfl
    · exact hInsert t rfl

/-
  What holds before each round: the tree is swept so far, the
  table holds its chains, and the cache is what a search in
  the tree would find.
-/
structure Sweep.Holds
    (t₀ : Tree)
    (E B H : List Nat)
    (own : Nat → Nat)
    (c : Sweep)
    (t : Tree) : Prop where
  swept : t₀.Swept E B H own c.visited t
  chained : c.table.Chained nodeCount t.chains
  cache : c.cache = t₀.findFileNode c.cacheSerial

variable {t₀ : Tree} {E B H : List Nat} {own : Nat → Nat}

/- The cache stands for a search. -/
theorem wp_sweepFile
    {c : Sweep}
    {s : Dev}
    (parent : Nat)
    (h : c.Holds t₀ E B H own s.tree) :
    wp (sweepFile c parent)
      (fun q es t => es = [] ∧ t = s ∧
        q.1 = t₀.findFileNode parent ∧
        q.2.Holds t₀ E B H own s.tree ∧
        q.2.table = c.table ∧ q.2.visited = c.visited) s := by
  unfold sweepFile
  split
  · rename_i hHit
    rw [wp_pure, hHit]
    exact ⟨rfl, rfl, h.cache, h, rfl, rfl⟩
  · rw [wp_bind, wp_get, h.chained.findFileNode parent,
      h.swept.findFileNode parent]
    dsimp only
    rw [wp_pure]
    exact ⟨rfl, rfl, rfl, ⟨h.swept, h.chained, rfl⟩, rfl, rfl⟩

/- The round over the lists, as a run. -/
theorem run_stepThreeNode
    (s : Dev)
    (work : Nat) :
    stepThreeNode work s =
      match s.tree.findFileNode (s.tree.node work).parent with
      | none =>
          eraseAndFile work (s.tree.node work).block
            { s with
              tree := (s.tree.breakNode .data work).setNode work
                fun x => .list none none x.block 0 }
      | some n =>
          some ((), [],
            { s with
              tree := s.tree.setNode n fun x =>
                x.setLen (x.len + (s.tree.node work).len) }) := by
  unfold stepThreeNode getNode treeFindFileNode
  rw [run_gets_bind, run_gets_bind]
  cases s.tree.findFileNode (s.tree.node work).parent with
  | none =>
      unfold breakFromEntry setNode modifyTree
      dsimp only
      rw [run_modify_bind, run_modify_bind]
      rfl
  | some n => rfl

theorem wp_sweepNode
    {c : Sweep}
    {s : Dev}
    {work : Nat}
    (h : c.Holds t₀ E B H own s.tree)
    (hParts : t₀.Parts E B H own)
    (hWork : work ∈ t₀.region .data)
    (hNew : work ∉ c.visited) :
    wp (sweepNode c work)
      (fun q es t => q.1 = c.table.hashNext work ∧
        q.2.visited = c.visited ++ [work] ∧
        q.2.Holds t₀ E B H own t.tree ∧
        stepThreeNode work s = some ((), es, t)) s := by
  have hNode := h.swept.node_eq hParts hWork hNew
  have hIn := h.swept.mem_data hWork hNew
  have hFile := h.swept.findFileNode (t₀.node work).parent
  rw [run_stepThreeNode, hNode, hFile]
  unfold sweepNode getNode
  rw [wp_bind, wp_gets, hNode]
  refine wp_seq (wp_sweepFile (t₀.node work).parent h) ?_
  intro q es t hq
  rcases q with ⟨node, c'⟩
  rcases hq with ⟨hEs, hts, hFound, hc', hTable, hVisited⟩
  rw [hts, hEs]
  dsimp only at hFound hc' hTable hVisited ⊢
  rw [hFound, hTable, hVisited]
  cases hFind : t₀.findFileNode (t₀.node work).parent with
  | none =>
      have hOrphan : t₀.isOrphan work = true := by
        unfold Tree.isOrphan
        rw [hFind]
        rfl
      dsimp only
      unfold breakFromEntry setNode modifyTree
      simp only [wp_bind, wp_modify, wp_get]
      rcases wp_eraseAndFile_any work (t₀.node work).block
        { s with
          tree := (s.tree.breakNode .data work).setNode work
            fun x => .list none none x.block 0 } with
        ⟨_, fs, u, hRun, hu⟩
      rw [hRun]
      refine (wp_of_run hRun).mpr ?_
      rw [wp_pure]
      have hDisown := h.swept.disown hParts hWork hNew hOrphan hu
      refine ⟨rfl, rfl, ?_, ?_⟩
      · constructor
        · exact hDisown.1
        · rw [hDisown.2, Tree.breakNode_node]
          rcases h.swept.parts with ⟨E₁, B₁, hNow, _⟩
          exact h.chained.breakNode hNow hIn
        · exact hc'.cache
      · simp only [List.nil_append, List.append_nil]
  | some n =>
      dsimp only
      unfold setNode modifyTree
      rw [wp_bind, wp_modify, wp_pure]
      refine ⟨rfl, rfl, ?_, rfl⟩
      constructor
      · exact h.swept.grow hParts hFind
      · exact h.chained
      · exact hc'.cache

------------------------------------------------------------
-- All Rounds
------------------------------------------------------------

/- Where a list of an entry is cut, the rest is as before. -/
theorem Tree.Swept.dataEntry_split
    {t : Tree}
    {P done rest : List Nat}
    {i : Nat}
    (h : Swept t₀ E B H own P t)
    (hSplit : t₀.dataEntry i = done ++ rest)
    (hRest : ∀ n ∈ rest, n ∉ P) :
    t.dataEntry i =
      (done.filter fun n =>
        !(P.contains n && t₀.isOrphan n)) ++ rest := by
  have hStays : (rest.filter fun n =>
      !(P.contains n && t₀.isOrphan n)) = rest := by
    apply List.filter_eq_self.mpr
    intro n hn
    simp [hRest n hn]
  rw [h.dataEntry i, hSplit, List.filter_append, hStays]

theorem wp_sweepChain
    {i : Nat}
    (hParts : t₀.Parts E B H own)
    (hi : i < 512)
    (hNodup : (t₀.dataEntry i).Nodup)
    (rest : List Nat) :
    ∀ (done : List Nat) (fuel x : Nat) (c : Sweep) (s : Dev),
      c.Holds t₀ E B H own s.tree →
      t₀.dataEntry i = done ++ rest →
      (∀ n ∈ rest, n ∉ c.visited) →
      HashTable.link x = rest.head? →
      rest.length < fuel →
      wp (sweepChain fuel x c)
        (fun c' es t => c'.visited = c.visited ++ rest ∧
          c'.Holds t₀ E B H own t.tree ∧
          stepThreeChain rest s = some ((), es, t)) s := by
  induction rest with
  | nil =>
      intro done fuel x c s h _ _ hLink hFuel
      cases fuel with
      | zero => cases hFuel
      | succ fuel =>
          unfold sweepChain
          rw [if_pos (HashTable.link_eq_none.mp hLink), wp_pure,
            List.append_nil]
          exact ⟨rfl, h, rfl⟩
  | cons work rest ih =>
      intro done fuel x c s h hSplit hNew hLink hFuel
      cases fuel with
      | zero => cases hFuel
      | succ fuel =>
          rcases HashTable.link_eq_some.mp hLink with ⟨hx, hNode⟩
          have hWork : work ∈ t₀.region .data := by
            refine Tree.mem_region.mpr ⟨i, hi, ?_⟩
            change work ∈ t₀.dataEntry i
            rw [hSplit]
            exact List.mem_append_right _ List.mem_cons_self
          have hNotIn := hNew work List.mem_cons_self
          have hRest : work ∉ rest := by
            rw [hSplit] at hNodup
            have hTail := (List.nodup_append.mp hNodup).2.1
            exact (List.nodup_cons.mp hTail).1
          -- where the links of `work` lead before the round
          have hNext : HashTable.link (c.table.hashNext work) =
              rest.head? := by
            have hKept := h.swept.dataEntry_split hSplit hNew
            have hChain := h.chained.linked ⟨.data, i⟩
            rw [Tree.chains_eq_entry] at hChain
            change DLinked _ _ _ _ (s.tree.dataEntry i) at hChain
            rw [hKept] at hChain
            exact hChain.next_eq
          unfold sweepChain
          rw [if_neg hNode, hx]
          refine wp_seq (wp_sweepNode h hParts hWork hNotIn) ?_
          intro q es t hq
          rcases q with ⟨x', c'⟩
          rcases hq with ⟨hx', hVisited, hHolds, hStep⟩
          dsimp only at hx' hVisited hHolds ⊢
          rw [hx']
          refine wp_mono (ih (done ++ [work]) fuel _ c' t hHolds ?_
            ?_ hNext (Nat.lt_of_succ_lt_succ hFuel)) ?_
          · rw [hSplit, List.append_assoc]
            rfl
          · intro n hn
            rw [hVisited, List.mem_append, List.mem_singleton,
              not_or]
            refine ⟨hNew n (List.mem_cons_of_mem _ hn), ?_⟩
            intro hEq
            exact hRest (hEq ▸ hn)
          · intro c'' fs u hu
            rw [hVisited, List.append_assoc] at hu
            refine ⟨hu.1, hu.2.1, ?_⟩
            exact run_bind_eq_some.mpr
              ⟨(), es, t, fs, hStep, hu.2.2, rfl⟩

theorem wp_sweepFrom
    (hParts : t₀.Parts E B H own)
    (k : Nat) :
    ∀ (i : Nat) (c : Sweep) (s : Dev),
      c.Holds t₀ E B H own s.tree →
      c.visited = (List.range i).flatMap t₀.dataEntry →
      i + k = 512 →
      wp (sweepFrom k i c)
        (fun c' es t => c'.visited = t₀.dataNodes ∧
          c'.Holds t₀ E B H own t.tree ∧
          stepThreeFrom k i s = some ((), es, t)) s := by
  have hAll : t₀.dataNodes.Nodup := by
    have hEntry := (List.nodup_append.mp hParts.nodup).1
    have hNodes := (List.nodup_append.mp hEntry).2.1
    exact (List.nodup_append.mp hNodes).2.1
  induction k with
  | zero =>
      intro i c s h hVisited hSum
      rw [Nat.add_zero] at hSum
      unfold sweepFrom
      rw [wp_pure, hVisited, hSum]
      exact ⟨rfl, h, rfl⟩
  | succ k ih =>
      intro i c s h hVisited hSum
      have hi : i < 512 := by omega
      have hNodup : (t₀.dataEntry i).Nodup :=
        (List.nodup_flatMap.mp hAll).1 i (List.mem_range.mpr hi)
      have hNew : ∀ n ∈ t₀.dataEntry i, n ∉ c.visited := by
        intro n hn hIn
        rw [hVisited] at hIn
        rcases List.mem_flatMap.mp hIn with ⟨j, hj, hnj⟩
        have hLt := List.mem_range.mp hj
        have hji := (hParts.hash .data j n hnj).2.symm.trans
          (hParts.hash .data i n hn).2
        omega
      have hChain := h.chained.linked ⟨.data, i⟩
      have hSame : s.tree.dataEntry i = t₀.dataEntry i :=
        h.swept.dataEntry_split (List.nil_append _).symm hNew
      rw [Tree.chains_eq_entry] at hChain
      change DLinked _ _ _ _ (s.tree.dataEntry i) at hChain
      rw [hSame] at hChain
      have hLength : (t₀.dataEntry i).length < nodeCount + 1 := by
        have hLe := h.chained.length_le ⟨.data, i⟩
        rw [Tree.chains_eq_entry] at hLe
        change (s.tree.dataEntry i).length ≤ nodeCount at hLe
        rw [hSame] at hLe
        exact Nat.lt_succ_of_le hLe
      unfold sweepFrom
      refine wp_seq (wp_sweepChain hParts hi hNodup
        (t₀.dataEntry i) [] (nodeCount + 1) _ c s h
        (List.nil_append _).symm hNew hChain.linked.head hLength)
        ?_
      intro c' es t ht
      rcases ht with ⟨hVisited', hHolds, hChain'⟩
      refine wp_mono (ih (i + 1) c' t hHolds ?_ (by omega)) ?_
      · rw [hVisited', hVisited, List.range_succ,
          List.flatMap_append, List.flatMap_singleton]
      · intro c'' fs u hu
        refine ⟨hu.1, hu.2.1, ?_⟩
        unfold stepThreeFrom
        refine run_bind_eq_some.mpr ⟨s, [], s, es ++ fs, rfl, ?_,
          rfl⟩
        rw [hSame]
        exact run_bind_eq_some.mpr
          ⟨(), es, t, fs, hChain', hu.2.2, rfl⟩

------------------------------------------------------------
-- The Sweep
------------------------------------------------------------

/- Is there a file for this data node? -/
def Tree.hasFile (t : Tree) (w : Nat) : Bool :=
  t.fileNodes.any fun n =>
    (t.node n).serial == (t.node w).parent

/-
  The tree `t₀` without its orphans, which are behind the
  erased list `E` or in front of the bad list `B`; the length
  of each file is the one of its head block and those of its
  data blocks.
-/
structure Tree.Settled
    (t₀ : Tree)
    (E B H : List Nat)
    (own : Nat → Nat)
    (t : Tree) : Prop where
  parts : ∃ E₁ B₁, t.Parts (E ++ E₁) (B₁ ++ B) H own ∧
    (E₁ ++ B₁).Perm (t₀.dataNodes.filter fun w => !t₀.hasFile w)
  dirEntry : t.dirEntry = t₀.dirEntry
  fileEntry : t.fileEntry = t₀.fileEntry
  dataEntry : ∀ k,
    t.dataEntry k = (t₀.dataEntry k).filter t₀.hasFile
  dir : ∀ n ∈ t₀.dirNodes, t.node n = t₀.node n
  data : ∀ n ∈ t₀.dataNodes, t₀.hasFile n = true →
    t.node n = t₀.node n
  file : ∀ n ∈ t₀.fileNodes,
    t.node n = (t₀.node n).setLen (t.node n).len
  len : ∀ n ∈ t₀.fileNodes,
    (∀ m ∈ t₀.fileNodes,
      (t₀.node m).serial = (t₀.node n).serial → m = n) →
    (t.node n).len = (t₀.node n).len +
      t₀.share t₀.dataNodes (t₀.node n).serial

/- A file that exists is found. -/
theorem Tree.Parts.findFileNode_none
    {serial : Nat}
    (hParts : t₀.Parts E B H own) :
    t₀.findFileNode serial = none ↔
      ∀ n ∈ t₀.fileNodes, (t₀.node n).serial ≠ serial := by
  unfold Tree.findFileNode
  rw [List.find?_eq_none]
  constructor
  · intro h n hn hSerial
    rcases List.mem_flatMap.mp hn with ⟨k, _, hk⟩
    have hHash := (hParts.hash .file k n hk).2
    change getFileHash _ = k at hHash
    rw [hSerial] at hHash
    rw [← hHash] at hk
    have hNot := h n hk
    rw [hSerial, beq_self_eq_true] at hNot
    exact hNot rfl
  · intro h n hn hSerial
    have hRegion : n ∈ t₀.region .file :=
      Tree.mem_region.mpr ⟨_, Nat.mod_lt _ (by decide), hn⟩
    exact h n hRegion (eq_of_beq hSerial)

theorem Tree.Parts.isOrphan_eq
    (hParts : t₀.Parts E B H own)
    (w : Nat) : t₀.isOrphan w = !t₀.hasFile w := by
  unfold Tree.isOrphan Tree.hasFile
  cases hFind : t₀.findFileNode (t₀.node w).parent with
  | none =>
      have hNone := hParts.findFileNode_none.mp hFind
      rw [Option.isNone_none, Eq.comm, Bool.not_eq_true',
        List.any_eq_false]
      intro n hn hEq
      exact hNone n hn (eq_of_beq hEq)
  | some n =>
      rcases Tree.findFileNode_some hFind with ⟨hn, hSerial⟩
      rw [Option.isNone_some, Eq.comm, Bool.not_eq_false',
        List.any_eq_true]
      exact ⟨n, hn, beq_iff_eq.mpr hSerial⟩

/- The nodes of a file are those that are found to be its. -/
theorem Tree.Parts.adoptedLen_eq
    {n : Nat}
    (hParts : t₀.Parts E B H own)
    (hFile : n ∈ t₀.fileNodes)
    (hOnly : ∀ m ∈ t₀.fileNodes,
      (t₀.node m).serial = (t₀.node n).serial → m = n)
    (P : List Nat) :
    t₀.adoptedLen P n = t₀.share P (t₀.node n).serial := by
  have hTest : ∀ w,
      (t₀.findFileNode (t₀.node w).parent == some n) =
        ((t₀.node w).parent == (t₀.node n).serial) := by
    intro w
    rw [Bool.eq_iff_iff, beq_iff_eq, beq_iff_eq]
    constructor
    · intro hFind
      exact (Tree.findFileNode_some hFind).2.symm
    · intro hSerial
      cases hFind : t₀.findFileNode (t₀.node w).parent with
      | none =>
          exact absurd hSerial.symm
            (hParts.findFileNode_none.mp hFind n hFile)
      | some m =>
          rcases Tree.findFileNode_some hFind with ⟨hm, hEq⟩
          rw [hOnly m hm (hEq.trans hSerial)]
  unfold Tree.adoptedLen Tree.adoptedBy Tree.share
  rw [List.filter_congr fun w _ => hTest w]

theorem Tree.Swept.settled
    {t : Tree}
    (h : Swept t₀ E B H own t₀.dataNodes t)
    (hParts : t₀.Parts E B H own) :
    Settled t₀ E B H own t := by
  have hStays : ∀ n ∈ t₀.entryNodes, n ∉ t₀.dataNodes ∨
      t₀.hasFile n = true → n ∈ t.entryNodes := by
    intro n hn hKept
    rcases Tree.mem_entryNodes.mp hn with ⟨type, k, hk, hIn⟩
    refine Tree.mem_entryNodes.mpr ⟨type, k, hk, ?_⟩
    cases type with
    | dir =>
        change n ∈ t.dirEntry k
        rw [h.dirEntry]
        exact hIn
    | file =>
        change n ∈ t.fileEntry k
        rw [h.fileEntry]
        exact hIn
    | data =>
        change n ∈ t.dataEntry k
        rw [h.dataEntry k, List.mem_filter]
        refine ⟨hIn, ?_⟩
        rw [hParts.isOrphan_eq]
        rcases hKept with hKept | hKept
        · simp [hKept]
        · simp [hKept]
    | resv => cases hIn
  have hLen : ∀ n ∈ t₀.fileNodes, (t.node n).len =
      (t₀.node n).len + t₀.adoptedLen t₀.dataNodes n := by
    intro n hn
    have hFile : n ∈ t₀.region .file := hn
    rw [h.grown n hFile]
    exact TreeNode.setLen_len _ _
      (.inl (hParts.type_of_mem hFile))
  constructor
  · rcases h.parts with ⟨E₁, B₁, hNow, hPerm⟩
    refine ⟨E₁, B₁, hNow, ?_⟩
    rw [List.filter_congr fun w _ => hParts.isOrphan_eq w]
      at hPerm
    exact hPerm
  · exact h.dirEntry
  · exact h.fileEntry
  · intro k
    rw [h.dataEntry k]
    apply List.filter_congr
    intro n hn
    have hk := (hParts.hash .data k n hn).2
    have hMem : n ∈ t₀.region .data := by
      refine Tree.mem_region.mpr ⟨k, ?_, hn⟩
      rw [← hk]
      exact TreeNode.hash_lt _ BlockType.noConfusion
    change n ∈ t₀.dataNodes at hMem
    rw [hParts.isOrphan_eq, List.contains_iff_mem.mpr hMem,
      Bool.true_and, Bool.not_not]
  · intro n hn
    have hDir : n ∈ t₀.region .dir := hn
    have hType := hParts.type_of_mem hDir
    have hNot : ∀ type, type ≠ .dir → n ∉ t₀.region type := by
      intro type hNe hIn
      exact hNe ((hParts.type_of_mem hIn).symm.trans hType)
    apply h.same n _ (hNot .file BlockType.noConfusion)
    apply hStays n (Tree.region_subset hDir)
    exact .inl (hNot .data BlockType.noConfusion)
  · intro n hn hKept
    have hData : n ∈ t₀.region .data := hn
    have hType := hParts.type_of_mem hData
    apply h.same n
    · exact hStays n (Tree.region_subset hData) (.inr hKept)
    · intro hIn
      rw [hParts.type_of_mem hIn] at hType
      cases hType
  · intro n hn
    rw [hLen n hn]
    exact h.grown n hn
  · intro n hn hOnly
    rw [hLen n hn, hParts.adoptedLen_eq hn hOnly]

/-
  The loop ends, meets each data node once, leaves the tree
  settled and the links in order, and does what the loop over
  the lists does.  No file has the number that the cache
  starts with.
-/
theorem sweepDataNodes_correct
    {s : Dev}
    {table : HashTable}
    (hParts : s.tree.Parts E B H own)
    (hTable : table.Chained nodeCount s.tree.chains)
    (hReserved : ∀ n ∈ s.tree.fileNodes,
      (s.tree.node n).serial ≠ invalidUffsSerial) :
    wp (sweepDataNodes table)
      (fun c es t => c.visited.Nodup ∧
        c.visited = s.tree.dataNodes ∧
        s.tree.Settled E B H own t.tree ∧
        c.table.Chained nodeCount t.tree.chains ∧
        buildTreeStepThree s = some ((), es, t)) s := by
  have hStart : Sweep.Holds s.tree E B H own
      { table := table
        cache := none
        cacheSerial := invalidUffsSerial
        visited := [] } s.tree := by
    constructor
    · exact Tree.Swept.nil hParts
    · exact hTable
    · exact (hParts.findFileNode_none.mpr hReserved).symm
  unfold sweepDataNodes
  refine wp_mono (wp_sweepFrom hParts 512 0 _ s hStart rfl rfl) ?_
  intro c es t hc
  rcases hc with ⟨hVisited, hHolds, hRun⟩
  have hSwept := hHolds.swept
  rw [hVisited] at hSwept
  refine ⟨?_, hVisited, hSwept.settled hParts, hHolds.chained,
    hRun⟩
  rw [hVisited]
  have hEntry := (List.nodup_append.mp hParts.nodup).1
  have hNodes := (List.nodup_append.mp hEntry).2.1
  exact (List.nodup_append.mp hNodes).2.1

------------------------------------------------------------
-- Entering Nodes
------------------------------------------------------------

/- The next node of the pool is entered into the tree. -/
def Tree.enter
    (t : Tree)
    (type : BlockType)
    (x : TreeNode) : Tree :=
  ({ t with allocated := t.allocated + 1 }.setNode t.allocated
    fun _ => x).insertNode type t.allocated

theorem Tree.Parts.enter
    {t : Tree}
    (h : t.Parts E B H own)
    (type : BlockType)
    (x : TreeNode)
    (hResv : type ≠ .resv)
    (hType : x.type = type)
    (hBlock : x.block = parStart + t.allocated) :
    (t.enter type x).Parts E B H
      (upd own t.allocated (parStart + t.allocated)) := by
  have hMem : t.allocated ∈ t.allocated :: H :=
    List.mem_cons_self
  have hHeld := h.alloc.setHeld hMem fun _ => x
  have hInsert := hHeld.insert hMem hResv
    (by rw [Tree.setNode_same]; exact hType)
    (by rw [Tree.setNode_same, upd_same]; exact hBlock)
  rw [List.erase_cons_head] at hInsert
  exact hInsert

theorem HashTable.Chained.enter
    {table : HashTable}
    {t : Tree}
    (h : table.Chained nodeCount t.chains)
    (type : BlockType)
    (x : TreeNode)
    (hParts : t.Parts E B H own)
    (hResv : type ≠ .resv)
    (hRoom : t.allocated < nodeCount) :
    (table.insertNode type t.allocated x).Chained nodeCount
      (t.enter type x).chains := by
  have hMem : t.allocated ∈ t.allocated :: H :=
    List.mem_cons_self
  have hHeld := hParts.alloc.setHeld hMem fun _ => x
  have hTable : table.Chained nodeCount
      ({ t with allocated := t.allocated + 1 }.setNode
        t.allocated fun _ => x).chains := h
  have hInsert := hTable.insertNode hHeld hMem hResv hRoom
  rw [Tree.setNode_same] at hInsert
  exact hInsert

end Sweeping

/-
  A file and two data nodes of one hash entry, the first of
  which has no file.
-/
def Tree.twoData : Tree :=
  ((Tree.init.enter .file (.file 0 7 0 1 10)).enter .data
    (.data 1 1 20 5)).enter .data (.data 2 5 30 1)

theorem sweepDataNodes_twoData :
    let _ := emulator alwaysOk
    let s := { Dev.init Flash.blank 0 with
      tree := Tree.twoData }
    ∃ table : HashTable,
      table.Chained nodeCount s.tree.chains ∧
        wp (sweepDataNodes table)
          (fun c _ t => c.visited = [2, 1] ∧
            (t.tree.node 0).len = 30 ∧
            (∀ k, t.tree.dataEntry k =
              (s.tree.dataEntry k).filter s.tree.hasFile) ∧
            c.table.Chained nodeCount t.tree.chains) s := by
  let _ := emulator alwaysOk
  have hInit : HashTable.Chained _ nodeCount fun _ => [] :=
    .init (fun _ => 0) (fun _ => 0)
  have hNone : (fun _ => [] : Chains) = Tree.init.chains := by
    funext k
    rcases k with ⟨type, hash⟩
    cases type <;> rfl
  rw [hNone] at hInit
  have hParts₀ := Tree.Parts.init
  have hTable₁ := hInit.enter .file (.file 0 7 0 1 10)
    hParts₀ (by decide) (by decide)
  have hParts₁ := hParts₀.enter .file (.file 0 7 0 1 10)
    (by decide) rfl rfl
  have hTable₂ := hTable₁.enter .data (.data 1 1 20 5)
    hParts₁ (by decide) (by decide)
  have hParts₂ := hParts₁.enter .data (.data 1 1 20 5)
    (by decide) rfl rfl
  have hTable₃ := hTable₂.enter .data (.data 2 5 30 1)
    hParts₂ (by decide) (by decide)
  have hParts₃ := hParts₂.enter .data (.data 2 5 30 1)
    (by decide) rfl rfl
  refine ⟨_, hTable₃, ?_⟩
  have hFiles : Tree.twoData.fileNodes = [0] := by decide +kernel
  have hData : Tree.twoData.dataNodes = [2, 1] := by
    decide +kernel
  have hReserved : ∀ n ∈ Tree.twoData.fileNodes,
      (Tree.twoData.node n).serial ≠ invalidUffsSerial := by
    rw [hFiles]
    decide
  refine wp_mono (sweepDataNodes_correct (s :=
    { Dev.init Flash.blank 0 with tree := Tree.twoData })
    hParts₃ hTable₃ hReserved) ?_
  intro c _ t hc
  rcases hc with ⟨_, hVisited, hSettled, hTable, _⟩
  refine ⟨hVisited.trans hData, ?_, hSettled.dataEntry, hTable⟩
  have hLen := hSettled.len 0 (by rw [hFiles]; decide) ?_
  · exact hLen.trans (by decide +kernel)
  · intro m hm _
    rw [hFiles] at hm
    exact List.mem_singleton.mp hm

end Uffs
