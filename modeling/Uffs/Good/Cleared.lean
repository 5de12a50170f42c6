import Uffs.Good.Tidy

/-
  What a mount leaves of the blocks of the partition: each of
  them is bad, unused, or in the tree.

  Main declarations:
    * `Disk.Cleared`
    * `Disk.Swept`, `Disk.Swept.mountFrom`
    * `wp_mount_swept`
-/

namespace Uffs

open Prog

variable [Platform]

------------------------------------------------------------
-- One Block
------------------------------------------------------------

/- The block is bad, unused, or in the tree. -/
def Disk.Cleared (d : Disk) (x : Nat) : Prop :=
  d.flash.bad x = true ∨ (d.flash.tags x 0).isErased ∨ d.Has x

namespace Disk

variable {F : Flash} {d d' : Disk} {b n x y : Nat}
variable {E B H : List Nat} {own : Nat → Nat}

/- The block and its node are as they were. -/
omit [Platform] in
theorem Cleared.keep
    (h : d.Cleared x)
    (hPage : d'.flash.page x = d.flash.page x)
    (hBad : d'.flash.bad x = d.flash.bad x)
    (hHas : d.Has x → d'.Has x) : d'.Cleared x := by
  unfold Cleared
  rw [hBad, Flash.tags_congr hPage]
  rcases h with hIs | hIs | hIs
  · exact Or.inl hIs
  · exact Or.inr (Or.inl hIs)
  · exact Or.inr (Or.inr (hHas hIs))

/- An erased block is cleared. -/
theorem cleared_erase_same :
    (d.erase n x).Cleared x := by
  right
  left
  unfold Flash.tags Disk.erase Flash.eraseBlock
  dsimp only
  rw [upd_same]
  rfl

theorem Cleared.erase
    (h : d.Cleared x)
    (hParts : d.tree.Parts E B H own)
    (hMem : n ∈ H) : (d.erase n y).Cleared x := by
  by_cases hEq : x = y
  · subst hEq
    exact cleared_erase_same
  · have hSame := erase_flash_other (d := d) (n := n) hEq
    exact h.keep hSame.1 hSame.2 fun hHas =>
      erase_has hParts hMem hHas

/- A block that is entered is in the tree, as the others. -/
theorem enter_has
    {sum : Nat}
    (hParts : d.tree.Parts E B H own)
    (hMem : n ∈ H)
    (hResv : (d.flash.tags b 0).type ≠ .resv) :
    (d.enter n b sum).Has b ∧
      ∀ x, d.Has x → (d.enter n b sum).Has x := by
  have hPerm := (d.tree.setNode n fun x =>
    d.flash.nodeOf b sum x).insertNode_perm n hResv
  have hSame := d.tree.entryNodes_congr
    (d.tree.setNode_entry (n := n) fun x =>
      d.flash.nodeOf b sum x)
  constructor
  · refine ⟨n, ?_, ?_⟩
    · unfold Disk.enter
      rw [hPerm.mem_iff]
      exact List.mem_cons_self
    · unfold Disk.enter
      rw [Tree.insertNode_node, Tree.setNode_same]
      exact (d.flash.nodeOf_block sum _ hResv).1
  · intro x hHas
    rcases hHas with ⟨m, hm, hBlock⟩
    have hNe : m ≠ n := by
      intro hEq
      subst hEq
      exact hParts.held hMem (List.mem_append_right _ hm)
    refine ⟨m, ?_, ?_⟩
    · unfold Disk.enter
      rw [hPerm.mem_iff, hSame]
      exact List.mem_cons_of_mem _ hm
    · unfold Disk.enter
      rw [Tree.insertNode_node, Tree.setNode_other _ _ hNe]
      exact hBlock

/- A block is entered, or erased if it has no name. -/
theorem register_cleared
    (hParts : d.tree.Parts E B H own)
    (hMem : n ∈ H)
    (hResv : (d.flash.tags b 0).type ≠ .resv) :
    (d.register n b).Cleared b ∧
      ∀ x, d.Cleared x → (d.register n b).Cleared x := by
  have hErase : (d.erase n b).Cleared b ∧
      ∀ x, d.Cleared x → (d.erase n b).Cleared x :=
    ⟨cleared_erase_same, fun x hx => hx.erase hParts hMem⟩
  have hEnter : ∀ sum, (d.enter n b sum).Cleared b ∧
      ∀ x, d.Cleared x → (d.enter n b sum).Cleared x := by
    intro sum
    have hHas : (d.enter n b sum).Has b ∧
        ∀ x, d.Has x → (d.enter n b sum).Has x :=
      enter_has hParts hMem hResv
    refine ⟨Or.inr (Or.inr hHas.1), ?_⟩
    intro x hx
    exact hx.keep rfl rfl (hHas.2 x)
  unfold Disk.register
  split
  · split
    · exact hErase
    · exact hEnter _
  · exact hEnter 0

/-
  When the older block `b` takes over the node `alt`, the
  node `n` is erased with the block of `alt`.
-/
theorem drop_erase_parts
    {type : BlockType}
    {alt : Nat}
    (hParts : d.tree.Parts E B H own)
    (hMem : n ∈ H)
    (hAlt : alt ∈ d.tree.region type) :
    ∃ E' B' H' own',
      ((d.drop type alt).erase n
        (d.tree.node alt).block).tree.Parts E' B' H' own' ∧
        alt ∈ H' := by
  have hAltIn := Tree.region_subset hAlt
  have hDrop : (d.drop type alt).tree.Parts E B (alt :: H) own :=
    hParts.breakOff hAlt
  have hMemDrop : n ∈ alt :: H := List.mem_cons_of_mem _ hMem
  have hNe : alt ≠ n := by
    intro hEq
    subst hEq
    exact hParts.held hMem (List.mem_append_right _ hAltIn)
  have hSwap := parts_swap hDrop hMemDrop
    (List.mem_cons_self (a := alt))
  have hOwn : (own ∘ Equiv.swap n alt) n =
      (d.tree.node alt).block := by
    rw [Function.comp_apply, Equiv.swap_apply_left]
    exact (hParts.block alt
      (List.mem_append_right _ hAltIn)).symm
  refine ⟨_, _, _, _, erase_parts hSwap hMemDrop hOwn, ?_⟩
  rw [List.erase_cons_tail (by simpa using hNe)]
  exact List.mem_cons_self

/- Dropping a node and erasing its block commute. -/
theorem erase_drop
    {type : BlockType}
    {alt : Nat}
    (hParts : d.tree.Parts E B H own)
    (hMem : n ∈ H)
    (hAlt : alt ∈ d.tree.region type) :
    ({ d.erase n y with
      tree := (d.erase n y).tree.breakNode type alt } : Disk) =
      (d.drop type alt).erase n y := by
  have hNode : ((d.tree.setNode n fun x =>
      x.setListBlock y).appendErased n (some 0)).node alt =
        d.tree.node alt :=
    erase_node hParts hMem (Tree.region_subset hAlt)
  have hTree := Tree.breakNode_appendErased type hNode
  unfold Disk.erase Disk.drop
  rw [hTree]

/- One of two blocks with one key is erased. -/
theorem resolve_cleared
    {alt : Nat}
    (hParts : d.tree.Parts E B H own)
    (hMem : n ∈ H)
    (hAlt : alt ∈ d.tree.region (d.flash.tags b 0).type)
    (hNe : (d.tree.node alt).block ≠ b)
    (hResv : (d.flash.tags b 0).type ≠ .resv) :
    (d.resolve n b alt).Cleared b ∧
      ∀ x, d.Cleared x → (d.resolve n b alt).Cleared x := by
  have hSwap : ∃ E' B' H' own',
      (d.drop (d.flash.tags b 0).type alt).tree.Parts E' B' H'
        own' ∧ n ∈ H' :=
    ⟨_, _, _, _, hParts.breakOff hAlt,
      List.mem_cons_of_mem _ hMem⟩
  rcases hSwap with ⟨E₁, B₁, H₁, own₁, hDrop, hMemDrop⟩
  unfold Disk.resolve
  dsimp only
  split
  · exact ⟨cleared_erase_same, fun x hx => hx.erase hParts hMem⟩
  · rw [erase_drop hParts hMem hAlt]
    rcases drop_erase_parts hParts hMem hAlt with
      ⟨E', B', H', own', hErased, hMemAlt⟩
    have hTags : (((d.drop (d.flash.tags b 0).type alt).erase n
        (d.tree.node alt).block).flash.tags b 0) =
          d.flash.tags b 0 := by
      have hSame := erase_flash_other
        (d := d.drop (d.flash.tags b 0).type alt) (n := n)
        hNe.symm
      rw [Flash.tags_congr hSame.1]
      rfl
    have hResvNow : (((d.drop (d.flash.tags b 0).type alt).erase
        n (d.tree.node alt).block).flash.tags b 0).type ≠
          .resv := by
      rw [hTags]
      exact hResv
    have hReg := register_cleared hErased hMemAlt hResvNow
    refine ⟨hReg.1, ?_⟩
    intro x hx
    apply hReg.2
    by_cases hEq : x = (d.tree.node alt).block
    · subst hEq
      exact cleared_erase_same
    · apply Cleared.erase _ hDrop hMemDrop
      refine hx.keep rfl rfl ?_
      intro hHas
      rcases hHas with ⟨m, hm, hBlock⟩
      have hNode : (d.drop (d.flash.tags b 0).type
          alt).tree.node = d.tree.node :=
        Tree.breakNode_node _ _
      refine ⟨m, (mem_drop hParts hAlt).mpr ⟨hm, ?_⟩, ?_⟩
      · intro hmAlt
        subst hmAlt
        exact hEq hBlock.symm
      · rw [hNode]
        exact hBlock

------------------------------------------------------------
-- The Scan
------------------------------------------------------------

/- The blocks before block `b` are cleared. -/
def Swept (d : Disk) (b : Nat) : Prop :=
  ∀ x, parStart ≤ x → x < b → d.Cleared x

/- Block `b` is cleared, and the others stay so. -/
def Clears (b : Nat) (d d' : Disk) : Prop :=
  d'.Cleared b ∧ ∀ x, d.Cleared x → d'.Cleared x

theorem Swept.clears
    (h : d.Swept b)
    (hClears : Clears b d d') : d'.Swept (b + 1) := by
  intro x hStart hLt
  by_cases hEq : x = b
  · subst hEq
    exact hClears.1
  · exact hClears.2 x (h x hStart (by omega))

/- The nodes of the tree are those of the other disk. -/
omit [Platform] in
theorem has_congr
    (hEntry : d'.tree.entry = d.tree.entry)
    (hNode : ∀ m ∈ d.tree.entryNodes,
      d'.tree.node m = d.tree.node m)
    (hHas : d.Has x) : d'.Has x := by
  rcases hHas with ⟨m, hm, hBlock⟩
  refine ⟨m, ?_, ?_⟩
  · rw [Tree.entryNodes_congr _ hEntry]
    exact hm
  · rw [hNode m hm]
    exact hBlock

/- A bad block goes to the bad list. -/
theorem mountBad_clears
    (hParts : d.tree.Parts E B H own)
    (hMem : n ∈ H)
    (hBad : d.flash.bad b = true) :
    Clears b d (d.mountBad n b) := by
  have hSet := hParts.setHeld hMem fun x => x.setListBlock b
  refine ⟨Or.inl hBad, ?_⟩
  intro x hx
  refine hx.keep rfl rfl (has_congr ?_ ?_)
  · unfold Disk.mountBad
    rw [Tree.pushBad_entry, Tree.setNode_entry]
  · intro m hm
    have hNe : m ≠ n := by
      intro hEq
      subst hEq
      exact hParts.held hMem (List.mem_append_right _ hm)
    have hIn : m ∈ (d.tree.setNode n fun x =>
        x.setListBlock b).entryNodes := by
      rw [Tree.entryNodes_congr _ (Tree.setNode_entry _ _)]
      exact hm
    have hPush := hSet.pushBad_entryNode hMem hIn
    rw [Tree.setNode_other _ _ hNe] at hPush
    exact hPush

/- A block without a tag goes to the erased list. -/
theorem mountErased_clears
    (hParts : d.tree.Parts E B H own)
    (hMem : n ∈ H)
    (hErased : (d.flash.tags b 0).isErased = true) :
    Clears b d (d.mountErased n b) := by
  have hSet := hParts.setHeld hMem fun x => x.setListBlock b
  have hHas : ∀ x, d.Has x → (d.mountErased n b).Has x := by
    intro x
    apply has_congr
    · unfold Disk.mountErased
      rw [Tree.appendErased_entry, Tree.setNode_entry]
    · intro m hm
      have hNe : m ≠ n := by
        intro hEq
        subst hEq
        exact hParts.held hMem (List.mem_append_right _ hm)
      have hIn : m ∈ B ++ (d.tree.setNode n fun x =>
          x.setListBlock b).entryNodes := by
        rw [Tree.entryNodes_congr _ (Tree.setNode_entry _ _)]
        exact List.mem_append_right _ hm
      have hAppend := hSet.append_other hMem (some 1) hIn
      rw [Tree.setNode_other _ _ hNe] at hAppend
      exact hAppend
  have hTag : ((d.mountErased n b).flash.tags b 0).isErased =
      true := by
    unfold Disk.mountErased
    dsimp only
    split
    · unfold Flash.tags Flash.eraseBlock
      dsimp only
      rw [upd_same]
      rfl
    · exact hErased
  refine ⟨Or.inr (Or.inl hTag), ?_⟩
  intro x hx
  by_cases hEq : x = b
  · subst hEq
    exact Or.inr (Or.inl hTag)
  · refine hx.keep ?_ ?_ (hHas x)
    · unfold Disk.mountErased
      dsimp only
      split
      · exact upd_other _ _ hEq
      · rfl
    · unfold Disk.mountErased
      dsimp only
      split
      · exact upd_other _ _ hEq
      · rfl

/- A block with valid pages. -/
theorem mountValid_clears
    (hParts : d.tree.Parts E B H own)
    (hMem : n ∈ H)
    (hNotHas : ¬ d.Has b)
    (hResv : (d.flash.tags b 0).isGood →
      (d.flash.tags b 0).type ≠ .resv)
    (hStep : d.mountValid n b = some d') : Clears b d d' := by
  unfold Disk.mountValid at hStep
  dsimp only at hStep
  split at hStep
  · cases hStep
  split at hStep
  · cases hStep
    exact ⟨cleared_erase_same, fun x hx => hx.erase hParts hMem⟩
  rename_i hGood
  rw [Bool.not_eq_true, Bool.not_eq_false'] at hGood
  cases hFind : d.tree.findTag (d.flash.tags b 0) with
  | none =>
      rw [hFind] at hStep
      cases hStep
      exact register_cleared hParts hMem (hResv hGood)
  | some alt =>
      rw [hFind] at hStep
      cases hStep
      have hAlt := (hParts.findTag_some hFind).1
      apply resolve_cleared hParts hMem hAlt _ (hResv hGood)
      intro hEq
      exact hNotHas ⟨alt, Tree.region_subset hAlt, hEq⟩

/- One round of `_BuildTreeStepOne`. -/
theorem Swept.mountBlock
    (h : d.Swept b)
    (hScanned : d.Scanned F b)
    (hResv : F.Rival b → (F.tags b 0).type ≠ .resv)
    (hStep : d.mountBlock b = some d') : d'.Swept (b + 1) := by
  rcases hScanned.parts with ⟨E, B, H, own, hOld⟩
  have hParts := hOld.alloc
  have hMem : d.tree.allocated ∈ d.tree.allocated :: H :=
    List.mem_cons_self
  have hLater := hScanned.filed.later b (Nat.le_refl b)
  have hTags := Flash.tags_congr hLater.1
  have hNotHas : ¬ Has { d with tree := { d.tree with
      allocated := d.tree.allocated + 1 } } b :=
    hScanned.filed.not_has
  have hSwept : Swept { d with tree := { d.tree with
      allocated := d.tree.allocated + 1 } } b := h
  apply hSwept.clears
  unfold Disk.mountBlock at hStep
  dsimp only at hStep
  split at hStep
  · rename_i hBad
    cases hStep
    exact mountBad_clears hParts hMem hBad
  rename_i hNotBad
  split at hStep
  · rename_i hErased
    cases hStep
    exact mountErased_clears hParts hMem hErased
  rename_i hUsed
  split at hStep
  · cases hStep
    exact ⟨cleared_erase_same, fun x hx => hx.erase hParts hMem⟩
  rename_i hClean
  apply mountValid_clears hParts hMem hNotHas _ hStep
  dsimp only
  rw [hLater.2, Bool.not_eq_true] at hNotBad
  rw [hTags, Bool.not_eq_true] at hUsed
  rw [Flash.unclean_congr hLater.1, Bool.not_eq_true] at hClean
  rw [hTags]
  intro hGood
  exact hResv ⟨hNotBad, hUsed, hClean, hGood⟩

/- The rounds over `k` blocks. -/
theorem Swept.mountFrom
    (k : Nat) :
    ∀ {d : Disk} {b : Nat}, d.Swept b → d.Scanned F b →
      (∀ x, b ≤ x → x < b + k → F.Rival x →
        (F.tags x 0).type ≠ .resv) →
      d.mountFrom k b = some d' → d'.Swept (b + k) := by
  induction k with
  | zero =>
      intro d b h _ _ hRun
      cases hRun
      exact h
  | succ k ih =>
      intro d b h hScanned hResv hRun
      unfold Disk.mountFrom at hRun
      cases hStep : d.mountBlock b with
      | none =>
          rw [hStep] at hRun
          cases hRun
      | some d₁ =>
          rw [hStep] at hRun
          have hSwept := h.mountBlock hScanned
            (hResv b (Nat.le_refl b) (by omega)) hStep
          have hNext := ih hSwept (hScanned.mountBlock hStep)
            (fun x hLe hLt => hResv x (by omega) (by omega)) hRun
          rw [show b + (k + 1) = b + 1 + k by omega]
          exact hNext

------------------------------------------------------------
-- The Other Steps
------------------------------------------------------------

/- A turn of the erased list does not concern the blocks. -/
theorem Cleared.turn
    {t : Tree}
    (h : d.Cleared x)
    (hParts : d.tree.Parts E B H own)
    (hPop : d.tree.popErased = some (n, t)) :
    Cleared { d with tree := t.appendErased n none } x := by
  rcases hParts.pop hPop with
    ⟨E', rfl, hPopped, hNode, hEntry, _⟩
  have hMem : n ∈ n :: H := List.mem_cons_self
  refine h.keep rfl rfl (has_congr ?_ ?_)
  · dsimp only
    rw [t.appendErased_entry, hEntry]
  · intro m hm
    have hIn : m ∈ t.entryNodes := by
      rw [d.tree.entryNodes_congr hEntry]
      exact hm
    dsimp only
    rw [hPopped.append_other hMem none
      (List.mem_append_right _ hIn), hNode]
    apply upd_other
    intro hEq
    subst hEq
    exact hPopped.held hMem (List.mem_append_right _ hIn)

/- A data block without a file is erased. -/
theorem Cleared.disown
    {work : Nat}
    (h : d.Cleared x)
    (hParts : d.tree.Parts E B H own)
    (hIn : work ∈ d.tree.region .data) :
    (d.disown work).Cleared x := by
  have hMem : work ∈ work :: H := List.mem_cons_self
  have hHeld := (hParts.breakOff hIn).setHeld hMem fun y =>
    .list none none y.block 0
  by_cases hEq : x = (d.tree.node work).block
  · subst hEq
    exact cleared_erase_same
  · refine Cleared.erase ?_ hHeld hMem
    refine h.keep rfl rfl ?_
    intro hHas
    rcases hHas with ⟨m, hm, hBlock⟩
    have hNe : m ≠ work := by
      intro hmWork
      subst hmWork
      exact hEq hBlock.symm
    have hNodes := Tree.entryNodes_congr
      (d.tree.breakNode .data work)
      (Tree.setNode_entry (n := work) _ fun y =>
        .list none none y.block 0)
    refine ⟨m, ?_, ?_⟩
    · dsimp only
      rw [hNodes]
      exact (mem_drop hParts hIn).mpr ⟨hm, hNe⟩
    · dsimp only
      rw [Tree.setNode_other _ _ hNe, Tree.breakNode_node]
      exact hBlock

/- The length of a file node does not concern the blocks. -/
omit [Platform] in
theorem Cleared.grow
    {len : Nat}
    (h : d.Cleared x) :
    Cleared
      { d with
        tree := d.tree.setNode n fun y =>
          y.setLen (y.len + len) } x := by
  refine h.keep rfl rfl ?_
  intro hHas
  rcases hHas with ⟨m, hm, hBlock⟩
  refine ⟨m, hm, ?_⟩
  dsimp only
  by_cases hEq : m = n
  · subst hEq
    rw [Tree.setNode_same, TreeNode.setLen_block]
    exact hBlock
  · rw [Tree.setNode_other _ _ hEq]
    exact hBlock

/- One round of `_BuildTreeStepThree`. -/
theorem Cleared.adopt
    {work : Nat}
    (h : d.Cleared x)
    (hParts : d.tree.Parts E B H own)
    (hIn : work ∈ d.tree.region .data) :
    (d.adopt work).Cleared x := by
  unfold Disk.adopt
  split
  · exact h.disown hParts hIn
  · exact h.grow

end Disk

end Uffs
