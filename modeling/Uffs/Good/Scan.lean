import Uffs.Good.Mount
import Uffs.Tree.Parts

/-
  What the scan of the partition leaves in the tree.

  The nodes of the hash entries stand for blocks that the
  scan has met, whole and with a good first page, no two of
  them with the same key.  A block that the scan gives up
  although it is whole has a rival that is not newer.

  Main declarations:
    * `Flash.Rival`
    * `Disk.Filed`
    * `Disk.Filed.mountBlock`
    * `Disk.filed_mountFrom`
-/

namespace Uffs

variable [Platform]

------------------------------------------------------------
-- Keys
------------------------------------------------------------

/-
  What tells a block from the others: the serial number of a
  DIR or FILE block, parent and serial number of a DATA
  block.
-/
def Tag.key (t : Tag) : GroupKey where
  type := t.type
  parent := if t.type = .data then t.parent else 0
  serial := t.serial

/- The key that a node of the tree is found by. -/
def TreeNode.key (x : TreeNode) : GroupKey where
  type := x.type
  parent := if x.type = .data then x.parent else 0
  serial := x.serial

omit [Platform] in
theorem Tree.mem_region
    {t : Tree}
    {type : BlockType}
    {n : Nat} :
    n ∈ t.region type ↔
      ∃ h < entrySize type, n ∈ t.entry type h := by
  simp only [Tree.region, List.mem_flatMap, List.mem_range]

omit [Platform] in
theorem Tree.region_subset
    {t : Tree}
    {type : BlockType}
    {n : Nat}
    (h : n ∈ t.region type) : n ∈ t.entryNodes :=
  Tree.mem_entryNodes.mpr ⟨type, Tree.mem_region.mp h⟩

namespace Tree.Parts

variable {t : Tree} {E B H : List Nat} {own : Nat → Nat}

/- The region of a node of the hash entries is its type. -/
theorem mem_region
    (h : Parts t E B H own)
    {n : Nat}
    (hMem : n ∈ t.entryNodes) :
    n ∈ t.region (t.node n).type := by
  rcases Tree.mem_entryNodes.mp hMem with ⟨type, k, hk, hIn⟩
  rw [(h.hash type k n hIn).1]
  exact Tree.mem_region.mpr ⟨k, hk, hIn⟩

theorem type_of_mem
    (h : Parts t E B H own)
    {n : Nat}
    {type : BlockType}
    (hMem : n ∈ t.region type) : (t.node n).type = type := by
  rcases Tree.mem_region.mp hMem with ⟨k, _, hIn⟩
  exact (h.hash type k n hIn).1

/- The search by a tag finds a node with the key. -/
theorem findTag_some
    (h : Parts t E B H own)
    {tag : Tag}
    {n : Nat}
    (hFind : t.findTag tag = some n) :
    n ∈ t.region tag.type ∧ (t.node n).key = tag.key := by
  unfold Tree.findTag at hFind
  have hKey : ∀ k, n ∈ t.entry tag.type k →
      k < entrySize tag.type →
      (t.node n).serial = tag.serial →
      (tag.type = .data → (t.node n).parent = tag.parent) →
      n ∈ t.region tag.type ∧ (t.node n).key = tag.key := by
    intro k hIn hk hSerial hParent
    refine ⟨Tree.mem_region.mpr ⟨k, hk, hIn⟩, ?_⟩
    have hType := (h.hash _ k n hIn).1
    unfold TreeNode.key Tag.key
    rw [hType, hSerial]
    by_cases hData : tag.type = .data
    · rw [if_pos hData, if_pos hData, hParent hData]
    · rw [if_neg hData, if_neg hData]
  cases hType : tag.type with
  | dir =>
      simp only [hType] at hFind hKey
      have hMem := List.mem_of_find?_eq_some hFind
      have hEq := List.find?_some hFind
      refine hKey _ hMem (Nat.mod_lt _ (by decide)) ?_ (by simp)
      simpa using hEq
  | file =>
      simp only [hType] at hFind hKey
      have hMem := List.mem_of_find?_eq_some hFind
      have hEq := List.find?_some hFind
      refine hKey _ hMem (Nat.mod_lt _ (by decide)) ?_ (by simp)
      simpa using hEq
  | data =>
      simp only [hType] at hFind hKey
      have hMem := List.mem_of_find?_eq_some hFind
      have hEq := List.find?_some hFind
      simp only [Bool.and_eq_true, beq_iff_eq] at hEq
      exact hKey _ hMem (Nat.mod_lt _ (by decide)) hEq.2
        (fun _ => hEq.1)
  | resv =>
      rw [hType] at hFind
      cases hFind

/- It finds one if there is one. -/
theorem findTag_none
    (h : Parts t E B H own)
    {tag : Tag}
    (hFind : t.findTag tag = none) :
    ∀ n ∈ t.entryNodes, (t.node n).key ≠ tag.key := by
  intro n hMem hKey
  rcases Tree.mem_entryNodes.mp hMem with ⟨type, k, hk, hIn⟩
  rcases h.hash type k n hIn with ⟨hNodeType, hHash⟩
  have hType : type = tag.type := by
    have hEq := congrArg GroupKey.type hKey
    rw [← hNodeType]
    exact hEq
  have hSerial : (t.node n).serial = tag.serial :=
    congrArg GroupKey.serial hKey
  have hParent := congrArg GroupKey.parent hKey
  simp only [TreeNode.key, Tag.key, hNodeType] at hParent
  subst hType
  unfold Tree.findTag at hFind
  cases hTag : tag.type with
  | dir =>
      simp only [hTag] at hFind hIn hHash
      refine absurd ?_ (List.find?_eq_none.mp hFind n ?_)
      · simpa using hSerial
      · rw [← hSerial]
        simp only [TreeNode.hash] at hHash
        rw [hHash]
        exact hIn
  | file =>
      simp only [hTag] at hFind hIn hHash
      refine absurd ?_ (List.find?_eq_none.mp hFind n ?_)
      · simpa using hSerial
      · rw [← hSerial]
        simp only [TreeNode.hash] at hHash
        rw [hHash]
        exact hIn
  | data =>
      simp only [hTag] at hFind hIn hHash
      simp only [hTag, if_true] at hParent
      refine absurd ?_ (List.find?_eq_none.mp hFind n ?_)
      · simp only [Bool.and_eq_true, beq_iff_eq]
        exact ⟨hParent, hSerial⟩
      · rw [← hSerial, ← hParent]
        simp only [TreeNode.hash] at hHash
        rw [hHash]
        exact hIn
  | resv =>
      rw [hTag] at hIn
      exact absurd hIn (by simp [Tree.entry])

end Tree.Parts

------------------------------------------------------------
-- Blocks That the Scan Keeps
------------------------------------------------------------

/- A block that the scan tries to enter into the tree. -/
structure Flash.Rival (F : Flash) (b : Nat) : Prop where
  notBad : F.bad b = false
  used : (F.tags b 0).isErased = false
  clean : F.unclean b (pagesPerBlock - 1) = false
  good : (F.tags b 0).isGood

/- Can the block be entered: is it DATA, or has it a name? -/
def Flash.Named (F : Flash) (b : Nat) : Prop :=
  (F.tags b 0).type = .data ∨
    (((F.tags b 0).type = .dir ∨ (F.tags b 0).type = .file) ∧
      F.nameSum b ≠ none)

section Congr

variable {F G : Flash} {b : Nat}

omit [Platform] in
theorem Flash.tags_congr
    (h : F.page b = G.page b) : F.tags b = G.tags b := by
  unfold Flash.tags
  rw [h]

theorem Flash.nameSum_congr
    (h : F.page b = G.page b) : F.nameSum b = G.nameSum b := by
  unfold Flash.nameSum
  rw [Flash.tags_congr h, h]

omit [Platform] in
theorem Flash.unclean_congr
    (h : F.page b = G.page b)
    (n : Nat) : F.unclean b n = G.unclean b n := by
  induction n with
  | zero => rfl
  | succ n ih =>
      unfold Flash.unclean
      rw [Flash.tags_congr h, h, ih]

theorem Flash.nodeOf_congr
    (h : F.page b = G.page b)
    (sum : Nat)
    (x : TreeNode) : F.nodeOf b sum x = G.nodeOf b sum x := by
  unfold Flash.nodeOf
  rw [Flash.tags_congr h]

end Congr

theorem Flash.nodeOf_block
    (F : Flash)
    {b : Nat}
    (sum : Nat)
    (x : TreeNode)
    (hType : (F.tags b 0).type ≠ .resv) :
    (F.nodeOf b sum x).block = b ∧
      (F.nodeOf b sum x).key = (F.tags b 0).key ∧
      (F.nodeOf b sum x).type = (F.tags b 0).type := by
  unfold Flash.nodeOf TreeNode.key Tag.key
  cases hEq : (F.tags b 0).type with
  | dir =>
      simp only [hEq]
      exact ⟨rfl, rfl, rfl⟩
  | file =>
      simp only [hEq]
      exact ⟨rfl, rfl, rfl⟩
  | data =>
      simp only [hEq]
      exact ⟨rfl, rfl, rfl⟩
  | resv => exact absurd hEq hType

/- The node that stands for block `x` of the flash `F`. -/
def Flash.StandsFor (F : Flash) (x : Nat) (n : TreeNode) : Prop :=
  (F.tags x 0).type ≠ .resv ∧
    ∃ sum old, n = F.nodeOf x sum old ∧
      ((F.tags x 0).type = .data ∨ F.nameSum x = some sum)

theorem Flash.StandsFor.block
    {F : Flash}
    {x : Nat}
    {n : TreeNode}
    (h : F.StandsFor x n) :
    n.block = x ∧ n.key = (F.tags x 0).key ∧
      n.type = (F.tags x 0).type := by
  rcases h with ⟨hType, sum, old, rfl, _⟩
  exact F.nodeOf_block sum old hType

/-
  The state of the scan before block `b`, started on the
  flash `F`.
-/
structure Disk.Filed (F : Flash) (d : Disk) (b : Nat) : Prop
    where
  later : ∀ x, b ≤ x →
    d.flash.page x = F.page x ∧ d.flash.bad x = F.bad x
  entry : ∀ n ∈ d.tree.entryNodes,
    ∃ x, parStart ≤ x ∧ x < b ∧ F.Rival x ∧
      d.flash.page x = F.page x ∧ d.flash.bad x = false ∧
      F.StandsFor x (d.tree.node n)
  unique : ∀ n ∈ d.tree.entryNodes, ∀ m ∈ d.tree.entryNodes,
    (d.tree.node n).key = (d.tree.node m).key → n = m

namespace Disk.Filed

variable {F : Flash} {d d' : Disk} {b : Nat}

/-
  A step that leaves the hash entries and the blocks of
  their nodes alone.
-/
theorem keep
    {b' : Nat}
    (h : Filed F d b)
    (hLe : b ≤ b')
    (hEntry : d'.tree.entry = d.tree.entry)
    (hNode : ∀ n ∈ d.tree.entryNodes,
      d'.tree.node n = d.tree.node n)
    (hLater : ∀ x, b' ≤ x →
      d'.flash.page x = d.flash.page x ∧
        d'.flash.bad x = d.flash.bad x)
    (hEarlier : ∀ n ∈ d.tree.entryNodes,
      let x := (d.tree.node n).block
      d'.flash.page x = d.flash.page x ∧
        d'.flash.bad x = d.flash.bad x) :
    Filed F d' b' := by
  have hNodes := d.tree.entryNodes_congr hEntry
  refine ⟨?_, ?_, ?_⟩
  · intro x hx
    have hOld := h.later x (Nat.le_trans hLe hx)
    rw [(hLater x hx).1, (hLater x hx).2]
    exact hOld
  · intro n hn
    rw [hNodes] at hn
    rcases h.entry n hn with
      ⟨x, hStart, hLt, hRival, hPage, hBad, hStands⟩
    have hSame := hEarlier n hn
    simp only [hStands.block.1] at hSame
    rw [hNode n hn]
    refine ⟨x, hStart, Nat.lt_of_lt_of_le hLt hLe, hRival, ?_,
      ?_, hStands⟩
    · rw [hSame.1]
      exact hPage
    · rw [hSame.2]
      exact hBad
  · intro n hn m hm hKey
    rw [hNodes] at hn hm
    rw [hNode n hn, hNode m hm] at hKey
    exact h.unique n hn m hm hKey

end Disk.Filed

------------------------------------------------------------
-- One Round of the Scan
------------------------------------------------------------

/- Block `x` is in the tree. -/
def Disk.Has (d : Disk) (x : Nat) : Prop :=
  ∃ n ∈ d.tree.entryNodes, (d.tree.node n).block = x

/- Block `z`, before `b`, has the key of `x` and is not newer. -/
structure Flash.Ousts (F : Flash) (b z x : Nat) : Prop where
  start : parStart ≤ z
  lt : z < b
  ne : z ≠ x
  rival : F.Rival z
  key : (F.tags z 0).key = (F.tags x 0).key
  stamp : isSrcNewerThanObj (F.tags z 0).blockTs
    (F.tags x 0).blockTs = false

/- The state of the scan before block `b`. -/
structure Disk.Scanned (F : Flash) (d : Disk) (b : Nat) : Prop
    where
  filed : d.Filed F b
  parts : ∃ E B H own, d.tree.Parts E B H own
  allocated : parStart + d.tree.allocated = b
  covers : ∀ x, parStart ≤ x → x < b → F.Rival x → F.Named x →
    d.Has x ∨ ∃ z, F.Ousts b z x

theorem Flash.Ousts.mono
    {F : Flash}
    {b c z x : Nat}
    (h : F.Ousts b z x)
    (hLe : b ≤ c) : F.Ousts c z x :=
  ⟨h.start, Nat.lt_of_lt_of_le h.lt hLe, h.ne, h.rival, h.key,
    h.stamp⟩

/- Taking a node out of its entry and an append commute. -/
omit [Platform] in
theorem Tree.breakNode_appendErased
    {t : Tree}
    {n m : Nat}
    {c : Option Nat}
    {f : TreeNode → TreeNode}
    (type : BlockType)
    (hNode : ((t.setNode n f).appendErased n c).node m =
      t.node m) :
    ((t.setNode n f).appendErased n c).breakNode type m =
      ((t.breakNode type m).setNode n f).appendErased n c := by
  have hEntry := (t.setNode n f).appendErased_entry (n := n) c
  rw [t.setNode_entry] at hEntry
  have hDir : ((t.setNode n f).appendErased n c).dirEntry =
      t.dirEntry := congrFun hEntry .dir
  have hFile : ((t.setNode n f).appendErased n c).fileEntry =
      t.fileEntry := congrFun hEntry .file
  have hData : ((t.setNode n f).appendErased n c).dataEntry =
      t.dataEntry := congrFun hEntry .data
  unfold Tree.breakNode
  cases type with
  | dir =>
      simp only [hNode, hDir]
      unfold Tree.appendErased Tree.setNode
      cases t.erasedTail <;> rfl
  | file =>
      simp only [hNode, hFile]
      unfold Tree.appendErased Tree.setNode
      cases t.erasedTail <;> rfl
  | data =>
      simp only [hNode, hData]
      unfold Tree.appendErased Tree.setNode
      cases t.erasedTail <;> rfl
  | resv => rfl

namespace Disk

variable {F : Flash} {d d' : Disk} {b n : Nat}
variable {E B H : List Nat} {own : Nat → Nat}

@[simp] theorem erase_entry (x : Nat) :
    (d.erase n x).tree.entry = d.tree.entry := by
  simp [erase]

@[simp] theorem erase_allocated (x : Nat) :
    (d.erase n x).tree.allocated = d.tree.allocated := by
  simp [erase]

theorem erase_flash_other
    {x y : Nat}
    (hy : y ≠ x) :
    (d.erase n x).flash.page y = d.flash.page y ∧
      (d.erase n x).flash.bad y = d.flash.bad y :=
  ⟨upd_other _ _ hy, upd_other _ _ hy⟩

/- The node of an erased block goes to the erased list. -/
theorem erase_parts
    {x : Nat}
    (hParts : d.tree.Parts E B H own)
    (hMem : n ∈ H)
    (hOwn : own n = x) :
    (d.erase n x).tree.Parts (E ++ [n]) B (H.erase n) own := by
  have hSet := hParts.setHeld hMem fun y => y.setListBlock x
  refine hSet.append hMem ?_ (some 0)
  rw [Tree.setNode_same, hOwn]
  rfl

theorem erase_node
    {x m : Nat}
    (hParts : d.tree.Parts E B H own)
    (hMem : n ∈ H)
    (hm : m ∈ d.tree.entryNodes) :
    (d.erase n x).tree.node m = d.tree.node m := by
  have hSet := hParts.setHeld hMem fun y => y.setListBlock x
  have hNodes := d.tree.entryNodes_congr
    (d.tree.setNode_entry (n := n) fun y => y.setListBlock x)
  have hIn : m ∈ B ++ (d.tree.setNode n
      fun y => y.setListBlock x).entryNodes := by
    rw [hNodes]
    exact List.mem_append_right _ hm
  have hNe : m ≠ n := by
    rintro rfl
    exact hParts.held hMem (List.mem_append_right _ hm)
  have hAppend := hSet.append_other hMem (some 0) hIn
  rw [Tree.setNode_other _ _ hNe] at hAppend
  exact hAppend

/- Erasing a block that is not in the tree. -/
theorem Filed.erase
    {b' x : Nat}
    (h : Filed F d b)
    (hLe : b ≤ b')
    (hx : x < b')
    (hHas : ¬ d.Has x)
    (hParts : d.tree.Parts E B H own)
    (hMem : n ∈ H) : Filed F (d.erase n x) b' := by
  refine h.keep hLe (erase_entry x) ?_ ?_ ?_
  · intro m hm
    exact erase_node hParts hMem hm
  · intro y hy
    exact erase_flash_other (by omega)
  · intro m hm
    apply erase_flash_other
    intro hEq
    exact hHas ⟨m, hm, hEq⟩

/- No node stands for a block that has not been met. -/
theorem Filed.not_has
    (h : Filed F d b) : ¬ d.Has b := by
  rintro ⟨n, hn, hBlock⟩
  rcases h.entry n hn with ⟨x, _, hLt, _, _, _, hStands⟩
  have hEq := hStands.block.1
  omega

/- A block with a new key is entered. -/
theorem Filed.enter
    {sum : Nat}
    (h : Filed F d b)
    (hStart : parStart ≤ b)
    (hParts : d.tree.Parts E B H own)
    (hMem : n ∈ H)
    (hRival : F.Rival b)
    (hResv : (F.tags b 0).type ≠ .resv)
    (hSum : (F.tags b 0).type = .data ∨
      F.nameSum b = some sum)
    (hKey : ∀ m ∈ d.tree.entryNodes,
      (d.tree.node m).key ≠ (F.tags b 0).key) :
    Filed F (d.enter n b sum) (b + 1) ∧
      (d.enter n b sum).Has b ∧
      ∀ x, d.Has x → (d.enter n b sum).Has x := by
  have hPage := (h.later b (Nat.le_refl b)).1
  have hBad := (h.later b (Nat.le_refl b)).2
  have hTags := Flash.tags_congr hPage
  have hStands : F.StandsFor b
      (d.flash.nodeOf b sum (d.tree.node n)) := by
    rw [Flash.nodeOf_congr hPage]
    exact ⟨hResv, sum, _, rfl, hSum⟩
  have hNe : ∀ m ∈ d.tree.entryNodes, m ≠ n := by
    rintro m hm rfl
    exact hParts.held hMem (List.mem_append_right _ hm)
  have hNew : (d.enter n b sum).tree.node n =
      d.flash.nodeOf b sum (d.tree.node n) := by
    unfold Disk.enter
    simp
  have hOld : ∀ m ∈ d.tree.entryNodes,
      (d.enter n b sum).tree.node m = d.tree.node m := by
    intro m hm
    unfold Disk.enter
    rw [Tree.insertNode_node, Tree.setNode_other _ _ (hNe m hm)]
  have hNodes : ∀ m, m ∈ (d.enter n b sum).tree.entryNodes ↔
      m = n ∨ m ∈ d.tree.entryNodes := by
    intro m
    have hResv' : (d.flash.tags b 0).type ≠ .resv := by
      rw [hTags]
      exact hResv
    have hPerm := (d.tree.setNode n fun x =>
      d.flash.nodeOf b sum x).insertNode_perm n hResv'
    have hSame := d.tree.entryNodes_congr
      (d.tree.setNode_entry (n := n) fun x =>
        d.flash.nodeOf b sum x)
    unfold Disk.enter
    rw [hPerm.mem_iff, hSame, List.mem_cons]
  refine ⟨⟨?_, ?_, ?_⟩, ?_, ?_⟩
  · intro x hx
    exact h.later x (by omega)
  · intro m hm
    rcases (hNodes m).mp hm with rfl | hIn
    · rw [hNew]
      refine ⟨b, hStart, Nat.lt_succ_self b, hRival, hPage, ?_,
        hStands⟩
      exact hBad.trans hRival.notBad
    · rw [hOld m hIn]
      rcases h.entry m hIn with ⟨x, hx, hLt, hRest⟩
      exact ⟨x, hx, by omega, hRest⟩
  · intro m hm k hk hEq
    have hKeyNew : (d.flash.nodeOf b sum (d.tree.node n)).key =
        (F.tags b 0).key := hStands.block.2.1
    rcases (hNodes m).mp hm with rfl | hmIn
    · rcases (hNodes k).mp hk with rfl | hkIn
      · rfl
      · rw [hNew, hOld k hkIn, hKeyNew] at hEq
        exact absurd hEq.symm (hKey k hkIn)
    · rcases (hNodes k).mp hk with rfl | hkIn
      · rw [hNew, hOld m hmIn, hKeyNew] at hEq
        exact absurd hEq (hKey m hmIn)
      · rw [hOld m hmIn, hOld k hkIn] at hEq
        exact h.unique m hmIn k hkIn hEq
  · refine ⟨n, (hNodes n).mpr (Or.inl rfl), ?_⟩
    rw [hNew]
    exact hStands.block.1
  · rintro x ⟨m, hm, hBlock⟩
    refine ⟨m, (hNodes m).mpr (Or.inr hm), ?_⟩
    rw [hOld m hm]
    exact hBlock

theorem enter_parts
    {sum : Nat}
    (hParts : d.tree.Parts E B H own)
    (hMem : n ∈ H)
    (hOwn : own n = b)
    (hResv : (d.flash.tags b 0).type ≠ .resv) :
    (d.enter n b sum).tree.Parts E B (H.erase n) own := by
  have hSet := hParts.setHeld hMem fun x =>
    d.flash.nodeOf b sum x
  have hStands := d.flash.nodeOf_block sum (d.tree.node n) hResv
  apply hSet.insert hMem hResv
  · rw [Tree.setNode_same]
    exact hStands.2.2
  · rw [Tree.setNode_same, hOwn]
    exact hStands.1

/- Erasing a block leaves the others in the tree. -/
theorem erase_has
    {x y : Nat}
    (hParts : d.tree.Parts E B H own)
    (hMem : n ∈ H)
    (hHas : d.Has y) : (d.erase n x).Has y := by
  rcases hHas with ⟨m, hm, hBlock⟩
  refine ⟨m, ?_, ?_⟩
  · rw [Tree.entryNodes_congr _ (erase_entry x)]
    exact hm
  · rw [erase_node hParts hMem hm]
    exact hBlock

/- What a round does to a block that is met for a key. -/
structure Registers
    (F : Flash)
    (b : Nat)
    (d d' : Disk) : Prop where
  filed : d'.Filed F (b + 1)
  parts : ∃ E B H own, d'.tree.Parts E B H own
  allocated : d'.tree.allocated = d.tree.allocated
  named : F.Named b → d'.Has b ∨ ∃ z, F.Ousts (b + 1) z b
  others : ∀ x, d.Has x → d'.Has x ∨ ∃ z, F.Ousts (b + 1) z x

/- A block with a new key is entered or erased. -/
theorem Filed.register
    (h : Filed F d b)
    (hStart : parStart ≤ b)
    (hParts : d.tree.Parts E B H own)
    (hMem : n ∈ H)
    (hOwn : own n = b)
    (hRival : F.Rival b)
    (hKey : ∀ m ∈ d.tree.entryNodes,
      (d.tree.node m).key ≠ (F.tags b 0).key) :
    Registers F b d (d.register n b) := by
  have hPage := (h.later b (Nat.le_refl b)).1
  have hTags := Flash.tags_congr hPage
  have hErase : (¬ F.Named b) →
      Registers F b d (d.erase n b) := by
    intro hName
    refine ⟨?_, ⟨_, _, _, _, erase_parts hParts hMem hOwn⟩, ?_,
      ?_, ?_⟩
    · exact h.erase (Nat.le_succ b) (Nat.lt_succ_self b)
        h.not_has hParts hMem
    · exact erase_allocated b
    · intro hNamed
      exact absurd hNamed hName
    · intro x hx
      exact Or.inl (erase_has hParts hMem hx)
  have hEnter : ∀ sum, (F.tags b 0).type ≠ .resv →
      ((F.tags b 0).type = .data ∨ F.nameSum b = some sum) →
      Registers F b d (d.enter n b sum) := by
    intro sum hResv hSum
    rcases h.enter hStart hParts hMem hRival hResv hSum hKey with
      ⟨hFiled, hHas, hOthers⟩
    refine ⟨hFiled, ⟨_, _, _, _, enter_parts hParts hMem hOwn ?_⟩,
      ?_, fun _ => Or.inl hHas,
      fun x hx => Or.inl (hOthers x hx)⟩
    · rw [hTags]
      exact hResv
    · simp [Disk.enter]
  unfold Disk.register
  rw [hTags, Flash.nameSum_congr hPage]
  by_cases hType : (F.tags b 0).type = .dir ∨
      (F.tags b 0).type = .file
  · rw [if_pos hType]
    have hResv : (F.tags b 0).type ≠ .resv := by
      rcases hType with hEq | hEq
      · rw [hEq]
        decide
      · rw [hEq]
        decide
    cases hSum : F.nameSum b with
    | none =>
        apply hErase
        rintro (hData | ⟨_, hName⟩)
        · rcases hType with hEq | hEq
          · rw [hEq] at hData
            cases hData
          · rw [hEq] at hData
            cases hData
        · exact hName hSum
    | some sum => exact hEnter sum hResv (Or.inr hSum)
  · rw [if_neg hType]
    by_cases hResv : (F.tags b 0).type = .resv
    · -- such a block is lost: its node stays outside the tree
      have hEq : d.enter n b 0 =
          { d with tree := d.tree.setNode n fun x =>
              d.flash.nodeOf b 0 x } := by
        unfold Disk.enter
        rw [hTags, hResv]
        rfl
      rw [hEq]
      have hNe : ∀ m ∈ d.tree.entryNodes, m ≠ n := by
        rintro m hm rfl
        exact hParts.held hMem (List.mem_append_right _ hm)
      have hNode : ∀ m ∈ d.tree.entryNodes,
          (d.tree.setNode n fun x =>
            d.flash.nodeOf b 0 x).node m = d.tree.node m :=
        fun m hm => Tree.setNode_other _ _ (hNe m hm)
      have hNodes := d.tree.entryNodes_congr
        (d.tree.setNode_entry (n := n) fun x =>
          d.flash.nodeOf b 0 x)
      refine ⟨?_, ⟨_, _, _, _, hParts.setHeld hMem _⟩, rfl, ?_,
        ?_⟩
      · refine h.keep (Nat.le_succ b) ?_ hNode ?_ ?_
        · exact d.tree.setNode_entry _
        · intro _ _
          exact ⟨rfl, rfl⟩
        · intro _ _
          exact ⟨rfl, rfl⟩
      · intro hNamed
        exfalso
        unfold Flash.Named at hNamed
        rw [hResv] at hNamed
        simp at hNamed
      · rintro x ⟨m, hm, hBlock⟩
        refine Or.inl ⟨m, ?_, ?_⟩
        · rw [hNodes]
          exact hm
        · rw [hNode m hm]
          exact hBlock
    · apply hEnter 0 hResv
      left
      cases hEq : (F.tags b 0).type with
      | dir => exact absurd (Or.inl hEq) hType
      | file => exact absurd (Or.inr hEq) hType
      | data => rfl
      | resv => exact absurd hEq hResv

/- The blocks of two held nodes are exchanged. -/
theorem parts_swap
    {t : Tree}
    {n m : Nat}
    (h : t.Parts E B H own)
    (hn : n ∈ H)
    (hm : m ∈ H) :
    t.Parts E B H (own ∘ Equiv.swap n m) := by
  have hOther : ∀ k ∈ E ++ B ++ t.entryNodes,
      (own ∘ Equiv.swap n m) k = own k := by
    intro k hk
    have hkn : k ≠ n := by
      rintro rfl
      exact h.held hn hk
    have hkm : k ≠ m := by
      rintro rfl
      exact h.held hm hk
    rw [Function.comp_apply,
      Equiv.swap_apply_of_ne_of_ne hkn hkm]
  apply h.change rfl
  · intro k hk
    exact ⟨rfl, hOther k (List.mem_append_left _ hk)⟩
  · intro k hk
    have hIn := List.mem_append_right (E ++ B) hk
    rw [hOther k hIn]
    exact ⟨h.block k hIn, rfl, rfl⟩
  · exact h.owned_swap
      (h.lt (List.mem_append_right _ hn))
      (h.lt (List.mem_append_right _ hm))

/- The tree without one of its nodes. -/
def drop (d : Disk) (type : BlockType) (alt : Nat) : Disk :=
  { d with tree := d.tree.breakNode type alt }

theorem mem_drop
    {type : BlockType}
    {alt m : Nat}
    (hParts : d.tree.Parts E B H own)
    (hAlt : alt ∈ d.tree.region type) :
    m ∈ (d.drop type alt).tree.entryNodes ↔
      m ∈ d.tree.entryNodes ∧ m ≠ alt := by
  have hEntry : alt ∈ d.tree.entry type
      ((d.tree.node alt).hash type) := by
    rcases Tree.mem_region.mp hAlt with ⟨k, _, hk⟩
    rw [(hParts.hash type k alt hk).2]
    exact hk
  have hPerm := d.tree.breakNode_perm hEntry
  have hBreak := hParts.breakOff hAlt
  constructor
  · intro hm
    refine ⟨hPerm.mem_iff.mp (List.mem_cons_of_mem _ hm), ?_⟩
    rintro rfl
    exact hBreak.held (by simp) (List.mem_append_right _ hm)
  · rintro ⟨hm, hNe⟩
    rcases List.mem_cons.mp (hPerm.mem_iff.mpr hm) with hEq | hIn
    · exact absurd hEq hNe
    · exact hIn

theorem Filed.drop
    {type : BlockType}
    {alt : Nat}
    (h : Filed F d b)
    (hParts : d.tree.Parts E B H own)
    (hAlt : alt ∈ d.tree.region type) :
    Filed F (d.drop type alt) b := by
  have hNode : (d.drop type alt).tree.node = d.tree.node :=
    Tree.breakNode_node _ _
  refine ⟨h.later, ?_, ?_⟩
  · intro m hm
    rw [hNode]
    exact h.entry m ((mem_drop hParts hAlt).mp hm).1
  · intro m hm k hk hKey
    rw [hNode] at hKey
    exact h.unique m ((mem_drop hParts hAlt).mp hm).1 k
      ((mem_drop hParts hAlt).mp hk).1 hKey

/- Of two stamps one next to the other at most one is newer. -/
omit [Platform] in
theorem isSrcNewer_asymm
    {x y : Nat}
    (h : isSrcNewerThanObj x y = true) :
    isSrcNewerThanObj y x = false := by
  unfold isSrcNewerThanObj at h ⊢
  simp only [Bool.or_eq_true, decide_eq_true_eq] at h
  simp only [Bool.or_eq_false_iff, decide_eq_false_iff_not]
  omega

/- The newer one of two blocks with one key is erased. -/
theorem Filed.resolve
    {alt : Nat}
    (h : Filed F d b)
    (hStart : parStart ≤ b)
    (hParts : d.tree.Parts E B H own)
    (hMem : n ∈ H)
    (hOwn : own n = b)
    (hRival : F.Rival b)
    (hAlt : alt ∈ d.tree.region (F.tags b 0).type)
    (hKey : (d.tree.node alt).key = (F.tags b 0).key) :
    Registers F b d (d.resolve n b alt) := by
  have hAltIn := Tree.region_subset hAlt
  rcases h.entry alt hAltIn with
    ⟨a, haStart, haLt, haRival, haPage, _, haStands⟩
  have haBlock : (d.tree.node alt).block = a :=
    haStands.block.1
  have haKey : (F.tags a 0).key = (F.tags b 0).key := by
    rw [← hKey]
    exact haStands.block.2.1.symm
  have hTags := Flash.tags_congr (h.later b (Nat.le_refl b)).1
  have hTagsAlt := Flash.tags_congr haPage
  have hNe : a ≠ b := Nat.ne_of_lt haLt
  unfold Disk.resolve
  simp only [haBlock, hTags, hTagsAlt]
  by_cases hNewer : isSrcNewerThanObj (F.tags b 0).blockTs
      (F.tags a 0).blockTs = true
  · rw [if_pos hNewer]
    refine ⟨?_, ⟨_, _, _, _, erase_parts hParts hMem hOwn⟩,
      erase_allocated b, ?_, ?_⟩
    · exact h.erase (Nat.le_succ b) (Nat.lt_succ_self b)
        h.not_has hParts hMem
    · intro _
      exact Or.inr ⟨a, haStart, by omega, hNe, haRival, haKey,
        isSrcNewer_asymm hNewer⟩
    · intro x hx
      exact Or.inl (erase_has hParts hMem hx)
  · rw [if_neg hNewer]
    have hDrop : (d.drop (F.tags b 0).type alt).tree.Parts E B
        (alt :: H) own := hParts.breakOff hAlt
    have hMemDrop : n ∈ alt :: H := List.mem_cons_of_mem _ hMem
    have hAltNe : alt ≠ n := by
      rintro rfl
      exact hParts.held hMem (List.mem_append_right _ hAltIn)
    have hOwnAlt : own alt = a := by
      rw [← haBlock]
      exact (hParts.block alt
        (List.mem_append_right _ hAltIn)).symm
    -- node `n` answers for the block of `alt` from here on
    have hSwap := parts_swap hDrop hMemDrop
      (List.mem_cons_self (a := alt))
    have hOwnN : (own ∘ Equiv.swap n alt) n = a := by
      rw [Function.comp_apply, Equiv.swap_apply_left, hOwnAlt]
    have hOwnB : (own ∘ Equiv.swap n alt) alt = b := by
      rw [Function.comp_apply, Equiv.swap_apply_right, hOwn]
    have hFiled := h.drop hParts hAlt
    have hCommute : ({ d.erase n a with
        tree := (d.erase n a).tree.breakNode (F.tags b 0).type
          alt } : Disk) =
        (d.drop (F.tags b 0).type alt).erase n a := by
      have hNode : ((d.tree.setNode n fun x =>
          x.setListBlock a).appendErased n (some 0)).node alt =
            d.tree.node alt := erase_node hParts hMem hAltIn
      have hTree := Tree.breakNode_appendErased
        (F.tags b 0).type hNode
      unfold Disk.erase Disk.drop
      rw [hTree]
    rw [hCommute]
    have hNotHas : ¬ (d.drop (F.tags b 0).type alt).Has a := by
      rintro ⟨m, hm, hBlock⟩
      have hm' := (mem_drop hParts hAlt).mp hm
      have hNode : (d.drop (F.tags b 0).type alt).tree.node =
          d.tree.node := Tree.breakNode_node _ _
      rw [hNode, hParts.block m
        (List.mem_append_right _ hm'.1), ← hOwnAlt] at hBlock
      refine hm'.2 (hParts.own_inj ?_ ?_ hBlock)
      · exact hParts.lt (List.mem_append_left _
          (List.mem_append_right _ hm'.1))
      · exact hParts.lt (List.mem_append_left _
          (List.mem_append_right _ hAltIn))
    have hErased := hFiled.erase (Nat.le_refl b) haLt hNotHas
      hSwap hMemDrop
    have hErasedParts := erase_parts hSwap hMemDrop hOwnN
    have hAltMem : alt ∈ (alt :: H).erase n := by
      rw [List.erase_cons_tail (by simpa using hAltNe)]
      exact List.mem_cons_self
    have hKeys : ∀ m ∈ ((d.drop (F.tags b 0).type alt).erase n
        a).tree.entryNodes,
        (((d.drop (F.tags b 0).type alt).erase n a).tree.node
          m).key ≠ (F.tags b 0).key := by
      intro m hm hEq
      rw [Tree.entryNodes_congr _ (erase_entry a)] at hm
      rw [erase_node hSwap hMemDrop hm] at hEq
      have hm' := (mem_drop hParts hAlt).mp hm
      have hNode : (d.drop (F.tags b 0).type alt).tree.node =
          d.tree.node := Tree.breakNode_node _ _
      rw [hNode, ← hKey] at hEq
      exact hm'.2 (h.unique m hm'.1 alt hAltIn hEq)
    have hReg := hErased.register hStart hErasedParts hAltMem
      hOwnB hRival hKeys
    refine ⟨hReg.filed, hReg.parts, ?_, hReg.named, ?_⟩
    · rw [hReg.allocated, erase_allocated]
      exact Tree.breakNode_allocated _ _
    · rintro x ⟨m, hm, hBlock⟩
      by_cases hmAlt : m = alt
      · subst hmAlt
        rw [haBlock] at hBlock
        subst hBlock
        refine Or.inr ⟨b, hStart, Nat.lt_succ_self b,
          fun hEq => hNe hEq.symm, hRival, haKey.symm, ?_⟩
        simpa using hNewer
      · apply hReg.others
        apply erase_has hSwap hMemDrop
        refine ⟨m, (mem_drop hParts hAlt).mpr ⟨hm, hmAlt⟩, ?_⟩
        have hNode : (d.drop (F.tags b 0).type alt).tree.node =
            d.tree.node := Tree.breakNode_node _ _
        rw [hNode]
        exact hBlock

/- Blocks that the scan does not enter. -/
theorem Scanned.skip
    (h : Scanned F d b)
    (hParts : ∃ E B H own, d'.tree.Parts E B H own)
    (hAllocated :
      d'.tree.allocated = d.tree.allocated + 1)
    (hEntry : d'.tree.entry = d.tree.entry)
    (hNode : ∀ n ∈ d.tree.entryNodes,
      d'.tree.node n = d.tree.node n)
    (hOther : ∀ x, x ≠ b →
      d'.flash.page x = d.flash.page x ∧
        d'.flash.bad x = d.flash.bad x)
    (hRival : ¬ F.Rival b) : Scanned F d' (b + 1) := by
  have hNodes := d.tree.entryNodes_congr hEntry
  refine ⟨?_, hParts, ?_, ?_⟩
  · refine h.filed.keep (Nat.le_succ b) hEntry hNode ?_ ?_
    · intro x hx
      exact hOther x (by omega)
    · intro n hn
      apply hOther
      intro hEq
      exact h.filed.not_has ⟨n, hn, hEq⟩
  · rw [hAllocated, ← h.allocated]
    rfl
  · intro x hStart hLt hR hN
    by_cases hx : x = b
    · subst hx
      exact absurd hR hRival
    · rcases h.covers x hStart (by omega) hR hN with
        ⟨n, hn, hBlock⟩ | ⟨z, hz⟩
      · left
        refine ⟨n, ?_, ?_⟩
        · rw [hNodes]
          exact hn
        · rw [hNode n hn]
          exact hBlock
      · exact Or.inr ⟨z, hz.mono (Nat.le_succ b)⟩

/- A block that is met with a good first page. -/
theorem Registers.scanned
    (h : Scanned F d b)
    (hReg : Registers F b
      { d with tree := { d.tree with
          allocated := d.tree.allocated + 1 } } d') :
    Scanned F d' (b + 1) := by
  refine ⟨hReg.filed, hReg.parts, ?_, ?_⟩
  · rw [hReg.allocated, ← h.allocated]
    rfl
  · intro x hStart hLt hR hN
    by_cases hx : x = b
    · subst hx
      exact hReg.named hN
    · rcases h.covers x hStart (by omega) hR hN with
        hHas | ⟨z, hz⟩
      · exact hReg.others x hHas
      · exact Or.inr ⟨z, hz.mono (Nat.le_succ b)⟩

/- One round of `_BuildTreeStepOne`. -/
theorem Scanned.mountBlock
    (h : Scanned F d b)
    (hStep : d.mountBlock b = some d') :
    Scanned F d' (b + 1) := by
  rcases h.parts with ⟨E, B, H, own, hOld⟩
  have hParts := hOld.alloc
  have hOwn : upd own d.tree.allocated
      (parStart + d.tree.allocated) d.tree.allocated = b := by
    rw [upd_same, h.allocated]
  have hMem : d.tree.allocated ∈ d.tree.allocated :: H :=
    List.mem_cons_self
  have hStart : parStart ≤ b := by
    rw [← h.allocated]
    exact Nat.le_add_right _ _
  have hPage := (h.filed.later b (Nat.le_refl b)).1
  have hBad := (h.filed.later b (Nat.le_refl b)).2
  have hTags := Flash.tags_congr hPage
  have hFiled : Filed F { d with tree := { d.tree with
      allocated := d.tree.allocated + 1 } } b :=
    ⟨h.filed.later, h.filed.entry, h.filed.unique⟩
  have hErase : ∀ d₁ : Disk, d₁ = { d with tree := { d.tree with
      allocated := d.tree.allocated + 1 } } →
      ¬ F.Rival b →
      Scanned F (d₁.erase d.tree.allocated b) (b + 1) := by
    rintro d₁ rfl hRival
    refine h.skip
      ⟨_, _, _, _, erase_parts hParts hMem hOwn⟩ ?_ ?_ ?_ ?_
      hRival
    · exact erase_allocated b
    · exact erase_entry b
    · intro m hm
      exact erase_node hParts hMem hm
    · intro x hx
      exact erase_flash_other hx
  unfold Disk.mountBlock at hStep
  dsimp only at hStep
  rw [hTags, hBad, Flash.unclean_congr hPage] at hStep
  by_cases hIsBad : F.bad b = true
  · rw [if_pos hIsBad, Option.some.injEq] at hStep
    subst hStep
    have hSet := hParts.setHeld hMem fun x => x.setListBlock b
    refine h.skip ⟨_, _, _, _, hSet.pushBad hMem ?_⟩ ?_ ?_ ?_ ?_
      ?_
    · rw [Tree.setNode_same, hOwn]
      rfl
    · simp [Disk.mountBad]
    · simp only [Disk.mountBad, Tree.pushBad_entry,
        Tree.setNode_entry]
      rfl
    · intro m hm
      have hNe : m ≠ d.tree.allocated := by
        rintro rfl
        exact hParts.held hMem (List.mem_append_right _ hm)
      have hIn : m ∈ (Tree.setNode { d.tree with
          allocated := d.tree.allocated + 1 }
          d.tree.allocated fun x =>
            x.setListBlock b).entryNodes := hm
      have hPush := hSet.pushBad_entryNode hMem hIn
      rw [Tree.setNode_other _ _ hNe] at hPush
      exact hPush
    · intro x _
      exact ⟨rfl, rfl⟩
    · intro hRival
      rw [hRival.notBad] at hIsBad
      cases hIsBad
  rw [if_neg hIsBad] at hStep
  by_cases hErased : (F.tags b 0).isErased = true
  · rw [if_pos hErased, Option.some.injEq] at hStep
    subst hStep
    have hSet := hParts.setHeld hMem fun x => x.setListBlock b
    refine h.skip ⟨_, _, _, _, hSet.append hMem ?_ (some 1)⟩ ?_
      ?_ ?_ ?_ ?_
    · rw [Tree.setNode_same, hOwn]
      rfl
    · simp [Disk.mountErased]
    · simp only [Disk.mountErased, Tree.appendErased_entry,
        Tree.setNode_entry]
      rfl
    · intro m hm
      have hNe : m ≠ d.tree.allocated := by
        rintro rfl
        exact hParts.held hMem (List.mem_append_right _ hm)
      have hIn : m ∈ B ++ (Tree.setNode { d.tree with
          allocated := d.tree.allocated + 1 }
          d.tree.allocated fun x =>
            x.setListBlock b).entryNodes :=
        List.mem_append_right _ hm
      have hAppend := hSet.append_other hMem (some 1) hIn
      rw [Tree.setNode_other _ _ hNe] at hAppend
      exact hAppend
    · intro x hx
      unfold Disk.mountErased
      dsimp only
      by_cases hStatus : (d.flash.page b 0).status ≠ 0xFF
      · rw [if_pos hStatus]
        exact ⟨upd_other _ _ hx, upd_other _ _ hx⟩
      · rw [if_neg hStatus]
        exact ⟨rfl, rfl⟩
    · intro hRival
      rw [hRival.used] at hErased
      cases hErased
  rw [if_neg hErased] at hStep
  by_cases hUnclean : F.unclean b (pagesPerBlock - 1) = true
  · rw [if_pos hUnclean, Option.some.injEq] at hStep
    subst hStep
    apply hErase _ rfl
    intro hRival
    rw [hRival.clean] at hUnclean
    cases hUnclean
  rw [if_neg hUnclean] at hStep
  unfold Disk.mountValid at hStep
  dsimp only at hStep
  rw [hTags] at hStep
  by_cases hDirty : (F.tags b 0).isDirty = true
  · rw [hDirty] at hStep
    simp only [Bool.not_true, Bool.false_eq_true,
      if_false] at hStep
    by_cases hGood : (F.tags b 0).isGood = true
    · have hRival : F.Rival b :=
        ⟨by simpa using hIsBad, by simpa using hErased,
          by simpa using hUnclean, hGood⟩
      rw [hGood] at hStep
      simp only [Bool.not_true, Bool.false_eq_true,
        if_false] at hStep
      cases hFind : Tree.findTag { d.tree with
          allocated := d.tree.allocated + 1 } (F.tags b 0) with
      | none =>
          rw [hFind] at hStep
          simp only [Option.some.injEq] at hStep
          subst hStep
          exact (hFiled.register hStart hParts hMem hOwn hRival
            (hParts.findTag_none hFind)).scanned h
      | some alt =>
          rw [hFind] at hStep
          simp only [Option.some.injEq] at hStep
          subst hStep
          rcases hParts.findTag_some hFind with ⟨hIn, hKey⟩
          exact (hFiled.resolve hStart hParts hMem hOwn hRival
            hIn hKey).scanned h
    · simp only [hGood, Bool.not_false, if_true,
        Option.some.injEq] at hStep
      subst hStep
      apply hErase _ rfl
      intro hRival
      exact hGood hRival.good
  · simp [hDirty] at hStep

/- The rounds over `k` blocks. -/
theorem Scanned.mountFrom
    {k : Nat}
    (h : Scanned F d b)
    (hRun : d.mountFrom k b = some d') :
    Scanned F d' (b + k) := by
  induction k generalizing d b with
  | zero =>
      simp only [Disk.mountFrom, Option.some.injEq] at hRun
      subst hRun
      exact h
  | succ k ih =>
      unfold Disk.mountFrom at hRun
      cases hStep : d.mountBlock b with
      | none => simp [hStep] at hRun
      | some d₁ =>
          simp only [hStep] at hRun
          have hNext := ih (h.mountBlock hStep) hRun
          have hSum : b + 1 + k = b + (k + 1) := by omega
          rw [← hSum]
          exact hNext

/- Before the scan. -/
theorem scanned_init
    (F : Flash) :
    Scanned F { flash := F, tree := Tree.init } parStart := by
  have hNone : ∀ n, n ∉ Tree.init.entryNodes := by
    intro n hn
    rcases Tree.mem_entryNodes.mp hn with ⟨type, k, _, hk⟩
    cases type <;> exact absurd hk (by simp [Tree.entry, Tree.init])
  refine ⟨⟨?_, ?_, ?_⟩,
    ⟨[], [], [], fun n => n, Tree.Parts.init⟩, rfl, ?_⟩
  · intro x _
    exact ⟨rfl, rfl⟩
  · intro n hn
    exact absurd hn (hNone n)
  · intro n hn
    exact absurd hn (hNone n)
  · intro x hStart hLt
    omega

end Disk

end Uffs
