import Mathlib.Data.List.Nodup
import Mathlib.Data.List.Perm.Basic
import Mathlib.Logic.Equiv.Basic
import Uffs.Lib.Chain
import Uffs.Model.Build

/-
  Where the nodes of the tree are.

  Every node that the pool has handed out is in one place:
  the erased list, the bad list, a hash entry, or in the
  hands of a running function.  Each node answers for one
  block of the partition.

  Main declarations:
    * `Tree.Parts`
    * `Tree.Parts.pop`, `Tree.Parts.append`,
      `Tree.Parts.push`, `Tree.Parts.pushBad`
    * `Tree.Parts.insert`, `Tree.Parts.breakOff`
    * `Tree.Parts.change`
-/

namespace Uffs

variable [Platform]

------------------------------------------------------------
-- Hash Entries
------------------------------------------------------------

/- The entry of one hash value. -/
def Tree.entry (t : Tree) : BlockType → Nat → List Nat
| .dir => t.dirEntry
| .file => t.fileEntry
| .data => t.dataEntry
| .resv => fun _ => []

/- The number of hash entries of a region. -/
def entrySize : BlockType → Nat
| .dir => 32
| .file => 64
| .data => 512
| .resv => 0

/- The nodes of one region. -/
def Tree.region (t : Tree) (type : BlockType) : List Nat :=
  (List.range (entrySize type)).flatMap (t.entry type)

/- The nodes in the hash entries. -/
def Tree.entryNodes (t : Tree) : List Nat :=
  t.dirNodes ++ t.fileNodes ++ t.dataNodes

/- Is this a node of a list of blocks? -/
def TreeNode.isList : TreeNode → Bool
| .list _ _ _ _ => true
| _ => false

/- The region that a node belongs to. -/
def TreeNode.type : TreeNode → BlockType
| .list _ _ _ _ => .resv
| .dir _ _ _ _ => .dir
| .file _ _ _ _ _ => .file
| .data _ _ _ _ => .data

/- The hash value of a node in a region. -/
def TreeNode.hash (x : TreeNode) : BlockType → Nat
| .dir => getDirHash x.serial
| .file => getFileHash x.serial
| .data => getDataHash x.parent x.serial
| .resv => 0

omit [Platform] in
theorem TreeNode.hash_lt
    (x : TreeNode)
    {type : BlockType}
    (hType : type ≠ .resv) :
    x.hash type < entrySize type := by
  cases type with
  | dir => exact Nat.mod_lt _ (by decide)
  | file => exact Nat.mod_lt _ (by decide)
  | data => exact Nat.mod_lt _ (by decide)
  | resv => exact absurd rfl hType

omit [Platform] in
theorem Tree.mem_entryNodes
    {t : Tree}
    {n : Nat} :
    n ∈ t.entryNodes ↔
      ∃ type, ∃ h < entrySize type, n ∈ t.entry type h := by
  have hRegion : ∀ type, (n ∈ t.region type ↔
      ∃ h < entrySize type, n ∈ t.entry type h) := by
    intro type
    simp only [Tree.region, List.mem_flatMap, List.mem_range]
  have hAll : n ∈ t.entryNodes ↔
      n ∈ t.region .dir ∨ n ∈ t.region .file ∨
        n ∈ t.region .data := by
    simp only [Tree.entryNodes, List.mem_append, or_assoc]
    exact Iff.rfl
  rw [hAll]
  constructor
  · rintro (h | h | h)
    · exact ⟨.dir, (hRegion _).mp h⟩
    · exact ⟨.file, (hRegion _).mp h⟩
    · exact ⟨.data, (hRegion _).mp h⟩
  · rintro ⟨type, hType⟩
    have hMem := (hRegion type).mpr hType
    cases type with
    | dir => exact Or.inl hMem
    | file => exact Or.inr (Or.inl hMem)
    | data => exact Or.inr (Or.inr hMem)
    | resv =>
        rcases hType with ⟨h, hLt, _⟩
        exact absurd hLt (Nat.not_lt_zero h)

/- A cell is added to one of the lists of a table. -/
omit [Platform] in
theorem flatMap_cons_perm
    (f : Nat → List Nat)
    {h k : Nat}
    (n : Nat)
    (hk : h < k) :
    ((List.range k).flatMap (upd f h (n :: f h))).Perm
      (n :: (List.range k).flatMap f) := by
  induction k with
  | zero => omega
  | succ k ih =>
      rw [List.range_succ, List.flatMap_append,
        List.flatMap_append]
      by_cases hEq : h = k
      · subst hEq
        have hSame : (List.range h).flatMap
            (upd f h (n :: f h)) =
              (List.range h).flatMap f := by
          refine List.flatMap_congr ?_
          intro i hi
          exact upd_other _ _
            (Nat.ne_of_lt (List.mem_range.mp hi))
        rw [hSame]
        simp only [List.flatMap_singleton, upd_same]
        exact List.perm_middle
      · have hLast : upd f h (n :: f h) k = f k :=
          upd_other _ _ (fun hk => hEq hk.symm)
        simp only [List.flatMap_singleton, hLast]
        rw [← List.cons_append]
        exact (ih (by omega)).append_right _

/- A cell is taken out of one of the lists of a table. -/
omit [Platform] in
theorem flatMap_erase_perm
    (f : Nat → List Nat)
    {h k n : Nat}
    (hk : h < k)
    (hMem : n ∈ f h) :
    (n :: (List.range k).flatMap (upd f h ((f h).erase n))).Perm
      ((List.range k).flatMap f) := by
  induction k with
  | zero => omega
  | succ k ih =>
      rw [List.range_succ, List.flatMap_append,
        List.flatMap_append]
      by_cases hEq : h = k
      · subst hEq
        have hSame : (List.range h).flatMap
            (upd f h ((f h).erase n)) =
              (List.range h).flatMap f := by
          refine List.flatMap_congr ?_
          intro i hi
          exact upd_other _ _
            (Nat.ne_of_lt (List.mem_range.mp hi))
        rw [hSame]
        simp only [List.flatMap_singleton, upd_same]
        refine List.perm_middle.symm.trans ?_
        exact (List.perm_cons_erase hMem).symm.append_left _
      · have hLast : upd f h ((f h).erase n) k = f k :=
          upd_other _ _ (fun hk => hEq hk.symm)
        simp only [List.flatMap_singleton, hLast]
        rw [← List.cons_append]
        exact (ih (by omega)).append_right _

omit [Platform] in
theorem Tree.insertNode_perm
    (t : Tree)
    {type : BlockType}
    (n : Nat)
    (hType : type ≠ .resv) :
    (t.insertNode type n).entryNodes.Perm
      (n :: t.entryNodes) := by
  have hHash := (t.node n).hash_lt hType
  cases type with
  | resv => exact absurd rfl hType
  | dir =>
      have hPerm := flatMap_cons_perm t.dirEntry n hHash
      exact (hPerm.append_right _).append_right _
  | file =>
      have hPerm := flatMap_cons_perm t.fileEntry n hHash
      refine ((hPerm.append_left _).append_right _).trans ?_
      exact (List.perm_middle.append_right _)
  | data =>
      have hPerm := flatMap_cons_perm t.dataEntry n hHash
      exact (hPerm.append_left _).trans List.perm_middle

omit [Platform] in
theorem Tree.breakNode_perm
    (t : Tree)
    {type : BlockType}
    {n : Nat}
    (hMem : n ∈ t.entry type ((t.node n).hash type)) :
    (n :: (t.breakNode type n).entryNodes).Perm
      t.entryNodes := by
  cases type with
  | resv => exact absurd hMem (by simp [Tree.entry])
  | dir =>
      have hPerm := flatMap_erase_perm t.dirEntry
        ((t.node n).hash_lt (by simp : BlockType.dir ≠ .resv)) hMem
      exact (hPerm.append_right _).append_right _
  | file =>
      have hPerm := flatMap_erase_perm t.fileEntry
        ((t.node n).hash_lt (by simp : BlockType.file ≠ .resv)) hMem
      refine (List.perm_middle.append_right _).symm.trans ?_
      exact (hPerm.append_left _).append_right _
  | data =>
      have hPerm := flatMap_erase_perm t.dataEntry
        ((t.node n).hash_lt (by simp : BlockType.data ≠ .resv)) hMem
      exact List.perm_middle.symm.trans (hPerm.append_left _)

/- Entries other than the one of the node stay. -/
omit [Platform] in
theorem Tree.mem_entry_insertNode
    {t : Tree}
    {type type' : BlockType}
    {n m h : Nat}
    (hMem : m ∈ (t.insertNode type n).entry type' h) :
    m ∈ t.entry type' h ∨
      (m = n ∧ type' = type ∧ h = (t.node n).hash type) := by
  have hUpd : ∀ (f : Nat → List Nat) (k : Nat),
      m ∈ upd f k (n :: f k) h →
        m ∈ f h ∨ (m = n ∧ h = k) := by
    intro f k hIn
    by_cases hk : h = k
    · subst hk
      rw [upd_same] at hIn
      rcases List.mem_cons.mp hIn with hEq | hOld
      · exact Or.inr ⟨hEq, rfl⟩
      · exact Or.inl hOld
    · rw [upd_other _ _ hk] at hIn
      exact Or.inl hIn
  cases type with
  | resv => exact Or.inl hMem
  | dir =>
      cases type' with
      | dir =>
          rcases hUpd _ _ hMem with hOld | ⟨hEq, hh⟩
          · exact Or.inl hOld
          · exact Or.inr ⟨hEq, rfl, hh⟩
      | file => exact Or.inl hMem
      | data => exact Or.inl hMem
      | resv => exact Or.inl hMem
  | file =>
      cases type' with
      | file =>
          rcases hUpd _ _ hMem with hOld | ⟨hEq, hh⟩
          · exact Or.inl hOld
          · exact Or.inr ⟨hEq, rfl, hh⟩
      | dir => exact Or.inl hMem
      | data => exact Or.inl hMem
      | resv => exact Or.inl hMem
  | data =>
      cases type' with
      | data =>
          rcases hUpd _ _ hMem with hOld | ⟨hEq, hh⟩
          · exact Or.inl hOld
          · exact Or.inr ⟨hEq, rfl, hh⟩
      | dir => exact Or.inl hMem
      | file => exact Or.inl hMem
      | resv => exact Or.inl hMem

omit [Platform] in
theorem Tree.mem_entry_breakNode
    {t : Tree}
    {type type' : BlockType}
    {n m h : Nat}
    (hMem : m ∈ (t.breakNode type n).entry type' h) :
    m ∈ t.entry type' h := by
  have hUpd : ∀ (f : Nat → List Nat) (k : Nat),
      m ∈ upd f k ((f k).erase n) h → m ∈ f h := by
    intro f k hIn
    by_cases hk : h = k
    · subst hk
      rw [upd_same] at hIn
      exact List.mem_of_mem_erase hIn
    · rw [upd_other _ _ hk] at hIn
      exact hIn
  cases type with
  | resv => exact hMem
  | dir =>
      cases type' with
      | dir => exact hUpd _ _ hMem
      | file => exact hMem
      | data => exact hMem
      | resv => exact hMem
  | file =>
      cases type' with
      | file => exact hUpd _ _ hMem
      | dir => exact hMem
      | data => exact hMem
      | resv => exact hMem
  | data =>
      cases type' with
      | data => exact hUpd _ _ hMem
      | dir => exact hMem
      | file => exact hMem
      | resv => exact hMem

------------------------------------------------------------
-- The Places of the Nodes
------------------------------------------------------------

/-
  `E` and `B` are the erased and the bad list, `H` are the
  nodes in the hands of running functions, and node `n`
  answers for block `own n`.
-/
structure Tree.Parts
    (t : Tree)
    (E B H : List Nat)
    (own : Nat → Nat) : Prop where
  erased : Linked (fun n => (t.node n).next) t.erased E
  tail : t.erasedTail = E.getLast?
  count : t.erasedCount = E.length
  bad : Linked (fun n => (t.node n).next) t.bad B
  badCount : t.badCount = B.length
  perm : (E ++ B ++ t.entryNodes ++ H).Perm
    (List.range t.allocated)
  owned : ((List.range t.allocated).map own).Perm
    (List.range' parStart t.allocated)
  lists : ∀ n ∈ E ++ B, (t.node n).isList
  block : ∀ n ∈ E ++ B ++ t.entryNodes,
    (t.node n).block = own n
  hash : ∀ type h, ∀ n ∈ t.entry type h,
    (t.node n).type = type ∧ (t.node n).hash type = h

namespace Tree.Parts

variable {t t' : Tree} {E B H : List Nat} {own : Nat → Nat}

theorem nodup
    (h : Parts t E B H own) :
    (E ++ B ++ t.entryNodes ++ H).Nodup :=
  h.perm.nodup_iff.mpr List.nodup_range

theorem lt
    (h : Parts t E B H own)
    {n : Nat}
    (hMem : n ∈ E ++ B ++ t.entryNodes ++ H) :
    n < t.allocated :=
  List.mem_range.mp (h.perm.mem_iff.mp hMem)

/- A held node is in no list of the tree. -/
theorem held
    (h : Parts t E B H own)
    {n : Nat}
    (hMem : n ∈ H) : n ∉ E ++ B ++ t.entryNodes :=
  fun hIn =>
    (List.nodup_append.mp h.nodup).2.2 n hIn n hMem rfl

theorem nodupErased
    (h : Parts t E B H own) : E.Nodup := by
  have hNodup := h.nodup
  simp only [List.append_assoc] at hNodup
  exact (List.nodup_append.mp hNodup).1

theorem entry_mem
    {type : BlockType}
    {k n : Nat}
    (h : Parts t E B H own)
    (hMem : n ∈ t.entry type k) : n ∈ t.entryNodes := by
  rcases h.hash type k n hMem with ⟨hType, hHash⟩
  refine Tree.mem_entryNodes.mpr ⟨type, k, ?_, hMem⟩
  have hNe : type ≠ .resv := by
    rintro rfl
    exact absurd hMem (by simp [Tree.entry])
  rw [← hHash]
  exact TreeNode.hash_lt _ hNe

/- Different nodes answer for different blocks. -/
theorem own_inj
    (h : Parts t E B H own)
    {n m : Nat}
    (hn : n < t.allocated)
    (hm : m < t.allocated)
    (hEq : own n = own m) : n = m := by
  have hNodup := h.owned.nodup_iff.mpr List.nodup_range'
  exact List.inj_on_of_nodup_map hNodup
    (List.mem_range.mpr hn) (List.mem_range.mpr hm) hEq

theorem own_range
    (h : Parts t E B H own)
    {n : Nat}
    (hn : n < t.allocated) :
    parStart ≤ own n ∧ own n < parStart + t.allocated := by
  have hMem := h.owned.mem_iff.mp
    (List.mem_map.mpr ⟨n, List.mem_range.mpr hn, rfl⟩)
  simpa using List.mem_range'_1.mp hMem

/- Two nodes may exchange their blocks. -/
theorem owned_swap
    (h : Parts t E B H own)
    {n m : Nat}
    (hn : n < t.allocated)
    (hm : m < t.allocated) :
    ((List.range t.allocated).map
      (own ∘ Equiv.swap n m)).Perm
        (List.range' parStart t.allocated) := by
  refine List.Perm.trans ?_ h.owned
  rw [← List.map_map]
  apply List.Perm.map
  have hNodup : ((List.range t.allocated).map
      (Equiv.swap n m)).Nodup :=
    List.nodup_range.map (Equiv.swap n m).injective
  rw [List.perm_ext_iff_of_nodup hNodup List.nodup_range]
  have hLt : ∀ k, k < t.allocated →
      Equiv.swap n m k < t.allocated := by
    intro k hk
    by_cases hkn : k = n
    · rw [hkn, Equiv.swap_apply_left]
      exact hm
    · by_cases hkm : k = m
      · rw [hkm, Equiv.swap_apply_right]
        exact hn
      · rw [Equiv.swap_apply_of_ne_of_ne hkn hkm]
        exact hk
  intro k
  simp only [List.mem_map, List.mem_range]
  constructor
  · rintro ⟨j, hj, rfl⟩
    exact hLt j hj
  · intro hk
    exact ⟨Equiv.swap n m k, hLt k hk,
      Equiv.swap_apply_self n m k⟩

/-
  Nodes may change as long as the lists, the blocks and the
  hash values of the nodes in them stay; blocks may be
  exchanged.
-/
theorem change
    {own' : Nat → Nat}
    (h : Parts t E B H own)
    (hSame : t' = { t with node := t'.node })
    (hNode : ∀ n ∈ E ++ B, t'.node n = t.node n ∧
      own' n = own n)
    (hEntry : ∀ n ∈ t.entryNodes,
      (t'.node n).block = own' n ∧
        (t'.node n).type = (t.node n).type ∧
        (t'.node n).hash (t.node n).type =
          (t.node n).hash (t.node n).type)
    (hOwn : ((List.range t.allocated).map own').Perm
      (List.range' parStart t.allocated)) :
    Parts t' E B H own' := by
  have hEntryNodes : t'.entryNodes = t.entryNodes := by
    rw [hSame]
    rfl
  have hEntries : t'.entry = t.entry := by
    rw [hSame]
    funext type
    cases type <;> rfl
  refine ⟨?_, ?_, ?_, ?_, ?_, ?_, ?_, ?_, ?_, ?_⟩
  · rw [hSame]
    apply h.erased.congr
    intro n hn
    change (t'.node n).next = _
    rw [(hNode n (List.mem_append_left _ hn)).1]
  · rw [hSame]
    exact h.tail
  · rw [hSame]
    exact h.count
  · rw [hSame]
    apply h.bad.congr
    intro n hn
    change (t'.node n).next = _
    rw [(hNode n (List.mem_append_right _ hn)).1]
  · rw [hSame]
    exact h.badCount
  · rw [hEntryNodes, hSame]
    exact h.perm
  · rw [hSame]
    exact hOwn
  · intro n hn
    rw [(hNode n hn).1]
    exact h.lists n hn
  · intro n hn
    rw [hEntryNodes] at hn
    rcases List.mem_append.mp hn with hList | hIn
    · rw [(hNode n hList).1, (hNode n hList).2]
      exact h.block n (List.mem_append_left _ hList)
    · exact (hEntry n hIn).1
  · intro type k n hn
    rw [hEntries] at hn
    have hOld := h.hash type k n hn
    have hNew := hEntry n (h.entry_mem hn)
    rw [hOld.1] at hNew
    exact ⟨hNew.2.1, hNew.2.2.trans hOld.2⟩

/- A held node may change at will. -/
theorem setHeld
    (h : Parts t E B H own)
    {n : Nat}
    (hMem : n ∈ H)
    (f : TreeNode → TreeNode) :
    Parts (t.setNode n f) E B H own := by
  have hNot := h.held hMem
  have hOther : ∀ m ∈ E ++ B ++ t.entryNodes,
      (t.setNode n f).node m = t.node m := by
    intro m hm
    apply upd_other
    rintro rfl
    exact hNot hm
  apply h.change rfl
  · intro m hm
    exact ⟨hOther m (List.mem_append_left _ hm), rfl⟩
  · intro m hm
    have hIn : m ∈ E ++ B ++ t.entryNodes :=
      List.mem_append_right _ hm
    rw [hOther m hIn]
    exact ⟨h.block m hIn, rfl, rfl⟩
  · exact h.owned

/- The pool hands out the next node, for the next block. -/
theorem alloc
    (h : Parts t E B H own) :
    Parts { t with allocated := t.allocated + 1 } E B
      (t.allocated :: H)
      (upd own t.allocated (parStart + t.allocated)) := by
  have hOld : ∀ n < t.allocated,
      upd own t.allocated (parStart + t.allocated) n = own n :=
    fun n hn => upd_other _ _ (Nat.ne_of_lt hn)
  refine ⟨h.erased, h.tail, h.count, h.bad, h.badCount, ?_, ?_,
    h.lists, ?_, ?_⟩
  · change (E ++ B ++ t.entryNodes ++ t.allocated :: H).Perm _
    rw [List.range_succ]
    refine List.perm_middle.trans ?_
    refine (h.perm.cons _).trans ?_
    exact (List.perm_append_singleton _ _).symm
  · rw [List.range_succ, List.map_append, List.range'_concat]
    refine List.Perm.append ?_ ?_
    · rw [List.map_congr_left (g := own)]
      · exact h.owned
      · intro n hn
        exact hOld n (List.mem_range.mp hn)
    · simp
  · intro n hn
    rw [hOld n (h.lt (List.mem_append_left _ hn))]
    exact h.block n hn
  · intro type k n hn
    have hEq : Tree.entry { t with allocated := t.allocated + 1 }
        type = t.entry type := by
      cases type <;> rfl
    rw [hEq] at hn
    exact h.hash type k n hn

end Tree.Parts

------------------------------------------------------------
-- Links of the Lists
------------------------------------------------------------

namespace Tree

variable (t : Tree) {n m : Nat}

omit [Platform]

@[simp] theorem setNode_same (f : TreeNode → TreeNode) :
    (t.setNode n f).node n = f (t.node n) :=
  upd_same _ _ _

theorem setNode_other
    (f : TreeNode → TreeNode)
    (hm : m ≠ n) : (t.setNode n f).node m = t.node m :=
  upd_other _ _ hm

@[simp] theorem setNode_entry (f : TreeNode → TreeNode) :
    (t.setNode n f).entry = t.entry := by
  funext type
  cases type <;> rfl

@[simp] theorem appendErased_entry (c : Option Nat) :
    (t.appendErased n c).entry = t.entry := by
  funext type
  unfold Tree.appendErased
  cases t.erasedTail <;> cases type <;> rfl

@[simp] theorem pushErased_entry :
    (t.pushErased n).entry = t.entry := by
  funext type
  unfold Tree.pushErased
  cases t.erased <;> cases type <;> rfl

@[simp] theorem pushBad_entry :
    (t.pushBad n).entry = t.entry := by
  funext type
  unfold Tree.pushBad
  cases t.bad <;> cases type <;> rfl

@[simp] theorem setNode_allocated (f : TreeNode → TreeNode) :
    (t.setNode n f).allocated = t.allocated := rfl

@[simp] theorem appendErased_allocated (c : Option Nat) :
    (t.appendErased n c).allocated = t.allocated := by
  unfold Tree.appendErased
  cases t.erasedTail <;> rfl

@[simp] theorem pushErased_allocated :
    (t.pushErased n).allocated = t.allocated := by
  unfold Tree.pushErased
  cases t.erased <;> rfl

@[simp] theorem pushBad_allocated :
    (t.pushBad n).allocated = t.allocated := by
  unfold Tree.pushBad
  cases t.bad <;> rfl

@[simp] theorem insertNode_node (type : BlockType) :
    (t.insertNode type n).node = t.node := by
  cases type <;> rfl

@[simp] theorem insertNode_allocated (type : BlockType) :
    (t.insertNode type n).allocated = t.allocated := by
  cases type <;> rfl

@[simp] theorem breakNode_node (type : BlockType) :
    (t.breakNode type n).node = t.node := by
  cases type <;> rfl

@[simp] theorem breakNode_allocated (type : BlockType) :
    (t.breakNode type n).allocated = t.allocated := by
  cases type <;> rfl

/- The nodes in the hash entries depend on these alone. -/
theorem entryNodes_congr
    {u : Tree}
    (h : u.entry = t.entry) : u.entryNodes = t.entryNodes := by
  have hDir := congrFun h .dir
  have hFile := congrFun h .file
  have hData := congrFun h .data
  simp only [Tree.entry] at hDir hFile hData
  unfold Tree.entryNodes Tree.dirNodes Tree.fileNodes
    Tree.dataNodes
  rw [hDir, hFile, hData]

/- The node that is appended. -/
theorem appendErased_same
    (c : Option Nat)
    (hTail : t.erasedTail ≠ some n) :
    (t.appendErased n c).node n =
      .list none t.erasedTail (t.node n).listBlock
        (c.getD (t.node n).listU) := by
  unfold appendErased
  cases hEq : t.erasedTail with
  | none =>
      dsimp only
      rw [setNode_same]
      cases c <;> rfl
  | some e =>
      have hne : n ≠ e := by
        rintro rfl
        exact hTail hEq
      dsimp only
      rw [setNode_other _ _ hne, setNode_same]
      cases c <;> rfl

/- The node that was the last one. -/
theorem appendErased_tail
    (c : Option Nat)
    (hTail : t.erasedTail = some m)
    (hm : m ≠ n) :
    (t.appendErased n c).node m =
      (t.node m).setNext (some n) := by
  unfold appendErased
  rw [hTail]
  dsimp only
  rw [setNode_same, setNode_other _ _ hm]

theorem appendErased_other
    (c : Option Nat)
    (hTail : t.erasedTail ≠ some m)
    (hm : m ≠ n) :
    (t.appendErased n c).node m = t.node m := by
  unfold appendErased
  cases hEq : t.erasedTail with
  | none =>
      dsimp only
      rw [setNode_other _ _ hm]
  | some e =>
      have hne : m ≠ e := by
        rintro rfl
        exact hTail hEq
      dsimp only
      rw [setNode_other _ _ hne, setNode_other _ _ hm]

/- The node that becomes the first erased one. -/
theorem pushErased_same
    (hHead : t.erased ≠ some n) :
    (t.pushErased n).node n =
      .list t.erased none (t.node n).listBlock
        (t.node n).listU := by
  unfold pushErased
  cases hEq : t.erased with
  | none =>
      dsimp only
      rw [setNode_same]
      rfl
  | some e =>
      have hne : n ≠ e := by
        rintro rfl
        exact hHead hEq
      dsimp only
      rw [setNode_other _ _ hne, setNode_same]
      rfl

/- The other nodes keep everything but `prev`. -/
theorem pushErased_other
    (hm : m ≠ n) :
    (t.pushErased n).node m = t.node m ∨
      (t.erased = some m ∧
        (t.pushErased n).node m =
          (t.node m).setPrev (some n)) := by
  unfold pushErased
  cases hEq : t.erased with
  | none =>
      left
      dsimp only
      rw [setNode_other _ _ hm]
  | some e =>
      dsimp only
      by_cases hme : m = e
      · subst hme
        right
        rw [setNode_same, setNode_other _ _ hm]
        exact ⟨rfl, rfl⟩
      · left
        rw [setNode_other _ _ hme, setNode_other _ _ hm]

/- The node that becomes the first bad one. -/
theorem pushBad_same
    (hHead : t.bad ≠ some n) :
    (t.pushBad n).node n =
      .list t.bad none (t.node n).listBlock
        (t.node n).listU := by
  unfold pushBad
  cases hEq : t.bad with
  | none =>
      dsimp only
      rw [setNode_same]
      rfl
  | some e =>
      have hne : n ≠ e := by
        rintro rfl
        exact hHead hEq
      dsimp only
      rw [setNode_other _ _ hne, setNode_same]
      rfl

theorem pushBad_other
    (hm : m ≠ n) :
    (t.pushBad n).node m = t.node m ∨
      (t.bad = some m ∧
        (t.pushBad n).node m =
          (t.node m).setPrev (some n)) := by
  unfold pushBad
  cases hEq : t.bad with
  | none =>
      left
      dsimp only
      rw [setNode_other _ _ hm]
  | some e =>
      dsimp only
      by_cases hme : m = e
      · subst hme
        right
        rw [setNode_same, setNode_other _ _ hm]
        exact ⟨rfl, rfl⟩
      · left
        rw [setNode_other _ _ hme, setNode_other _ _ hm]

end Tree

namespace TreeNode

omit [Platform]

/- A node of a list of blocks keeps its block. -/
theorem listBlock_of_isList
    {x : TreeNode}
    (h : x.isList) : x.listBlock = x.block := by
  cases x with
  | list _ _ _ _ => rfl
  | dir _ _ _ _ => cases h
  | file _ _ _ _ _ => cases h
  | data _ _ _ _ => cases h

theorem setPrev_next
    (x : TreeNode)
    (o : Option Nat) : (x.setPrev o).next = x.next := rfl

end TreeNode

namespace Tree.Parts

variable {t t' : Tree} {E B H : List Nat} {own : Nat → Nat}

/-
  The lists change, the hash entries do not.
-/
theorem relist
    {E' B' H' : List Nat}
    (h : Parts t E B H own)
    (hEntry : t'.entry = t.entry)
    (hAllocated : t'.allocated = t.allocated)
    (hNode : ∀ m ∈ t.entryNodes, t'.node m = t.node m)
    (hErased : Linked (fun n => (t'.node n).next) t'.erased E')
    (hTail : t'.erasedTail = E'.getLast?)
    (hCount : t'.erasedCount = E'.length)
    (hBad : Linked (fun n => (t'.node n).next) t'.bad B')
    (hBadCount : t'.badCount = B'.length)
    (hPerm : (E' ++ B' ++ H').Perm (E ++ B ++ H))
    (hList : ∀ n ∈ E' ++ B',
      (t'.node n).isList ∧ (t'.node n).block = own n) :
    Parts t' E' B' H' own := by
  have hEntryNodes := t.entryNodes_congr hEntry
  refine ⟨hErased, hTail, hCount, hBad, hBadCount, ?_, ?_, ?_,
    ?_, ?_⟩
  · rw [hEntryNodes, hAllocated]
    have hSwap : ∀ P Q R : List Nat,
        (P ++ Q ++ R).Perm (P ++ R ++ Q) := by
      intro P Q R
      rw [List.append_assoc, List.append_assoc]
      exact List.perm_append_comm.append_left _
    have hNew := hSwap (E' ++ B') t.entryNodes H'
    have hOld := hSwap (E ++ B) H t.entryNodes
    exact ((hNew.trans (hPerm.append_right _)).trans hOld).trans
      h.perm
  · rw [hAllocated]
    exact h.owned
  · intro n hn
    exact (hList n hn).1
  · intro n hn
    rw [hEntryNodes] at hn
    rcases List.mem_append.mp hn with hIn | hIn
    · exact (hList n hIn).2
    · rw [hNode n hIn]
      exact h.block n (List.mem_append_right _ hIn)
  · intro type k m hm
    rw [hEntry] at hm
    rw [hNode m (h.entry_mem hm)]
    exact h.hash type k m hm

/- The first erased block is taken. -/
theorem pop
    {n : Nat}
    (h : Parts t E B H own)
    (hPop : t.popErased = some (n, t')) :
    ∃ E', E = n :: E' ∧ Parts t' E' B (n :: H) own ∧
      t'.node = upd t.node n ((t.node n).setPrev none) ∧
      t'.entry = t.entry ∧ t'.allocated = t.allocated := by
  unfold Tree.popErased at hPop
  cases hErased : t.erased with
  | none => simp [hErased] at hPop
  | some k =>
      simp only [hErased, Option.some.injEq,
        Prod.mk.injEq] at hPop
      rcases hPop with ⟨rfl, ht'⟩
      have hLinked := h.erased
      rw [hErased] at hLinked
      cases E with
      | nil => exact absurd (Linked.nil_iff.mp hLinked) (by simp)
      | cons n E' =>
          rcases Linked.cons_iff.mp hLinked with ⟨hEq, hRest⟩
          cases hEq
          have hNodup := h.nodup
          have hNot : k ∉ E' ++ B ++ t.entryNodes := by
            intro hIn
            simp only [List.cons_append] at hNodup
            exact (List.nodup_cons.mp hNodup).1
              (List.mem_append_left _ hIn)
          have hOld : ∀ m ∈ E' ++ B ++ t.entryNodes,
              t'.node m = t.node m := by
            intro m hm
            rw [← ht']
            apply upd_other
            rintro rfl
            exact hNot hm
          have hEntry : t'.entry = t.entry := by
            rw [← ht']
            funext type
            cases type <;> rfl
          have hAllocated : t'.allocated = t.allocated := by
            rw [← ht']
            rfl
          refine ⟨E', rfl, ?_, by rw [← ht']; rfl, hEntry,
            hAllocated⟩
          apply h.relist hEntry hAllocated
          · intro m hm
            exact hOld m (List.mem_append_right _ hm)
          · have hNext : t'.erased = (t.node k).next := by
              rw [← ht']
            rw [hNext]
            apply hRest.congr
            intro m hm
            rw [hOld m (by simp [hm])]
          · have hTail : t'.erasedTail =
                if (t.node k).next = none then none
                else t.erasedTail := by
              rw [← ht']
              rfl
            rw [hTail, h.tail]
            by_cases hNil : E' = []
            · rw [if_pos (hRest.eq_none_iff.mpr hNil), hNil]
              rfl
            · rw [if_neg (fun hNone =>
                hNil (hRest.eq_none_iff.mp hNone))]
              exact List.getLast?_cons_of_ne_nil hNil
          · have hCount : t'.erasedCount =
                t.erasedCount - 1 := by
              rw [← ht']
              rfl
            rw [hCount, h.count, List.length_cons]
            rfl
          · have hBad : t'.bad = t.bad := by
              rw [← ht']
              rfl
            rw [hBad]
            apply h.bad.congr
            intro m hm
            rw [hOld m (by simp [hm])]
          · rw [← ht']
            exact h.badCount
          · exact List.perm_middle
          · intro m hm
            rw [hOld m (List.mem_append_left _ hm)]
            have hm' : m ∈ k :: E' ++ B := by
              simp only [List.cons_append, List.mem_cons]
              exact Or.inr hm
            exact ⟨h.lists m hm',
              h.block m (List.mem_append_left _ hm')⟩

/- There is an erased block unless the list is empty. -/
theorem popErased_eq_none
    (h : Parts t E B H own) :
    t.popErased = none ↔ E = [] := by
  rw [← h.erased.eq_none_iff]
  unfold Tree.popErased
  cases t.erased with
  | none => simp
  | some n => simp

/- An append leaves the nodes of the other places alone. -/
theorem append_other
    {n m : Nat}
    (h : Parts t E B H own)
    (hMem : n ∈ H)
    (c : Option Nat)
    (hm : m ∈ B ++ t.entryNodes) :
    (t.appendErased n c).node m = t.node m := by
  apply t.appendErased_other
  · rw [h.tail]
    intro hEq
    have hNodup := h.nodup
    simp only [List.append_assoc] at hNodup
    have hApart := (List.nodup_append.mp hNodup).2.2
    refine hApart m (List.mem_of_getLast? hEq) m ?_ rfl
    rw [← List.append_assoc]
    exact List.mem_append_left _ hm
  · rintro rfl
    have hNot := h.held hMem
    rw [List.append_assoc] at hNot
    exact hNot (List.mem_append_right _ hm)

/- A held node is put at the end of the erased list. -/
theorem append
    {n : Nat}
    (h : Parts t E B H own)
    (hMem : n ∈ H)
    (hBlock : (t.node n).listBlock = own n)
    (c : Option Nat) :
    Parts (t.appendErased n c) (E ++ [n]) B (H.erase n) own
    := by
  have hNot := h.held hMem
  have hTail : t.erasedTail ≠ some n := by
    rw [h.tail]
    intro hEq
    exact hNot (by simp [List.mem_of_getLast? hEq])
  have hSelf := t.appendErased_same c hTail
  have hOther : ∀ m ∈ B ++ t.entryNodes,
      (t.appendErased n c).node m = t.node m :=
    fun m hm => h.append_other hMem c hm
  have hLastNode : ∀ m, E.getLast? = some m →
      (t.appendErased n c).node m =
        (t.node m).setNext (some n) := by
    intro m hm
    apply t.appendErased_tail c (h.tail.trans hm)
    rintro rfl
    exact hNot (by simp [List.mem_of_getLast? hm])
  have hFront : ∀ m ∈ E, E.getLast? ≠ some m →
      (t.appendErased n c).node m = t.node m := by
    intro m hm hNe
    apply t.appendErased_other
    · rw [h.tail]
      exact hNe
    · rintro rfl
      exact hNot (by simp [hm])
  apply h.relist
  · exact t.appendErased_entry c
  · exact t.appendErased_allocated c
  · intro m hm
    exact hOther m (List.mem_append_right _ hm)
  · have hSnoc := h.erased.snoc
      (g := fun m => ((t.appendErased n c).node m).next)
      (a := n) h.nodupErased ?_ ?_ ?_
    · exact hSnoc
    · rw [hSelf]
      rfl
    · intro m hm
      rw [hLastNode m hm]
      rfl
    · intro m hm hNe
      rw [hFront m hm hNe]
  · have hNew : (t.appendErased n c).erasedTail = some n := rfl
    rw [hNew, List.getLast?_append]
    rfl
  · have hNew : (t.appendErased n c).erasedCount =
        t.erasedCount + 1 := by
      unfold Tree.appendErased
      cases t.erasedTail <;> rfl
    rw [hNew, h.count, List.length_append]
    rfl
  · have hNew : (t.appendErased n c).bad = t.bad := by
      unfold Tree.appendErased
      cases t.erasedTail <;> rfl
    rw [hNew]
    apply h.bad.congr
    intro m hm
    rw [hOther m (List.mem_append_left _ hm)]
  · have hNew : (t.appendErased n c).badCount = t.badCount := by
      unfold Tree.appendErased
      cases t.erasedTail <;> rfl
    rw [hNew]
    exact h.badCount
  · have hErase := (List.perm_cons_erase hMem).symm
    simp only [List.append_assoc]
    apply List.Perm.append_left
    refine List.Perm.trans ?_ (hErase.append_left B)
    rw [List.singleton_append]
    exact List.perm_middle.symm
  · intro m hm
    by_cases hmn : m = n
    · subst hmn
      rw [hSelf]
      exact ⟨rfl, hBlock⟩
    · have hIn : m ∈ E ++ B := by
        simpa [hmn] using hm
      have hOld := h.lists m hIn
      have hOldBlock := h.block m (List.mem_append_left _ hIn)
      rcases List.mem_append.mp hIn with hE | hB
      · by_cases hLast : E.getLast? = some m
        · rw [hLastNode m hLast]
          refine ⟨rfl, ?_⟩
          rw [← hOldBlock, ← TreeNode.listBlock_of_isList hOld]
          rfl
        · rw [hFront m hE hLast]
          exact ⟨hOld, hOldBlock⟩
      · rw [hOther m (List.mem_append_left _ hB)]
        exact ⟨hOld, hOldBlock⟩

/- A change of `prev` that a list does not notice. -/
omit [Platform] in
theorem prev_isList
    {x y : TreeNode}
    {b : Nat}
    {o : Option Nat}
    (h : y = x ∨ y = x.setPrev o)
    (hList : x.isList)
    (hBlock : x.block = b) :
    y.next = x.next ∧ y.isList ∧ y.block = b := by
  rcases h with rfl | rfl
  · exact ⟨rfl, hList, hBlock⟩
  · refine ⟨rfl, rfl, ?_⟩
    rw [← hBlock, ← TreeNode.listBlock_of_isList hList]
    rfl

/-
  A held node is put in front of the erased list, which must
  not have a single node.
-/
theorem push
    {n : Nat}
    (h : Parts t E B H own)
    (hMem : n ∈ H)
    (hBlock : (t.node n).listBlock = own n)
    (hSingle : t.erasedIsSingle = false) :
    Parts (t.pushErased n) (n :: E) B (H.erase n) own := by
  have hNot := h.held hMem
  have hHead : t.erased ≠ some n := by
    rw [h.erased.head]
    intro hEq
    exact hNot (by simp [List.mem_of_head? hEq])
  have hSelf := t.pushErased_same hHead
  have hNe : ∀ m ∈ E ++ B ++ t.entryNodes, m ≠ n := by
    rintro m hm rfl
    exact hNot hm
  have hPrev : ∀ m ∈ E ++ B ++ t.entryNodes,
      (t.pushErased n).node m = t.node m ∨
        (t.pushErased n).node m =
          (t.node m).setPrev (some n) := by
    intro m hm
    rcases t.pushErased_other (hNe m hm) with hEq | ⟨_, hEq⟩
    · exact Or.inl hEq
    · exact Or.inr hEq
  have hOld : ∀ m ∈ E ++ B,
      ((t.pushErased n).node m).next = (t.node m).next ∧
        ((t.pushErased n).node m).isList ∧
        ((t.pushErased n).node m).block = own m := by
    intro m hm
    exact prev_isList (hPrev m (List.mem_append_left _ hm))
      (h.lists m hm) (h.block m (List.mem_append_left _ hm))
  apply h.relist
  · exact t.pushErased_entry
  · exact t.pushErased_allocated
  · intro m hm
    rcases t.pushErased_other
      (hNe m (List.mem_append_right _ hm)) with hEq | ⟨hE, _⟩
    · exact hEq
    · exfalso
      rw [h.erased.head] at hE
      have hNodup := h.nodup
      simp only [List.append_assoc] at hNodup
      refine (List.nodup_append.mp hNodup).2.2 m
        (List.mem_of_head? hE) m ?_ rfl
      simp [hm]
  · have hNew : (t.pushErased n).erased = some n := rfl
    rw [hNew]
    refine Linked.cons_iff.mpr ⟨rfl, ?_⟩
    rw [hSelf]
    apply h.erased.congr
    intro m hm
    exact (hOld m (List.mem_append_left _ hm)).1
  · have hNew : (t.pushErased n).erasedTail =
        if t.erased = t.erasedTail then some n
        else t.erasedTail := by
      unfold Tree.pushErased
      cases t.erased <;> rfl
    rw [hNew]
    cases E with
    | nil =>
        rw [h.erased.head, h.tail]
        rfl
    | cons a E =>
        have hSome : t.erased = some a := h.erased.head
        rw [if_neg ?_]
        · rw [h.tail]
          rfl
        · intro hEq
          unfold Tree.erasedIsSingle at hSingle
          rw [← hEq, hSome] at hSingle
          simp at hSingle
  · have hNew : (t.pushErased n).erasedCount =
        t.erasedCount + 1 := by
      unfold Tree.pushErased
      cases t.erased <;> rfl
    rw [hNew, h.count]
    rfl
  · have hNew : (t.pushErased n).bad = t.bad := by
      unfold Tree.pushErased
      cases t.erased <;> rfl
    rw [hNew]
    apply h.bad.congr
    intro m hm
    exact (hOld m (List.mem_append_right _ hm)).1
  · have hNew : (t.pushErased n).badCount = t.badCount := by
      unfold Tree.pushErased
      cases t.erased <;> rfl
    rw [hNew]
    exact h.badCount
  · have hErase := (List.perm_cons_erase hMem).symm
    simp only [List.cons_append]
    refine List.Perm.trans ?_ (hErase.append_left _)
    exact List.perm_middle.symm
  · intro m hm
    simp only [List.cons_append, List.mem_cons] at hm
    rcases hm with rfl | hIn
    · rw [hSelf]
      exact ⟨rfl, hBlock⟩
    · exact (hOld m hIn).2

/- The bad list does not touch the hash entries. -/
theorem pushBad_entryNode
    {n m : Nat}
    (h : Parts t E B H own)
    (hMem : n ∈ H)
    (hm : m ∈ t.entryNodes) :
    (t.pushBad n).node m = t.node m := by
  have hNe : m ≠ n := by
    rintro rfl
    exact h.held hMem (List.mem_append_right _ hm)
  rcases t.pushBad_other hNe with hEq | ⟨hB, _⟩
  · exact hEq
  · exfalso
    rw [h.bad.head] at hB
    have hNodup := h.nodup
    have hLeft := (List.nodup_append.mp hNodup).1
    refine (List.nodup_append.mp hLeft).2.2 m ?_ m hm rfl
    exact List.mem_append_right _ (List.mem_of_head? hB)

/- A held node is put into the bad list. -/
theorem pushBad
    {n : Nat}
    (h : Parts t E B H own)
    (hMem : n ∈ H)
    (hBlock : (t.node n).listBlock = own n) :
    Parts (t.pushBad n) E (n :: B) (H.erase n) own := by
  have hNot := h.held hMem
  have hHead : t.bad ≠ some n := by
    rw [h.bad.head]
    intro hEq
    exact hNot (by simp [List.mem_of_head? hEq])
  have hSelf := t.pushBad_same hHead
  have hNe : ∀ m ∈ E ++ B ++ t.entryNodes, m ≠ n := by
    rintro m hm rfl
    exact hNot hm
  have hOld : ∀ m ∈ E ++ B,
      ((t.pushBad n).node m).next = (t.node m).next ∧
        ((t.pushBad n).node m).isList ∧
        ((t.pushBad n).node m).block = own m := by
    intro m hm
    refine prev_isList (o := some n) ?_ (h.lists m hm)
      (h.block m (List.mem_append_left _ hm))
    rcases t.pushBad_other
      (hNe m (List.mem_append_left _ hm)) with hEq | ⟨_, hEq⟩
    · exact Or.inl hEq
    · exact Or.inr hEq
  apply h.relist
  · exact t.pushBad_entry
  · exact t.pushBad_allocated
  · intro m hm
    exact h.pushBad_entryNode hMem hm
  · have hNew : (t.pushBad n).erased = t.erased := by
      unfold Tree.pushBad
      cases t.bad <;> rfl
    rw [hNew]
    apply h.erased.congr
    intro m hm
    exact (hOld m (List.mem_append_left _ hm)).1
  · have hNew : (t.pushBad n).erasedTail = t.erasedTail := by
      unfold Tree.pushBad
      cases t.bad <;> rfl
    rw [hNew]
    exact h.tail
  · have hNew : (t.pushBad n).erasedCount = t.erasedCount := by
      unfold Tree.pushBad
      cases t.bad <;> rfl
    rw [hNew]
    exact h.count
  · have hNew : (t.pushBad n).bad = some n := rfl
    rw [hNew]
    refine Linked.cons_iff.mpr ⟨rfl, ?_⟩
    rw [hSelf]
    apply h.bad.congr
    intro m hm
    exact (hOld m (List.mem_append_right _ hm)).1
  · have hNew : (t.pushBad n).badCount = t.badCount + 1 := by
      unfold Tree.pushBad
      cases t.bad <;> rfl
    rw [hNew, h.badCount]
    rfl
  · have hErase := (List.perm_cons_erase hMem).symm
    simp only [List.append_assoc]
    apply List.Perm.append_left
    simp only [List.cons_append]
    refine List.Perm.trans ?_ (hErase.append_left B)
    exact List.perm_middle.symm
  · intro m hm
    have hCases : m = n ∨ m ∈ E ++ B := by
      simp only [List.mem_append, List.mem_cons] at hm
      simp only [List.mem_append]
      rcases hm with hE | rfl | hB
      · exact Or.inr (Or.inl hE)
      · exact Or.inl rfl
      · exact Or.inr (Or.inr hB)
    rcases hCases with rfl | hIn
    · rw [hSelf]
      exact ⟨rfl, hBlock⟩
    · exact (hOld m hIn).2

/- A held node goes into a hash entry. -/
theorem insert
    {n : Nat}
    {type : BlockType}
    (h : Parts t E B H own)
    (hMem : n ∈ H)
    (hResv : type ≠ .resv)
    (hType : (t.node n).type = type)
    (hBlock : (t.node n).block = own n) :
    Parts (t.insertNode type n) E B (H.erase n) own := by
  have hNode := t.insertNode_node (n := n) type
  have hPerm := t.insertNode_perm n hResv
  refine ⟨?_, ?_, ?_, ?_, ?_, ?_, ?_, ?_, ?_, ?_⟩
  · rw [hNode]
    have hNew : (t.insertNode type n).erased = t.erased := by
      cases type <;> rfl
    rw [hNew]
    exact h.erased
  · have hNew : (t.insertNode type n).erasedTail =
        t.erasedTail := by
      cases type <;> rfl
    rw [hNew]
    exact h.tail
  · have hNew : (t.insertNode type n).erasedCount =
        t.erasedCount := by
      cases type <;> rfl
    rw [hNew]
    exact h.count
  · rw [hNode]
    have hNew : (t.insertNode type n).bad = t.bad := by
      cases type <;> rfl
    rw [hNew]
    exact h.bad
  · have hNew : (t.insertNode type n).badCount = t.badCount := by
      cases type <;> rfl
    rw [hNew]
    exact h.badCount
  · rw [t.insertNode_allocated type]
    refine List.Perm.trans ?_ h.perm
    refine ((hPerm.append_left _).append_right _).trans ?_
    refine (List.perm_middle.append_right _).trans ?_
    rw [List.cons_append]
    refine List.perm_middle.symm.trans ?_
    exact (List.perm_cons_erase hMem).symm.append_left _
  · rw [t.insertNode_allocated type]
    exact h.owned
  · rw [hNode]
    exact h.lists
  · intro m hm
    rw [hNode]
    rcases List.mem_append.mp hm with hIn | hIn
    · exact h.block m (List.mem_append_left _ hIn)
    · rcases List.mem_cons.mp (hPerm.mem_iff.mp hIn) with
        hEq | hOld
      · rw [hEq]
        exact hBlock
      · exact h.block m (List.mem_append_right _ hOld)
  · intro type' k m hm
    rw [hNode]
    rcases Tree.mem_entry_insertNode hm with
      hOld | ⟨hEq, hT, hk⟩
    · exact h.hash type' k m hOld
    · rw [hEq, hT, hk]
      exact ⟨hType, rfl⟩

/- A node is taken out of its hash entry. -/
theorem breakOff
    {n : Nat}
    {type : BlockType}
    (h : Parts t E B H own)
    (hMem : n ∈ t.region type) :
    Parts (t.breakNode type n) E B (n :: H) own := by
  have hNode := t.breakNode_node (n := n) type
  have hEntry : n ∈ t.entry type ((t.node n).hash type) := by
    rcases List.mem_flatMap.mp hMem with ⟨k, _, hk⟩
    rw [(h.hash type k n hk).2]
    exact hk
  have hPerm := t.breakNode_perm hEntry
  refine ⟨?_, ?_, ?_, ?_, ?_, ?_, ?_, ?_, ?_, ?_⟩
  · rw [hNode]
    have hNew : (t.breakNode type n).erased = t.erased := by
      cases type <;> rfl
    rw [hNew]
    exact h.erased
  · have hNew : (t.breakNode type n).erasedTail =
        t.erasedTail := by
      cases type <;> rfl
    rw [hNew]
    exact h.tail
  · have hNew : (t.breakNode type n).erasedCount =
        t.erasedCount := by
      cases type <;> rfl
    rw [hNew]
    exact h.count
  · rw [hNode]
    have hNew : (t.breakNode type n).bad = t.bad := by
      cases type <;> rfl
    rw [hNew]
    exact h.bad
  · have hNew : (t.breakNode type n).badCount = t.badCount := by
      cases type <;> rfl
    rw [hNew]
    exact h.badCount
  · rw [t.breakNode_allocated type]
    refine List.Perm.trans ?_ h.perm
    refine List.perm_middle.trans ?_
    rw [← List.cons_append]
    apply List.Perm.append_right
    refine List.perm_middle.symm.trans ?_
    exact hPerm.append_left _
  · rw [t.breakNode_allocated type]
    exact h.owned
  · rw [hNode]
    exact h.lists
  · intro m hm
    rw [hNode]
    apply h.block
    rcases List.mem_append.mp hm with hIn | hIn
    · exact List.mem_append_left _ hIn
    · exact List.mem_append_right _
        (hPerm.mem_iff.mp (List.mem_cons_of_mem _ hIn))
  · intro type' k m hm
    rw [hNode]
    exact h.hash type' k m (Tree.mem_entry_breakNode hm)

/- The empty tree: no node has been allocated. -/
theorem init : Parts Tree.init [] [] [] fun n => n := by
  have hNone : ∀ type k n, n ∉ Tree.init.entry type k := by
    intro type k n hn
    cases type <;> exact absurd hn (by simp [Tree.entry, Tree.init])
  have hEmpty : Tree.init.entryNodes = [] := by
    apply List.eq_nil_iff_forall_not_mem.mpr
    intro n hn
    rcases Tree.mem_entryNodes.mp hn with ⟨type, k, _, hk⟩
    exact hNone type k n hk
  refine ⟨trivial, rfl, rfl, trivial, rfl, ?_, ?_, ?_, ?_, ?_⟩
  · rw [hEmpty]
    exact List.Perm.refl _
  · exact List.Perm.refl _
  · simp
  · rw [hEmpty]
    simp
  · intro type k n hn
    exact absurd hn (hNone type k n)

end Tree.Parts

end Uffs
