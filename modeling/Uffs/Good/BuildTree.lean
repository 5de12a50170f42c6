import Mathlib.Data.List.Find
import Mathlib.Data.List.Flatten
import Uffs.Good.StepOne

/-
  Building the tree (`uffs_BuildTree`) on a flash where every
  operation succeeds: the scan of the partition, the turn of
  the erased list and the round over the data blocks.

  Main declarations:
    * `Disk.Adopts`
    * `Disk.Mounted`
    * `wp_mount`
-/

namespace Uffs

open Prog

variable [Platform]

------------------------------------------------------------
-- Step Two
------------------------------------------------------------

/- Nothing is pending. -/
theorem wp_recoverIfPending
    {s : Dev}
    (hCount : s.pending.count = 0) :
    wp recoverIfPending (fun _ es t => es = [] ∧ t = s) s := by
  simp only [recoverIfPending, haveBadBlock, wp_bind, wp_gets,
    hCount, Nat.lt_irrefl, decide_false, Bool.false_eq_true,
    if_false, wp_pure, List.append_nil, and_self]

theorem Rests.setTree
    {s : Dev}
    {d : Disk}
    (h : Rests s d)
    (f : Tree → Tree) :
    Rests { s with tree := f s.tree }
      { d with tree := f d.tree } where
  mounting := by
    have hs := h.mounting
    exact ⟨hs.toCalm.congr (Nat.le_refl _) rfl rfl rfl rfl,
      hs.noPending, hs.noRecovery, hs.bufs, hs.empty⟩
  flash := h.flash
  tree := by
    change f s.tree = f d.tree
    rw [h.tree]

/- A turn of the erased list does not concern the scan. -/
theorem Disk.Scanned.turn
    {F : Flash}
    {d : Disk}
    {b n : Nat}
    {t : Tree}
    (h : d.Scanned F b)
    (hPop : d.tree.popErased = some (n, t)) :
    Disk.Scanned F
      { d with tree := t.appendErased n none } b := by
  rcases h.parts with ⟨E, B, H, own, hParts⟩
  rcases hParts.pop hPop with
    ⟨E', rfl, hPopped, hNode, hEntry, hAllocated⟩
  have hMem : n ∈ n :: H := List.mem_cons_self
  have hIn : n ∈ n :: E' ++ B := by simp
  have hBlock : (t.node n).listBlock = own n := by
    rw [hNode, upd_same]
    change (d.tree.node n).listBlock = own n
    rw [TreeNode.listBlock_of_isList (hParts.lists n hIn)]
    exact hParts.block n (List.mem_append_left _ hIn)
  have hNew := hPopped.append hMem hBlock none
  have hEntries : (t.appendErased n none).entry =
      d.tree.entry := by
    rw [t.appendErased_entry, hEntry]
  have hNodes := d.tree.entryNodes_congr hEntries
  have hSame : ∀ m ∈ d.tree.entryNodes,
      (t.appendErased n none).node m = d.tree.node m := by
    intro m hm
    have hm' : m ∈ B ++ t.entryNodes := by
      rw [d.tree.entryNodes_congr hEntry]
      exact List.mem_append_right _ hm
    rw [hPopped.append_other hMem none hm', hNode]
    apply upd_other
    rintro rfl
    have hNot := hPopped.held hMem
    rw [d.tree.entryNodes_congr hEntry] at hNot
    exact hNot (List.mem_append_right _ hm)
  refine ⟨?_, ⟨_, _, _, _, hNew⟩, ?_, ?_⟩
  · refine h.filed.keep (Nat.le_refl b) hEntries hSame ?_ ?_
    · intro _ _
      exact ⟨rfl, rfl⟩
    · intro _ _
      exact ⟨rfl, rfl⟩
  · rw [← h.allocated]
    change parStart + (t.appendErased n none).allocated = _
    rw [t.appendErased_allocated, hAllocated]
  · intro x hStart hLt hRival hNamed
    rcases h.covers x hStart hLt hRival hNamed with
      ⟨m, hm, hBlock⟩ | hOusts
    · left
      refine ⟨m, ?_, ?_⟩
      · rw [hNodes]
        exact hm
      · rw [hSame m hm]
        exact hBlock
    · exact Or.inr hOusts

theorem wp_stepTwoFrom
    {F : Flash}
    {b : Nat}
    (k : Nat) :
    ∀ (s : Dev) (d : Disk),
      Rests s d →
      d.Scanned F b →
      k ≤ d.tree.erasedCount →
      wp (stepTwoFrom k)
        (fun r _ t => r = .succ ∧
          ∃ d', Rests t d' ∧ d'.Scanned F b) s := by
  induction k with
  | zero =>
      intro s d h hScanned _
      simp only [stepTwoFrom, wp_pure, true_and]
      exact ⟨d, h, hScanned⟩
  | succ k ih =>
      intro s d h hScanned hk
      rcases hScanned.parts with ⟨E, B, H, own, hParts⟩
      unfold stepTwoFrom
      cases hPop : d.tree.popErased with
      | none =>
          have hNil := hParts.popErased_eq_none.mp hPop
          have hCount := hParts.count
          rw [hNil] at hCount
          simp only [List.length_nil] at hCount
          omega
      | some p =>
          rcases p with ⟨n, t⟩
          simp only [treeGetErasedNodeNoCheck, wp_bind, wp_get,
            h.tree, hPop, modifyTree, wp_modify, wp_pure,
            treeInsertToErasedListTailEx]
          rcases hParts.pop hPop with
            ⟨E', hE, hPopped, _⟩
          have hCount : (t.appendErased n none).erasedCount =
              d.tree.erasedCount := by
            have hNew : (t.appendErased n none).erasedCount =
                t.erasedCount + 1 := by
              unfold Tree.appendErased
              cases t.erasedTail <;> rfl
            rw [hNew, hPopped.count, hParts.count, hE]
            rfl
          have hTurn := h.setTree fun _ => t.appendErased n none
          refine wp_mono (ih _ _ hTurn (hScanned.turn hPop)
            ?_) ?_
          · change k ≤ (t.appendErased n none).erasedCount
            omega
          · intro r _ u hu
            exact hu

theorem wp_buildTreeStepTwo
    {F : Flash}
    {b : Nat}
    {s : Dev}
    {d : Disk}
    (h : Rests s d)
    (hScanned : d.Scanned F b) :
    wp buildTreeStepTwo
      (fun r _ t => r = .succ ∧
        ∃ d', Rests t d' ∧ d'.Scanned F b) s := by
  have hs := h.mounting
  have hTick : Rests { s with clock := s.clock + 1 } d := by
    refine ⟨?_, h.flash, h.tree⟩
    exact ⟨hs.toCalm.congr (Nat.le_succ _) rfl rfl rfl rfl,
      hs.noPending, hs.noRecovery, hs.bufs, hs.empty⟩
  simp only [buildTreeStepTwo, getCurDateTime, nextAnswer,
    wp_bind, wp_get, wp_modify, wp_pure]
  refine wp_mono (wp_stepTwoFrom _ _ d hTick hScanned ?_) ?_
  · rw [h.tree]
    exact Nat.le_of_lt_succ (Nat.mod_lt _ (Nat.succ_pos _))
  · intro r _ u hu
    exact hu

------------------------------------------------------------
-- Step Three as a Function
------------------------------------------------------------

namespace Disk

/- A data block without a file. -/
def Orphan (d : Disk) (n : Nat) : Prop :=
  d.tree.findFileNode (d.tree.node n).parent = none

/- Take a data block without a file out of the tree. -/
def disown (d : Disk) (work : Nat) : Disk :=
  Disk.erase
    { d with
      tree := (d.tree.breakNode .data work).setNode work
        fun x => .list none none x.block 0 }
    work (d.tree.node work).block

/- One round of `_BuildTreeStepThree`. -/
def adopt (d : Disk) (work : Nat) : Disk :=
  match d.tree.findFileNode (d.tree.node work).parent with
  | none => d.disown work
  | some n =>
      { d with
        tree := d.tree.setNode n fun x =>
          x.setLen (x.len + (d.tree.node work).len) }

/- The rounds over the data entries from `i` on. -/
def adoptFrom : Nat → Nat → Disk → Disk
| 0, _, d => d
| n + 1, i, d =>
    adoptFrom n (i + 1) ((d.tree.dataEntry i).foldl adopt d)

end Disk

/- The bytes of the data blocks in `P` of one file. -/
def Tree.share (t : Tree) (P : List Nat) (serial : Nat) : Nat :=
  ((P.filter fun w => (t.node w).parent == serial).map
    fun w => (t.node w).len).sum

omit [Platform] in
theorem Tree.share_append
    (t : Tree)
    (P : List Nat)
    (w serial : Nat) :
    t.share (P ++ [w]) serial =
      t.share P serial +
        if (t.node w).parent = serial then (t.node w).len
        else 0 := by
  unfold Tree.share
  rw [List.filter_append, List.map_append, List.sum_append]
  by_cases hEq : (t.node w).parent = serial
  · simp [hEq]
  · simp [hEq]

/-
  What the rounds over the data blocks in `P` have made of
  the disk `d₀`.
-/
structure Disk.Adopts (d₀ : Disk) (P : List Nat) (d : Disk) :
    Prop where
  parts : ∃ E B H own, d.tree.Parts E B H own
  dirEntry : d.tree.dirEntry = d₀.tree.dirEntry
  fileEntry : d.tree.fileEntry = d₀.tree.fileEntry
  dataEntry : ∀ k, (∀ n ∈ P, n ∉ d₀.tree.dataEntry k) →
    d.tree.dataEntry k = d₀.tree.dataEntry k
  data : ∀ n, n ∈ d.tree.region .data ↔
    n ∈ d₀.tree.region .data ∧ ¬ (n ∈ P ∧ d₀.Orphan n)
  same : ∀ n ∈ d.tree.entryNodes, n ∉ d₀.tree.region .file →
    d.tree.node n = d₀.tree.node n
  grown : ∀ n ∈ d₀.tree.region .file,
    d.tree.node n = (d₀.tree.node n).setLen
      ((d₀.tree.node n).len +
        d₀.tree.share P (d₀.tree.node n).serial)
  flash : ∀ x,
    (∀ n ∈ P, d₀.Orphan n → (d₀.tree.node n).block ≠ x) →
      d.flash.page x = d₀.flash.page x ∧
        d.flash.bad x = d₀.flash.bad x

namespace TreeNode

variable (x : TreeNode) (l : Nat)

omit [Platform]

@[simp] theorem setLen_serial :
    (x.setLen l).serial = x.serial := by
  cases x <;> rfl

@[simp] theorem setLen_parent :
    (x.setLen l).parent = x.parent := by
  cases x <;> rfl

@[simp] theorem setLen_block :
    (x.setLen l).block = x.block := by
  cases x <;> rfl

@[simp] theorem setLen_type :
    (x.setLen l).type = x.type := by
  cases x <;> rfl

@[simp] theorem setLen_checksum :
    (x.setLen l).checksum = x.checksum := by
  cases x <;> rfl

@[simp] theorem setLen_hash (type : BlockType) :
    (x.setLen l).hash type = x.hash type := by
  cases type <;> simp [hash]

@[simp] theorem setLen_key : (x.setLen l).key = x.key := by
  unfold key
  simp

theorem setLen_setLen (k : Nat) :
    (x.setLen k).setLen l = x.setLen l := by
  cases x <;> rfl

theorem setLen_len
    (h : x.type = .file ∨ x.type = .data) :
    (x.setLen l).len = l := by
  cases x with
  | list _ _ _ _ => simp [type] at h
  | dir _ _ _ _ => simp [type] at h
  | file _ _ _ _ _ => rfl
  | data _ _ _ _ => rfl

theorem setLen_self : x.setLen x.len = x := by
  cases x <;> rfl

end TreeNode

/- A node that is found as the file of a serial number. -/
omit [Platform] in
theorem Tree.findFileNode_some
    {t : Tree}
    {n serial : Nat}
    (hFind : t.findFileNode serial = some n) :
    n ∈ t.region .file ∧ (t.node n).serial = serial := by
  have hMem := List.mem_of_find?_eq_some hFind
  have hEq := List.find?_some hFind
  refine ⟨?_, by simpa using hEq⟩
  exact Tree.mem_region.mpr ⟨_, Nat.mod_lt _ (by decide), hMem⟩

namespace Disk

variable {d₀ d : Disk} {P : List Nat}
variable {E B H : List Nat} {own : Nat → Nat}

theorem adopts_nil
    (hParts : d₀.tree.Parts E B H own) :
    Adopts d₀ [] d₀ := by
  refine ⟨⟨_, _, _, _, hParts⟩, rfl, rfl, ?_, ?_, ?_, ?_, ?_⟩
  · intro _ _
    rfl
  · intro n
    simp
  · intro _ _ _
    rfl
  · intro n _
    simp [Tree.share, TreeNode.setLen_self]
  · intro _ _
    exact ⟨rfl, rfl⟩

/- The files are found as before. -/
theorem Adopts.findFileNode
    (h : Adopts d₀ P d)
    (serial : Nat) :
    d.tree.findFileNode serial =
      d₀.tree.findFileNode serial := by
  unfold Tree.findFileNode
  rw [h.fileEntry]
  have hSame : ∀ n ∈ d₀.tree.fileEntry (getFileHash serial),
      ((d.tree.node n).serial == serial) =
        ((d₀.tree.node n).serial == serial) := by
    intro n hn
    have hRegion : n ∈ d₀.tree.region .file :=
      Tree.mem_region.mpr ⟨_, Nat.mod_lt _ (by decide), hn⟩
    rw [h.grown n hRegion, TreeNode.setLen_serial]
  exact List.find?_congr hSame

/- Two regions have no node in common. -/
theorem region_disjoint
    {n : Nat}
    {type type' : BlockType}
    (hParts : d₀.tree.Parts E B H own)
    (h : n ∈ d₀.tree.region type)
    (h' : n ∈ d₀.tree.region type') : type = type' := by
  rw [← hParts.type_of_mem h, ← hParts.type_of_mem h']

/- A data block is added to its file. -/
theorem Adopts.grow
    {n work : Nat}
    (h : Adopts d₀ P d)
    (hParts : d₀.tree.Parts E B H own)
    (hUnique : ∀ n ∈ d₀.tree.entryNodes,
      ∀ m ∈ d₀.tree.entryNodes,
        (d₀.tree.node n).key = (d₀.tree.node m).key → n = m)
    (hFind : d₀.tree.findFileNode (d₀.tree.node work).parent =
      some n) :
    Adopts d₀ (P ++ [work])
      { d with
        tree := d.tree.setNode n fun x =>
          x.setLen (x.len + (d₀.tree.node work).len) } := by
  rcases Tree.findFileNode_some hFind with ⟨hFile, hSerial⟩
  rcases h.parts with ⟨E', B', H', own', hPartsNow⟩
  have hNode := h.grown n hFile
  have hType := hParts.type_of_mem hFile
  have hEntry : n ∈ d.tree.entryNodes := by
    rcases Tree.mem_region.mp hFile with ⟨k, hk, hIn⟩
    refine Tree.mem_entryNodes.mpr ⟨.file, k, hk, ?_⟩
    change n ∈ d.tree.fileEntry k
    rw [h.fileEntry]
    exact hIn
  have hOrphan : ¬ d₀.Orphan work := by
    unfold Orphan
    rw [hFind]
    simp
  have hOther : ∀ m, m ≠ n →
      (d.tree.setNode n fun x =>
        x.setLen (x.len + (d₀.tree.node work).len)).node m =
          d.tree.node m :=
    fun m hm => Tree.setNode_other _ _ hm
  refine ⟨⟨E', B', H', own', ?_⟩, h.dirEntry, h.fileEntry, ?_,
    ?_, ?_, ?_, ?_⟩
  · apply hPartsNow.change rfl
    · intro m hm
      refine ⟨hOther m ?_, rfl⟩
      rintro rfl
      have hNodup := (List.nodup_append.mp hPartsNow.nodup).1
      exact (List.nodup_append.mp hNodup).2.2 m hm m hEntry rfl
    · intro m hm
      have hBlock := hPartsNow.block m
        (List.mem_append_right _ hm)
      by_cases hmn : m = n
      · subst hmn
        simp [hBlock]
      · rw [hOther m hmn]
        exact ⟨hBlock, rfl, rfl⟩
    · exact hPartsNow.owned
  · intro k hk
    apply h.dataEntry k
    intro m hm
    exact hk m (List.mem_append_left _ hm)
  · intro m
    have hSame : (m ∈ P ++ [work] ∧ d₀.Orphan m) ↔
        (m ∈ P ∧ d₀.Orphan m) := by
      constructor
      · rintro ⟨hm, hO⟩
        rcases List.mem_append.mp hm with hIn | hIn
        · exact ⟨hIn, hO⟩
        · rw [List.mem_singleton] at hIn
          rw [hIn] at hO
          exact absurd hO hOrphan
      · rintro ⟨hm, hO⟩
        exact ⟨List.mem_append_left _ hm, hO⟩
    rw [hSame]
    exact h.data m
  · intro m hm hNot
    have hmn : m ≠ n := by
      rintro rfl
      exact hNot hFile
    rw [hOther m hmn]
    exact h.same m hm hNot
  · intro m hm
    rw [Tree.share_append]
    by_cases hmn : m = n
    · subst hmn
      rw [Tree.setNode_same, hNode, TreeNode.setLen_setLen,
        TreeNode.setLen_len _ _ (Or.inl hType), if_pos hSerial.symm,
        Nat.add_assoc]
    · rw [hOther m hmn, if_neg ?_]
      · exact h.grown m hm
      · intro hEq
        refine hmn (hUnique m (Tree.region_subset hm) n
          (Tree.region_subset hFile) ?_)
        unfold TreeNode.key
        rw [hParts.type_of_mem hm, hType, hSerial, hEq]
        rfl
  · intro x hx
    apply h.flash x
    intro m hm
    exact hx m (List.mem_append_left _ hm)

/- A data block without a file is erased. -/
theorem Adopts.disown
    {work : Nat}
    (h : Adopts d₀ P d)
    (hParts : d₀.tree.Parts E B H own)
    (hWork : work ∈ d₀.tree.region .data)
    (hNew : work ∉ P)
    (hOrphan : d₀.Orphan work) :
    Adopts d₀ (P ++ [work]) (d.disown work) := by
  rcases h.parts with ⟨E', B', H', own', hPartsNow⟩
  have hIn : work ∈ d.tree.region .data :=
    (h.data work).mpr ⟨hWork, fun hOld => hNew hOld.1⟩
  have hInNodes := Tree.region_subset hIn
  have hNotFile : work ∉ d₀.tree.region .file := by
    intro hFile
    cases region_disjoint hParts hWork hFile
  have hNode := h.same work hInNodes hNotFile
  have hBroken := hPartsNow.breakOff hIn
  have hMem : work ∈ work :: H' := List.mem_cons_self
  have hHeld := hBroken.setHeld hMem fun x =>
    .list none none x.block 0
  have hOwn : own' work = (d.tree.node work).block :=
    (hPartsNow.block work
      (List.mem_append_right _ hInNodes)).symm
  let d₁ : Disk :=
    { d with
      tree := (d.tree.breakNode .data work).setNode work
        fun x => .list none none x.block 0 }
  have hParts₁ : d₁.tree.Parts E' B' (work :: H') own' := hHeld
  have hEntry₁ : (d.disown work).tree.entry =
      (d.tree.breakNode .data work).entry := by
    have hErase := erase_entry (d := d₁) (n := work)
      (d.tree.node work).block
    rw [show (d.disown work) = d₁.erase work
      (d.tree.node work).block from rfl, hErase]
    exact Tree.setNode_entry _ _
  have hDrop : ∀ m, m ∈ (d.disown work).tree.entryNodes ↔
      m ∈ d.tree.entryNodes ∧ m ≠ work := by
    intro m
    rw [Tree.entryNodes_congr _ hEntry₁]
    exact mem_drop hPartsNow hIn
  have hNodes₁ : d₁.tree.entryNodes =
      (d.tree.breakNode .data work).entryNodes :=
    Tree.entryNodes_congr _ (Tree.setNode_entry _ _)
  have hSame : ∀ m ∈ (d.disown work).tree.entryNodes,
      (d.disown work).tree.node m = d.tree.node m := by
    intro m hm
    have hm₁ : m ∈ d₁.tree.entryNodes := by
      rw [hNodes₁, ← Tree.entryNodes_congr _ hEntry₁]
      exact hm
    have hErase := erase_node (x := (d.tree.node work).block)
      hParts₁ hMem hm₁
    refine hErase.trans ?_
    have hSet := Tree.setNode_other (d.tree.breakNode .data work)
      (fun x => .list none none x.block 0) ((hDrop m).mp hm).2
    exact hSet.trans (congrFun (Tree.breakNode_node _ _) m)
  have hDir : (d.disown work).tree.dirEntry =
      d.tree.dirEntry := congrFun hEntry₁ .dir
  have hFile : (d.disown work).tree.fileEntry =
      d.tree.fileEntry := congrFun hEntry₁ .file
  have hData : ∀ k, (d.disown work).tree.dataEntry k =
      (d.tree.breakNode .data work).dataEntry k :=
    fun k => congrFun (congrFun hEntry₁ .data) k
  refine ⟨⟨_, _, _, _, erase_parts hParts₁ hMem hOwn⟩,
    hDir.trans h.dirEntry, hFile.trans h.fileEntry, ?_, ?_, ?_,
    ?_, ?_⟩
  · intro k hk
    have hOld := h.dataEntry k fun m hm =>
      hk m (List.mem_append_left _ hm)
    rw [hData k, ← hOld]
    unfold Tree.breakNode
    apply upd_other
    intro hHash
    refine hk work (by simp) ?_
    rw [← hOld]
    rcases Tree.mem_region.mp hIn with ⟨j, _, hj⟩
    have hj' := (hPartsNow.hash .data j work hj).2
    change getDataHash _ _ = j at hj'
    rw [hHash, hj']
    exact hj
  · intro m
    have hRegion : m ∈ (d.disown work).tree.region .data ↔
        m ∈ d.tree.region .data ∧ m ≠ work := by
      constructor
      · intro hm
        have hAll := (hDrop m).mp (Tree.region_subset hm)
        rcases Tree.mem_region.mp hm with ⟨k, hk, hmk⟩
        refine ⟨Tree.mem_region.mpr ⟨k, hk, ?_⟩, hAll.2⟩
        change m ∈ (d.disown work).tree.dataEntry k at hmk
        rw [hData k] at hmk
        have hmk' : m ∈ (d.tree.breakNode .data work).entry
            .data k := hmk
        exact Tree.mem_entry_breakNode hmk'
      · rintro ⟨hm, hNe⟩
        have hAll := (hDrop m).mpr ⟨Tree.region_subset hm, hNe⟩
        rcases Tree.mem_entryNodes.mp hAll with
          ⟨type, k, hk, hmk⟩
        rw [hEntry₁] at hmk
        have hOld := Tree.mem_entry_breakNode hmk
        have hType : type = .data := region_disjoint hPartsNow
          (Tree.mem_region.mpr ⟨k, hk, hOld⟩) hm
        subst hType
        refine Tree.mem_region.mpr ⟨k, hk, ?_⟩
        rw [hEntry₁]
        exact hmk
    rw [hRegion, h.data m]
    constructor
    · rintro ⟨⟨hm, hNot⟩, hNe⟩
      refine ⟨hm, ?_⟩
      rintro ⟨hOld, hO⟩
      rcases List.mem_append.mp hOld with hP | hEq
      · exact hNot ⟨hP, hO⟩
      · exact hNe (List.mem_singleton.mp hEq)
    · rintro ⟨hm, hNot⟩
      refine ⟨⟨hm, ?_⟩, ?_⟩
      · rintro ⟨hP, hO⟩
        exact hNot ⟨List.mem_append_left _ hP, hO⟩
      · rintro rfl
        exact hNot ⟨by simp, hOrphan⟩
  · intro m hm hNotF
    rw [hSame m hm]
    exact h.same m ((hDrop m).mp hm).1 hNotF
  · intro m hm
    have hm₁ : m ∈ d.tree.entryNodes := by
      rcases Tree.mem_region.mp hm with ⟨k, hk, hmk⟩
      refine Tree.mem_entryNodes.mpr ⟨.file, k, hk, ?_⟩
      change m ∈ d.tree.fileEntry k
      rw [h.fileEntry]
      exact hmk
    have hNe : m ≠ work := by
      rintro rfl
      exact hNotFile hm
    rw [hSame m ((hDrop m).mpr ⟨hm₁, hNe⟩), h.grown m hm,
      Tree.share_append, if_neg, Nat.add_zero]
    intro hEq
    have hFindNone := List.find?_eq_none.mp hOrphan m ?_
    · simp [hEq] at hFindNone
    · rcases Tree.mem_region.mp hm with ⟨k, _, hmk⟩
      have hHash := (hParts.hash .file k m hmk).2
      change getFileHash _ = k at hHash
      rw [hEq, hHash]
      exact hmk
  · intro x hx
    have hOld := h.flash x fun m hm =>
      hx m (List.mem_append_left _ hm)
    have hNe : x ≠ (d.tree.node work).block := by
      intro hEq
      refine hx work (by simp) hOrphan ?_
      rw [hEq, hNode]
    have hErase := erase_flash_other (d := d₁) (n := work) hNe
    refine ⟨?_, ?_⟩
    · exact hErase.1.trans hOld.1
    · exact hErase.2.trans hOld.2

/- A node that has not been looked at is as it was. -/
theorem Adopts.node_eq
    {work : Nat}
    (h : Adopts d₀ P d)
    (hParts : d₀.tree.Parts E B H own)
    (hWork : work ∈ d₀.tree.region .data)
    (hNew : work ∉ P) :
    d.tree.node work = d₀.tree.node work := by
  have hIn : work ∈ d.tree.region .data :=
    (h.data work).mpr ⟨hWork, fun hOld => hNew hOld.1⟩
  apply h.same work (Tree.region_subset hIn)
  intro hFile
  cases region_disjoint hParts hWork hFile

theorem Adopts.adopt
    {work : Nat}
    (h : Adopts d₀ P d)
    (hParts : d₀.tree.Parts E B H own)
    (hUnique : ∀ n ∈ d₀.tree.entryNodes,
      ∀ m ∈ d₀.tree.entryNodes,
        (d₀.tree.node n).key = (d₀.tree.node m).key → n = m)
    (hWork : work ∈ d₀.tree.region .data)
    (hNew : work ∉ P) :
    Adopts d₀ (P ++ [work]) (d.adopt work) := by
  have hNode := h.node_eq hParts hWork hNew
  unfold Disk.adopt
  rw [hNode, h.findFileNode]
  cases hFind :
      d₀.tree.findFileNode (d₀.tree.node work).parent with
  | none => exact h.disown hParts hWork hNew hFind
  | some n => exact h.grow hParts hUnique hFind

end Disk

------------------------------------------------------------
-- Step Three
------------------------------------------------------------

/- A device at rest may erase a block. -/
theorem wp_eraseAndFile_rests
    {s : Dev}
    {d : Disk}
    {n x : Nat}
    (h : Rests s d)
    (hx : x ≠ invalidBlock) :
    wp (eraseAndFile n x) (fun _ _ t => Rests t (d.erase n x)) s
    := by
  rcases h.free with ⟨i, hi, _⟩
  have hStands : Stands s i (s.bc.info i).block idle d :=
    ⟨h.mounting, hi, rfl, h.flash, h.tree⟩
  refine wp_mono (wp_eraseAndFile hStands hx) ?_
  intro _ _ t ht
  exact ⟨ht.1.mounting, ht.1.flash, ht.1.tree⟩

theorem wp_stepThreeNode
    {s : Dev}
    {d : Disk}
    {work : Nat}
    (h : Rests s d)
    (hBlock : (d.tree.node work).block ≠ invalidBlock) :
    wp (stepThreeNode work)
      (fun _ _ t => Rests t (d.adopt work)) s := by
  simp only [stepThreeNode, getNode, treeFindFileNode, wp_bind,
    wp_gets, h.tree]
  unfold Disk.adopt
  cases hFind :
      d.tree.findFileNode (d.tree.node work).parent with
  | none =>
      simp only [breakFromEntry, setNode, modifyTree, wp_bind,
        wp_modify]
      have hBreak := (h.setTree fun t =>
        t.breakNode .data work).setTree fun t =>
          t.setNode work fun x => .list none none x.block 0
      exact wp_eraseAndFile_rests hBreak hBlock
  | some n =>
      simp only [setNode, modifyTree, wp_modify]
      exact h.setTree fun t => t.setNode n fun x =>
        x.setLen (x.len + (d.tree.node work).len)

/- What step three needs to know of the disk it starts with. -/
structure Disk.Adoptable (d : Disk) : Prop where
  parts : ∃ E B H own, d.tree.Parts E B H own
  unique : ∀ n ∈ d.tree.entryNodes, ∀ m ∈ d.tree.entryNodes,
    (d.tree.node n).key = (d.tree.node m).key → n = m
  block : ∀ n ∈ d.tree.entryNodes,
    (d.tree.node n).block ≠ invalidBlock

theorem wp_stepThreeChain
    {d₀ : Disk}
    (l : List Nat)
    (h₀ : d₀.Adoptable)
    (hData : ∀ n ∈ l, n ∈ d₀.tree.region .data) :
    ∀ (s : Dev) (d : Disk) (P : List Nat),
      Rests s d →
      Disk.Adopts d₀ P d →
      (P ++ l).Nodup →
      wp (stepThreeChain l)
        (fun _ _ t => ∃ d', Rests t d' ∧
          Disk.Adopts d₀ (P ++ l) d') s := by
  rcases h₀.parts with ⟨E, B, H, own, hParts⟩
  induction l with
  | nil =>
      intro s d P h hAdopts _
      simp only [stepThreeChain, wp_pure, List.append_nil]
      exact ⟨d, h, hAdopts⟩
  | cons work l ih =>
      intro s d P h hAdopts hNodup
      have hWork := hData work (by simp)
      have hNew : work ∉ P := by
        intro hIn
        exact (List.nodup_append.mp hNodup).2.2 work hIn work
          (by simp) rfl
      have hNode := hAdopts.node_eq hParts hWork hNew
      have hBlock : (d.tree.node work).block ≠ invalidBlock := by
        rw [hNode]
        exact h₀.block work (Tree.region_subset hWork)
      have hNext := hAdopts.adopt hParts h₀.unique hWork hNew
      unfold stepThreeChain
      refine wp_seq (wp_stepThreeNode h hBlock) ?_
      intro _ _ t ht
      have hSplit : P ++ work :: l = P ++ [work] ++ l := by simp
      rw [hSplit] at hNodup ⊢
      refine wp_mono (ih (fun n hn => hData n (by simp [hn]))
        t _ _ ht hNext hNodup) ?_
      intro _ _ u hu
      exact hu

theorem wp_stepThreeFrom
    {d₀ : Disk}
    (k : Nat)
    (h₀ : d₀.Adoptable) :
    ∀ (s : Dev) (d : Disk) (i : Nat),
      Rests s d →
      Disk.Adopts d₀ ((List.range i).flatMap d₀.tree.dataEntry)
        d →
      i + k = 512 →
      wp (stepThreeFrom k i)
        (fun _ _ t => ∃ d', Rests t d' ∧
          Disk.Adopts d₀ d₀.tree.dataNodes d') s := by
  rcases h₀.parts with ⟨E, B, H, own, hParts⟩
  induction k with
  | zero =>
      intro s d i h hAdopts hSum
      simp only [Nat.add_zero] at hSum
      subst hSum
      simp only [stepThreeFrom, wp_pure]
      exact ⟨d, h, hAdopts⟩
  | succ k ih =>
      intro s d i h hAdopts hSum
      have hRegion : ∀ n ∈ d₀.tree.dataEntry i,
          n ∈ d₀.tree.region .data := by
        intro n hn
        refine Tree.mem_region.mpr ⟨i, ?_, hn⟩
        change i < 512
        omega
      have hHash : ∀ j, ∀ n ∈ d₀.tree.dataEntry j,
          (d₀.tree.node n).hash .data = j :=
        fun j n hn => (hParts.hash .data j n hn).2
      have hSame : d.tree.dataEntry i = d₀.tree.dataEntry i := by
        apply hAdopts.dataEntry i
        intro n hn hIn
        rcases List.mem_flatMap.mp hn with ⟨j, hj, hnj⟩
        have hEq := (hHash j n hnj).symm.trans (hHash i n hIn)
        have hLt := List.mem_range.mp hj
        omega
      have hNodup : (List.range i).flatMap d₀.tree.dataEntry ++
          d₀.tree.dataEntry i =
            (List.range (i + 1)).flatMap d₀.tree.dataEntry := by
        rw [List.range_succ, List.flatMap_append,
          List.flatMap_singleton]
      have hAll : d₀.tree.dataNodes.Nodup := by
        have hEntry := (List.nodup_append.mp hParts.nodup).1
        have hNodes := (List.nodup_append.mp hEntry).2.1
        exact (List.nodup_append.mp hNodes).2.1
      have hPrefix : ((List.range (i + 1)).flatMap
          d₀.tree.dataEntry).Nodup := by
        have hSub : (List.range (i + 1)).Sublist
            (List.range 512) := by
          have hLe : i + 1 ≤ 512 := by omega
          exact List.range_sublist.mpr hLe
        exact hAll.sublist (hSub.flatMap _)
      unfold stepThreeFrom
      simp only [wp_bind, wp_get, h.tree, hSame]
      refine wp_mono (wp_stepThreeChain _ h₀ hRegion s d _ h
        hAdopts ?_) ?_
      · rw [hNodup]
        exact hPrefix
      · intro _ _ t ht
        rcases ht with ⟨d', ht, hAdopts'⟩
        rw [hNodup] at hAdopts'
        refine wp_mono (ih t d' (i + 1) ht hAdopts'
          (by omega)) ?_
        intro _ _ u hu
        exact hu

------------------------------------------------------------
-- Mounting
------------------------------------------------------------

/-
  The disk after a mount of the flash `F`: the scan, and the
  round over the data blocks that it has entered.
-/
def Disk.Mounted (F : Flash) (d : Disk) : Prop :=
  ∃ d₀ : Disk, d₀.Scanned F (parStart + nodeCount) ∧
    Disk.Adopts d₀ d₀.tree.dataNodes d

theorem Disk.Scanned.adoptable
    {F : Flash}
    {d : Disk}
    (h : d.Scanned F (parStart + nodeCount)) : d.Adoptable := by
  refine ⟨h.parts, h.filed.unique, ?_⟩
  intro n hn
  rcases h.filed.entry n hn with ⟨x, _, hLt, _, _, _, hStands⟩
  have hEnd := Platform.parEnd_lt
  have hOrder := Platform.parStart_le_parEnd
  have hCount : parStart + nodeCount = parEnd + 1 := by
    unfold nodeCount
    omega
  rw [hStands.block.1]
  unfold invalidBlock
  omega

/- The disk that a mount of `F` starts from. -/
def Disk.start (F : Flash) : Disk where
  flash := F
  tree := Tree.init

/- A device after `uffs_TreeInit` and the other inits. -/
theorem rests_init
    (F : Flash)
    {clock : Nat}
    (w : Watch)
    (hGood : GoodFrom clock) :
    Rests { Dev.init F clock with watch := w }
      (Disk.start F) := by
  have hTwo := Platform.two_le_bcCaches
  refine ⟨⟨⟨hGood, ?_, ?_, ?_, ?_, ?_, ?_, ?_⟩, rfl, rfl, rfl, ?_⟩,
    rfl, rfl⟩
  · simp [Dev.init, maxSpareBuffers]
  · simp [Dev.init, BufPool.init, cloneBuffersThreshold]
  · simp [Dev.init, BcCache.init, hTwo]
  · exact List.nodup_range
  · intro i _ p _ hKept
    simp [Dev.init, BcCache.init] at hKept
  · intro i _ j _ _ hValid
    simp [Dev.init, BcCache.init] at hValid
  · intro i _
    rfl
  · intro i
    exact ⟨rfl, rfl⟩

/- `uffs_BuildTree` on a flash where every call succeeds. -/
theorem wp_mount
    {s : Dev}
    (hGood : GoodFrom s.clock) :
    wp mount
      (fun r _ t =>
        match (Disk.start s.flash).mountFrom nodeCount
            parStart with
        | none => r = .fail
        | some _ => r = .succ ∧
            ∃ d, Rests t d ∧ d.Mounted s.flash) s := by
  have hStart := rests_init s.flash s.watch hGood
  have hScan := Disk.scanned_init s.flash
  unfold mount buildTree buildTreeStepOne
  simp only [wp_bind, wp_modify, modifyTree]
  refine wp_mono (wp_stepOneFrom nodeCount
    { Dev.init s.flash s.clock with watch := s.watch } _ parStart
    hStart hScan rfl) ?_
  intro r _ t hGives
  cases hRun : (Disk.start s.flash).mountFrom nodeCount
      parStart with
  | none =>
      rw [hRun] at hGives
      cases hGives
      simp only [wp_pure]
  | some d =>
      rw [hRun] at hGives
      rcases hGives with ⟨rfl, ht⟩
      have hScanned := hScan.mountFrom hRun
      simp only [wp_bind]
      refine wp_mono (wp_recoverIfPending
        ht.mounting.noPending) ?_
      intro _ _ u hu
      rcases hu with ⟨_, rfl⟩
      refine wp_mono (wp_buildTreeStepTwo ht hScanned) ?_
      intro r _ v hv
      rcases hv with ⟨rfl, d₀, hv, hTurned⟩
      rcases hTurned.parts with ⟨E, B, H, own, hParts⟩
      have hNone : Disk.Adopts d₀
          ((List.range 0).flatMap d₀.tree.dataEntry) d₀ :=
        Disk.adopts_nil hParts
      simp only [wp_bind]
      refine wp_mono (wp_stepThreeFrom 512 hTurned.adoptable v d₀
        0 hv hNone rfl) ?_
      intro _ _ w hw
      rcases hw with ⟨d', hw, hAdopts⟩
      refine wp_mono (wp_recoverIfPending
        hw.mounting.noPending) ?_
      intro _ _ x hx
      rcases hx with ⟨_, rfl⟩
      rw [wp_pure]
      exact ⟨rfl, d', hw, d₀, hTurned, hAdopts⟩

end Uffs
