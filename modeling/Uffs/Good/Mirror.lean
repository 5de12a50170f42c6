import Uffs.Good.Cleared
import Uffs.Model.Emulator

/-
  The tree after a mount is an image of the flash.

  Whatever blocks a mount meets, on a flash where every
  operation succeeds it leaves a tidy flash, and the nodes of
  the tree stand for the blocks in use, each for one.

  Main declarations:
    * `Flash.Tidy`
    * `Dev.Mirrors`
    * `mount_mirrors`
-/

namespace Uffs

open Prog

section Mirror

variable [Platform]

------------------------------------------------------------
-- Mounting
------------------------------------------------------------

theorem wp_stepTwoFrom_swept
    {F : Flash}
    {b : Nat}
    (k : Nat) :
    ∀ (s : Dev) (d : Disk),
      Rests s d →
      d.Scanned F b →
      d.Swept b →
      k ≤ d.tree.erasedCount →
      wp (stepTwoFrom k)
        (fun r _ t => r = .succ ∧ ∃ d', Rests t d' ∧
          d'.Scanned F b ∧ d'.Swept b) s := by
  induction k with
  | zero =>
      intro s d h hScanned hSwept _
      simp only [stepTwoFrom, wp_pure, true_and]
      exact ⟨d, h, hScanned, hSwept⟩
  | succ k ih =>
      intro s d h hScanned hSwept hk
      rcases hScanned.parts with ⟨E, B, H, own, hParts⟩
      unfold stepTwoFrom
      cases hPop : d.tree.popErased with
      | none =>
          have hCount := hParts.count
          rw [hParts.popErased_eq_none.mp hPop,
            List.length_nil] at hCount
          omega
      | some p =>
          simp only [treeGetErasedNodeNoCheck, wp_bind, wp_get,
            h.tree, hPop, modifyTree, wp_modify, wp_pure,
            treeInsertToErasedListTailEx]
          rcases hParts.pop hPop with ⟨E', hE, hPopped, _⟩
          have hNew : (p.2.appendErased p.1 none).erasedCount =
              p.2.erasedCount + 1 := by
            unfold Tree.appendErased
            cases p.2.erasedTail <;> rfl
          have hCount : (p.2.appendErased p.1 none).erasedCount =
              d.tree.erasedCount := by
            rw [hNew, hPopped.count, hParts.count, hE,
              List.length_cons]
          have hTurn := h.setTree fun _ =>
            p.2.appendErased p.1 none
          apply ih _ _ hTurn (hScanned.turn hPop)
          · intro x hStart hLt
            exact (hSwept x hStart hLt).turn hParts hPop
          · rw [hCount]
            omega

theorem wp_buildTreeStepTwo_swept
    {F : Flash}
    {b : Nat}
    {s : Dev}
    {d : Disk}
    (h : Rests s d)
    (hScanned : d.Scanned F b)
    (hSwept : d.Swept b) :
    wp buildTreeStepTwo
      (fun r _ t => r = .succ ∧ ∃ d', Rests t d' ∧
        d'.Scanned F b ∧ d'.Swept b) s := by
  have hs := h.mounting
  have hTick : Rests { s with clock := s.clock + 1 } d := by
    refine ⟨?_, h.flash, h.tree⟩
    exact ⟨hs.toCalm.congr (Nat.le_succ _) rfl rfl rfl rfl,
      hs.noPending, hs.noRecovery, hs.bufs, hs.empty⟩
  simp only [buildTreeStepTwo, getCurDateTime, nextAnswer,
    wp_bind, wp_get, wp_modify, wp_pure]
  apply wp_stepTwoFrom_swept _ _ d hTick hScanned hSwept
  rw [h.tree]
  exact Nat.le_of_lt_succ (Nat.mod_lt _ (Nat.succ_pos _))

/- What step three has made of a disk, with clean blocks. -/
structure Disk.Tends (d₀ : Disk) (P : List Nat) (d : Disk) :
    Prop where
  adopts : Disk.Adopts d₀ P d
  clear : ∀ x, d₀.Cleared x → d.Cleared x

theorem Disk.Tends.adopt
    {d₀ d : Disk}
    {P : List Nat}
    {work : Nat}
    (h : d₀.Tends P d)
    (h₀ : d₀.Adoptable)
    (hWork : work ∈ d₀.tree.region .data)
    (hNew : work ∉ P) :
    d₀.Tends (P ++ [work]) (d.adopt work) := by
  rcases h₀.parts with ⟨E, B, H, own, hParts⟩
  rcases h.adopts.parts with ⟨E', B', H', own', hPartsNow⟩
  have hIn : work ∈ d.tree.region .data :=
    (h.adopts.data work).mpr ⟨hWork, fun hOld => hNew hOld.1⟩
  constructor
  · exact h.adopts.adopt hParts h₀.unique hWork hNew
  · intro x hx
    exact (h.clear x hx).adopt hPartsNow hIn

theorem wp_stepThreeChain_tends
    {d₀ : Disk}
    (l : List Nat)
    (h₀ : d₀.Adoptable)
    (hData : ∀ n ∈ l, n ∈ d₀.tree.region .data) :
    ∀ (s : Dev) (d : Disk) (P : List Nat),
      Rests s d →
      d₀.Tends P d →
      (P ++ l).Nodup →
      wp (stepThreeChain l)
        (fun _ _ t => ∃ d', Rests t d' ∧ d₀.Tends (P ++ l) d')
        s := by
  rcases h₀.parts with ⟨E, B, H, own, hParts⟩
  induction l with
  | nil =>
      intro s d P h hTends _
      simp only [stepThreeChain, wp_pure, List.append_nil]
      exact ⟨d, h, hTends⟩
  | cons work l ih =>
      intro s d P h hTends hNodup
      have hWork := hData work List.mem_cons_self
      have hNew : work ∉ P := by
        intro hIn
        exact (List.nodup_append.mp hNodup).2.2 work hIn work
          List.mem_cons_self rfl
      have hNode := hTends.adopts.node_eq hParts hWork hNew
      have hBlock : (d.tree.node work).block ≠ invalidBlock := by
        rw [hNode]
        exact h₀.block work (Tree.region_subset hWork)
      have hNext := hTends.adopt h₀ hWork hNew
      unfold stepThreeChain
      refine wp_seq (wp_stepThreeNode h hBlock) ?_
      intro _ _ t ht
      have hSplit : P ++ work :: l = P ++ [work] ++ l := by
        rw [List.append_assoc, List.singleton_append]
      rw [hSplit] at hNodup ⊢
      exact ih (fun n hn => hData n (List.mem_cons_of_mem _ hn))
        t _ _ ht hNext hNodup

section Entries

variable {t : Tree} {E B H : List Nat} {own : Nat → Nat}

/- No data block is in two entries. -/
theorem Tree.Parts.dataNodes_nodup
    (h : t.Parts E B H own) : t.dataNodes.Nodup := by
  have hEntry := (List.nodup_append.mp h.nodup).1
  have hNodes := (List.nodup_append.mp hEntry).2.1
  exact (List.nodup_append.mp hNodes).2.1

theorem Tree.Parts.nodup_prefix
    {i : Nat}
    (h : t.Parts E B H own)
    (hLe : i ≤ 512) :
    ((List.range i).flatMap t.dataEntry).Nodup := by
  have hSub : (List.range i).Sublist (List.range 512) :=
    List.range_sublist.mpr hLe
  exact h.dataNodes_nodup.sublist (hSub.flatMap _)

/- The data entries before entry `i` have no node of it. -/
theorem Tree.Parts.not_mem_entry
    {i n : Nat}
    (h : t.Parts E B H own)
    (hMem : n ∈ (List.range i).flatMap t.dataEntry) :
    n ∉ t.dataEntry i := by
  intro hIn
  rcases List.mem_flatMap.mp hMem with ⟨j, hj, hnj⟩
  have hOld := (h.hash .data j n hnj).2
  have hNew := (h.hash .data i n hIn).2
  have hLt := List.mem_range.mp hj
  omega

end Entries

theorem wp_stepThreeFrom_tends
    {d₀ : Disk}
    (k : Nat)
    (h₀ : d₀.Adoptable) :
    ∀ (s : Dev) (d : Disk) (i : Nat),
      Rests s d →
      d₀.Tends ((List.range i).flatMap d₀.tree.dataEntry) d →
      i + k = 512 →
      wp (stepThreeFrom k i)
        (fun _ _ t => ∃ d', Rests t d' ∧
          d₀.Tends d₀.tree.dataNodes d') s := by
  rcases h₀.parts with ⟨E, B, H, own, hParts⟩
  induction k with
  | zero =>
      intro s d i h hTends hSum
      rw [Nat.add_zero] at hSum
      subst hSum
      simp only [stepThreeFrom, wp_pure]
      exact ⟨d, h, hTends⟩
  | succ k ih =>
      intro s d i h hTends hSum
      have hLt : i < 512 := by omega
      have hRegion : ∀ n ∈ d₀.tree.dataEntry i,
          n ∈ d₀.tree.region .data :=
        fun n hn => Tree.mem_region.mpr ⟨i, hLt, hn⟩
      have hSame : d.tree.dataEntry i = d₀.tree.dataEntry i :=
        hTends.adopts.dataEntry i fun n hn =>
          hParts.not_mem_entry hn
      have hSplit : (List.range i).flatMap d₀.tree.dataEntry ++
          d₀.tree.dataEntry i =
            (List.range (i + 1)).flatMap d₀.tree.dataEntry := by
        rw [List.range_succ, List.flatMap_append,
          List.flatMap_singleton]
      unfold stepThreeFrom
      simp only [wp_bind, wp_get, h.tree, hSame]
      refine wp_mono (wp_stepThreeChain_tends _ h₀ hRegion s d _
        h hTends ?_) ?_
      · rw [hSplit]
        exact hParts.nodup_prefix hLt
      · intro _ _ t ht
        rcases ht with ⟨d', ht, hNext⟩
        rw [hSplit] at hNext
        exact ih t d' (i + 1) ht hNext (by omega)

/- Blocks in use have a type and a time stamp that are given. -/
def Flash.Typed (F : Flash) : Prop :=
  ∀ x, InPartition x → F.Rival x →
    (F.tags x 0).type ≠ .resv ∧ (F.tags x 0).blockTs < 3

/-
  The end of a mount of the flash `F`: `d₀` is the disk after
  the scan, `d` the one after the round over the data blocks.
-/
structure Disk.Finished (F : Flash) (d₀ d : Disk) : Prop where
  typed : F.Typed
  scanned : d₀.Scanned F (parStart + nodeCount)
  tends : d₀.Tends d₀.tree.dataNodes d
  clear : ∀ x, InPartition x → d.Cleared x

/-
  A mount on a flash where every operation succeeds files or
  erases each block of the partition.
-/
theorem wp_mount_swept
    {u : Dev}
    (hGood : GoodFrom u.clock)
    (hMountable : u.flash.Mountable)
    (hTyped : u.flash.Typed) :
    wp mount
      (fun r _ v => r = .succ ∧ ∃ d₀ d : Disk, Rests v d ∧
        Disk.Finished u.flash d₀ d) u := by
  have hStart := rests_init u.flash u.watch hGood
  have hScan := Disk.scanned_init u.flash
  unfold mount buildTree buildTreeStepOne
  simp only [wp_bind, wp_modify, modifyTree]
  refine wp_mono (wp_stepOneFrom nodeCount
    { Dev.init u.flash u.clock with watch := u.watch } _ parStart
    hStart hScan rfl) ?_
  intro r _ t hGives
  cases hRun : (Disk.start u.flash).mountFrom nodeCount
      parStart with
  | none =>
      exact absurd hRun (hMountable.mountFrom nodeCount _ _
        (Disk.scanned_init u.flash) (Nat.le_refl _) rfl)
  | some d =>
      rw [hRun] at hGives
      rcases hGives with ⟨rfl, ht⟩
      have hNone : (Disk.start u.flash).Swept parStart := by
        intro x hStart hLt
        omega
      have hSwept := hNone.mountFrom nodeCount hScan
        (fun x hLe hLt hRival =>
          (hTyped x ⟨hLe, hLt⟩ hRival).1) hRun
      simp only [wp_bind]
      refine wp_mono (wp_recoverIfPending
        ht.mounting.noPending) ?_
      intro _ _ u' hu
      rcases hu with ⟨_, rfl⟩
      refine wp_mono (wp_buildTreeStepTwo_swept ht
        (hScan.mountFrom hRun) hSwept) ?_
      intro r _ v hv
      rcases hv with ⟨rfl, d₀, hv, hTurned, hTurnedSwept⟩
      rcases hTurned.parts with ⟨E, B, H, own, hParts⟩
      have hFirst : d₀.Tends
          ((List.range 0).flatMap d₀.tree.dataEntry) d₀ :=
        ⟨Disk.adopts_nil hParts, fun _ hx => hx⟩
      simp only [wp_bind]
      refine wp_mono (wp_stepThreeFrom_tends 512
        hTurned.adoptable v d₀ 0 hv hFirst rfl) ?_
      intro _ _ w hw
      rcases hw with ⟨d', hw, hTends⟩
      refine wp_mono (wp_recoverIfPending
        hw.mounting.noPending) ?_
      intro _ _ x hx
      rcases hx with ⟨_, rfl⟩
      rw [wp_pure]
      refine ⟨rfl, d₀, d', hw, hTyped, hTurned, hTends, ?_⟩
      intro y hy
      exact hTends.clear y (hTurnedSwept y hy.1 hy.2)

------------------------------------------------------------
-- The Blocks of the Tree
------------------------------------------------------------

namespace Disk.Finished

variable {F : Flash} {d₀ d : Disk}

/- A node of the tree stands for a block of the flash. -/
theorem entry
    (h : Finished F d₀ d)
    {n : Nat}
    (hMem : n ∈ d.tree.entryNodes) :
    n ∈ d₀.tree.entryNodes ∧ ∃ x, InPartition x ∧ F.Rival x ∧
      F.StandsFor x (d₀.tree.node n) ∧
      (d.tree.node n).block = x ∧
      (d.tree.node n).key = (F.tags x 0).key ∧
      d.flash.page x = F.page x ∧ d.flash.bad x = false := by
  rcases h.scanned.parts with ⟨E, B, H, own, hParts₀⟩
  rcases h.tends.adopts.parts with ⟨E', B', H', own', hParts⟩
  rcases h.tends.adopts.old hMem with ⟨hOld, hKey, hBlock⟩
  rcases h.scanned.filed.entry n hOld with
    ⟨x, hStart, hLt, hRival, hPage, hBad, hStands⟩
  have hFlash : d.flash.page x = d₀.flash.page x ∧
      d.flash.bad x = d₀.flash.bad x := by
    apply h.tends.adopts.flash x
    intro w hw hOrphan hEq
    have hwMem : w ∈ d₀.tree.region .data := hw
    have hSame : w = n := by
      rcases h.scanned.filed.entry w (Tree.region_subset hwMem)
        with ⟨z, _, _, _, _, _, hwStands⟩
      have hzx : z = x := by
        rw [← hEq]
        exact hwStands.block.1.symm
      subst hzx
      apply h.scanned.filed.unique w (Tree.region_subset hwMem)
        n hOld
      rw [hwStands.block.2.1, hStands.block.2.1]
    subst hSame
    have hData : w ∈ d.tree.region .data := by
      have hRegion := hParts.mem_region hMem
      have hType := congrArg GroupKey.type hKey
      simp only [TreeNode.key] at hType
      rw [hType, hParts₀.type_of_mem hwMem] at hRegion
      exact hRegion
    exact ((h.tends.adopts.data w).mp hData).2 ⟨hw, hOrphan⟩
  refine ⟨hOld, x, ⟨hStart, hLt⟩, hRival, hStands, ?_, ?_, ?_,
    ?_⟩
  · rw [hBlock]
    exact hStands.block.1
  · rw [hKey]
    exact hStands.block.2.1
  · rw [hFlash.1]
    exact hPage
  · rw [hFlash.2]
    exact hBad

/- The block of a node is in use. -/
theorem whole
    (h : Finished F d₀ d)
    {n : Nat}
    (hMem : n ∈ d.tree.entryNodes) :
    d.flash.Whole (d.tree.node n).block := by
  rcases h.entry hMem with
    ⟨_, x, hPlace, hRival, hStands, hBlock, _, hPage, hBad⟩
  rw [hBlock]
  constructor
  · exact hPlace
  · apply hRival.congr hPage
    rw [hBad, hRival.notBad]
  · have hNamed : F.Named x := by
      rcases hStands with ⟨hType, sum, _, _, hSum⟩
      rcases hSum with hData | hName
      · exact Or.inl hData
      · cases hEq : (F.tags x 0).type with
        | resv => exact absurd hEq hType
        | data => exact Or.inl hEq
        | dir =>
            refine Or.inr ⟨Or.inl hEq, ?_⟩
            rw [hName]
            exact Option.some_ne_none sum
        | file =>
            refine Or.inr ⟨Or.inr hEq, ?_⟩
            rw [hName]
            exact Option.some_ne_none sum
    exact hNamed.congr hPage
  · rw [Flash.tags_congr hPage]
    exact (h.typed x hPlace hRival).2

/- A block in use is in the tree. -/
theorem has
    (h : Finished F d₀ d)
    {x : Nat}
    (hWhole : d.flash.Whole x) : d.Has x := by
  rcases h.clear x hWhole.place with hBad | hErased | hHas
  · rw [hWhole.rival.notBad] at hBad
    cases hBad
  · rw [hWhole.rival.used] at hErased
    cases hErased
  · exact hHas

/- No two nodes have one key. -/
theorem unique
    (h : Finished F d₀ d)
    {n m : Nat}
    (hn : n ∈ d.tree.entryNodes)
    (hm : m ∈ d.tree.entryNodes)
    (hKey : (d.tree.node n).key = (d.tree.node m).key) :
    n = m := by
  rcases h.tends.adopts.old hn with ⟨hnOld, hnKey, _⟩
  rcases h.tends.adopts.old hm with ⟨hmOld, hmKey, _⟩
  rw [hnKey, hmKey] at hKey
  exact h.scanned.filed.unique n hnOld m hmOld hKey

/- A node of a file of the scan is left. -/
theorem file_stays
    (h : Finished F d₀ d)
    {n : Nat}
    (hFile : n ∈ d₀.tree.region .file) :
    n ∈ d.tree.region .file := by
  have hSame : d.tree.region .file = d₀.tree.region .file :=
    Tree.region_eq_of_entry h.tends.adopts.fileEntry
  rw [hSame]
  exact hFile

theorem tidy
    (h : Finished F d₀ d) : d.flash.Tidy := by
  rcases h.scanned.parts with ⟨E, B, H, own, hParts₀⟩
  rcases h.tends.adopts.parts with ⟨E', B', H', own', hParts⟩
  constructor
  · intro x hx
    rcases h.clear x hx with hBad | hErased | hHas
    · exact Or.inl hBad
    · exact Or.inr (Or.inl hErased)
    · rcases hHas with ⟨n, hn, hBlock⟩
      right
      right
      rw [← hBlock]
      exact h.whole hn
  · intro x z hx hz hKey
    rcases h.has hx with ⟨n, hn, hnBlock⟩
    rcases h.has hz with ⟨m, hm, hmBlock⟩
    have hEq : n = m := by
      apply h.unique hn hm
      rcases h.entry hn with ⟨_, y, _, _, _, hy, hyKey, hyPage, _⟩
      rcases h.entry hm with ⟨_, w, _, _, _, hw, hwKey, hwPage, _⟩
      have hxy : y = x := hy.symm.trans hnBlock
      have hzw : w = z := hw.symm.trans hmBlock
      subst hxy
      subst hzw
      rw [hyKey, hwKey, ← Flash.tags_congr hyPage, hKey,
        Flash.tags_congr hwPage]
    rw [← hnBlock, ← hmBlock, hEq]
  · intro x hx hData
    rcases h.has hx with ⟨n, hn, hnBlock⟩
    rcases h.entry hn with
      ⟨hOld, y, _, _, hStands, hy, _, hyPage, _⟩
    have hxy : y = x := hy.symm.trans hnBlock
    subst hxy
    rw [Flash.tags_congr hyPage] at hData ⊢
    have hType : (d₀.tree.node n).type = .data := by
      rw [hStands.block.2.2]
      exact hData
    have hNodes : n ∈ d₀.tree.region .data := by
      rw [← hType]
      exact hParts₀.mem_region hOld
    have hLeft : n ∈ d.tree.region .data := by
      have hRegion := hParts.mem_region hn
      have hKey := congrArg GroupKey.type
        (h.tends.adopts.old hn).2.1
      simp only [TreeNode.key] at hKey
      rw [hKey, hType] at hRegion
      exact hRegion
    have hNotOrphan : ¬ d₀.Orphan n := fun hOrphan =>
      ((h.tends.adopts.data n).mp hLeft).2 ⟨hNodes, hOrphan⟩
    have hParent : (d₀.tree.node n).parent =
        (F.tags y 0).parent := by
      have hKey := congrArg GroupKey.parent hStands.block.2.1
      simp only [TreeNode.key, Tag.key, hType, hData,
        if_true] at hKey
      exact hKey
    cases hFind : d₀.tree.findFileNode
        (d₀.tree.node n).parent with
    | none => exact absurd hFind hNotOrphan
    | some f =>
        rcases Tree.findFileNode_some hFind with
          ⟨hFile, hSerial⟩
        have hf := Tree.region_subset (h.file_stays hFile)
        refine ⟨(d.tree.node f).block, h.whole hf, ?_⟩
        rcases h.entry hf with
          ⟨_, z, _, _, hfStands, hz, _, hzPage, _⟩
        rw [hz, Flash.tags_congr hzPage, ← hParent, ← hSerial]
        constructor
        · rw [← hfStands.block.2.2]
          exact hParts₀.type_of_mem hFile
        · have hKey := congrArg GroupKey.serial
            hfStands.block.2.1
          exact hKey.symm

/- The data blocks of a file are all left. -/
theorem mem_data
    (h : Finished F d₀ d)
    {n w : Nat}
    (hFile : n ∈ d₀.tree.region .file)
    (hParent : (d₀.tree.node w).parent =
      (d₀.tree.node n).serial) :
    w ∈ d.tree.dataNodes ↔ w ∈ d₀.tree.dataNodes := by
  have hNotOrphan : ¬ d₀.Orphan w := by
    intro hOrphan
    unfold Disk.Orphan Tree.findFileNode at hOrphan
    rcases h.scanned.parts with ⟨E, B, H, own, hParts₀⟩
    rcases Tree.mem_region.mp hFile with ⟨k, _, hk⟩
    have hHash := (hParts₀.hash .file k n hk).2
    change getFileHash _ = k at hHash
    have hNone := List.find?_eq_none.mp hOrphan n (by
      rw [hParent, hHash]
      exact hk)
    rw [hParent, beq_self_eq_true] at hNone
    exact hNone rfl
  have hData := h.tends.adopts.data w
  constructor
  · intro hw
    exact (hData.mp hw).1
  · intro hw
    exact hData.mpr ⟨hw, fun hLost => hNotOrphan hLost.2⟩

/- The data blocks of a file are as the scan has left them. -/
theorem share_eq
    (h : Finished F d₀ d)
    {n : Nat}
    (hFile : n ∈ d₀.tree.region .file) :
    d.tree.share d.tree.dataNodes (d₀.tree.node n).serial =
      d₀.tree.share d₀.tree.dataNodes
        (d₀.tree.node n).serial := by
  rcases h.scanned.parts with ⟨E, B, H, own, hParts₀⟩
  rcases h.tends.adopts.parts with ⟨E', B', H', own', hParts⟩
  have hNode : ∀ w ∈ d.tree.dataNodes,
      d.tree.node w = d₀.tree.node w := by
    intro w hw
    have hOld : w ∈ d₀.tree.region .data :=
      ((h.tends.adopts.data w).mp hw).1
    have hNow : w ∈ d.tree.region .data := hw
    apply h.tends.adopts.same w (Tree.region_subset hNow)
    intro hwFile
    cases Disk.region_disjoint hParts₀ hOld hwFile
  have hPerm : (d.tree.dataNodes.filter fun w =>
      (d₀.tree.node w).parent ==
        (d₀.tree.node n).serial).Perm
      (d₀.tree.dataNodes.filter fun w =>
        (d₀.tree.node w).parent ==
          (d₀.tree.node n).serial) := by
    rw [List.perm_ext_iff_of_nodup
      (hParts.dataNodes_nodup.filter _)
      (hParts₀.dataNodes_nodup.filter _)]
    intro w
    rw [List.mem_filter, List.mem_filter, beq_iff_eq]
    constructor
    · intro hw
      exact ⟨(h.mem_data hFile hw.2).mp hw.1, hw.2⟩
    · intro hw
      exact ⟨(h.mem_data hFile hw.2).mpr hw.1, hw.2⟩
  have hFilter : (d.tree.dataNodes.filter fun w =>
      (d.tree.node w).parent == (d₀.tree.node n).serial) =
      d.tree.dataNodes.filter fun w =>
        (d₀.tree.node w).parent ==
          (d₀.tree.node n).serial := by
    apply List.filter_congr
    intro w hw
    rw [hNode w hw]
  unfold Tree.share
  rw [hFilter, ← (hPerm.map fun w =>
    (d₀.tree.node w).len).sum_nat]
  apply congrArg List.sum
  apply List.map_congr_left
  intro w hw
  rw [hNode w (List.mem_filter.mp hw).1]

end Disk.Finished

------------------------------------------------------------
-- The Tree as an Image of the Flash
------------------------------------------------------------

/- A file node with the data blocks of the tree. -/
def Tree.withData (t : Tree) (x : TreeNode) : TreeNode :=
  if x.type = .file then
    x.setLen (x.len + t.share t.dataNodes x.serial)
  else
    x

/-
  The tree of a device is an image of its flash: the flash is
  tidy, and the nodes in the hash entries stand for the
  blocks in use, one for each, with the lengths of files.
-/
structure Dev.Mirrors (v : Dev) : Prop where
  good : GoodFrom v.clock
  parts : ∃ E B H own, v.tree.Parts E B H own
  tidy : v.flash.Tidy
  stands : ∀ n ∈ v.tree.entryNodes,
    v.flash.Whole (v.tree.node n).block ∧
      ∃ x, v.flash.StandsFor (v.tree.node n).block x ∧
        v.tree.node n = v.tree.withData x
  covers : ∀ x, v.flash.Whole x →
    ∃ n ∈ v.tree.entryNodes, (v.tree.node n).block = x

theorem Flash.StandsFor.congr
    {F G : Flash}
    {b : Nat}
    {x : TreeNode}
    (h : F.StandsFor b x)
    (hPage : G.page b = F.page b) : G.StandsFor b x := by
  rcases h with ⟨hType, sum, old, hEq, hSum⟩
  unfold Flash.StandsFor
  rw [Flash.tags_congr hPage, Flash.nameSum_congr hPage]
  refine ⟨hType, sum, old, ?_, hSum⟩
  rw [Flash.nodeOf_congr hPage]
  exact hEq

theorem Disk.Finished.mirrors
    {F : Flash}
    {d₀ d : Disk}
    {v : Dev}
    (h : Finished F d₀ d)
    (hRests : Rests v d) : v.Mirrors where
  good := hRests.mounting.toCalm.good
  parts := by
    rw [hRests.tree]
    exact h.tends.adopts.parts
  tidy := by
    rw [hRests.flash]
    exact h.tidy
  stands := by
    rw [hRests.tree, hRests.flash]
    intro n hn
    rcases h.scanned.parts with ⟨E, B, H, own, hParts₀⟩
    refine ⟨h.whole hn, ?_⟩
    rcases h.entry hn with
      ⟨hOld, x, _, _, hStands, hBlock, _, hPage, _⟩
    rw [hBlock]
    refine ⟨d₀.tree.node n, hStands.congr hPage, ?_⟩
    unfold Tree.withData
    by_cases hFile : n ∈ d₀.tree.region .file
    · rw [if_pos (hParts₀.type_of_mem hFile), h.share_eq hFile]
      exact h.tends.adopts.grown n hFile
    · have hType : (d₀.tree.node n).type ≠ .file := by
        intro hEq
        have hRegion := hParts₀.mem_region hOld
        rw [hEq] at hRegion
        exact hFile hRegion
      rw [if_neg hType]
      exact h.tends.adopts.same n hn hFile
  covers := by
    rw [hRests.tree, hRests.flash]
    intro x hx
    exact h.has hx

/-
  A mount on a flash where every operation succeeds succeeds.
  The tree is then an image of the flash, and has every block
  that prevails, with its pages.
-/
theorem mount_mirrors
    {u : Dev}
    (hGood : GoodFrom u.clock)
    (hMountable : u.flash.Mountable)
    (hTyped : u.flash.Typed) :
    wp mount
      (fun r _ v => r = .succ ∧ v.Mirrors ∧ ∀ x,
        u.flash.Prevails x → u.flash.Owned x →
          v.Enters u.flash x) u := by
  refine wp_mono (wp_conj
    (wp_mount_swept hGood hMountable hTyped)
    (wp_mount_enters hGood hMountable)) ?_
  intro r _ v hv
  rcases hv with ⟨⟨hr, d₀, d, hRests, hFinished⟩, _, hEnters⟩
  exact ⟨hr, hFinished.mirrors hRests, hEnters⟩

------------------------------------------------------------
-- A Crowded Flash
------------------------------------------------------------

/-
  Two copies of a file in the blocks 1 and 2, a data block
  without a file in block 3, a torn page in block 4, and a
  bad block.
-/
def crowded : Flash where
  page := fun b p =>
    if b = 1 ∧ p = 0 then
      { status := 0, data := [], tag := .store .file 0 4 1 0 0 }
    else if b = 2 ∧ p = 0 then
      { status := 0, data := [], tag := .store .file 1 4 1 0 0 }
    else if b = 3 ∧ p = 0 then
      { status := 0, data := [], tag := .store .data 0 4 1 9 0 }
    else if b = 4 ∧ p = 0 then
      { status := 0, data := [], tag := .store .data 0 4 1 1 0 }
    else if b = 4 ∧ p = 1 then
      Page.torn []
    else
      Page.erased pgDataSize
  bad := fun b => b = 5

end Mirror

/- The blocks of the crowded flash let the scan pass. -/
theorem crowded_mountable :
    letI := emulator alwaysOk
    crowded.Mountable ∧ crowded.Typed := by
  let _ := emulator alwaysOk
  have hScan : ∀ x ∈ List.range' parStart nodeCount,
      crowded.bad x = true ∨ (crowded.tags x 0).isErased ∨
        (crowded.tags x 0).isDirty := by
    decide +kernel
  have hTags : ∀ x ∈ List.range' parStart nodeCount,
      (crowded.tags x 0).isErased = true ∨
        ((crowded.tags x 0).type ≠ .resv ∧
          (crowded.tags x 0).blockTs < 3) := by
    decide +kernel
  constructor
  · intro x hPlace
    exact hScan x (List.mem_range'_1.mpr hPlace)
  · intro x hPlace hRival
    rcases hTags x (List.mem_range'_1.mpr hPlace) with hx | hx
    · rw [hRival.used] at hx
      cases hx
    · exact hx

theorem mount_mirrors_crowded :
    letI := emulator alwaysOk
    wp mount
      (fun r _ v => r = .succ ∧ v.Mirrors ∧ ∀ x,
        crowded.Prevails x → crowded.Owned x →
          v.Enters crowded x) (Dev.init crowded 0) := by
  let _ := emulator alwaysOk
  exact mount_mirrors (u := Dev.init crowded 0) (fun _ _ => rfl)
    crowded_mountable.1 crowded_mountable.2

end Uffs
