import Uffs.Good.Mirror
import Uffs.Good.Recover

/-
  A mount of a device whose tree is an image of its flash
  builds the same tree again.

  Main declarations:
    * `Dev.Reproduces`
    * `Dev.Mirrors.reproduces`
    * `remount_reproduces`
-/

namespace Uffs

open Prog

section Remount

variable [Platform]

------------------------------------------------------------
-- A Tidy Flash
------------------------------------------------------------

namespace Flash.Tidy

variable {F : Flash} {x : Nat}

theorem mountable (h : F.Tidy) : F.Mountable := by
  intro x hPlace
  rcases h.blocks x hPlace with hBad | hErased | hWhole
  · exact Or.inl hBad
  · exact Or.inr (Or.inl hErased)
  · exact Or.inr
      (Or.inr (Tag.isDirty_of_isGood hWhole.rival.good))

theorem typed (h : F.Tidy) : F.Typed := by
  intro x hPlace hRival
  have hWhole := h.whole hPlace hRival
  refine ⟨?_, hWhole.stamp⟩
  rcases hWhole.named with hData | ⟨hDir | hFile, _⟩
  · rw [hData]
    exact BlockType.noConfusion
  · rw [hDir]
    exact BlockType.noConfusion
  · rw [hFile]
    exact BlockType.noConfusion

/- Each block in use prevails. -/
theorem prevails (h : F.Tidy) (hx : F.Whole x) : F.Prevails x
    where
  place := hx.place
  rival := hx.rival
  named := hx.named
  oldest := by
    intro z hPlace hNe hRival hKey
    exact absurd
      (h.unique z x (h.whole hPlace hRival) hx hKey) hNe

theorem isOwned (h : F.Tidy) (hx : F.Whole x) : F.Owned x := by
  intro hData
  rcases h.owned x hx hData with ⟨f, hf, hFile, hSerial⟩
  exact ⟨f, h.prevails hf, hFile, hSerial⟩

end Flash.Tidy

theorem Flash.Whole.congr
    {F G : Flash}
    {x : Nat}
    (h : F.Whole x)
    (hPage : G.page x = F.page x)
    (hBad : G.bad x = false) : G.Whole x where
  place := h.place
  rival := by
    apply h.rival.congr hPage
    rw [hBad, h.rival.notBad]
  named := h.named.congr hPage
  stamp := by
    rw [Flash.tags_congr hPage]
    exact h.stamp

/- What a block stands for is read from its pages. -/
theorem Flash.StandsFor.eq
    {F : Flash}
    {b : Nat}
    {x y : TreeNode}
    (hx : F.StandsFor b x)
    (hy : F.StandsFor b y) : x = y := by
  rcases hx with ⟨hType, sum, old, rfl, hSum⟩
  rcases hy with ⟨_, sum', old', rfl, hSum'⟩
  have hNamed : (F.tags b 0).type ≠ .data → sum = sum' := by
    intro hNot
    have hEq := hSum.resolve_left hNot
    rw [hSum'.resolve_left hNot, Option.some.injEq] at hEq
    exact hEq.symm
  unfold Flash.nodeOf
  dsimp only
  cases hEq : (F.tags b 0).type with
  | dir =>
      rw [hNamed (by rw [hEq]; exact BlockType.noConfusion)]
  | file =>
      rw [hNamed (by rw [hEq]; exact BlockType.noConfusion)]
  | data => rfl
  | resv => exact absurd hEq hType

------------------------------------------------------------
-- Two Images of One Flash
------------------------------------------------------------

/-
  The device `w` has the blocks in use of the device `v`,
  with their pages, and nodes of the same values.
-/
structure Dev.Reproduces (v w : Dev) : Prop where
  whole : ∀ x, w.flash.Whole x ↔ v.flash.Whole x
  page : ∀ x, v.flash.Whole x → w.flash.page x = v.flash.page x
  nodes : (w.tree.entryNodes.map w.tree.node).Perm
    (v.tree.entryNodes.map v.tree.node)

namespace Dev.Mirrors

variable {v w : Dev}

/- Different nodes have different values. -/
theorem nodup
    (h : v.Mirrors) :
    (v.tree.entryNodes.map v.tree.node).Nodup := by
  rcases h.parts with ⟨E, B, H, own, hParts⟩
  have hEntry := (List.nodup_append.mp hParts.nodup).1
  apply List.Nodup.map_on _ (List.nodup_append.mp hEntry).2.1
  intro n hn m hm hEq
  have hnIn := List.mem_append_right (E ++ B) hn
  have hmIn := List.mem_append_right (E ++ B) hm
  apply hParts.own_inj
  · exact hParts.lt (List.mem_append_left _ hnIn)
  · exact hParts.lt (List.mem_append_left _ hmIn)
  · rw [← hParts.block n hnIn, ← hParts.block m hmIn, hEq]

/- A data node has the value that its block stands for. -/
theorem data_mem
    (h : v.Mirrors)
    (x : TreeNode) :
    x ∈ v.tree.dataNodes.map v.tree.node ↔
      x.type = .data ∧ v.flash.Whole x.block ∧
        v.flash.StandsFor x.block x := by
  rcases h.parts with ⟨E, B, H, own, hParts⟩
  have hSelf : ∀ n ∈ v.tree.entryNodes,
      (v.tree.node n).type = .data →
      v.flash.StandsFor (v.tree.node n).block
        (v.tree.node n) := by
    intro n hn hType
    rcases (h.stands n hn).2 with ⟨y, hStands, hEq⟩
    have hNot : y.type ≠ .file := by
      intro hFile
      unfold Tree.withData at hEq
      rw [if_pos hFile] at hEq
      rw [hEq, TreeNode.setLen_type, hFile] at hType
      cases hType
    unfold Tree.withData at hEq
    rw [if_neg hNot] at hEq
    rw [hEq] at hStands ⊢
    exact hStands
  rw [List.mem_map]
  constructor
  · intro hx
    rcases hx with ⟨n, hn, rfl⟩
    have hRegion : n ∈ v.tree.region .data := hn
    have hMem := Tree.region_subset hRegion
    have hType := hParts.type_of_mem hRegion
    exact ⟨hType, (h.stands n hMem).1, hSelf n hMem hType⟩
  · intro hx
    rcases hx with ⟨hType, hWhole, hStands⟩
    rcases h.covers _ hWhole with ⟨n, hn, hBlock⟩
    rcases (h.stands n hn).2 with ⟨y, hStandsNode, hEq⟩
    rw [hBlock] at hStandsNode
    have hxy := hStandsNode.eq hStands
    subst hxy
    have hNode : v.tree.node n = y := by
      rw [hEq]
      unfold Tree.withData
      rw [if_neg]
      rw [hType]
      exact BlockType.noConfusion
    refine ⟨n, ?_, hNode⟩
    have hRegion := hParts.mem_region hn
    rw [hNode, hType] at hRegion
    exact hRegion

theorem data_nodup
    (h : v.Mirrors) :
    (v.tree.dataNodes.map v.tree.node).Nodup := by
  have hSub : v.tree.dataNodes.Sublist v.tree.entryNodes :=
    List.sublist_append_right _ _
  exact List.Nodup.sublist (hSub.map _) h.nodup

/- The bytes of data blocks, told from the values of nodes. -/
omit [Platform] in
theorem share_map
    (t : Tree)
    (P : List Nat)
    (serial : Nat) :
    t.share P serial =
      (((P.map t.node).filter fun x => x.parent == serial).map
        TreeNode.len).sum := by
  unfold Tree.share
  rw [List.filter_map, List.map_map]
  rfl

section Same

variable (hWhole : ∀ x, w.flash.Whole x ↔ v.flash.Whole x)
  (hPage : ∀ x, v.flash.Whole x →
    w.flash.page x = v.flash.page x)

theorem stands_same
    {b : Nat}
    {x : TreeNode}
    (hPage : w.flash.page b = v.flash.page b) :
    w.flash.StandsFor b x ↔ v.flash.StandsFor b x := by
  constructor
  · intro h
    exact h.congr hPage.symm
  · intro h
    exact h.congr hPage

include hWhole hPage in
/- Files get the same bytes from their data blocks. -/
theorem share_same
    (hv : v.Mirrors)
    (hw : w.Mirrors)
    (serial : Nat) :
    w.tree.share w.tree.dataNodes serial =
      v.tree.share v.tree.dataNodes serial := by
  have hPerm : (w.tree.dataNodes.map w.tree.node).Perm
      (v.tree.dataNodes.map v.tree.node) := by
    rw [List.perm_ext_iff_of_nodup hw.data_nodup hv.data_nodup]
    intro x
    rw [hw.data_mem, hv.data_mem, hWhole]
    constructor
    · intro hx
      exact ⟨hx.1, hx.2.1,
        (stands_same (hPage _ hx.2.1)).mp hx.2.2⟩
    · intro hx
      exact ⟨hx.1, hx.2.1,
        (stands_same (hPage _ hx.2.1)).mpr hx.2.2⟩
  rw [share_map, share_map]
  exact ((hPerm.filter _).map _).sum_nat

include hWhole hPage in
/- A node of one device has its value on the other one. -/
theorem node_same
    (hv : v.Mirrors)
    (hw : w.Mirrors)
    {n : Nat}
    (hn : n ∈ w.tree.entryNodes) :
    w.tree.node n ∈ v.tree.entryNodes.map v.tree.node := by
  rcases hw.stands n hn with ⟨hBlock, x, hStands, hEq⟩
  have hOld := (hWhole _).mp hBlock
  rcases hv.covers _ hOld with ⟨m, hm, hmBlock⟩
  rcases hv.stands m hm with ⟨_, y, hmStands, hmEq⟩
  rw [hmBlock] at hmStands
  have hxy : x = y :=
    ((stands_same (hPage _ hOld)).mp hStands).eq hmStands
  rw [List.mem_map]
  refine ⟨m, hm, ?_⟩
  rw [hmEq, hEq, hxy]
  unfold Tree.withData
  rw [share_same hWhole hPage hv hw]

end Same

/- Two images of the same blocks have the same nodes. -/
theorem reproduces
    (hv : v.Mirrors)
    (hw : w.Mirrors)
    (hWhole : ∀ x, w.flash.Whole x ↔ v.flash.Whole x)
    (hPage : ∀ x, v.flash.Whole x →
      w.flash.page x = v.flash.page x) : v.Reproduces w where
  whole := hWhole
  page := hPage
  nodes := by
    have hBack : ∀ x, w.flash.Whole x →
        v.flash.page x = w.flash.page x := by
      intro x hx
      exact (hPage x ((hWhole x).mp hx)).symm
    rw [List.perm_ext_iff_of_nodup hw.nodup hv.nodup]
    intro x
    constructor
    · intro hx
      rcases List.mem_map.mp hx with ⟨n, hn, rfl⟩
      exact node_same hWhole hPage hv hw hn
    · intro hx
      rcases List.mem_map.mp hx with ⟨n, hn, rfl⟩
      exact node_same (fun x => (hWhole x).symm) hBack hw hv hn

end Dev.Mirrors

------------------------------------------------------------
-- Mounting Again
------------------------------------------------------------

/- A mount of a tidy flash keeps the blocks in use. -/
theorem Disk.Finished.whole_iff
    {F : Flash}
    {d₀ d : Disk}
    (h : Finished F d₀ d)
    (hTidy : F.Tidy)
    {v : Dev}
    (hFlash : v.flash = d.flash)
    (hTree : v.tree = d.tree)
    (hEnters : ∀ x, F.Prevails x → F.Owned x → v.Enters F x)
    (x : Nat) :
    (d.flash.Whole x ↔ F.Whole x) ∧
      (F.Whole x → d.flash.page x = F.page x) := by
  have hBack : d.flash.Whole x → F.Whole x := by
    intro hx
    rcases h.has hx with ⟨n, hn, hBlock⟩
    rcases h.entry hn with ⟨_, y, _, hRival, _, hy, _, hPage, _⟩
    have hEq : y = x := hy.symm.trans hBlock
    subst hEq
    exact hx.congr hPage.symm hRival.notBad
  have hPage : F.Whole x → d.flash.page x = F.page x := by
    intro hx
    rw [← hFlash]
    exact (hEnters x (hTidy.prevails hx)
      (hTidy.isOwned hx)).page
  refine ⟨⟨hBack, ?_⟩, hPage⟩
  intro hx
  rcases (hEnters x (hTidy.prevails hx)
    (hTidy.isOwned hx)).node with ⟨n, hn, _, hBlock, _⟩
  rw [hTree] at hn hBlock
  rw [← hBlock]
  exact h.whole hn

/-
  A mount of a device whose tree is an image of its flash
  builds the same tree again and keeps all blocks in use.
-/
theorem remount_reproduces
    {v : Dev}
    (h : v.Mirrors) :
    wp mount
      (fun r _ w => r = .succ ∧ w.Mirrors ∧ v.Reproduces w)
      v := by
  have hEnters := wp_mount_enters h.good h.tidy.mountable
  have hSwept := wp_mount_swept h.good h.tidy.mountable
    h.tidy.typed
  refine wp_mono (wp_conj hEnters hSwept) ?_
  intro r _ w hw
  rcases hw with ⟨⟨_, hEnter⟩, hr, d₀, d, hRests, hFinished⟩
  have hIff := hFinished.whole_iff h.tidy hRests.flash
    hRests.tree hEnter
  have hMirrors := hFinished.mirrors hRests
  refine ⟨hr, hMirrors, h.reproduces hMirrors ?_ ?_⟩
  · rw [hRests.flash]
    exact fun x => (hIff x).1
  · rw [hRests.flash]
    exact fun x => (hIff x).2

end Remount

/- The device after a mount of the crowded flash. -/
theorem remount_reproduces_crowded :
    letI := emulator alwaysOk
    ∃ v es, mount (Dev.init crowded 0) = some (.succ, es, v) ∧
      wp mount
        (fun r _ w => r = .succ ∧ w.Mirrors ∧ v.Reproduces w)
        v := by
  let _ := emulator alwaysOk
  have hSwept := wp_mount_swept (u := Dev.init crowded 0)
    (fun _ _ => rfl) crowded_mountable.1 crowded_mountable.2
  rcases hSwept with
    ⟨r, es, v, hRun, rfl, d₀, d, hRests, hFinished⟩
  exact ⟨v, es, hRun,
    remount_reproduces (hFinished.mirrors hRests)⟩

end Uffs
