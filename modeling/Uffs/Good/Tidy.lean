import Uffs.Good.BuildTree
import Uffs.Good.Content

/-
  The tree after a mount, told from the flash alone.

  Of several blocks with one key the scan keeps the oldest
  one.  A block prevails if every other block with its key is
  newer; it is then in the tree, with its pages as they were.

  Main declarations:
    * `Flash.Prevails`
    * `Flash.Mountable`
    * `Dev.Enters`
    * `wp_mount_enters`
    * `Flash.Whole`, `Flash.Tidy`
-/

namespace Uffs

open Prog

variable [Platform]

------------------------------------------------------------
-- Blocks That Prevail
------------------------------------------------------------

/- The blocks of the partition. -/
def InPartition (x : Nat) : Prop :=
  parStart ≤ x ∧ x < parStart + nodeCount

/-
  Block `x` can be entered into the tree, and every other
  block with its key is newer.
-/
structure Flash.Prevails (G : Flash) (x : Nat) : Prop where
  place : InPartition x
  rival : G.Rival x
  named : G.Named x
  oldest : ∀ z, InPartition z → z ≠ x → G.Rival z →
    (G.tags z 0).key = (G.tags x 0).key →
      isSrcNewerThanObj (G.tags z 0).blockTs
        (G.tags x 0).blockTs = true

/- No block of the partition stops the scan. -/
def Flash.Mountable (G : Flash) : Prop :=
  ∀ x, InPartition x → G.bad x = true ∨
    (G.tags x 0).isErased ∨ (G.tags x 0).isDirty

/- A data block has a file that prevails. -/
def Flash.Owned (G : Flash) (x : Nat) : Prop :=
  (G.tags x 0).type = .data → ∃ f, G.Prevails f ∧
    (G.tags f 0).type = .file ∧
      (G.tags f 0).serial = (G.tags x 0).parent

/-
  The key of block `x` of the flash `G` is in the tree once,
  for this block, whose pages are as on `G`.
-/
structure Dev.Enters (v : Dev) (G : Flash) (x : Nat) : Prop
    where
  node : ∃ n ∈ v.tree.entryNodes,
    v.tree.findTag (G.tags x 0) = some n ∧
      (v.tree.node n).block = x ∧
      ∀ m ∈ v.tree.entryNodes,
        (v.tree.node m).key = (G.tags x 0).key → m = n
  page : v.flash.page x = G.page x

------------------------------------------------------------
-- The Scan
------------------------------------------------------------

/- The scan comes to the end of the partition. -/
theorem Flash.Mountable.mountFrom
    {G : Flash}
    (h : G.Mountable)
    (k : Nat) :
    ∀ (d : Disk) (b : Nat), d.Scanned G b → parStart ≤ b →
      b + k = parStart + nodeCount → d.mountFrom k b ≠ none := by
  induction k with
  | zero =>
      intro d b _ _ _ hNone
      cases hNone
  | succ k ih =>
      intro d b hScanned hStart hEnd
      have hLater := hScanned.filed.later b (Nat.le_refl b)
      have hTags := Flash.tags_congr hLater.1
      have hStep : d.mountBlock b ≠ none := by
        unfold Disk.mountBlock
        dsimp only
        rw [hTags, hLater.2]
        split
        · exact Option.some_ne_none _
        rename_i hBad
        split
        · exact Option.some_ne_none _
        rename_i hUsed
        split
        · exact Option.some_ne_none _
        unfold Disk.mountValid
        dsimp only
        rw [hTags]
        rcases h b ⟨hStart, by omega⟩ with hx | hx | hx
        · exact absurd hx hBad
        · exact absurd hx hUsed
        · rw [if_neg (by simp [hx])]
          split
          · exact Option.some_ne_none _
          · split
            · exact Option.some_ne_none _
            · exact Option.some_ne_none _
      unfold Disk.mountFrom
      cases hBlock : d.mountBlock b with
      | none => exact absurd hBlock hStep
      | some d' =>
          dsimp only
          apply ih d' (b + 1) (hScanned.mountBlock hBlock)
          · omega
          · omega

/- A block that prevails is entered and stays. -/
theorem Flash.Prevails.has
    {G : Flash}
    {d : Disk}
    {x : Nat}
    (h : G.Prevails x)
    (hScanned : d.Scanned G (parStart + nodeCount)) :
    ∃ n ∈ d.tree.entryNodes, (d.tree.node n).block = x ∧
      G.StandsFor x (d.tree.node n) ∧
      d.flash.page x = G.page x := by
  have hHas : d.Has x := by
    rcases hScanned.covers x h.place.1 h.place.2 h.rival
      h.named with hHas | ⟨z, hz⟩
    · exact hHas
    · have hNewer := h.oldest z ⟨hz.start, hz.lt⟩ hz.ne hz.rival
        hz.key
      rw [hz.stamp] at hNewer
      cases hNewer
  rcases hHas with ⟨n, hMem, hBlock⟩
  rcases hScanned.filed.entry n hMem with
    ⟨y, _, _, _, hPage, _, hStands⟩
  have hEq : y = x := by
    rw [← hBlock]
    exact hStands.block.1.symm
  subst hEq
  exact ⟨n, hMem, hBlock, hStands, hPage⟩

------------------------------------------------------------
-- Step Three
------------------------------------------------------------

/- A region is the nodes of its entries. -/
omit [Platform] in
theorem Tree.region_eq_of_entry
    {t t' : Tree}
    {type : BlockType}
    (h : t.entry type = t'.entry type) :
    t.region type = t'.region type := by
  unfold Tree.region
  rw [h]

/- The nodes that are left had the same key and block. -/
theorem Disk.Adopts.old
    {d₀ d : Disk}
    {P : List Nat}
    {n : Nat}
    (h : d₀.Adopts P d)
    (hMem : n ∈ d.tree.entryNodes) :
    n ∈ d₀.tree.entryNodes ∧
      (d.tree.node n).key = (d₀.tree.node n).key ∧
      (d.tree.node n).block = (d₀.tree.node n).block := by
  by_cases hFile : n ∈ d₀.tree.region .file
  · rw [h.grown n hFile]
    exact ⟨Tree.region_subset hFile, by simp, by simp⟩
  · rw [h.same n hMem hFile]
    refine ⟨?_, rfl, rfl⟩
    rcases Tree.mem_entryNodes.mp hMem with ⟨type, k, hk, hIn⟩
    cases type with
    | dir =>
        refine Tree.mem_entryNodes.mpr ⟨.dir, k, hk, ?_⟩
        change n ∈ d₀.tree.dirEntry k
        rw [← h.dirEntry]
        exact hIn
    | file =>
        refine Tree.mem_entryNodes.mpr ⟨.file, k, hk, ?_⟩
        change n ∈ d₀.tree.fileEntry k
        rw [← h.fileEntry]
        exact hIn
    | data =>
        have hData : n ∈ d.tree.region .data :=
          Tree.mem_region.mpr ⟨k, hk, hIn⟩
        exact Tree.region_subset ((h.data n).mp hData).1
    | resv => exact absurd hIn (by simp [Tree.entry])

/- A node stays unless it is a data block without a file. -/
theorem Disk.Adopts.stays
    {d₀ d : Disk}
    {P : List Nat}
    {n : Nat}
    {E B H : List Nat}
    {own : Nat → Nat}
    (h : d₀.Adopts P d)
    (hParts : d₀.tree.Parts E B H own)
    (hMem : n ∈ d₀.tree.entryNodes)
    (hOwned : (d₀.tree.node n).type = .data → ¬ d₀.Orphan n) :
    n ∈ d.tree.entryNodes := by
  have hRegion := hParts.mem_region hMem
  cases hType : (d₀.tree.node n).type with
  | dir =>
      rw [hType] at hRegion
      have hSame : d.tree.region .dir = d₀.tree.region .dir :=
        Tree.region_eq_of_entry h.dirEntry
      rw [← hSame] at hRegion
      exact Tree.region_subset hRegion
  | file =>
      rw [hType] at hRegion
      have hSame : d.tree.region .file = d₀.tree.region .file :=
        Tree.region_eq_of_entry h.fileEntry
      rw [← hSame] at hRegion
      exact Tree.region_subset hRegion
  | data =>
      rw [hType] at hRegion
      have hLeft : n ∈ d.tree.region .data :=
        (h.data n).mpr
          ⟨hRegion, fun hLost => hOwned hType hLost.2⟩
      exact Tree.region_subset hLeft
  | resv =>
      rw [hType] at hRegion
      rcases Tree.mem_region.mp hRegion with ⟨_, _, hIn⟩
      exact absurd hIn (by simp [Tree.entry])

/- The file of a data block is found by its serial number. -/
theorem Flash.Owned.not_orphan
    {G : Flash}
    {d : Disk}
    {x n : Nat}
    (h : G.Owned x)
    (hScanned : d.Scanned G (parStart + nodeCount))
    (hStands : G.StandsFor x (d.tree.node n))
    (hType : (d.tree.node n).type = .data) : ¬ d.Orphan n := by
  intro hOrphan
  have hData : (G.tags x 0).type = .data := by
    rw [← hStands.block.2.2]
    exact hType
  rcases h hData with ⟨f, hPrevails, hFile, hSerial⟩
  rcases hPrevails.has hScanned with
    ⟨m, hMem, _, hStandsFile, _⟩
  rcases hScanned.parts with ⟨E, B, H, own, hParts⟩
  have hParent : (d.tree.node n).parent =
      (G.tags f 0).serial := by
    rw [hSerial]
    have hKey := congrArg GroupKey.parent hStands.block.2.1
    simp only [TreeNode.key, Tag.key, hType, hData,
      if_true] at hKey
    exact hKey
  have hNone : d.tree.findTag (G.tags f 0) = none := by
    unfold Tree.findTag
    rw [hFile]
    dsimp only
    rw [← hParent]
    exact hOrphan
  exact hParts.findTag_none hNone m hMem hStandsFile.block.2.1

/- What a mount makes of a block that prevails. -/
theorem Disk.Mounted.enters
    {G : Flash}
    {d : Disk}
    {v : Dev}
    {x : Nat}
    (h : d.Mounted G)
    (hTree : v.tree = d.tree)
    (hFlash : v.flash = d.flash)
    (hPrevails : G.Prevails x)
    (hOwned : G.Owned x) : v.Enters G x := by
  rcases h with ⟨d₀, hScanned, hAdopts⟩
  rcases hScanned.parts with ⟨E, B, H, own, hParts₀⟩
  rcases hAdopts.parts with ⟨E', B', H', own', hParts⟩
  rcases hPrevails.has hScanned with
    ⟨n, hMem, hBlock, hStands, hPage⟩
  have hKept : ¬ ((d₀.tree.node n).type = .data ∧
      d₀.Orphan n) := by
    rintro ⟨hType, hOrphan⟩
    exact hOwned.not_orphan hScanned hStands hType hOrphan
  have hStays := hAdopts.stays hParts₀ hMem
    fun hType hOrphan => hKept ⟨hType, hOrphan⟩
  have hKey : (d.tree.node n).key = (G.tags x 0).key := by
    rw [(hAdopts.old hStays).2.1]
    exact hStands.block.2.1
  have hOnly : ∀ m ∈ d.tree.entryNodes,
      (d.tree.node m).key = (G.tags x 0).key → m = n := by
    intro m hm hEq
    rcases hAdopts.old hm with ⟨hmOld, hmKey, _⟩
    apply hScanned.filed.unique m hmOld n hMem
    rw [← hmKey, hEq]
    exact hStands.block.2.1.symm
  constructor
  · rw [hTree]
    refine ⟨n, hStays, ?_, ?_, hOnly⟩
    · cases hFind : d.tree.findTag (G.tags x 0) with
      | none => exact absurd hKey (hParts.findTag_none hFind n hStays)
      | some m =>
          rcases hParts.findTag_some hFind with ⟨hRegion, hEq⟩
          rw [hOnly m (Tree.region_subset hRegion) hEq]
    · rw [(hAdopts.old hStays).2.2]
      exact hBlock
  · rw [hFlash, ← hPage]
    apply (hAdopts.flash x ?_).1
    intro w hw hOrphan hEq
    have hwMem : w ∈ d₀.tree.region .data := hw
    have hwIn := Tree.region_subset hwMem
    rcases hScanned.filed.entry w hwIn with
      ⟨y, _, _, _, _, _, hwStands⟩
    have hxy : y = x := by
      rw [← hEq]
      exact hwStands.block.1.symm
    subst hxy
    have hSame : w = n := by
      apply hScanned.filed.unique w hwIn n hMem
      rw [hwStands.block.2.1, hStands.block.2.1]
    subst hSame
    exact hKept ⟨hParts₀.type_of_mem hwMem, hOrphan⟩

/-
  A mount on a flash where every operation succeeds enters
  the blocks that prevail.
-/
theorem wp_mount_enters
    {u : Dev}
    (hGood : GoodFrom u.clock)
    (hMountable : u.flash.Mountable) :
    wp mount
      (fun r _ v => r = .succ ∧ ∀ x,
        u.flash.Prevails x → u.flash.Owned x →
          v.Enters u.flash x) u := by
  refine wp_mono (wp_mount hGood) ?_
  intro r _ v hv
  cases hScan : (Disk.start u.flash).mountFrom nodeCount
      parStart with
  | none =>
      exact absurd hScan (hMountable.mountFrom nodeCount _ _
        (Disk.scanned_init u.flash) (Nat.le_refl _) rfl)
  | some _ =>
      rw [hScan] at hv
      rcases hv with ⟨rfl, d, hRests, hMounted⟩
      refine ⟨rfl, ?_⟩
      intro x hPrevails hOwned
      exact hMounted.enters hRests.tree hRests.flash hPrevails
        hOwned

------------------------------------------------------------
-- Tidy Flashes
------------------------------------------------------------

/- A block in use, with a time stamp that the code gives. -/
structure Flash.Whole (F : Flash) (x : Nat) : Prop where
  place : InPartition x
  rival : F.Rival x
  named : F.Named x
  stamp : (F.tags x 0).blockTs < 3

/-
  A flash between two operations: each block is bad, unused
  or whole, no two blocks have one key, and a data block has
  its file.
-/
structure Flash.Tidy (F : Flash) : Prop where
  blocks : ∀ x, InPartition x →
    F.bad x = true ∨ (F.tags x 0).isErased ∨ F.Whole x
  unique : ∀ x z, F.Whole x → F.Whole z →
    (F.tags x 0).key = (F.tags z 0).key → x = z
  owned : ∀ x, F.Whole x → (F.tags x 0).type = .data →
    ∃ f, F.Whole f ∧ (F.tags f 0).type = .file ∧
      (F.tags f 0).serial = (F.tags x 0).parent

section Same

variable {F G : Flash} {x z y b j m : Nat}

theorem Flash.Rival.congr
    (h : F.Rival x)
    (hPage : G.page x = F.page x)
    (hBad : G.bad x = F.bad x) : G.Rival x where
  notBad := by
    rw [hBad]
    exact h.notBad
  used := by
    rw [Flash.tags_congr hPage]
    exact h.used
  clean := by
    rw [Flash.unclean_congr hPage]
    exact h.clean
  good := by
    rw [Flash.tags_congr hPage]
    exact h.good

theorem Flash.Named.congr
    (h : F.Named x)
    (hPage : G.page x = F.page x) : G.Named x := by
  unfold Flash.Named at h ⊢
  rw [Flash.tags_congr hPage, Flash.nameSum_congr hPage]
  exact h

theorem Flash.content_congr
    (hPage : G.page x = F.page x)
    (id : Nat) : G.content x id = F.content x id := by
  unfold Flash.content
  rw [Flash.tags_congr hPage, hPage]

/- A good tag is not erased. -/
omit [Platform] in
theorem Tag.not_isErased
    {t : Tag}
    (h : t.isGood = true) : t.isErased = false := by
  cases hErased : t.isErased with
  | false => rfl
  | true =>
      rw [Tag.isGood_of_isErased hErased] at h
      cases h

/- A block whose first page has no tag is not in use. -/
theorem Flash.Rival.not_erased
    (h : F.Rival x)
    (hTag : (F.page x 0).tag = Tag.erased) : False := by
  have hUsed := h.used
  unfold Flash.tags at hUsed
  rw [hTag] at hUsed
  cases hUsed

/- A rival of a tidy flash is whole. -/
theorem Flash.Tidy.whole
    (h : F.Tidy)
    (hPlace : InPartition x)
    (hRival : F.Rival x) : F.Whole x := by
  rcases h.blocks x hPlace with hBad | hErased | hWhole
  · rw [hRival.notBad] at hBad
    cases hBad
  · rw [hRival.used] at hErased
    cases hErased
  · exact hWhole

/- The key of an object is in its tags. -/
def GroupKey.Of (key : GroupKey) (t : Tag) : Prop :=
  key.type = t.type ∧ key.serial = t.serial ∧
    (t.type = .data → key.parent = t.parent)

omit [Platform] in
theorem GroupKey.Of.tag_key
    {key : GroupKey}
    {t t' : Tag}
    (h : key.Of t)
    (hType : t'.type = key.type)
    (hSerial : t'.serial = key.serial)
    (hParent : t'.parent = key.parent) : t'.key = t.key := by
  unfold Tag.key
  rw [hType, hSerial, hParent, h.1, h.2.1]
  by_cases hData : t.type = .data
  · rw [if_pos hData, if_pos hData, h.2.2 hData]
  · rw [if_neg hData, if_neg hData]

/- The search by a tag depends on its key. -/
omit [Platform] in
theorem Tree.findTag_congr
    (T : Tree)
    {t t' : Tag}
    (h : t'.key = t.key) : T.findTag t' = T.findTag t := by
  have hType := congrArg GroupKey.type h
  have hSerial := congrArg GroupKey.serial h
  have hParent := congrArg GroupKey.parent h
  simp only [Tag.key] at hType hSerial hParent
  unfold Tree.findTag
  rw [hType, hSerial]
  cases hData : t.type with
  | data =>
      rw [hType, hData, if_pos rfl, if_pos rfl] at hParent
      dsimp only
      rw [hParent]
  | dir => rfl
  | file => rfl
  | resv => rfl

end Same

end Uffs
