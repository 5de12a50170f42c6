import Uffs.Good.Mirror
import Uffs.Reading.Clean

/-
  Reading a device that has just been mounted.

  A mount leaves no page in the cache, and from then on the
  reading calls give what the flash and the tree say, in any
  order and over any objects: neither the page buffers nor
  the block infos can be seen.

  Main declarations:
    * `Flash.Apart`
    * `Dev.Mirrors.summed`
    * `mount_reads`
-/

namespace Uffs

open Prog

section Mounted

variable [Platform]

/-
  No two blocks in use that differ in their type have the
  same parent and serial number.
-/
def Flash.Apart (F : Flash) : Prop :=
  ∀ x z, InPartition x → InPartition z →
    F.Rival x → F.Rival z →
      (F.tags x 0).parent = (F.tags z 0).parent →
        (F.tags x 0).serial = (F.tags z 0).serial →
          (F.tags x 0).type = (F.tags z 0).type

/- The node of a block has parent and serial of its tag. -/
theorem Flash.StandsFor.names
    {F : Flash}
    {b : Nat}
    {x : TreeNode}
    (h : F.StandsFor b x) :
    x.parent = (F.tags b 0).parent ∧
      x.serial = (F.tags b 0).serial := by
  rcases h with ⟨hType, sum, old, rfl, _⟩
  unfold Flash.nodeOf
  cases hEq : (F.tags b 0).type with
  | dir =>
      simp only [hEq]
      exact ⟨rfl, rfl⟩
  | file =>
      simp only [hEq]
      exact ⟨rfl, rfl⟩
  | data =>
      simp only [hEq]
      exact ⟨rfl, rfl⟩
  | resv => exact absurd hEq hType

/- The lengths of data blocks do not matter to a name. -/
omit [Platform] in
theorem Tree.withData_names
    (t : Tree)
    (x : TreeNode) :
    (t.withData x).parent = x.parent ∧
      (t.withData x).serial = x.serial ∧
      (t.withData x).checksum = x.checksum ∧
      (t.withData x).type = x.type ∧
      (t.withData x).block = x.block := by
  unfold Tree.withData
  split
  · simp
  · simp

namespace Dev.Mirrors

variable {s : Dev} {n : Nat}

/- A node has what the first tag of its block says. -/
theorem names
    (h : s.Mirrors)
    (hMem : n ∈ s.tree.entryNodes) :
    (s.tree.node n).parent =
        (s.flash.tags (s.tree.node n).block 0).parent ∧
      (s.tree.node n).serial =
        (s.flash.tags (s.tree.node n).block 0).serial ∧
      (s.tree.node n).type =
        (s.flash.tags (s.tree.node n).block 0).type := by
  rcases (h.stands n hMem).2 with ⟨x, hStands, hNode⟩
  have hNames := s.tree.withData_names x
  have hTag := hStands.names
  rw [← hNode] at hNames
  refine ⟨?_, ?_, ?_⟩
  · rw [hNames.1]
    exact hTag.1
  · rw [hNames.2.1]
    exact hTag.2
  · rw [hNames.2.2.2.1]
    exact hStands.block.2.2

/- The name sums of the tree are those of the flash. -/
theorem summed
    (h : s.Mirrors) : (s.flash.volume s.tree).Summed := by
  intro type n x hType hRegion hName
  have hMem : n ∈ s.tree.entryNodes :=
    Tree.region_subset hRegion
  rcases h.parts with ⟨E, B, H, own, hParts⟩
  have hNodeType : (s.tree.node n).type = type :=
    hParts.type_of_mem hRegion
  rcases (h.stands n hMem).2 with ⟨y, hStands, hNode⟩
  have hTag := (h.names hMem).2.2
  rw [hNodeType] at hTag
  rcases hStands with ⟨hResv, sum, old, hEq, hSum⟩
  have hNameSum :
      s.flash.nameSum (s.tree.node n).block = some sum := by
    rcases hSum with hData | hSum
    · rw [← hTag] at hData
      rw [hData] at hType
      rcases hType with hType | hType
      · cases hType
      · cases hType
    · exact hSum
  have hChecksum : (s.tree.node n).checksum = sum := by
    rw [hNode, (s.tree.withData_names y).2.2.1, hEq]
    unfold Flash.nodeOf
    dsimp only
    rcases hType with hType | hType
    · rw [← hTag, hType]
      rfl
    · rw [← hTag, hType]
      rfl
  change (s.tree.node n).checksum = makeSum16 x
  rw [hChecksum]
  unfold Flash.nameSum at hNameSum
  cases hFind : pageWithId
      (s.flash.tags (s.tree.node n).block) 0 with
  | none =>
      rw [hFind] at hNameSum
      cases hNameSum
  | some q =>
      have hGood := (pageWithIdFrom_eq_some _ hFind).1
      rcases Option.isSome_iff_exists.mp
        (bestPage_isSome hGood) with ⟨best, hBest⟩
      rw [hFind, Option.map_some, hBest, Option.getD_some,
        Option.some.injEq] at hNameSum
      rw [← hNameSum]
      unfold Volume.name Flash.volume Flash.content newestPage
        at hName
      simp only [hFind, Option.bind_some, hBest,
        Option.map_some] at hName
      split at hName
      · cases hName
        rfl
      · cases hName

end Dev.Mirrors

/- Blocks that can be told apart have nodes that can be. -/
theorem Disk.Finished.apart
    {F : Flash}
    {d₀ d : Disk}
    {s : Dev}
    (h : Finished F d₀ d)
    (hRests : Rests s d)
    (hApart : F.Apart) : s.tree.Apart := by
  have hMirrors := h.mirrors hRests
  rw [hRests.tree]
  intro n hn m hm hParent hSerial
  have hnNames := hMirrors.names (n := n) (by
    rw [hRests.tree]
    exact hn)
  have hmNames := hMirrors.names (n := m) (by
    rw [hRests.tree]
    exact hm)
  rw [hRests.tree, hRests.flash] at hnNames hmNames
  rcases h.entry hn with
    ⟨_, x, hx, hxRival, _, hxBlock, _, hxPage, _⟩
  rcases h.entry hm with
    ⟨_, z, hz, hzRival, _, hzBlock, _, hzPage, _⟩
  rw [hxBlock, Flash.tags_congr hxPage] at hnNames
  rw [hzBlock, Flash.tags_congr hzPage] at hmNames
  have hType : (d.tree.node n).type = (d.tree.node m).type := by
    rw [hnNames.2.2, hmNames.2.2]
    apply hApart x z hx hz hxRival hzRival
    · rw [← hnNames.1, ← hmNames.1]
      exact hParent
    · rw [← hnNames.2.1, ← hmNames.2.1]
      exact hSerial
  apply h.unique hn hm
  unfold TreeNode.key
  rw [hType, hParent, hSerial]

/- A device is clean after a mount. -/
theorem Rests.clean
    {s : Dev}
    {d : Disk}
    (h : Rests s d) : Clean s.flash s.tree idle s := by
  have hs := h.mounting
  have hFive := Platform.five_le_pageBuffers
  refine ⟨hs.toCalm, rfl, rfl, hs.noPending, ?_, ?_, ?_, ?_, ?_,
    ?_⟩
  · intro slot
    rw [hs.bufs]
    exact ⟨rfl, rfl⟩
  · rw [hs.bufs]
    intro hEmpty
    have hLength := congrArg List.length hEmpty
    simp only [BufPool.init, List.length_range',
      List.length_nil, cloneBuffersThreshold] at hLength
    omega
  · intro i hi
    exact absurd rfl hi
  · intro i _
    exact (hs.empty i).2
  · intro i _ hDirty
    rw [(hs.empty i).1] at hDirty
    cases hDirty
  · intro i _ hMark
    exact absurd (hs.empty i).1 hMark

/-
  A mount on a flash where every operation succeeds succeeds,
  and the reading calls that follow, however many and over
  whatever objects, give what the flash and the tree say, and
  leave both as they are.
-/
theorem mount_reads
    {u : Dev}
    (hGood : GoodFrom u.clock)
    (hMountable : u.flash.Mountable)
    (hTyped : u.flash.Typed)
    (hApart : u.flash.Apart) :
    wp mount
      (fun r _ s => r = .succ ∧ s.Mirrors ∧
        ∀ ops : List Op, (∀ op ∈ ops, op.reads = true) →
          (s.flash.volume s.tree).admitsAll ObjPool.empty ops =
            true →
          wp (runOps ObjPool.empty ops)
            (fun q _ t =>
              q = (s.flash.volume s.tree).runOps
                ObjPool.empty ops ∧
              t.flash = s.flash ∧ t.tree = s.tree) s) u := by
  refine wp_mono (wp_mount_swept hGood hMountable hTyped) ?_
  intro r _ s hs
  rcases hs with ⟨hr, d₀, d, hRests, hFinished⟩
  have hMirrors := hFinished.mirrors hRests
  refine ⟨hr, hMirrors, ?_⟩
  intro ops hReads hAdmits
  have hServing := clean_serving
    (hFinished.apart hRests hApart) hMirrors.summed
  refine wp_mono (hServing.runOps ops ObjPool.empty s
    hRests.clean ?_ hReads hAdmits) ?_
  · intro k obj hObj
    cases hObj
  · intro q _ t ht
    exact ⟨ht.2, ht.1.flash, ht.1.tree⟩

end Mounted

end Uffs
