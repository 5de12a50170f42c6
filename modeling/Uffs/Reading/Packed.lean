import Mathlib.Algebra.BigOperators.Intervals
import Uffs.Good.Length
import Uffs.Good.Remount
import Uffs.Reading.Bytes
import Uffs.Reading.Mounted

/-
  Arrays of bytes on flash.

  A file that is longer than its FILE block goes on in DATA
  blocks, numbered from one on.  When the blocks in use have
  the pieces of arrays of bytes, a mount gives each file the
  length of its array, and reading gives the bytes.

  Main declarations:
    * `headBytes`, `dataBytes`
    * `Flash.Pieces`, `Flash.Packs`
    * `Dev.Mirrors.stores`
    * `mount_readsBytes`
-/

namespace Uffs

open Prog

section Packed

variable [Platform]

------------------------------------------------------------
-- Pieces of an Array
------------------------------------------------------------

/- The bytes in the FILE block. -/
def headBytes (bytes : List Byte) : List Byte :=
  bytes.take (headPages * pgDataSize)

/- The bytes in the DATA block of number `k + 1`. -/
def dataBytes (bytes : List Byte) (k : Nat) : List Byte :=
  (bytes.drop ((headPages + k * pagesPerBlock) * pgDataSize)).take
    (pagesPerBlock * pgDataSize)

/-
  The pages of block `x` are written one after the other, and
  hold the pieces of an array of bytes.
-/
structure Flash.Pieces
    (F : Flash)
    (x : Nat)
    (bytes : List Byte) : Prop where
  tags : ∃ object n k, Uffs.Appended (F.tags x) object n k ∧
    object.type = (F.tags x 0).type ∧
    dataLength (F.tags x) object.type.dataFrom k = bytes.length
  page : ∀ i, i * pgDataSize < bytes.length →
    ∃ c, F.content x ((F.tags x 0).type.dataFrom + i) =
        some c ∧
      c.2 = min pgDataSize (bytes.length - i * pgDataSize) ∧
      c.1.take c.2 =
        (bytes.drop (i * pgDataSize)).take pgDataSize

/-
  The file with serial number `n` has the array `files n`:
  its FILE block has the first bytes, the DATA blocks have
  the others.
-/
structure Flash.Packs
    (F : Flash)
    (files : Nat → List Byte) : Prop where
  pages : ∀ n, (files n).length ≤ maxFilePages * pgDataSize
  size : ∀ n, (files n).length < 2 ^ 32
  file : ∀ x, F.Whole x → (F.tags x 0).type = .file →
    F.Pieces x (headBytes (files (F.tags x 0).serial))
  data : ∀ x, F.Whole x → (F.tags x 0).type = .data →
    ∃ k, (F.tags x 0).serial = k + 1 ∧
      F.Pieces x (dataBytes (files (F.tags x 0).parent) k)
  has : ∀ x, F.Whole x → (F.tags x 0).type = .file →
    ∀ k, dataBytes (files (F.tags x 0).serial) k ≠ [] →
      ∃ z, F.Whole z ∧ (F.tags z 0).type = .data ∧
        (F.tags z 0).parent = (F.tags x 0).serial ∧
        (F.tags z 0).serial = k + 1

section Same

variable {F G : Flash} {x : Nat} {bytes : List Byte}

theorem Flash.Pieces.congr
    (h : F.Pieces x bytes)
    (hPage : G.page x = F.page x) : G.Pieces x bytes where
  tags := by
    rw [Flash.tags_congr hPage]
    exact h.tags
  page := by
    rw [Flash.tags_congr hPage]
    intro i hi
    rw [Flash.content_congr hPage]
    exact h.page i hi

/- The code takes the length of the array for the block. -/
theorem Flash.Pieces.blockLength
    (h : F.Pieces x bytes)
    (hType : (F.tags x 0).type = .file ∨
      (F.tags x 0).type = .data) :
    Uffs.blockLength (F.tags x) (F.tags x 0).type =
      bytes.length := by
  rcases h.tags with ⟨object, n, k, hAppended, hObject, hLen⟩
  rw [← hObject] at hType ⊢
  rw [hAppended.blockLength_eq hType, hLen]

/- A page of a part of an array. -/
theorem Flash.Pieces.slice
    {base size i : Nat}
    (h : F.Pieces x ((bytes.drop base).take size))
    (hInside : base + i * pgDataSize < bytes.length)
    (hSize : (i + 1) * pgDataSize ≤ size) :
    ∃ c, F.content x ((F.tags x 0).type.dataFrom + i) =
        some c ∧
      c.2 = min pgDataSize
        (bytes.length - (base + i * pgDataSize)) ∧
      c.1.take c.2 =
        (bytes.drop (base + i * pgDataSize)).take
          pgDataSize := by
  have hPos := Platform.pgDataSize_pos
  rw [Nat.add_mul, Nat.one_mul] at hSize
  have hLength : ((bytes.drop base).take size).length =
      min size (bytes.length - base) := by
    rw [List.length_take, List.length_drop]
  rcases h.page i (by rw [hLength]; omega) with
    ⟨c, hContent, hLen, hBytes⟩
  refine ⟨c, hContent, ?_, ?_⟩
  · rw [hLen, hLength]
    omega
  · rw [hBytes, List.drop_take, List.take_take, List.drop_drop,
      Nat.min_eq_left (by omega)]

theorem Flash.Packs.congr
    {files : Nat → List Byte}
    (h : F.Packs files)
    (hWhole : ∀ x, G.Whole x ↔ F.Whole x)
    (hPage : ∀ x, F.Whole x → G.page x = F.page x) :
    G.Packs files where
  pages := h.pages
  size := h.size
  file := by
    intro x hx hType
    have hOld := (hWhole x).mp hx
    have hSame := hPage x hOld
    rw [Flash.tags_congr hSame] at hType ⊢
    exact (h.file x hOld hType).congr hSame
  data := by
    intro x hx hType
    have hOld := (hWhole x).mp hx
    have hSame := hPage x hOld
    rw [Flash.tags_congr hSame] at hType ⊢
    rcases h.data x hOld hType with ⟨k, hSerial, hPieces⟩
    exact ⟨k, hSerial, hPieces.congr hSame⟩
  has := by
    intro x hx hType k hBytes
    have hOld := (hWhole x).mp hx
    rw [Flash.tags_congr (hPage x hOld)] at hType hBytes ⊢
    rcases h.has x hOld hType k hBytes with ⟨z, hz, hTag⟩
    refine ⟨z, (hWhole z).mpr hz, ?_⟩
    rw [Flash.tags_congr (hPage z hz)]
    exact hTag

end Same

------------------------------------------------------------
-- Lengths
------------------------------------------------------------

/- The bytes of the first DATA blocks. -/
theorem sum_dataBytes
    (bytes : List Byte)
    (k : Nat) :
    ∑ i ∈ Finset.range k, (dataBytes bytes i).length =
      min (k * (pagesPerBlock * pgDataSize))
        (bytes.length - headPages * pgDataSize) := by
  induction k with
  | zero => simp
  | succ k ih =>
      rw [Finset.sum_range_succ, ih]
      unfold dataBytes
      rw [List.length_take, List.length_drop, Nat.add_mul,
        Nat.mul_assoc, Nat.add_mul, Nat.one_mul]
      omega

/-
  The parts of an array that different DATA blocks have, when
  no part is missing.
-/
theorem sum_parts
    (bytes : List Byte)
    {l : List Nat}
    (hNodup : l.Nodup)
    (hAll : ∀ k, dataBytes bytes k ≠ [] → k ∈ l) :
    (l.map fun k => (dataBytes bytes k).length).sum =
      bytes.length - headPages * pgDataSize := by
  have hPos := Platform.pgDataSize_pos
  have hTwo := Platform.two_le_pagesPerBlock
  have hBlock : 1 ≤ pagesPerBlock * pgDataSize :=
    Nat.mul_pos (by omega) hPos
  have hMany : bytes.length ≤
      bytes.length * (pagesPerBlock * pgDataSize) :=
    Nat.le_mul_of_pos_right _ hBlock
  have hFar : ∀ k, k ∉ Finset.range bytes.length →
      (dataBytes bytes k).length = 0 := by
    intro k hk
    rw [Finset.mem_range, Nat.not_lt] at hk
    have hMul : bytes.length * (pagesPerBlock * pgDataSize) ≤
        k * (pagesPerBlock * pgDataSize) :=
      Nat.mul_le_mul_right _ hk
    unfold dataBytes
    rw [List.length_take, List.length_drop, Nat.add_mul,
      Nat.mul_assoc]
    omega
  have hSum := sum_dataBytes bytes bytes.length
  rw [← List.sum_toFinset _ hNodup]
  rw [Nat.min_eq_right (by omega)] at hSum
  rw [← hSum]
  apply Finset.sum_congr_of_eq_on_inter
  · intro k _ hk
    exact hFar k hk
  · intro k _ hk
    rw [List.mem_toFinset] at hk
    by_contra hNot
    apply hk
    apply hAll
    intro hNil
    rw [hNil] at hNot
    exact hNot rfl
  · intro k _ _
    rfl

------------------------------------------------------------
-- Files of a Tree That Is an Image
------------------------------------------------------------

namespace Dev.Mirrors

variable {s : Dev} {files : Nat → List Byte} {n m x : Nat}

/- Each block has one node. -/
theorem eq_of_block
    (h : s.Mirrors)
    (hn : n ∈ s.tree.entryNodes)
    (hm : m ∈ s.tree.entryNodes)
    (hBlock : (s.tree.node n).block = (s.tree.node m).block) :
    n = m := by
  rcases h.parts with ⟨E, B, H, own, hParts⟩
  have hnIn := List.mem_append_right (E ++ B) hn
  have hmIn := List.mem_append_right (E ++ B) hm
  apply hParts.own_inj
  · exact hParts.lt (List.mem_append_left _ hnIn)
  · exact hParts.lt (List.mem_append_left _ hmIn)
  · rw [← hParts.block n hnIn, ← hParts.block m hmIn, hBlock]

/- The type of the nodes of a region is the one on flash. -/
theorem type_of_region
    {type : BlockType}
    (h : s.Mirrors)
    (hRegion : n ∈ s.tree.region type) :
    (s.flash.tags (s.tree.node n).block 0).type = type := by
  rcases h.parts with ⟨E, B, H, own, hParts⟩
  rw [← (h.names (Tree.region_subset hRegion)).2.2]
  exact hParts.type_of_mem hRegion

/- A data block in use has a data node. -/
theorem exists_data
    (h : s.Mirrors)
    (hWhole : s.flash.Whole x)
    (hType : (s.flash.tags x 0).type = .data) :
    ∃ n ∈ s.tree.region .data, (s.tree.node n).block = x := by
  rcases h.parts with ⟨E, B, H, own, hParts⟩
  rcases h.covers x hWhole with ⟨n, hn, hBlock⟩
  have hRegion := hParts.mem_region hn
  rw [(h.names hn).2.2, hBlock, hType] at hRegion
  exact ⟨n, hRegion, hBlock⟩

/- No two data nodes have the same file and number. -/
theorem data_inj
    (h : s.Mirrors)
    (hn : n ∈ s.tree.region .data)
    (hm : m ∈ s.tree.region .data)
    (hParent :
      (s.tree.node n).parent = (s.tree.node m).parent)
    (hSerial :
      (s.tree.node n).serial = (s.tree.node m).serial) :
    n = m := by
  have hnMem := Tree.region_subset hn
  have hmMem := Tree.region_subset hm
  apply h.eq_of_block hnMem hmMem
  apply h.tidy.unique _ _ (h.stands n hnMem).1
    (h.stands m hmMem).1
  unfold Tag.key
  rw [h.type_of_region hn, h.type_of_region hm,
    ← (h.names hnMem).1, ← (h.names hmMem).1,
    ← (h.names hnMem).2.1, ← (h.names hmMem).2.1, hParent,
    hSerial]

/- A data node is found by its file and its number. -/
theorem findDataNode
    (h : s.Mirrors)
    (hn : n ∈ s.tree.region .data) :
    s.tree.findDataNode (s.tree.node n).parent
      (s.tree.node n).serial = some n := by
  rcases h.parts with ⟨E, B, H, own, hParts⟩
  rcases Tree.mem_region.mp hn with ⟨k, _, hk⟩
  have hHash := (hParts.hash .data k n hk).2
  have hEntry : n ∈ s.tree.dataEntry (getDataHash
      (s.tree.node n).parent (s.tree.node n).serial) := by
    have hIn : n ∈ s.tree.dataEntry k := hk
    rw [← hHash] at hIn
    exact hIn
  unfold Tree.findDataNode
  cases hFind : (s.tree.dataEntry (getDataHash
      (s.tree.node n).parent (s.tree.node n).serial)).find?
        fun m => (s.tree.node m).parent ==
          (s.tree.node n).parent &&
            (s.tree.node m).serial ==
              (s.tree.node n).serial with
  | none =>
      have hNot := List.find?_eq_none.mp hFind n hEntry
      simp at hNot
  | some m =>
      have hm := List.find?_some hFind
      have hmIn := List.mem_of_find?_eq_some hFind
      have hmData : m ∈ s.tree.region .data :=
        Tree.mem_region.mpr
          ⟨_, Nat.mod_lt _ (by decide), hmIn⟩
      rw [Bool.and_eq_true, beq_iff_eq, beq_iff_eq] at hm
      rw [h.data_inj hmData hn hm.1 hm.2]

/- The length of a data node is the one of its block. -/
theorem data_len
    (h : s.Mirrors)
    (hn : n ∈ s.tree.region .data) :
    (s.tree.node n).len =
      blockLength (s.flash.tags (s.tree.node n).block)
        .data := by
  have hType := h.type_of_region hn
  rcases (h.stands n (Tree.region_subset hn)).2 with
    ⟨x, hStands, hNode⟩
  have hNot : x.type ≠ .file := by
    rw [hStands.block.2.2, hType]
    exact BlockType.noConfusion
  rcases hStands with ⟨_, sum, old, rfl, _⟩
  unfold Tree.withData at hNode
  rw [if_neg hNot] at hNode
  have hLen := congrArg TreeNode.len hNode
  rw [hLen]
  unfold Flash.nodeOf
  simp only [hType]
  rfl

/- A file has the lengths of all its blocks. -/
theorem file_len
    (h : s.Mirrors)
    (hn : n ∈ s.tree.region .file) :
    (s.tree.node n).len =
      blockLength (s.flash.tags (s.tree.node n).block) .file +
        s.tree.share s.tree.dataNodes
          (s.tree.node n).serial := by
  have hType := h.type_of_region hn
  have hSerial := (h.names (Tree.region_subset hn)).2.1
  rcases (h.stands n (Tree.region_subset hn)).2 with
    ⟨x, hStands, hNode⟩
  have hFile : x.type = .file := by
    rw [hStands.block.2.2, hType]
  have hOwn : x.serial = (s.tree.node n).serial := by
    rw [hNode, (s.tree.withData_names x).2.1]
  rcases hStands with ⟨_, sum, old, rfl, _⟩
  unfold Tree.withData at hNode
  rw [if_pos hFile, hOwn] at hNode
  have hLen := congrArg TreeNode.len hNode
  rw [hLen]
  unfold Flash.nodeOf
  simp only [hType]
  rfl

/- The DATA blocks of a file have what the FILE block lacks. -/
theorem share_packs
    (h : s.Mirrors)
    (hPacks : s.flash.Packs files)
    (hn : n ∈ s.tree.region .file) :
    s.tree.share s.tree.dataNodes (s.tree.node n).serial =
      (files (s.tree.node n).serial).length -
        headPages * pgDataSize := by
  rcases h.parts with ⟨E, B, H, own, hParts⟩
  have hMem := Tree.region_subset hn
  have hBlock : ∀ w ∈ s.tree.region .data,
      ∃ k, (s.tree.node w).serial = k + 1 ∧
        s.flash.Pieces (s.tree.node w).block
          (dataBytes (files (s.tree.node w).parent) k) := by
    intro w hw
    have hwMem := Tree.region_subset hw
    rcases hPacks.data _ (h.stands w hwMem).1
      (h.type_of_region hw) with ⟨k, hSerial, hPieces⟩
    rw [← (h.names hwMem).2.1] at hSerial
    rw [← (h.names hwMem).1] at hPieces
    exact ⟨k, hSerial, hPieces⟩
  have hNumber : ∀ w ∈ s.tree.region .data,
      (s.tree.node w).serial - 1 + 1 =
        (s.tree.node w).serial := by
    intro w hw
    rcases hBlock w hw with ⟨k, hSerial, _⟩
    rw [hSerial, Nat.add_sub_cancel]
  have hNodup : ((s.tree.dataNodes.filter fun w =>
      (s.tree.node w).parent == (s.tree.node n).serial).map
        fun w => (s.tree.node w).serial - 1).Nodup := by
    apply List.Nodup.map_on _
      (hParts.dataNodes_nodup.filter _)
    intro w hw z hz hEq
    rw [List.mem_filter, beq_iff_eq] at hw hz
    have hwData : w ∈ s.tree.region .data := hw.1
    have hzData : z ∈ s.tree.region .data := hz.1
    apply h.data_inj hwData hzData
    · rw [hw.2, hz.2]
    · rw [← hNumber w hwData, ← hNumber z hzData, hEq]
  have hSum := sum_parts (files (s.tree.node n).serial) hNodup
    (by
      intro k hk
      rw [(h.names hMem).2.1] at hk
      rcases hPacks.has _ (h.stands n hMem).1
        (h.type_of_region hn) k hk with
          ⟨z, hz, hType, hParent, hSerial⟩
      rcases h.exists_data hz hType with ⟨w, hw, hwBlock⟩
      have hNames := h.names (Tree.region_subset hw)
      rw [hwBlock] at hNames
      rw [List.mem_map]
      refine ⟨w, ?_, ?_⟩
      · rw [List.mem_filter, beq_iff_eq, hNames.1, hParent,
          (h.names hMem).2.1]
        exact ⟨hw, rfl⟩
      · rw [hNames.2.1, hSerial, Nat.add_sub_cancel])
  rw [← hSum, List.map_map]
  unfold Tree.share
  apply congrArg List.sum
  apply List.map_congr_left
  intro w hw
  rw [List.mem_filter, beq_iff_eq] at hw
  have hwData : w ∈ s.tree.region .data := hw.1
  rcases hBlock w hwData with ⟨k, hSerial, hPieces⟩
  have hType := h.type_of_region hwData
  have hLen := hPieces.blockLength (Or.inr hType)
  rw [hType] at hLen
  rw [h.data_len hwData, hLen, hw.2, Function.comp, hSerial,
    Nat.add_sub_cancel]

/- A file is as long as its array. -/
theorem len_packs
    (h : s.Mirrors)
    (hPacks : s.flash.Packs files)
    (hn : n ∈ s.tree.region .file) :
    (s.tree.node n).len =
      (files (s.tree.node n).serial).length := by
  have hMem := Tree.region_subset hn
  have hType := h.type_of_region hn
  have hLen := (hPacks.file _ (h.stands n hMem).1
    hType).blockLength (Or.inl hType)
  rw [hType, ← (h.names hMem).2.1] at hLen
  rw [h.file_len hn, h.share_packs hPacks hn, hLen]
  unfold headBytes
  rw [List.length_take]
  omega

/- The pages of a file hold the pieces of its array. -/
theorem page_packs
    {q : Nat}
    (h : s.Mirrors)
    (hPacks : s.flash.Packs files)
    (hn : n ∈ s.tree.region .file)
    (hq : q * pgDataSize <
      (files (s.tree.node n).serial).length) :
    ∃ c, (s.flash.volume s.tree).filePage n q = some c ∧
      c.2 = min pgDataSize
        ((files (s.tree.node n).serial).length -
          q * pgDataSize) ∧
      c.1.take c.2 =
        ((files (s.tree.node n).serial).drop
          (q * pgDataSize)).take pgDataSize := by
  have hTwo := Platform.two_le_pagesPerBlock
  have hMem := Tree.region_subset hn
  have hType := h.type_of_region hn
  unfold Volume.filePage Volume.blockNode fdnOf idOf
  by_cases hHead : q < headPages
  · -- the page is in the FILE block
    have hPieces := hPacks.file _ (h.stands n hMem).1 hType
    rw [← (h.names hMem).2.1] at hPieces
    unfold headBytes at hPieces
    rw [← List.drop_zero (l := files _)] at hPieces
    have hPage := hPieces.slice (i := q) (by
      rw [Nat.zero_add]
      exact hq) (Nat.mul_le_mul_right _ hHead)
    rw [hType, Nat.zero_add] at hPage
    rw [if_pos hHead, if_pos hHead, if_pos rfl,
      Option.bind_some, Nat.add_comm]
    exact hPage
  · -- the page is in a DATA block
    rw [if_neg hHead, if_neg hHead,
      if_neg (Nat.succ_ne_zero _)]
    have hDiv := Nat.div_add_mod' (q - headPages) pagesPerBlock
    have hMod := Nat.mod_lt (q - headPages)
      (show 0 < pagesPerBlock by omega)
    generalize hk : (q - headPages) / pagesPerBlock = k at *
    generalize hi : (q - headPages) % pagesPerBlock = i at *
    have hPlace : (headPages + k * pagesPerBlock) *
        pgDataSize + i * pgDataSize = q * pgDataSize := by
      rw [← Nat.add_mul]
      congr 1
      omega
    have hNonempty : dataBytes
        (files (s.flash.tags (s.tree.node n).block 0).serial)
          k ≠ [] := by
      rw [← (h.names hMem).2.1]
      intro hNil
      have hLength := congrArg List.length hNil
      have hBlock : 0 < pagesPerBlock * pgDataSize :=
        Nat.mul_pos (by omega) Platform.pgDataSize_pos
      unfold dataBytes at hLength
      rw [List.length_take, List.length_drop,
        List.length_nil] at hLength
      omega
    rcases hPacks.has _ (h.stands n hMem).1 hType k hNonempty
      with ⟨z, hz, hzType, hzParent, hzSerial⟩
    rcases h.exists_data hz hzType with ⟨w, hw, hwBlock⟩
    have hwNames := h.names (Tree.region_subset hw)
    rw [hwBlock, hzParent, ← (h.names hMem).2.1, hzSerial]
      at hwNames
    have hFind := h.findDataNode hw
    rw [hwNames.1, hwNames.2.1] at hFind
    change ∃ c, (s.tree.findDataNode (s.tree.node n).serial
      (k + 1)).bind _ = some c ∧ _
    rw [hFind, Option.bind_some]
    rcases hPacks.data z hz hzType with ⟨j, hj, hPieces⟩
    have hjk : j = k := by omega
    rw [hjk, hzParent, ← (h.names hMem).2.1] at hPieces
    have hPage := hPieces.slice (i := i) (by omega)
      (Nat.mul_le_mul_right _ hMod)
    rw [hzType, hPlace] at hPage
    change ∃ c, s.flash.content (s.tree.node w).block i =
      some c ∧ _
    rw [hwBlock]
    rw [BlockType.dataFrom_data, Nat.zero_add] at hPage
    exact hPage

/- The files of the tree hold the arrays. -/
theorem stores
    (h : s.Mirrors)
    (hPacks : s.flash.Packs files) :
    (s.flash.volume s.tree).Stores files := by
  intro n hn
  constructor
  · exact h.len_packs hPacks hn
  · exact hPacks.pages _
  · exact hPacks.size _
  · intro q hq
    exact h.page_packs hPacks hn hq

end Dev.Mirrors

/-
  After a mount of a flash that has arrays of bytes for its
  files, reading calls, however many and over whatever
  objects, read the bytes of the arrays.
-/
theorem mount_readsBytes
    {u : Dev}
    {files : Nat → List Byte}
    (hGood : GoodFrom u.clock)
    (hTidy : u.flash.Tidy)
    (hApart : u.flash.Apart)
    (hPacks : u.flash.Packs files) :
    wp mount
      (fun r _ s => r = .succ ∧ s.Mirrors ∧
        ∀ ops : List Op, (∀ op ∈ ops, op.reads = true) →
          (s.flash.volume s.tree).admitsAll ObjPool.empty ops =
            true →
          wp (runOps ObjPool.empty ops)
            (fun q _ t =>
              q = (s.flash.volume s.tree).runBytes files
                ObjPool.empty ops ∧
              t.flash = s.flash ∧ t.tree = s.tree) s) u := by
  have hEnters := wp_mount_enters hGood hTidy.mountable
  have hSwept := wp_mount_swept hGood hTidy.mountable
    hTidy.typed
  refine wp_mono (wp_conj hEnters hSwept) ?_
  intro r _ s hs
  rcases hs with ⟨⟨_, hEnter⟩, hr, d₀, d, hRests, hFinished⟩
  have hIff := hFinished.whole_iff hTidy hRests.flash
    hRests.tree hEnter
  have hMirrors := hFinished.mirrors hRests
  have hStores := hMirrors.stores (hPacks.congr (by
    rw [hRests.flash]
    exact fun x => (hIff x).1) (by
      rw [hRests.flash]
      exact fun x => (hIff x).2))
  refine ⟨hr, hMirrors, ?_⟩
  intro ops hReads hAdmits
  refine wp_mono (clean_readsBytes hRests.clean
    (hFinished.apart hRests hApart) hMirrors.summed hStores
    (p := ObjPool.empty) ?_ ops hReads hAdmits) ?_
  · intro k obj hObj
    cases hObj
  · intro q _ t ht
    exact ⟨ht.1, ht.2.flash, ht.2.tree⟩

end Packed

------------------------------------------------------------
-- A File in Two Blocks
------------------------------------------------------------

/- The bytes 0 to 499. -/
def fiveHundred : List Byte :=
  (List.range 500).map UInt8.ofNat

/-
  A file of 500 bytes: block 1 is full, with the file info
  and the first three pages, and block 2 has the last 20
  bytes.
-/
def packed : Flash where
  page := fun b p =>
    if b = 1 ∧ p = 0 then
      { status := 0
        data := FileInfo.bytes ⟨0, 0, 0, 0, 0, [97]⟩
        tag := .store .file 0 fileInfoSize 1 0 0 }
    else if b = 1 ∧ p < 4 then
      { status := 0
        data := (fiveHundred.drop ((p - 1) * 160)).take 160
        tag := .store .file 0 160 1 0 p }
    else if b = 2 ∧ p = 0 then
      { status := 0
        data := fiveHundred.drop 480
        tag := .store .data 0 20 1 1 0 }
    else
      Page.erased 160
  bad := fun _ => false

/- The array of the file. -/
def packedFiles (n : Nat) : List Byte :=
  if n = 1 then fiveHundred else []

/- The blocks of this flash that are in use. -/
theorem packed_used :
    letI := emulator alwaysOk
    ∀ x, InPartition x → (packed.tags x 0).isErased = true ∨
      x = 1 ∨ x = 2 := by
  let _ := emulator alwaysOk
  have hAll : ∀ x ∈ List.range' parStart nodeCount,
      (packed.tags x 0).isErased = true ∨ x = 1 ∨ x = 2 := by
    decide +kernel
  intro x hx
  exact hAll x (List.mem_range'_1.mpr hx)

theorem packed_whole :
    letI := emulator alwaysOk
    ∀ x, packed.Whole x ↔ x = 1 ∨ x = 2 := by
  let _ := emulator alwaysOk
  intro x
  constructor
  · intro hx
    rcases packed_used x hx.place with h | h
    · rw [hx.rival.used] at h
      cases h
    · exact h
  · intro hx
    rcases hx with rfl | rfl
    · constructor
      · exact ⟨by decide, by decide⟩
      · constructor <;> decide +kernel
      · exact Or.inr ⟨Or.inr (by decide), by decide +kernel⟩
      · decide +kernel
    · constructor
      · exact ⟨by decide, by decide⟩
      · constructor <;> decide +kernel
      · exact Or.inl (by decide)
      · decide +kernel

theorem packed_tidy :
    letI := emulator alwaysOk
    packed.Tidy ∧ packed.Apart := by
  let _ := emulator alwaysOk
  have hKey : (packed.tags 1 0).key ≠ (packed.tags 2 0).key := by
    decide +kernel
  have hParent :
      (packed.tags 1 0).parent ≠ (packed.tags 2 0).parent := by
    decide +kernel
  refine ⟨⟨?_, ?_, ?_⟩, ?_⟩
  · intro x hx
    rcases packed_used x hx with h | h
    · exact Or.inr (Or.inl h)
    · exact Or.inr (Or.inr ((packed_whole x).mpr h))
  · intro x z hx hz hSame
    rcases (packed_whole x).mp hx with rfl | rfl
    · rcases (packed_whole z).mp hz with rfl | rfl
      · rfl
      · exact absurd hSame hKey
    · rcases (packed_whole z).mp hz with rfl | rfl
      · exact absurd hSame.symm hKey
      · rfl
  · intro x hx hData
    rcases (packed_whole x).mp hx with rfl | rfl
    · exact absurd hData (by decide +kernel)
    · exact ⟨1, (packed_whole 1).mpr (Or.inl rfl),
        by decide +kernel, by decide +kernel⟩
  · intro x z hx hz hxRival hzRival hSame _
    rcases packed_used x hx with h | rfl | rfl
    · rw [hxRival.used] at h
      cases h
    · rcases packed_used z hz with h | rfl | rfl
      · rw [hzRival.used] at h
        cases h
      · rfl
      · exact absurd hSame hParent
    · rcases packed_used z hz with h | rfl | rfl
      · rw [hzRival.used] at h
        cases h
      · exact absurd hSame.symm hParent
      · rfl

/- The FILE block is full of pieces. -/
theorem packed_head :
    letI := emulator alwaysOk
    packed.Pieces 1 (headBytes fiveHundred) := by
  let _ := emulator alwaysOk
  have hLen : (headBytes fiveHundred).length = 480 := by
    decide +kernel
  have hPage : ∀ i ∈ List.range 3,
      packed.content 1 (1 + i) =
        some ((fiveHundred.drop (i * 160)).take 160, 160) ∧
      160 = min 160 (480 - i * 160) ∧
      ((fiveHundred.drop (i * 160)).take 160).take 160 =
        ((headBytes fiveHundred).drop (i * 160)).take 160 := by
    decide +kernel
  constructor
  · refine ⟨⟨.file, 0, 1⟩, 4, 3, ?_, by decide, ?_⟩
    · constructor
      · constructor
        · decide
        · decide
        · decide
        · decide
        · decide
        · decide
        · intro p hp hLt
          exact absurd hLt (Nat.not_lt.mpr hp)
      · decide
      · decide
    · rw [hLen]
      decide +kernel
  · intro i hi
    rw [hLen] at hi
    have hSmall : i < 3 := by
      have hi' : i * 160 < 480 := hi
      omega
    rcases hPage i (List.mem_range.mpr hSmall) with
      ⟨hContent, hMin, hBytes⟩
    rw [hLen]
    exact ⟨_, hContent, hMin, hBytes⟩

/- The DATA block has the last bytes. -/
theorem packed_tail :
    letI := emulator alwaysOk
    packed.Pieces 2 (dataBytes fiveHundred 0) := by
  let _ := emulator alwaysOk
  have hLen : (dataBytes fiveHundred 0).length = 20 := by
    decide +kernel
  have hPage : packed.content 2 0 =
        some (fiveHundred.drop 480, 20) ∧
      20 = min pgDataSize 20 ∧
      (fiveHundred.drop 480).take 20 =
        (dataBytes fiveHundred 0).take pgDataSize := by
    decide +kernel
  have hType : (packed.tags 2 0).type = .data := by decide
  constructor
  · refine ⟨⟨.data, 1, 1⟩, 1, 0, ?_, by decide, ?_⟩
    · constructor
      · constructor
        · decide
        · decide
        · decide
        · decide
        · decide
        · decide
        · decide
      · decide
      · intro id _ hLt
        exact absurd hLt (Nat.not_lt_zero id)
    · rw [hLen]
      decide +kernel
  · intro i hi
    rw [hLen] at hi
    have hZero : i = 0 := by
      have hi' : i * 160 < 20 := hi
      omega
    subst hZero
    rw [hLen, hType, BlockType.dataFrom_data, Nat.zero_mul,
      List.drop_zero, Nat.add_zero, Nat.sub_zero]
    refine ⟨_, hPage.1, ?_, ?_⟩
    · dsimp only
      exact hPage.2.1
    · dsimp only
      exact hPage.2.2

theorem packed_packs :
    letI := emulator alwaysOk
    packed.Packs packedFiles := by
  let _ := emulator alwaysOk
  have hMore : ∀ n k, k ≠ 0 →
      dataBytes (packedFiles n) k = [] := by
    intro n k hk
    apply List.eq_nil_of_length_eq_zero
    have hLen : (packedFiles n).length ≤ 500 := by
      unfold packedFiles
      split
      · decide +kernel
      · decide
    have hFar : 1120 ≤
        (headPages + k * pagesPerBlock) * pgDataSize := by
      change 1120 ≤ (3 + k * 4) * 160
      omega
    unfold dataBytes
    rw [List.length_take, List.length_drop]
    omega
  constructor
  · intro n
    unfold packedFiles
    split
    · decide +kernel
    · exact Nat.zero_le _
  · intro n
    unfold packedFiles
    split
    · decide +kernel
    · decide
  · intro x hx hFile
    rcases (packed_whole x).mp hx with rfl | rfl
    · exact packed_head
    · exact absurd hFile (by decide +kernel)
  · intro x hx hData
    rcases (packed_whole x).mp hx with rfl | rfl
    · exact absurd hData (by decide +kernel)
    · exact ⟨0, by decide, packed_tail⟩
  · intro x hx hFile k hk
    rcases (packed_whole x).mp hx with rfl | rfl
    · by_cases hZero : k = 0
      · subst hZero
        exact ⟨2, (packed_whole 2).mpr (Or.inr rfl),
          by decide, by decide, by decide⟩
      · exact absurd (hMore _ k hZero) hk
    · exact absurd hFile (by decide +kernel)

theorem mount_reads_packed :
    letI := emulator alwaysOk
    wp mount
      (fun r _ s => r = .succ ∧ s.Mirrors ∧
        ∀ ops : List Op, (∀ op ∈ ops, op.reads = true) →
          (s.flash.volume s.tree).admitsAll ObjPool.empty ops =
            true →
          wp (runOps ObjPool.empty ops)
            (fun q _ t =>
              q = (s.flash.volume s.tree).runOps
                ObjPool.empty ops ∧
              t.flash = s.flash ∧ t.tree = s.tree) s)
      (Dev.init packed 0) := by
  let _ := emulator alwaysOk
  exact mount_reads (u := Dev.init packed 0) (fun _ _ => rfl)
    packed_tidy.1.mountable packed_tidy.1.typed packed_tidy.2

theorem mount_readsBytes_packed :
    letI := emulator alwaysOk
    wp mount
      (fun r _ s => r = .succ ∧ s.Mirrors ∧
        ∀ ops : List Op, (∀ op ∈ ops, op.reads = true) →
          (s.flash.volume s.tree).admitsAll ObjPool.empty ops =
            true →
          wp (runOps ObjPool.empty ops)
            (fun q _ t =>
              q = (s.flash.volume s.tree).runBytes packedFiles
                ObjPool.empty ops ∧
              t.flash = s.flash ∧ t.tree = s.tree) s)
      (Dev.init packed 0) := by
  let _ := emulator alwaysOk
  exact mount_readsBytes (u := Dev.init packed 0)
    (fun _ _ => rfl) packed_tidy.1 packed_tidy.2 packed_packs

end Uffs
