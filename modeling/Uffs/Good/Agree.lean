import Uffs.Good.Recover
import Uffs.Model.Emulator
import Uffs.Tree.Parts

/-
  The two ways to flush a dirty group leave the same content:
  the old pages of the block overlaid with the group.

  Main declarations:
    * `Recoverable`, `Recoverable.mayCopy`
    * `FlushCase`
    * `FlushedTo`
    * `flushes_agree`
-/

namespace Uffs

open Prog

section Agree

variable [Platform]

------------------------------------------------------------
-- A Recover that Overlays the Block
------------------------------------------------------------

/- What is wanted of a page id. -/
def Wanted
    (want : Nat → Option (List Byte × Nat))
    (id : Nat)
    (data : List Byte)
    (len : Nat) : Prop :=
  want id = some (data, len) ∧ len ≤ pgDataSize

/-
  A dirty group whose pages extend or overlap the pages of
  block `b` without a gap, and whose object has no other
  cached page than those that block `b` holds.  No dirty page
  is empty, and no page of the block overflows.
-/
structure Recoverable
    (s : Dev)
    (slot b : Nat)
    (key : GroupKey)
    (m k : Nat) : Prop where
  sound : s.buf.Sound
  few : s.buf.Few
  two : 2 ≤ s.buf.clone.length
  filled : Filled (s.flash.tags b) key m k
  group : s.buf.Extends slot key k
  pos : ∀ d ∈ (s.buf.group slot).dirty,
    0 < (s.buf.entry d).dataLen
  len : ∀ p < m, (s.flash.tags b p).dataLen ≤ pgDataSize
  cached : ∀ j ∈ s.buf.list, (s.buf.entry j).mark ≠ .empty →
    j ∉ (s.buf.group slot).dirty →
    (s.buf.entry j).groupKey = (key.parent, key.serial) →
      s.flash.content b (s.buf.entry j).pageId =
        some ((s.buf.entry j).data, (s.buf.entry j).dataLen)

namespace Recoverable

variable {s t : Dev} {slot b m k id : Nat} {key : GroupKey}

/- A dirty page is the content of its page id. -/
theorem overlay_dirty
    (h : Recoverable s slot b key m k)
    {d : Nat}
    (hd : d ∈ (s.buf.group slot).dirty) :
    s.overlay slot b (s.buf.entry d).pageId =
      some ((s.buf.entry d).data, (s.buf.entry d).dataLen) := by
  unfold Dev.overlay BufPool.content
  rw [h.sound.content_of_mem hd, Option.map_some]
  rfl

/- A page id that no dirty page has is read from flash. -/
theorem overlay_clean
    (hNot : (s.buf.group slot).dirty.find?
      (fun d => (s.buf.entry d).pageId == id) = none) :
    s.overlay slot b id = s.flash.content b id := by
  unfold Dev.overlay BufPool.content
  rw [hNot]
  rfl

/- The page ids that are there have no gap. -/
theorem overlay_isSome
    (h : Recoverable s slot b key m k)
    {id' : Nat}
    (hSome : (s.overlay slot b id).isSome)
    (hLe : id' ≤ id) : (s.overlay slot b id').isSome := by
  have hDirty : ∀ d ∈ (s.buf.group slot).dirty,
      (s.overlay slot b (s.buf.entry d).pageId).isSome := by
    intro d hd
    rw [h.overlay_dirty hd]
    rfl
  have hBelow : ∀ x ≤ k, (s.overlay slot b x).isSome := by
    intro x hx
    unfold Dev.overlay
    rw [Option.isSome_or, h.filled.content_isSome_iff.mpr hx,
      Bool.or_true]
  by_cases hid : id ≤ k
  · exact hBelow id' (Nat.le_trans hLe hid)
  · unfold Dev.overlay at hSome
    rw [Option.isSome_or, Bool.or_eq_true,
      h.filled.content_isSome_iff] at hSome
    have hContent := hSome.resolve_right hid
    unfold BufPool.content at hContent
    rw [Option.isSome_map, List.find?_isSome] at hContent
    rcases hContent with ⟨d, hd, hId⟩
    rw [beq_iff_eq] at hId
    rw [← hId] at hLe
    rcases h.group.noGap d hd id' hLe with hk | ⟨e, he, hEq⟩
    · exact hBelow id' hk
    · rw [← hEq]
      exact hDirty e he

/- Page ids are below the number of pages of a block. -/
theorem overlay_none
    (h : Recoverable s slot b key m k)
    (hId : pagesPerBlock ≤ id) :
    s.overlay slot b id = none := by
  have hk := h.filled.lt_pages
  have hm := h.filled.le
  rw [overlay_clean, ← Option.not_isSome_iff_eq_none,
    h.filled.content_isSome_iff]
  · omega
  · rw [List.find?_eq_none]
    intro d hd hEq
    rw [beq_iff_eq] at hEq
    have hLt := (h.group.filled d hd).page_lt
    omega

/- What a recover may copy is what is wanted. -/
theorem mayCopy
    (h : Recoverable s slot b key m k) :
    MayCopy s slot b key (Wanted (s.overlay slot b)) where
  sound := h.sound
  few := h.few
  two := h.two
  dirty := by
    intro d hd
    exact ⟨h.overlay_dirty hd, (h.group.filled d hd).len_le⟩
  cached := by
    intro j hj hMark hNot hKey
    have hContent := h.cached j hj hMark hNot hKey
    have hLen := h.filled.content_len h.len hContent
    have hClean : s.buf.NoDirty slot (s.buf.entry j).pageId := by
      unfold BufPool.NoDirty
      rw [List.find?_eq_none]
      intro d hd hId
      rw [beq_iff_eq] at hId
      have hLinked := h.sound.linked slot d hd
      have hFilled := h.group.filled d hd
      unfold Buf.groupKey at hKey
      rw [Prod.mk.injEq] at hKey
      have hEq : d = j := by
        apply h.sound.pages d hLinked.1 j hj _ hMark
        · unfold Buf.pageKey
          rw [hFilled.parent, hFilled.serial, hId, hKey.1,
            hKey.2]
        · rw [hLinked.2]
          exact BufMark.noConfusion
      rw [hEq] at hd
      exact hNot hd
    refine ⟨hLen, ?_, hLen⟩
    rw [overlay_clean hClean]
    exact hContent
  read := by
    intro n p hClean hNewest
    have hContent : s.flash.content b n =
        some ((s.flash.page b p).data,
          (s.flash.tags b p).dataLen) := by
      unfold Flash.content
      rw [hNewest]
      rfl
    have hLen := h.filled.content_len h.len hContent
    rw [Nat.min_eq_left hLen]
    refine ⟨?_, hLen⟩
    rw [overlay_clean hClean]
    exact hContent

/- The recover ends where nothing more is wanted. -/
theorem ends
    (h : Recoverable s slot b key m k)
    {page n : Nat}
    (hEnds : Ends s slot b page n) :
    n = page ∧ ∀ id, page ≤ id →
      s.overlay slot b id = none := by
  cases hEnds with
  | full hAll =>
      refine ⟨rfl, ?_⟩
      intro id hid
      exact h.overlay_none (Nat.le_trans (Nat.le_of_eq hAll.symm)
        hid)
  | last hClean hNone =>
      refine ⟨rfl, ?_⟩
      intro id hid
      by_contra hNot
      have hBelow := h.overlay_isSome
        (Option.isSome_iff_ne_none.mpr hNot) hid
      rw [overlay_clean hClean] at hBelow
      unfold Flash.content at hBelow
      rw [hNone] at hBelow
      cases hBelow
  | empty d hd _ hLen =>
      have hPos := h.pos d hd
      omega
  | tail d hd _ hTail _ =>
      rw [(h.group.filled d hd).tail] at hTail
      cases hTail

end Recoverable

section Content

variable {F : Flash} {b stamp n : Nat} {key : GroupKey}
  {want : Nat → Option (List Byte × Nat)}

/- The tags of the pages that are copied. -/
theorem Flash.Copied.tags
    (h : F.Copied b key stamp (Wanted want) n)
    (hFits : key.Fits)
    {p : Nat}
    (hp : p < n) :
    ∃ data len, want p = some (data, len) ∧
      (F.page b p).data = data ∧
      (F.tags b p).dataLen = len ∧
      (F.tags b p).isGood ∧ (F.tags b p).pageId = p ∧
      (F.tags b p).type = key.type ∧
      (F.tags b p).parent = key.parent ∧
      (F.tags b p).serial = key.serial := by
  have hLt := Nat.lt_of_lt_of_le hp h.le
  rcases h.page p hp with ⟨data, len, hWant, hPage⟩
  have hLen := Nat.lt_of_le_of_lt hWant.2
    (Nat.lt_succ_of_le Platform.pgDataSize_le)
  have hId := Nat.lt_of_lt_of_le hLt Platform.pagesPerBlock_le
  unfold Flash.tags
  rw [hPage]
  refine ⟨data, len, hWant.1, rfl, ?_, rfl, ?_, rfl, ?_, ?_⟩
  · exact Nat.mod_eq_of_lt hLen
  · exact Nat.mod_eq_of_lt hId
  · exact Nat.mod_eq_of_lt hFits.parent
  · exact Nat.mod_eq_of_lt hFits.serial

/- A block that is copied is filled from below. -/
theorem Flash.Copied.filled
    (h : F.Copied b key stamp (Wanted want) (n + 1))
    (hFits : key.Fits) :
    Filled (F.tags b) key (n + 1) n := by
  constructor
  · exact h.le
  · intro p hp
    rcases h.tags hFits hp with ⟨_, _, _, _, _, hGood, _⟩
    exact hGood
  · intro p hp
    rcases h.tags hFits hp with ⟨_, _, _, _, _, _, _, hKey⟩
    exact hKey
  · intro p hp
    rcases h.tags hFits hp with ⟨_, _, _, _, _, _, hId, _⟩
    exact Nat.le_of_eq hId
  · intro p hp
    rcases h.tags hFits hp with ⟨_, _, _, _, _, _, hId, _⟩
    omega
  · intro id hid
    rcases h.tags hFits (Nat.lt_succ_of_le hid) with
      ⟨_, _, _, _, _, _, hId, _⟩
    exact ⟨id, by omega, hId⟩
  · intro p hp hLt
    unfold Flash.tags
    rw [h.erased p hp hLt]
    rfl

/- The content of the new block is the wanted one. -/
theorem Flash.Copied.content
    (h : F.Copied b key stamp (Wanted want) n)
    (hFits : key.Fits)
    (hPos : 0 < n)
    (hEnd : ∀ id, n ≤ id → want id = none)
    (id : Nat) : F.content b id = want id := by
  rcases n with _ | n
  · omega
  have hFilled := h.filled hFits
  by_cases hid : id < n + 1
  · rcases h.tags hFits hid with
      ⟨data, len, hWant, hData, hTag, _, hId, _⟩
    have hNewest : newestPage (F.tags b) id = some id := by
      apply hFilled.newest hid hId
      intro q hq hqn hEq
      rcases h.tags hFits hqn with
        ⟨_, _, _, _, _, _, hqId, _⟩
      omega
    unfold Flash.content
    rw [hNewest, Option.map_some, hWant, hData, hTag]
  · rw [hEnd id (by omega)]
    unfold Flash.content
    rw [hFilled.newest_none (by omega)]
    rfl

end Content

/- The node of the block holds the overlaid content. -/
theorem Replaces.content
    {slot node newNode b y page n m k : Nat}
    {key : GroupKey}
    {T : Tree}
    {s t : Dev}
    {F : Flash}
    {es : List Event}
    (h : Replaces slot node newNode b y key
      (Wanted (s.overlay slot b)) T s F page n es t)
    (hGroup : Recoverable s slot b key m k)
    (hFits : key.Fits)
    (hby : b ≠ y)
    (id : Nat) :
    t.flash.content y id = s.overlay slot b id := by
  rcases hGroup.ends h.ends with ⟨hEq, hSome⟩
  subst hEq
  have hFirst : (s.overlay slot b 0).isSome := by
    unfold Dev.overlay
    rw [Option.isSome_or,
      hGroup.filled.content_isSome_iff.mpr (Nat.zero_le k),
      Bool.or_true]
  have hPos : 0 < n := by
    by_contra hNot
    rw [hSome 0 (by omega)] at hFirst
    cases hFirst
  have hPage : t.flash.page y = F.page y := by
    rw [h.flash]
    exact upd_other _ _ (Ne.symm hby)
  rw [← h.copied.content hFits hPos hSome id]
  unfold Flash.content Flash.tags
  rw [hPage]

------------------------------------------------------------
-- A Group that May Be Flushed Either Way
------------------------------------------------------------

/-
  The group in `slot` is dirty, and the block of its node has
  room for it; `i` is the info of the block, and `e` the
  first node of the erased list.
-/
structure FlushCase
    (s : Dev)
    (H : Nat → Nat)
    (slot node i e : Nat)
    (key : GroupKey)
    (m k : Nat)
    (E B K : List Nat)
    (own : Nat → Nat) : Prop where
  calm : Calm s H
  mem : i ∈ s.bc.list
  block : (s.bc.info i).block = (s.tree.node node).block
  held : 0 < H i
  free : ∃ j ∈ s.bc.list, H j = 0
  clones : 2 ≤ s.buf.clone.length
  sound : s.buf.Sound
  few : s.buf.Few
  parts : s.tree.Parts (e :: E) B K own
  allocated : s.tree.allocated ≤ nodeCount
  entry : node ∈ s.tree.entryNodes
  type : (s.tree.node node).type = key.type
  erased : s.flash.ErasedBlock (own e)
  fits : key.Fits
  filled :
    Filled (s.flash.tags (s.tree.node node).block) key m k
  dirty : (s.buf.group slot).dirty ≠ []
  group : s.buf.Extends slot key k
  cached : ∀ j ∈ s.buf.list, (s.buf.entry j).mark ≠ .empty →
    j ∉ (s.buf.group slot).dirty →
    (s.buf.entry j).groupKey = (key.parent, key.serial) →
      s.flash.content (s.tree.node node).block
          (s.buf.entry j).pageId =
        some ((s.buf.entry j).data, (s.buf.entry j).dataLen)
  room : m + (s.buf.group slot).dirty.length ≤ pagesPerBlock

/-
  The flush succeeds, the group is empty, and the block of
  the node holds its old content overlaid with the group.
-/
structure FlushedTo
    (s : Dev)
    (slot node : Nat)
    (r : URet)
    (t : Dev) : Prop where
  succ : r = .succ
  dirty : (t.buf.group slot).dirty = []
  count : (t.buf.group slot).count = 0
  content : ∀ id,
    t.flash.content (t.tree.node node).block id =
      s.overlay slot (s.tree.node node).block id

namespace FlushCase

variable {s : Dev} {H : Nat → Nat} {slot node i e m k : Nat}
  {key : GroupKey} {E B K : List Nat} {own : Nat → Nat}

theorem node_mem
    (h : FlushCase s H slot node i e key m k E B K own) :
    node ∈ e :: E ++ B ++ s.tree.entryNodes :=
  List.mem_append_right _ h.entry

theorem own_node
    (h : FlushCase s H slot node i e key m k E B K own) :
    (s.tree.node node).block = own node :=
  h.parts.block node h.node_mem

/- The erased nodes are in no hash entry. -/
theorem not_erased
    (h : FlushCase s H slot node i e key m k E B K own) :
    node ∉ e :: E := by
  intro hIn
  have hNodup := (List.nodup_append.mp h.parts.nodup).1
  have hApart := (List.nodup_append.mp hNodup).2.2
  apply hApart node (List.mem_append_left B hIn) node h.entry
  rfl

theorem node_lt
    (h : FlushCase s H slot node i e key m k E B K own) :
    node < s.tree.allocated :=
  h.parts.lt (List.mem_append_left K h.node_mem)

theorem erased_lt
    (h : FlushCase s H slot node i e key m k E B K own) :
    e < s.tree.allocated := by
  apply h.parts.lt
  simp

/- The blocks of the partition are valid. -/
theorem valid
    (h : FlushCase s H slot node i e key m k E B K own)
    {n : Nat}
    (hn : n < s.tree.allocated) : own n ≠ invalidBlock := by
  have hOwn := (h.parts.own_range hn).2
  have hAll := h.allocated
  have hEnd := Platform.parEnd_lt
  have hStart := Platform.parStart_le_parEnd
  unfold nodeCount at hAll
  unfold invalidBlock
  omega

/- A node of a hash entry is of a type that has entries. -/
theorem type_ne
    (h : FlushCase s H slot node i e key m k E B K own) :
    key.type ≠ .resv := by
  rcases Tree.mem_entryNodes.mp h.entry with
    ⟨type, hash, hLt, hMem⟩
  have hType := (h.parts.hash type hash node hMem).1
  intro hResv
  rw [← hType, h.type, hResv] at hLt
  exact absurd hLt (Nat.not_lt_zero hash)

/- The flush that appends. -/
theorem appendable
    (h : FlushCase s H slot node i e key m k E B K own) :
    Appendable s H slot i (s.tree.node node).block key m k where
  calm := h.calm
  mem := h.mem
  block := h.block
  sound := h.sound
  filled := h.filled
  group := h.group
  room := h.room

/- The flush that recovers the block. -/
theorem recoverable
    (h : FlushCase s H slot node i e key m k E B K own)
    (hPos : ∀ d ∈ (s.buf.group slot).dirty,
      0 < (s.buf.entry d).dataLen)
    (hLen : ∀ p < m,
      (s.flash.tags (s.tree.node node).block p).dataLen ≤
        pgDataSize) :
    Recoverable s slot (s.tree.node node).block key m k where
  sound := h.sound
  few := h.few
  two := h.clones
  filled := h.filled
  group := h.group
  pos := hPos
  len := hLen
  cached := h.cached

/- The first erased node is handed out. -/
theorem popErased
    (h : FlushCase s H slot node i e key m k E B K own) :
    ∃ T, s.tree.popErased = some (e, T) ∧
      T.Parts E B (e :: K) own ∧
      (T.node e).listBlock = own e := by
  cases hPop : s.tree.popErased with
  | none =>
      have hNil := h.parts.popErased_eq_none.mp hPop
      cases hNil
  | some x =>
      rcases x with ⟨n, T⟩
      rcases h.parts.pop hPop with ⟨E', hE, hParts, hNode, _⟩
      cases hE
      have hIn : e ∈ e :: E ++ B := by
        simp
      refine ⟨T, rfl, hParts, ?_⟩
      rw [hNode, upd_same,
        ← h.parts.block e (List.mem_append_left _ hIn),
        ← TreeNode.listBlock_of_isList (h.parts.lists e hIn)]
      rfl

/- A recover leaves the content overlaid with the group. -/
theorem flushedTo
    (h : FlushCase s H slot node i e key m k E B K own)
    {T : Tree}
    {page n : Nat}
    {F : Flash}
    {es : List Event}
    {t : Dev}
    (hParts : T.Parts E B (e :: K) own)
    (hGroup : Recoverable s slot (s.tree.node node).block key
      m k)
    (hNe : (s.tree.node node).block ≠ own e)
    (hst : Replaces slot node e (s.tree.node node).block (own e)
      key (Wanted (s.overlay slot (s.tree.node node).block)) T s
      F page n es t) :
    FlushedTo s slot node .succ t := by
  have hOther : node ≠ e := by
    intro hEq
    apply h.not_erased
    rw [hEq]
    exact List.mem_cons_self
  have hBlock : (t.tree.node node).block = own e := by
    rcases hst.tree with ⟨sum, u, hTree⟩
    rw [hTree, Tree.appendErased_other _ _ _ hOther]
    · rw [Tree.setNode_other _ _ hOther,
        Tree.setNode_other _ _ hOther, Tree.setNode_same]
      have hType := h.type_ne
      unfold TreeNode.recovered
      cases hKey : key.type with
      | resv => exact absurd hKey hType
      | dir => rfl
      | file => rfl
      | data => rfl
    · intro hTail
      have hTail' : T.erasedTail = some node := hTail
      rw [hParts.tail] at hTail'
      apply h.not_erased
      exact List.mem_cons_of_mem _ (List.mem_of_getLast? hTail')
  have hDirty := hst.dirty fun d hd =>
    (h.group.filled d hd).page_lt
  constructor
  · rfl
  · exact hDirty
  · rw [hst.sound.count, hDirty]
    rfl
  · intro id
    rw [hBlock]
    exact hst.content hGroup h.fits hNe id

end FlushCase

/-
  Both strategies flush the group, and the block holds its
  old content overlaid with the group.
-/
theorem flushes_agree
    {s : Dev}
    {H : Nat → Nat}
    {slot node i e m k : Nat}
    {key : GroupKey}
    {E B K : List Nat}
    {own : Nat → Nat}
    (h : FlushCase s H slot node i e key m k E B K own)
    (hPos : ∀ d ∈ (s.buf.group slot).dirty,
      0 < (s.buf.entry d).dataLen)
    (hLen : ∀ p < m,
      (s.flash.tags (s.tree.node node).block p).dataLen ≤
        pgDataSize) :
    wp (bufFlushExistWithEnoughFreePage slot node i)
        (fun r _ t => FlushedTo s slot node r t) s ∧
      wp (bufFlushExistWithBlockRecover slot node i false)
        (fun r _ t => FlushedTo s slot node r t) s := by
  have hOld := h.valid h.node_lt
  rw [← h.own_node] at hOld
  have hFirst := Nat.zero_lt_of_lt h.filled.lt_pages
  constructor
  · refine wp_mono (wp_bufFlushExistWithEnoughFreePage hOld
      h.fits h.appendable hFirst) ?_
    intro r _ t ht
    rcases ht with ⟨hr, hTree, hDirty, hCount, hContent⟩
    refine ⟨hr, hDirty, hCount, ?_⟩
    rw [hTree]
    exact hContent
  · rcases h.popErased with ⟨T, hPop, hParts, hList⟩
    have hGroup := h.recoverable hPos hLen
    have hNe : (s.tree.node node).block ≠ own e := by
      rw [h.own_node]
      intro hEq
      have hNode := h.parts.own_inj h.node_lt h.erased_lt hEq
      apply h.not_erased
      rw [hNode]
      exact List.mem_cons_self
    have hKey : s.headKey slot = key := by
      rcases List.exists_cons_of_ne_nil h.dirty with
        ⟨d, rest, hEq⟩
      have hd : d ∈ (s.buf.group slot).dirty := by
        rw [hEq]
        exact List.mem_cons_self
      have hHead := h.group.filled d hd
      unfold Dev.headKey
      rw [hEq, List.headD_cons]
      dsimp only
      rw [hHead.type, hHead.parent, hHead.serial]
    have hReplace : Replaceable s H slot i
        (s.tree.node node).block e (own e) (s.headKey slot)
        (Wanted (s.overlay slot (s.tree.node node).block)) T := by
      constructor
      · rw [hKey]
        exact hGroup.mayCopy
      · exact h.calm
      · exact h.mem
      · exact h.block
      · exact h.held
      · exact h.free
      · exact h.filled.good 0 hFirst
      · exact hPop
      · exact hList
      · exact h.erased
      · exact hOld
      · exact h.valid h.erased_lt
      · exact hNe
    have hMatch : (s.tree.node node).mismatch
        (s.headKey slot).type = false := by
      rw [hKey, ← h.type]
      cases s.tree.node node with
      | list next prev block u => rfl
      | dir block sum parent serial => rfl
      | file block sum parent serial len => rfl
      | data block parent len serial => rfl
    refine wp_mono (wp_bufFlushExistWithBlockRecover hReplace
      hMatch) ?_
    intro r es t ht
    rcases ht with ⟨hr, F, page, n, hst⟩
    rw [hKey] at hst
    rw [hr]
    exact h.flushedTo hParts hGroup hNe hst

------------------------------------------------------------
-- A Small Case
------------------------------------------------------------

/- A tag of page `id` of the data block 1 of file 1. -/
def dataTag (id len : Nat) : Tag :=
  Tag.store .data 0 len 1 1 id

/- A dirty buffer of page `id` of the same block. -/
def dirtyData (id len : Nat) : Buf :=
  { Buf.zero with
    type := .data
    parent := 1
    serial := 1
    pageId := id
    mark := .dirty
    dataLen := len }

/-
  Page 0 of block 0 is written, page 1 is dirty, and block 1
  is erased; the lengths of the two pages are given.
-/
def twoPages (oldLen newLen : Nat) : Dev :=
  { Dev.init
      { page := fun b p =>
          if b = 0 ∧ p = 0 then
            { status := 0, data := [], tag := dataTag 0 oldLen }
          else
            Page.erased pgDataSize
        bad := fun _ => false } 0 with
    bc :=
      { BcCache.init with
        info := fun i =>
          if i = 0 then
            { BcCache.init.info 0 with block := 0, refCount := 1 }
          else
            BcCache.init.info i }
    buf :=
      { BufPool.init with
        entry := fun i =>
          if i = 2 then dirtyData 1 newLen else Buf.zero
        group := fun slot =>
          if slot = 0 then
            { dirty := [2], count := 1, lock := 0 }
          else
            { dirty := [], count := 0, lock := 0 } }
    tree :=
      { Tree.init with
        node := fun n =>
          if n = 0 then .data 0 1 0 1
          else .list none none n 0
        allocated := 2
        erased := some 1
        erasedTail := some 1
        erasedCount := 1
        dataEntry := fun h => if h = 2 then [0] else [] } }

end Agree

/- The cache of the small case. -/
theorem calm_twoPages
    (oldLen newLen : Nat) :
    letI := emulator alwaysOk
    Calm (twoPages oldLen newLen) fun i =>
      if i = 0 then 1 else 0 := by
  let _ := emulator alwaysOk
  have hTwo : 2 ≤ BcCache.init.list.length := by decide
  have hNodup : BcCache.init.list.Nodup := by decide
  constructor
  · intro k _
    rfl
  · exact (by decide : 2 ≤ maxSpareBuffers)
  · exact List.cons_ne_nil 1 [0]
  · exact hTwo
  · exact hNodup
  · intro i _ p _ hKept
    unfold twoPages at hKept
    dsimp only at hKept
    split at hKept
    · cases hKept
    · cases hKept
  · intro i _ j _ hEq hValid
    unfold twoPages at hEq hValid
    dsimp only at hEq hValid
    by_cases hi : i = 0
    · by_cases hj : j = 0
      · rw [hi, hj]
      · rw [if_pos hi, if_neg hj] at hEq
        cases hEq
    · rw [if_neg hi] at hValid
      exact absurd rfl hValid
  · intro i _
    unfold twoPages
    dsimp only
    split
    · rfl
    · rfl

/- The page buffers of the small case. -/
theorem sound_twoPages
    (oldLen newLen : Nat) :
    letI := emulator alwaysOk
    (twoPages oldLen newLen).buf.Sound := by
  let _ := emulator alwaysOk
  have hPerm : (BufPool.init.list ++ BufPool.init.clone).Perm
      (List.range pageBuffers) := by
    decide
  have hDirty : ∀ {slot i},
      i ∈ ((twoPages oldLen newLen).buf.group slot).dirty →
        slot = 0 ∧ i = 2 := by
    intro slot i hi
    unfold twoPages at hi
    dsimp only at hi
    split at hi
    · rename_i hSlot
      exact ⟨hSlot, List.mem_singleton.mp hi⟩
    · cases hi
  have hMark : ∀ {i},
      ((twoPages oldLen newLen).buf.entry i).mark ≠ .empty →
        i = 2 := by
    intro i hi
    by_contra hNot
    apply hi
    unfold twoPages
    dsimp only
    rw [if_neg hNot]
    rfl
  have hFree : ∀ i ∈ BufPool.init.clone, i ≠ 2 := by decide
  have hIn : 2 ∈ BufPool.init.list := by decide
  constructor
  · exact hPerm
  · intro i hi
    by_contra hNot
    exact hFree i hi (hMark hNot)
  · intro slot hNil
    rcases List.exists_mem_of_ne_nil _ hNil with ⟨i, hi⟩
    rw [(hDirty hi).1]
    exact Platform.dirtyGroups_pos
  · intro slot
    unfold twoPages
    dsimp only
    split
    · exact List.nodup_singleton 2
    · exact List.nodup_nil
  · intro slot
    unfold twoPages
    dsimp only
    split
    · rfl
    · rfl
  · intro slot i hi
    rw [(hDirty hi).2]
    exact ⟨hIn, rfl⟩
  · intro i _ hi
    refine ⟨0, ?_⟩
    have hTwo : i = 2 := by
      apply hMark
      rw [hi]
      exact BufMark.noConfusion
    rw [hTwo]
    exact List.mem_singleton_self 2
  · intro slot i hi j hj
    rw [(hDirty hi).2, (hDirty hj).2]
  · intro slot i hi slot' j hj _
    rw [(hDirty hi).1, (hDirty hj).1]
  · intro i _ j _ hi hj _
    rw [hMark hi, hMark hj]

/- The tree of the small case. -/
theorem parts_twoPages
    (oldLen newLen : Nat) :
    letI := emulator alwaysOk
    (twoPages oldLen newLen).tree.Parts [1] [] [] id ∧
      (twoPages oldLen newLen).tree.entryNodes = [0] := by
  let _ := emulator alwaysOk
  have hSame : (twoPages 0 0).tree.entryNodes = [0] := by
    decide +kernel
  have hEntry : (twoPages oldLen newLen).tree.entryNodes =
      [0] := hSame
  refine ⟨?_, hEntry⟩
  constructor
  · exact ⟨rfl, trivial⟩
  · rfl
  · rfl
  · exact trivial
  · rfl
  · rw [hEntry]
    exact List.Perm.swap 0 1 []
  · exact List.Perm.refl _
  · intro n hn
    rw [List.append_nil, List.mem_singleton] at hn
    rw [hn]
    rfl
  · intro n hn
    rw [hEntry] at hn
    simp only [List.append_nil, List.singleton_append,
      List.mem_cons, List.not_mem_nil, or_false] at hn
    rcases hn with hn | hn
    · rw [hn]
      rfl
    · rw [hn]
      rfl
  · intro type h n hn
    unfold twoPages at hn
    cases type with
    | resv => cases hn
    | dir => cases hn
    | file => cases hn
    | data =>
        unfold Tree.entry at hn
        dsimp only at hn
        split at hn
        · rename_i hHash
          rw [List.mem_singleton.mp hn, hHash]
          exact ⟨rfl, rfl⟩
        · cases hn

/- The small case is one of the flushes above. -/
theorem flushCase_twoPages
    (oldLen : Nat)
    {newLen : Nat}
    (hLen : newLen ≤ 160) :
    letI := emulator alwaysOk
    FlushCase (twoPages oldLen newLen)
      (fun i => if i = 0 then 1 else 0) 0 0 0 1
      { type := .data, parent := 1, serial := 1 } 1 0 [] [] []
      id := by
  let _ := emulator alwaysOk
  have hParts := parts_twoPages oldLen newLen
  have hFirst : ∀ {p : Nat}, p < 1 → p = 0 :=
    fun hp => Nat.lt_one_iff.mp hp
  have hOther : ∀ i, i ≠ 2 →
      (twoPages oldLen newLen).buf.entry i = Buf.zero :=
    fun i hi => if_neg hi
  have hErased : ∀ b p, ¬ (b = 0 ∧ p = 0) →
      (twoPages oldLen newLen).flash.page b p =
        Page.erased pgDataSize :=
    fun b p hNot => if_neg hNot
  constructor
  · exact calm_twoPages oldLen newLen
  · exact (by decide : 0 ∈ BcCache.init.list)
  · rfl
  · exact Nat.one_pos
  · exact ⟨1, (by decide : 1 ∈ BcCache.init.list), rfl⟩
  · exact Nat.le_refl 2
  · exact sound_twoPages oldLen newLen
  · intro i _
    by_cases hi : i = 2
    · rw [hi]
      exact (by decide : 0 + 1 < cloneBufMark)
    · rw [hOther i hi]
      exact (by decide : 0 + 1 < cloneBufMark)
  · exact hParts.1
  · exact (by decide : 2 ≤ nodeCount)
  · rw [hParts.2]
    exact List.mem_singleton_self 0
  · rfl
  · refine ⟨rfl, ?_⟩
    intro p _
    exact hErased 1 p fun hBoth => Nat.one_ne_zero hBoth.1
  · exact ⟨by decide, by decide⟩
  · constructor
    · exact (by decide : 1 ≤ pagesPerBlock)
    · intro p hp
      rw [hFirst hp]
      rfl
    · intro p hp
      rw [hFirst hp]
      exact ⟨rfl, rfl, rfl⟩
    · intro p hp
      rw [hFirst hp]
      exact Nat.le_refl 0
    · intro p hp
      rw [hFirst hp]
      exact Nat.le_refl 0
    · intro id hid
      exact ⟨0, Nat.one_pos, (Nat.le_zero.mp hid).symm⟩
    · intro p hp _
      have hNot : ¬ (0 = 0 ∧ p = 0) :=
        fun hBoth => Nat.one_le_iff_ne_zero.mp hp hBoth.2
      have hTag := congrArg Page.tag (hErased 0 p hNot)
      unfold Flash.tags
      exact congrArg Tag.isErased hTag
  · exact List.cons_ne_nil 2 []
  · constructor
    · intro d hd
      rw [List.mem_singleton.mp hd]
      exact ⟨rfl, rfl, rfl, (by decide : 1 < pagesPerBlock),
        hLen, rfl⟩
    · intro d hd id hid
      rw [List.mem_singleton.mp hd] at hid
      by_cases hZero : id = 0
      · exact Or.inl (Nat.le_of_eq hZero)
      · refine Or.inr ⟨2, List.mem_singleton_self 2, ?_⟩
        exact Nat.le_antisymm (Nat.one_le_iff_ne_zero.mpr hZero)
          hid
  · intro j _ hMark hNot
    by_cases hj : j = 2
    · rw [hj] at hNot
      exact absurd (List.mem_singleton_self 2) hNot
    · rw [hOther j hj] at hMark
      exact absurd rfl hMark
  · exact (by decide : 1 + 1 ≤ pagesPerBlock)

/- Both strategies flush the small case. -/
theorem flushes_agree_twoPages :
    letI := emulator alwaysOk
    wp (bufFlushExistWithEnoughFreePage 0 0 0)
        (fun r _ t => FlushedTo (twoPages 5 3) 0 0 r t)
        (twoPages 5 3) ∧
      wp (bufFlushExistWithBlockRecover 0 0 0 false)
        (fun r _ t => FlushedTo (twoPages 5 3) 0 0 r t)
        (twoPages 5 3) := by
  let _ := emulator alwaysOk
  apply flushes_agree (flushCase_twoPages 5
    (by decide : 3 ≤ 160))
  · intro d hd
    rw [List.mem_singleton.mp hd]
    exact (by decide : 0 < 3)
  · intro p hp
    rw [Nat.lt_one_iff.mp hp]
    exact (by decide : 5 ≤ pgDataSize)

section Without

variable [Platform]

/- No dirty page of a group is empty. -/
def Dev.NoneEmpty (s : Dev) (slot : Nat) : Prop :=
  ∀ d ∈ (s.buf.group slot).dirty, 0 < (s.buf.entry d).dataLen

/- No written page of a block is longer than a page. -/
def Dev.NoneLong (s : Dev) (b m : Nat) : Prop :=
  ∀ p < m, (s.flash.tags b p).dataLen ≤ pgDataSize

/- Both strategies flush each group for which `test` holds. -/
def FlushesAgree (test : Dev → Nat → Nat → Nat → Prop) :
    Prop :=
  ∀ (s : Dev) (H : Nat → Nat) (slot node i e m k : Nat)
    (key : GroupKey) (E B K : List Nat) (own : Nat → Nat),
    FlushCase s H slot node i e key m k E B K own →
    test s slot (s.tree.node node).block m →
      wp (bufFlushExistWithEnoughFreePage slot node i)
          (fun r _ t => FlushedTo s slot node r t) s ∧
        wp (bufFlushExistWithBlockRecover slot node i false)
          (fun r _ t => FlushedTo s slot node r t) s

end Without

/- The recover of the small case loses what is checked. -/
theorem flushesAgree_fails
    (oldLen newLen id : Nat)
    {test : Dev → Nat → Nat → Nat → Prop}
    (hLen : newLen ≤ 160)
    (hTest :
      letI := emulator alwaysOk
      test (twoPages oldLen newLen) 0 0 1)
    (hCheck :
      letI := emulator alwaysOk
      (bufFlushExistWithBlockRecover 0 0 0 false).check
        (fun _ _ t => decide
          (t.flash.content (t.tree.node 0).block id ≠
            (twoPages oldLen newLen).overlay 0 0 id))
        (twoPages oldLen newLen) = true) :
    ¬ @FlushesAgree (emulator alwaysOk) test := by
  let _ := emulator alwaysOk
  intro h
  have hBoth := h (twoPages oldLen newLen) _ 0 0 0 1 1 0 _ [] []
    [] _ (flushCase_twoPages oldLen hLen) hTest
  rcases wp_of_check hCheck with ⟨r, es, t, hRun, hEnd⟩
  rcases hBoth.2 with ⟨r', es', t', hRun', hFlushed⟩
  rw [hRun, Option.some.injEq, Prod.mk.injEq, Prod.mk.injEq]
    at hRun'
  rw [← hRun'.2.2] at hFlushed
  rw [decide_eq_true_eq] at hEnd
  exact hEnd (hFlushed.content id)

/-
  An empty dirty page is taken for the end of a file that is
  truncated, and a page that is too long is cut: the recover
  then leaves something else.
-/
theorem flushesAgree_false :
    letI := emulator alwaysOk
    ¬ FlushesAgree (fun _ _ _ _ => True) ∧
      ¬ FlushesAgree (fun s _ b m => s.NoneLong b m) ∧
      ¬ FlushesAgree (fun s slot _ _ => s.NoneEmpty slot) := by
  let _ := emulator alwaysOk
  refine ⟨?_, ?_, ?_⟩
  · apply flushesAgree_fails 5 0 1
    · decide
    · trivial
    · decide +kernel
  · apply flushesAgree_fails 5 0 1
    · decide
    · intro p hp
      rw [Nat.lt_one_iff.mp hp]
      exact (by decide : 5 ≤ pgDataSize)
    · decide +kernel
  · apply flushesAgree_fails 161 3 0
    · decide
    · intro d hd
      rw [List.mem_singleton.mp hd]
      exact (by decide : 0 < 3)
    · decide +kernel

end Uffs
