import Uffs.Good.Cache
import Uffs.Model.Build

/-
  Step one of mounting (`_BuildTreeStepOne`) on a flash where
  every operation succeeds.

  What the scan of one block does to the flash and the tree
  is a pure function of them, `Disk.mountBlock`; caches,
  clone buffers and pending blocks do not matter.

  Main declarations:
    * `Disk`, `Disk.mountBlock`, `Disk.mountFrom`
    * `Mounting`
    * `wp_stepOneBlock`, `wp_stepOneFrom`
-/

namespace Uffs

open Prog

variable [Platform]

------------------------------------------------------------
-- The Scan as a Function
------------------------------------------------------------

/- The tags of a block. -/
def Flash.tags (F : Flash) (b : Nat) : Nat → Tag := fun p =>
  (F.page b p).tag

/- What mounting reads and changes. -/
structure Disk where
  flash : Flash
  tree : Tree

/- The sum of the name in page 0 of a block, if it has one. -/
def Flash.nameSum (F : Flash) (b : Nat) : Option Nat :=
  (pageWithId (F.tags b) 0).map fun q =>
    makeSum16 (fiName
      (F.page b ((bestPage (F.tags b) q).getD 0xffff)).data)

/- Is there an unclean page among the pages 1 to `n`? -/
def Flash.unclean (F : Flash) (b : Nat) : Nat → Bool
| 0 => false
| n + 1 =>
    if (F.tags b (n + 1)).sealed then
      false
    else if (F.tags b (n + 1)).isDirty ||
        (F.tags b (n + 1)).isValid then
      true
    else if (F.page b (n + 1)).status ≠ 0xFF then
      true
    else
      F.unclean b n

/- The node that a block gets in the tree. -/
def Flash.nodeOf
    (F : Flash)
    (b sum : Nat)
    (old : TreeNode) : TreeNode :=
  let tag := F.tags b 0
  match tag.type with
  | .dir => .dir b sum tag.parent tag.serial
  | .file =>
      .file b sum tag.parent tag.serial
        (blockLength (F.tags b) .file)
  | .data =>
      .data b tag.parent (blockLength (F.tags b) .data)
        tag.serial
  | .resv => old

/- The node of the tree with the key of a tag. -/
def Tree.findTag (t : Tree) (tag : Tag) : Option Nat :=
  match tag.type with
  | .dir => t.findDirNode tag.serial
  | .file => t.findFileNode tag.serial
  | .data => t.findDataNode tag.parent tag.serial
  | .resv => none

namespace Disk

/- Erase block `b` and put node `n` into the erased list. -/
def erase (d : Disk) (n b : Nat) : Disk where
  flash := d.flash.eraseBlock b
  tree :=
    (d.tree.setNode n fun x => x.setListBlock b).appendErased n
      (some 0)

/- Enter block `b` into the tree under node `n`. -/
def enter (d : Disk) (n b sum : Nat) : Disk where
  flash := d.flash
  tree :=
    (d.tree.setNode n fun x => d.flash.nodeOf b sum x).insertNode
      (d.flash.tags b 0).type n

/- Enter block `b` into the tree, unless it has no name. -/
def register (d : Disk) (n b : Nat) : Disk :=
  if (d.flash.tags b 0).type = .dir ∨
      (d.flash.tags b 0).type = .file then
    match d.flash.nameSum b with
    | none => d.erase n b
    | some sum => d.enter n b sum
  else
    d.enter n b 0

/- Of two blocks with one key the older one is kept. -/
def resolve (d : Disk) (n b alt : Nat) : Disk :=
  let altBlock := (d.tree.node alt).block
  if isSrcNewerThanObj (d.flash.tags b 0).blockTs
      (d.flash.tags altBlock 0).blockTs then
    d.erase n b
  else
    let d' := d.erase n altBlock
    Disk.register
      { d' with
        tree := d'.tree.breakNode (d.flash.tags b 0).type alt }
      alt b

/- A block with valid pages. -/
def mountValid (d : Disk) (n b : Nat) : Option Disk :=
  let tag := d.flash.tags b 0
  if !tag.isDirty then
    none
  else if !tag.isGood then
    some (d.erase n b)
  else
    match d.tree.findTag tag with
    | none => some (d.register n b)
    | some alt => some (d.resolve n b alt)

/- A block whose first page looks erased. -/
def mountErased (d : Disk) (n b : Nat) : Disk where
  flash :=
    if (d.flash.page b 0).status ≠ 0xFF then
      d.flash.eraseBlock b
    else
      d.flash
  tree :=
    (d.tree.setNode n fun x => x.setListBlock b).appendErased n
      (some 1)

/- A block that is marked bad. -/
def mountBad (d : Disk) (n b : Nat) : Disk where
  flash := d.flash
  tree := (d.tree.setNode n fun x => x.setListBlock b).pushBad n

/- One round of `_BuildTreeStepOne`. -/
def mountBlock (d : Disk) (b : Nat) : Option Disk :=
  let n := d.tree.allocated
  let d : Disk :=
    { d with tree := { d.tree with allocated := n + 1 } }
  if d.flash.bad b then
    some (d.mountBad n b)
  else if (d.flash.tags b 0).isErased then
    some (d.mountErased n b)
  else if d.flash.unclean b (pagesPerBlock - 1) then
    some (d.erase n b)
  else
    d.mountValid n b

/- The rounds over `k` blocks from `b` on. -/
def mountFrom : Disk → Nat → Nat → Option Disk
| d, 0, _ => some d
| d, k + 1, b =>
    match d.mountBlock b with
    | none => none
    | some d' => d'.mountFrom k (b + 1)

end Disk

------------------------------------------------------------
-- Clone Buffers
------------------------------------------------------------

omit [Platform] in
theorem wp_bufClone
    {s : Dev}
    {c : Nat}
    {rest : List Nat}
    (hClone : s.buf.clone = c :: rest) :
    wp bufClone
      (fun r es t =>
        r = some c ∧ es = [] ∧
          t = { s with
            buf := { s.buf with
              clone := rest
              entry := upd s.buf.entry c
                { s.buf.entry c with
                  refCount := cloneBufMark } } }) s := by
  simp only [bufClone, wp_bind, wp_get, hClone, setBuf,
    wp_modify, wp_pure, List.append_nil, true_and]

omit [Platform] in
theorem wp_bufFreeClone
    {s : Dev}
    {c : Nat}
    (hMark : (s.buf.entry c).refCount = cloneBufMark) :
    wp (bufFreeClone c)
      (fun r es t =>
        r = .succ ∧ es = [] ∧
          t = { s with
            buf := { s.buf with
              clone := c :: s.buf.clone
              entry := upd s.buf.entry c
                { s.buf.entry c with
                  refCount := 0, mark := .empty } } }) s := by
  simp only [bufFreeClone, getBuf, wp_bind, wp_gets, hMark,
    ne_eq, not_true_eq_false, if_false, setBuf, wp_modify,
    wp_pure, List.append_nil, true_and]

/- Two pools that differ at most in the buffers. -/
omit [Platform] in
theorem BufPool.eq_entry
    {p q : BufPool}
    (hList : p.list = q.list)
    (hClone : p.clone = q.clone)
    (hGroup : p.group = q.group) :
    p = { q with entry := p.entry } := by
  cases p
  cases q
  simp only at hList hClone hGroup
  rw [hList, hClone, hGroup]

/- A read of a page on a good flash. -/
theorem wp_flashReadPage
    {s : Dev}
    (block page i : Nat)
    (skipEcc : Bool)
    (hGood : GoodFrom s.clock)
    (hSpare : 0 < s.spareFree) :
    wp (flashReadPage block page i skipEcc)
      (fun r es t =>
        r = .noErr ∧ es = [] ∧
          t = { s with
            clock := s.clock + 1
            buf := { s.buf with
              entry := upd s.buf.entry i
                { s.buf.entry i with
                  data := (s.flash.page block page).data } } })
      s := by
  have hRet := hGood s.clock (Nat.le_refl _)
  have hNe : s.spareFree ≠ 0 := Nat.pos_iff_ne_zero.mp hSpare
  have hBack : s.spareFree - 1 + 1 = s.spareFree :=
    Nat.sub_add_cancel hSpare
  simp only [flashReadPage, spareGet, sparePut, nextAnswer,
    setBuf, wp_bind, wp_get, wp_modify, wp_pure, hNe, if_false,
    Bool.not_true, Bool.false_eq_true, hRet, FlashRet.raw,
    ite_self, FlashRet.haveErr, hBack, List.append_nil,
    and_self, ne_eq, not_true_eq_false, decide_false,
    Bool.and_false, Bool.or_self]

theorem wp_loadMiniHeader
    {s : Dev}
    (block page : Nat)
    (hGood : GoodFrom s.clock) :
    wp (loadMiniHeader block page)
      (fun r es t =>
        r = some (s.flash.page block page).status ∧
          es = [] ∧ t = { s with clock := s.clock + 1 }) s := by
  have hRet := hGood s.clock (Nat.le_refl _)
  simp only [loadMiniHeader, nextAnswer, wp_bind, wp_get,
    wp_modify, wp_pure, hRet, FlashRet.raw, FlashRet.haveErr,
    Bool.false_eq_true, if_false, List.append_nil, and_self]

theorem wp_flashIsBadBlock
    {s : Dev}
    (block : Nat)
    (hGood : GoodFrom s.clock) :
    wp (flashIsBadBlock block)
      (fun r es t =>
        r = s.flash.bad block ∧ es = [] ∧
          ∃ k, s.clock ≤ k ∧ t = { s with clock := k }) s := by
  have hRet := hGood s.clock (Nat.le_refl _)
  have hRet' := hGood (s.clock + 1) (Nat.le_succ _)
  simp only [flashIsBadBlock, readBadMark, nextAnswer, wp_bind,
    wp_get, wp_modify, wp_pure, hRet, reduceCtorEq,
    decide_false, decide_true, Bool.true_and, Bool.false_or]
  cases hBad : s.flash.bad block with
  | true =>
      simp only [if_true, wp_pure, List.append_nil, true_and]
      exact ⟨s.clock + 1, Nat.le_succ _, rfl⟩
  | false =>
      simp only [Bool.false_eq_true, if_false, wp_bind, wp_get,
        wp_modify, wp_pure, hRet', reduceCtorEq, decide_false,
        decide_true, Bool.true_and, Bool.false_or, hBad,
        List.append_nil, true_and]
      exact ⟨s.clock + 1 + 1, by omega, rfl⟩

------------------------------------------------------------
-- The State While Mounting
------------------------------------------------------------

/-
  The state between two steps of mounting: calm, no pending
  block, no page buffer in use.
-/
structure Mounting (s : Dev) (H : Nat → Nat) : Prop
    extends Calm s H where
  noPending : s.pending.count = 0
  noRecovery : s.pending.blockInRecovery = invalidBlock
  bufs : s.buf = { BufPool.init with entry := s.buf.entry }
  empty : ∀ i, (s.buf.entry i).mark = .empty ∧
    (s.buf.entry i).refCount = 0

/-
  From `s` to `t` tags are loaded into entry `i` and the
  clone buffer `c` is used.
-/
structure Scratch (c i : Nat) (s t : Dev) : Prop where
  reads : Reads i { s with buf := t.buf } t
  list : t.buf.list = s.buf.list
  group : t.buf.group = s.buf.group
  entry : ∀ j, j ≠ c → t.buf.entry j = s.buf.entry j

/- A read is a read whatever the buffers hold. -/
theorem Reads.withBuf
    {i : Nat}
    {s t : Dev}
    (h : Reads i s t)
    (p : BufPool) :
    Reads i { s with buf := p } { t with buf := p } where
  rest := by
    have hRest := congrArg (fun u : Dev =>
      { u with buf := p }) h.rest
    exact hRest
  clock := h.clock
  list := h.list
  other := h.other
  block := h.block
  refCount := h.refCount
  fresh := h.fresh
  kept := h.kept

namespace Scratch

variable {c i : Nat} {s t u : Dev}

theorem of_reads (h : Reads i s t) : Scratch c i s t where
  reads := by
    have hReads := h.withBuf t.buf
    exact hReads
  list := by rw [h.buf]
  group := by rw [h.buf]
  entry := by
    intro j _
    rw [h.buf]

/- A change of the clone buffer, and time going on. -/
theorem of_buf
    {p : BufPool}
    {k : Nat}
    (hClock : s.clock ≤ k)
    (hList : p.list = s.buf.list)
    (hGroup : p.group = s.buf.group)
    (hEntry : ∀ j, j ≠ c → p.entry j = s.buf.entry j) :
    Scratch c i s { s with clock := k, buf := p } where
  reads := by
    refine ⟨rfl, hClock, rfl, ?_, rfl, rfl, ?_, ?_⟩
    · intro _ _
      rfl
    · intro h
      exact h
    · intro _ _
      rfl
  list := hList
  group := hGroup
  entry := hEntry

theorem trans
    (hst : Scratch c i s t)
    (htu : Scratch c i t u) : Scratch c i s u where
  reads := (hst.reads.withBuf u.buf).trans htu.reads
  list := htu.list.trans hst.list
  group := htu.group.trans hst.group
  entry := fun j hj =>
    (htu.entry j hj).trans (hst.entry j hj)

theorem readable
    (h : Scratch c i s t)
    (hReady : Readable s i) : Readable t i :=
  h.reads.readable ⟨hReady.good, hReady.spare, hReady.fresh⟩

theorem flash (h : Scratch c i s t) : t.flash = s.flash :=
  h.reads.flash

theorem tags (h : Scratch c i s t) : t.tags i = s.tags i :=
  h.reads.tags

end Scratch

/-
  From `s` to `t` nothing changes that a mount reports: tags
  are loaded into entry `i`, clone buffers are used.
-/
structure Looks (i : Nat) (s t : Dev) : Prop where
  reads : Reads i { s with buf := t.buf } t
  bufs : t.buf = { s.buf with entry := t.buf.entry }
  entry : ∀ j, t.buf.entry j = s.buf.entry j ∨
    ((t.buf.entry j).mark = .empty ∧
      (t.buf.entry j).refCount = 0)

namespace Looks

variable {i : Nat} {s t u : Dev} {H : Nat → Nat}

theorem of_reads (h : Reads i s t) : Looks i s t where
  reads := h.withBuf t.buf
  bufs := by rw [h.buf]
  entry := by
    intro j
    rw [h.buf]
    exact Or.inl rfl

theorem flash (h : Looks i s t) : t.flash = s.flash :=
  h.reads.flash

theorem tree (h : Looks i s t) : t.tree = s.tree :=
  h.reads.tree

theorem list (h : Looks i s t) : t.bc.list = s.bc.list :=
  h.reads.list

theorem block (h : Looks i s t) :
    (t.bc.info i).block = (s.bc.info i).block :=
  h.reads.block

theorem pending (h : Looks i s t) : t.pending = s.pending :=
  h.reads.pending

theorem mounting
    (h : Looks i s t)
    (hMem : i ∈ s.bc.list)
    (hs : Mounting s H) : Mounting t H where
  toCalm := by
    have hBuf : Calm { s with buf := t.buf } H := by
      refine hs.toCalm.congr (Nat.le_refl _) rfl ?_ rfl rfl
      change t.buf.clone = s.buf.clone
      rw [h.bufs]
    exact hBuf.reads hMem h.reads
  noPending := by
    rw [h.pending]
    exact hs.noPending
  noRecovery := by
    rw [h.pending]
    exact hs.noRecovery
  bufs := by
    rw [h.bufs, hs.bufs]
  empty := by
    intro j
    rcases h.entry j with hEq | hEmpty
    · rw [hEq]
      exact hs.empty j
    · exact hEmpty

end Looks

/- The first clone buffer of a calm device. -/
theorem Calm.clone_cons
    {s : Dev}
    {H : Nat → Nat}
    (hCalm : Calm s H) :
    ∃ c rest, s.buf.clone = c :: rest := by
  cases hClone : s.buf.clone with
  | nil => exact absurd hClone hCalm.clone
  | cons c rest => exact ⟨c, rest, rfl⟩

/- Reading the name of a block. -/
theorem wp_loadNameSum
    {s : Dev}
    {H : Nat → Nat}
    {i b n : Nat}
    (hCalm : Calm s H)
    (hMem : i ∈ s.bc.list)
    (hBlock : (s.bc.info i).block = b) :
    wp (loadNameSum n i b)
      (fun r _ t =>
        Looks i s t ∧
          r = match s.flash.nameSum b with
            | none => .invalid
            | some v => .sum v) s := by
  rcases hCalm.clone_cons with ⟨c, rest, hClone⟩
  have hTags : s.tags i = s.flash.tags b := by
    unfold Dev.tags Flash.tags
    rw [hBlock]
  -- at the end the clone buffer `c` is put back
  have hFree : ∀ u : Dev, Scratch c i s u →
      u.buf.clone = rest →
      (u.buf.entry c).refCount = cloneBufMark →
      wp (bufFreeClone c) (fun _ _ t => Looks i s t) u := by
    intro u hsu huClone huMark
    refine wp_mono (wp_bufFreeClone huMark) ?_
    rintro _ _ t ⟨_, _, ht⟩
    have hut : Scratch c i u t := by
      rw [ht]
      refine Scratch.of_buf (Nat.le_refl _) rfl rfl ?_
      intro j hj
      exact upd_other _ _ hj
    have hst := hsu.trans hut
    refine ⟨hst.reads, ?_, ?_⟩
    · have hClone' : t.buf.clone = s.buf.clone := by
        rw [ht, hClone]
        simp only [huClone]
      exact BufPool.eq_entry hst.list hClone' hst.group
    · intro j
      by_cases hj : j = c
      · subst hj
        right
        rw [ht]
        simp
      · exact Or.inl (hst.entry j hj)
  unfold loadNameSum
  refine wp_seq (wp_bufClone hClone) ?_
  rintro _ _ s₁ ⟨rfl, rfl, hs₁⟩
  have h₁ : Scratch c i s s₁ := by
    rw [hs₁]
    refine Scratch.of_buf (Nat.le_refl _) rfl rfl ?_
    intro j hj
    exact upd_other _ _ hj
  have hClone₁ : s₁.buf.clone = rest := by
    rw [hs₁]
  have hMark₁ :
      (s₁.buf.entry c).refCount = cloneBufMark := by
    rw [hs₁]
    simp
  have hReady := hCalm.readable hMem
  refine wp_seq (wp_blockInfoLoadAll (h₁.readable hReady)) ?_
  rintro _ _ s₂ ⟨rfl, rfl, h₁₂, _⟩
  have h₂ := h₁.trans (Scratch.of_reads h₁₂)
  refine wp_seq (yields_findPageInBlockWithPageId 0
    (h₂.readable hReady)) ?_
  rintro r _ s₃ ⟨hr, rfl, h₂₃⟩
  have h₃ := h₂.trans (Scratch.of_reads h₂₃)
  have hBuf₃ : s₃.buf = s₁.buf := by
    rw [h₂₃.buf, h₁₂.buf]
  rw [h₂.tags, hTags] at hr
  cases hFind : pageWithId (s.flash.tags b) 0 with
  | none =>
      rw [hFind] at hr
      subst hr
      have hNone : s.flash.nameSum b = none := by
        unfold Flash.nameSum
        rw [hFind]
        rfl
      refine wp_seq (hFree s₃ h₃ (by rw [hBuf₃, hClone₁])
        (by rw [hBuf₃, hMark₁])) ?_
      intro _ _ t hst
      rw [wp_pure, hNone]
      exact ⟨hst, rfl⟩
  | some q =>
      rw [hFind] at hr
      subst hr
      have hq := pageWithId_lt hFind
      refine wp_seq (yields_findBestPageInBlock
        (h₃.readable hReady) hq.2) ?_
      rintro r _ s₄ ⟨rfl, rfl, h₃₄⟩
      have h₄ := h₃.trans (Scratch.of_reads h₃₄)
      have hReady₄ := h₄.readable hReady
      have hBuf₄ : s₄.buf = s₁.buf := by
        rw [h₃₄.buf, hBuf₃]
      refine wp_seq (wp_flashReadPage b _ c false
        hReady₄.good hReady₄.spare) ?_
      rintro r _ s₅ ⟨rfl, rfl, hs₅⟩
      have h₅ : Scratch c i s s₅ := by
        refine h₄.trans ?_
        rw [hs₅]
        refine Scratch.of_buf (Nat.le_succ _) rfl rfl ?_
        intro j hj
        exact upd_other _ _ hj
      simp only [badBlockAddByFlashResult, pendingType,
        FlashRet.isNonRecoverBadBlock, FlashRet.isBadBlock,
        FlashRet.haveErr, reduceCtorEq, if_false, wp_pure,
        Bool.false_eq_true, wp_bind, getBuf, wp_gets,
        Bool.and_false]
      refine wp_mono (hFree s₅ h₅ ?_ ?_) ?_
      · rw [hs₅, hBuf₄, hClone₁]
      · rw [hs₅]
        simp only [upd_same]
        rw [hBuf₄, hMark₁]
      · intro _ _ t hst
        refine ⟨hst, ?_⟩
        have hSome : s.flash.nameSum b =
            some (makeSum16 (fiName (s.flash.page b
              ((bestPage (s.flash.tags b) q).getD
                0xffff)).data)) := by
          unfold Flash.nameSum
          rw [hFind]
          rfl
        rw [hSome, hs₅]
        simp only [upd_same]
        rw [h₄.flash, h₃.tags, hTags]

------------------------------------------------------------
-- Entering and Erasing Blocks
------------------------------------------------------------

/-
  A device in the middle of a mount that holds entry `i` for
  block `b` and shows the disk `d`.
-/
structure Stands
    (s : Dev)
    (i b : Nat)
    (H : Nat → Nat)
    (d : Disk) : Prop where
  mounting : Mounting s H
  mem : i ∈ s.bc.list
  block : (s.bc.info i).block = b
  flash : s.flash = d.flash
  tree : s.tree = d.tree

namespace Stands

variable {s t : Dev} {i b : Nat} {H : Nat → Nat} {d : Disk}

theorem looks
    (h : Stands s i b H d)
    (hst : Looks i s t) : Stands t i b H d where
  mounting := hst.mounting h.mem h.mounting
  mem := by
    rw [hst.list]
    exact h.mem
  block := hst.block.trans h.block
  flash := hst.flash.trans h.flash
  tree := hst.tree.trans h.tree

theorem reads
    (h : Stands s i b H d)
    (hst : Reads i s t) : Stands t i b H d :=
  h.looks (Looks.of_reads hst)

theorem readable (h : Stands s i b H d) : Readable s i :=
  h.mounting.toCalm.readable h.mem

theorem tags (h : Stands s i b H d) :
    s.tags i = d.flash.tags b := by
  unfold Dev.tags Flash.tags
  rw [h.block, h.flash]

/- Only the tree changes. -/
theorem setTree
    (h : Stands s i b H d)
    (f : Tree → Tree) :
    Stands { s with tree := f s.tree } i b H
      { d with tree := f d.tree } where
  mounting := by
    have hs := h.mounting
    exact ⟨hs.toCalm.congr (Nat.le_refl _) rfl rfl rfl rfl,
      hs.noPending, hs.noRecovery, hs.bufs, hs.empty⟩
  mem := h.mem
  block := h.block
  flash := h.flash
  tree := by
    change f s.tree = f d.tree
    rw [h.tree]

end Stands

/- Without pending blocks none is removed. -/
omit [Platform] in
theorem Pending.remove_of_empty
    {p : Pending}
    (hCount : p.count = 0)
    (b : Nat) : p.remove b = p := by
  unfold Pending.remove Pending.find
  rw [hCount]
  rfl

/-
  Erasing a block takes it off the pending list, so the
  state is looked at after that.
-/
theorem wp_eraseAndFile_pending
    {s : Dev}
    {i b : Nat}
    {H : Nat → Nat}
    {d : Disk}
    {n x : Nat}
    (h : Stands { s with pending := s.pending.remove x } i b H d)
    (hx : x ≠ invalidBlock) :
    wp (eraseAndFile n x)
      (fun _ _ t =>
        Stands t i b H (d.erase n x) ∧
          (x ≠ b →
            (t.bc.info i).spares = (s.bc.info i).spares)) s := by
  have hTree := h.setTree fun t =>
    t.setNode n fun y => y.setListBlock x
  have hMount := hTree.mounting
  have hCalm := hMount.toCalm.congr
    (t := { s with tree :=
      s.tree.setNode n fun y => y.setListBlock x })
    (Nat.le_refl _) rfl rfl rfl rfl
  simp only [eraseAndFile, setNode, modifyTree, wp_bind,
    wp_modify]
  refine wp_mono (wp_flashEraseBlock hCalm hx) ?_
  rintro r es t ⟨rfl, rfl, hErase⟩
  simp only [FlashRet.isBadBlock, FlashRet.haveErr,
    Bool.false_eq_true, if_false, treeInsertToErasedListTail,
    treeInsertToErasedListTailEx, modifyTree, wp_modify]
  have hPending : t.pending = s.pending.remove x := by
    rw [hErase.rest]
  have hBuf : t.buf = s.buf := by
    rw [hErase.rest]
  refine ⟨⟨⟨?_, ?_, ?_, ?_, ?_⟩, ?_, ?_, ?_, ?_⟩, ?_⟩
  · exact (hErase.calm hCalm).congr (Nat.le_refl _) rfl rfl rfl
      rfl
  · change t.pending.count = 0
    rw [hPending]
    exact hMount.noPending
  · change t.pending.blockInRecovery = invalidBlock
    rw [hPending]
    exact hMount.noRecovery
  · change t.buf = { BufPool.init with entry := t.buf.entry }
    rw [hBuf]
    exact hMount.bufs
  · change ∀ i, (t.buf.entry i).mark = .empty ∧
      (t.buf.entry i).refCount = 0
    rw [hBuf]
    exact hMount.empty
  · change i ∈ t.bc.list
    rw [hErase.list]
    exact h.mem
  · exact (hErase.block i).trans h.block
  · change t.flash = d.flash.eraseBlock x
    rw [hErase.rest, ← h.flash]
  · change t.tree.appendErased n (some 0) = _
    rw [hErase.rest]
    have hSame : s.tree = d.tree := h.tree
    simp only [Disk.erase, hSame]
    rfl
  · intro hxb
    refine hErase.spares i h.mem ?_
    have hBlock : (s.bc.info i).block = b := h.block
    change (s.bc.info i).block ≠ x
    rw [hBlock]
    exact fun hEq => hxb hEq.symm

theorem wp_eraseAndFile
    {s : Dev}
    {i b : Nat}
    {H : Nat → Nat}
    {d : Disk}
    {n x : Nat}
    (h : Stands s i b H d)
    (hx : x ≠ invalidBlock) :
    wp (eraseAndFile n x)
      (fun _ _ t =>
        Stands t i b H (d.erase n x) ∧
          (x ≠ b →
            (t.bc.info i).spares = (s.bc.info i).spares)) s := by
  refine wp_eraseAndFile_pending ?_ hx
  rw [Pending.remove_of_empty h.mounting.noPending]
  exact h

theorem wp_registerNode
    {s : Dev}
    {i b : Nat}
    {H : Nat → Nat}
    {d : Disk}
    (n sum : Nat)
    (h : Stands s i b H d) :
    wp (registerNode n i b (d.flash.tags b 0) sum)
      (fun r _ t =>
        r = .succ ∧ Stands t i b H (d.enter n b sum)) s := by
  have hLen := fun type =>
    yields_getBlockFileDataLength type h.readable
  unfold registerNode
  cases hType : (d.flash.tags b 0).type with
  | dir =>
      simp only [setNode, insertNodeToTree, modifyTree, wp_bind,
        wp_modify, wp_pure, true_and]
      have hSet := (h.setTree fun t => t.setNode n fun _ =>
        .dir b sum (d.flash.tags b 0).parent
          (d.flash.tags b 0).serial).setTree fun t =>
            t.insertNode .dir n
      simp only [Disk.enter, Flash.nodeOf, hType]
      exact hSet
  | file =>
      simp only [wp_bind]
      refine wp_mono (hLen .file) ?_
      rintro _ _ t ⟨rfl, rfl, hst⟩
      simp only [setNode, insertNodeToTree, modifyTree,
        wp_modify, wp_pure, true_and]
      have hSet := ((h.reads hst).setTree fun t =>
        t.setNode n fun _ =>
          .file b sum (d.flash.tags b 0).parent
            (d.flash.tags b 0).serial
            (blockLength (s.tags i) .file)).setTree fun t =>
              t.insertNode .file n
      simp only [Disk.enter, Flash.nodeOf, hType]
      rw [h.tags] at hSet ⊢
      exact hSet
  | data =>
      simp only [wp_bind]
      refine wp_mono (hLen .data) ?_
      rintro _ _ t ⟨rfl, rfl, hst⟩
      simp only [setNode, insertNodeToTree, modifyTree,
        wp_modify, wp_pure, true_and]
      have hSet := ((h.reads hst).setTree fun t =>
        t.setNode n fun _ =>
          .data b (d.flash.tags b 0).parent
            (blockLength (s.tags i) .data)
            (d.flash.tags b 0).serial).setTree fun t =>
              t.insertNode .data n
      simp only [Disk.enter, Flash.nodeOf, hType]
      rw [h.tags] at hSet ⊢
      exact hSet
  | resv =>
      simp only [note, insertNodeToTree, modifyTree, wp_bind,
        wp_emit, wp_modify, wp_pure, true_and]
      have hSet := h.setTree fun t => t.insertNode .resv n
      have hSame : d.tree.setNode n (fun x => x) = d.tree := by
        unfold Tree.setNode
        have hUpd : upd d.tree.node n (d.tree.node n) =
            d.tree.node := by
          funext j
          by_cases hj : j = n
          · subst hj
            simp
          · rw [upd_other _ _ hj]
        rw [hUpd]
      simp only [Disk.enter, Flash.nodeOf, hType]
      rw [hSame]
      exact hSet

theorem wp_loadValidNode
    {s : Dev}
    {i b : Nat}
    {H : Nat → Nat}
    {d : Disk}
    (n : Nat)
    (h : Stands s i b H d)
    (hb : b ≠ invalidBlock)
    (hKept : ((s.bc.info i).spares 0).expired = false) :
    wp (loadValidNode n i b (d.flash.tags b 0))
      (fun r _ t =>
        r = .succ ∧ Stands t i b H (d.register n b)) s := by
  unfold loadValidNode Disk.register
  split
  · refine wp_seq (wp_loadNameSum h.mounting.toCalm h.mem
      h.block) ?_
    rintro r _ t ⟨hst, hr⟩
    have ht := h.looks hst
    rw [h.flash] at hr
    subst hr
    cases hSum : d.flash.nameSum b with
    | none =>
        simp only [wp_bind, wp_pure]
        refine wp_mono (wp_eraseAndFile ht hb) ?_
        rintro _ _ u ⟨hu, _⟩
        exact ⟨trivial, hu⟩
    | some sum =>
        have hTwo := Platform.two_le_pagesPerBlock
        have hTag : ((t.bc.info i).spares 0).tag =
            d.flash.tags b 0 := by
          rw [← ht.tags]
          refine ht.readable.fresh 0 (by omega) ?_
          rw [hst.reads.kept 0 hKept]
          exact hKept
        simp only [getTag, wp_bind, wp_gets, hTag]
        refine wp_mono (wp_registerNode n sum ht) ?_
        rintro _ _ u hu
        exact hu
  · exact wp_registerNode n 0 h

------------------------------------------------------------
-- The Scan of One Block
------------------------------------------------------------

theorem wp_scanFrom
    {i b : Nat}
    {H : Nat → Nat}
    {d : Disk}
    (n : Nat) :
    ∀ s : Dev,
      Stands s i b H d →
      n < pagesPerBlock →
      wp (scanFrom i b n)
        (fun r _ t =>
          Stands t i b H d ∧
            r = if d.flash.unclean b n then .needCleanup
              else .clean) s := by
  induction n with
  | zero =>
      intro s h _
      simp only [scanFrom, wp_pure, Flash.unclean,
        Bool.false_eq_true, if_false]
      exact ⟨h, trivial⟩
  | succ n ih =>
      intro s h hn
      unfold scanFrom Flash.unclean
      refine wp_seq (wp_blockInfoLoad h.readable hn) ?_
      rintro _ _ t ⟨rfl, rfl, hst, hTag⟩
      have ht := h.reads hst
      simp only [getTag, wp_bind, wp_gets, hTag, h.tags]
      by_cases hSealed : (d.flash.tags b (n + 1)).sealed = true
      · simp only [hSealed, if_true, wp_pure, Bool.false_eq_true,
          if_false, and_true]
        exact ht
      · by_cases hDirty :
            ((d.flash.tags b (n + 1)).isDirty ||
              (d.flash.tags b (n + 1)).isValid) = true
        · simp only [hSealed, if_false, hDirty, reduceCtorEq,
            decide_false, Bool.false_or, if_true, wp_pure,
            and_true]
          exact ht
        · simp only [hSealed, if_false, hDirty, reduceCtorEq,
            decide_false, Bool.false_or, wp_bind]
          refine wp_mono (wp_loadMiniHeader b (n + 1)
            ht.readable.good) ?_
          rintro _ _ u ⟨rfl, rfl, hu⟩
          have hLook : Looks i t u := by
            refine Looks.of_reads ?_
            rw [hu]
            exact ⟨rfl, Nat.le_succ _, rfl, fun _ _ => rfl, rfl,
              rfl, fun h => h, fun _ _ => rfl⟩
          have hu := ht.looks hLook
          rw [ht.flash]
          dsimp only
          by_cases hStatus :
              (d.flash.page b (n + 1)).status ≠ 0xFF
          · rw [if_pos hStatus, if_pos hStatus, wp_pure]
            exact ⟨hu, rfl⟩
          · rw [if_neg hStatus, if_neg hStatus]
            refine wp_mono (ih u hu (by omega)) ?_
            rintro r _ v hv
            exact hv

/- No block is pending. -/
theorem wp_treeProcessPendingBadBlock
    {s : Dev}
    (n b : Nat)
    (hCount : s.pending.count = 0) :
    wp (treeProcessPendingBadBlock n b)
      (fun r es t => r = false ∧ es = [] ∧ t = s) s := by
  have hNone : s.pending.find b = none := by
    unfold Pending.find
    rw [hCount]
    rfl
  simp only [treeProcessPendingBadBlock,
    badBlockPendingNodeGet, wp_bind, wp_gets, hNone,
    Option.map_none, wp_pure, List.append_nil, and_self]

/- A block that has just been reported for a cleanup. -/
theorem wp_cleanup
    {s : Dev}
    {i b : Nat}
    {H : Nat → Nat}
    {d : Disk}
    (n : Nat)
    (h : Stands s i b H d)
    (hb : b ≠ invalidBlock) :
    wp (treeProcessPendingBadBlock n b)
      (fun r _ t => r = true ∧ Stands t i b H (d.erase n b))
      { s with pending := s.pending.add b .cleanup } := by
  have hMount := h.mounting
  have hNone : s.pending.find b = none := by
    unfold Pending.find
    rw [hMount.noPending]
    rfl
  have hAdd : s.pending.add b .cleanup =
      { s.pending with
        count := 1
        slot := upd s.pending.slot 0
          { block := b, mark := .cleanup } } := by
    unfold Pending.add
    rw [hMount.noRecovery, if_neg (fun hEq => hb hEq.symm),
      hNone, hMount.noPending]
    simp [maxPendingBlocks, hMount.noRecovery]
  have hFind : (s.pending.add b .cleanup).find b = some 0 := by
    rw [hAdd]
    simp [Pending.find, List.range_succ]
  have hRemove : ((s.pending.add b .cleanup).remove b).count = 0
      := by
    unfold Pending.remove
    rw [hFind, hAdd]
    rfl
  have hRecovery : ((s.pending.add b .cleanup).remove
      b).blockInRecovery = invalidBlock := by
    unfold Pending.remove
    rw [hFind, hAdd]
    exact hMount.noRecovery
  simp only [treeProcessPendingBadBlock,
    badBlockPendingNodeGet, wp_bind, wp_gets, hFind,
    Option.map_some]
  have hSlot : ((s.pending.add b .cleanup).slot 0).mark =
      .cleanup := by
    rw [hAdd]
    simp
  simp only [hSlot, wp_bind, wp_pure, true_and]
  refine wp_mono (wp_eraseAndFile_pending (d := d) (i := i)
    (b := b) (H := H) ?_ hb) ?_
  · refine ⟨⟨?_, hRemove, hRecovery, hMount.bufs,
      hMount.empty⟩, h.mem, h.block, h.flash, h.tree⟩
    exact hMount.toCalm.congr (Nat.le_refl _) rfl rfl rfl rfl
  · rintro _ _ t ⟨ht, _⟩
    exact ht

end Uffs
