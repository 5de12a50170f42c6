import Mathlib.Data.List.Find
import Uffs.Good.Content
import Uffs.Pool.Flush

/-
  Flushing a dirty group into free pages on a flash where
  every operation succeeds: the group is emptied and the
  block holds its old content overlaid with the group.

  Main declarations:
    * `BufPool.content`, `Dev.overlay`
    * `Appendable`
    * `Appendable.step`
    * `wp_bufFlushExistWithEnoughFreePage`
-/

namespace Uffs

open Prog

variable [Platform]

------------------------------------------------------------
-- The Content of a Dirty Group
------------------------------------------------------------

/- The data and the length that a dirty group has for a page. -/
def BufPool.content
    (p : BufPool)
    (slot id : Nat) : Option (List Byte × Nat) :=
  ((p.group slot).dirty.find? fun d =>
      (p.entry d).pageId == id).map fun d =>
    ((p.entry d).data, (p.entry d).dataLen)

/- The content of a block overlaid with a dirty group. -/
def Dev.overlay
    (s : Dev)
    (slot b id : Nat) : Option (List Byte × Nat) :=
  (s.buf.content slot id).or (s.flash.content b id)

/- The key of an object fits the bit fields of a tag. -/
structure GroupKey.Fits (key : GroupKey) : Prop where
  parent : key.parent < 1024
  serial : key.serial < 16384

/- A buffer of an object with data of a page in it. -/
structure Buf.Filled (b : Buf) (key : GroupKey) : Prop where
  type : b.type = key.type
  parent : b.parent = key.parent
  serial : b.serial = key.serial
  page_lt : b.pageId < pagesPerBlock
  len_le : b.dataLen ≤ pgDataSize
  tail : b.truncTail = false

/-
  The dirty pages of a group extend or overlap the page ids
  up to `k` without a gap.
-/
structure BufPool.Extends
    (p : BufPool)
    (slot : Nat)
    (key : GroupKey)
    (k : Nat) : Prop where
  filled : ∀ d ∈ (p.group slot).dirty, (p.entry d).Filled key
  noGap : ∀ d ∈ (p.group slot).dirty,
    ∀ id ≤ (p.entry d).pageId,
      id ≤ k ∨ ∃ e ∈ (p.group slot).dirty,
        (p.entry e).pageId = id

/- The tag that is stored is the one that was asked for. -/
theorem Tag.store_filled
    {b : Buf}
    {key : GroupKey}
    (hFits : key.Fits)
    (h : b.Filled key)
    (stamp : Nat) :
    Tag.store b.type stamp b.dataLen b.serial b.parent b.pageId =
      { dirty := 0
        valid := 0
        type := key.type
        blockTs := stamp % 4
        dataLen := b.dataLen
        serial := key.serial
        parent := key.parent
        pageId := b.pageId
        sealed := true } := by
  have hLen := Nat.lt_of_le_of_lt h.len_le
    (Nat.lt_succ_of_le Platform.pgDataSize_le)
  have hPage := Nat.lt_of_lt_of_le h.page_lt
    Platform.pagesPerBlock_le
  unfold Tag.store
  rw [h.type, h.parent, h.serial, Nat.mod_eq_of_lt hLen,
    Nat.mod_eq_of_lt hFits.serial,
    Nat.mod_eq_of_lt hFits.parent, Nat.mod_eq_of_lt hPage]

/- An element that is not searched for is taken out. -/
omit [Platform] in
theorem find?_erase_of_not
    {l : List Nat}
    {d : Nat}
    (test : Nat → Bool)
    (hNot : test d = false) :
    (l.erase d).find? test = l.find? test := by
  induction l with
  | nil => rfl
  | cons i rest ih =>
      by_cases hi : i = d
      · subst hi
        rw [List.erase_cons_head, List.find?_cons_of_neg]
        rw [hNot]
        exact Bool.false_ne_true
      · rw [List.erase_cons_tail (by simpa using hi),
          List.find?_cons, List.find?_cons, ih]

namespace BufPool

variable {p q : BufPool} {slot d id k : Nat} {key : GroupKey}

omit [Platform] in
theorem findMinimunPageId_le
    {l : List Nat}
    (h : p.findMinimunPageId l = some d) :
    ∀ e ∈ l, (p.entry d).pageId ≤ (p.entry e).pageId := by
  cases l with
  | nil => cases h
  | cons i rest =>
      unfold findMinimunPageId at h
      cases h
      have hFold : ∀ (rest : List Nat) (best : Nat),
          (∀ e ∈ best :: rest,
            (p.entry (rest.foldl (fun best j =>
              if (p.entry j).pageId < (p.entry best).pageId
              then j else best) best)).pageId ≤
                (p.entry e).pageId) := by
        intro rest
        induction rest with
        | nil =>
            intro best e he
            rw [List.mem_singleton] at he
            rw [he]
            exact Nat.le_refl _
        | cons j rest ih =>
            intro best e he
            rw [List.foldl_cons]
            rcases List.mem_cons.mp he with hBest | hRest
            · subst hBest
              split
              · rename_i hLt
                exact Nat.le_trans
                  (ih j j List.mem_cons_self) (Nat.le_of_lt hLt)
              · exact ih e e List.mem_cons_self
            · rcases List.mem_cons.mp hRest with hj | hRest
              · subst hj
                split
                · exact ih e e List.mem_cons_self
                · rename_i hLt
                  exact Nat.le_trans
                    (ih best best List.mem_cons_self)
                    (Nat.not_lt.mp hLt)
              · exact ih _ e (List.mem_cons_of_mem _ hRest)
      exact hFold rest i

/- A group that is not empty has a lowest page. -/
omit [Platform] in
theorem exists_minimum
    {l : List Nat}
    (h : l ≠ []) : ∃ d, p.findMinimunPageId l = some d := by
  cases l with
  | nil => exact absurd rfl h
  | cons i rest => exact ⟨_, rfl⟩

/- The lowest dirty page is at most one above the old pages. -/
theorem Extends.minimum_le
    (h : p.Extends slot key k)
    (hMem : d ∈ (p.group slot).dirty)
    (hLe : ∀ e ∈ (p.group slot).dirty,
      (p.entry d).pageId ≤ (p.entry e).pageId) :
    (p.entry d).pageId ≤ k + 1 := by
  by_contra hNot
  rcases h.noGap d hMem (k + 1) (by omega) with hk | hDirty
  · omega
  · rcases hDirty with ⟨e, he, hId⟩
    have hMin := hLe e he
    omega

/- A page of a group is found by its page id. -/
theorem Sound.content_of_mem
    (h : p.Sound)
    (hMem : d ∈ (p.group slot).dirty) :
    (p.group slot).dirty.find?
        (fun e => (p.entry e).pageId == (p.entry d).pageId) =
      some d := by
  cases hFind : (p.group slot).dirty.find? fun e =>
      (p.entry e).pageId == (p.entry d).pageId with
  | none =>
      have hNot := List.find?_eq_none.mp hFind d hMem
      simp at hNot
  | some e =>
      have hIn := List.mem_of_find?_eq_some hFind
      have hTest := List.find?_some hFind
      rw [beq_iff_eq] at hTest
      have hKey := h.sameKey slot e hIn d hMem
      have hLinkE := h.linked slot e hIn
      have hLinkD := h.linked slot d hMem
      have hEq : e = d := by
        apply h.pages e hLinkE.1 d hLinkD.1
        · rw [hLinkE.2]
          exact BufMark.noConfusion
        · rw [hLinkD.2]
          exact BufMark.noConfusion
        · unfold Buf.groupKey at hKey
          rw [Prod.mk.injEq] at hKey
          unfold Buf.pageKey
          rw [hKey.1, hKey.2, hTest]
      rw [hEq]

/- What a group has for its pages when one is taken off. -/
theorem Sound.content_clean
    {f : Buf → Buf}
    (h : p.Sound)
    (hMem : d ∈ (p.group slot).dirty)
    (id : Nat) :
    p.content slot id =
      if id = (p.entry d).pageId then
        some ((p.entry d).data, (p.entry d).dataLen)
      else
        (p.clean slot d f).content slot id := by
  unfold content
  by_cases hHere : id = (p.entry d).pageId
  · rw [if_pos hHere, hHere, h.content_of_mem hMem]
    rfl
  · rw [if_neg hHere]
    have hDirty : ((p.clean slot d f).group slot).dirty =
        (p.group slot).dirty.erase d := by
      unfold BufPool.clean
      dsimp only
      rw [upd_same]
    have hEntry : ∀ e ∈ (p.group slot).dirty.erase d,
        (p.clean slot d f).entry e = p.entry e := by
      intro e he
      apply upd_other
      exact ((h.nodup slot).mem_erase_iff.mp he).1
    have hFind : ((p.group slot).dirty.erase d).find?
        (fun e => ((p.clean slot d f).entry e).pageId == id) =
        ((p.group slot).dirty.erase d).find?
          (fun e => (p.entry e).pageId == id) := by
      apply List.find?_congr
      intro e he
      rw [hEntry e he]
    have hNot : ((p.entry d).pageId == id) = false := by
      rw [beq_eq_false_iff_ne]
      exact Ne.symm hHere
    have hErase : ((p.group slot).dirty.erase d).find?
        (fun e => (p.entry e).pageId == id) =
        (p.group slot).dirty.find?
          (fun e => (p.entry e).pageId == id) :=
      find?_erase_of_not _ hNot
    rw [hDirty, hFind, hErase]
    cases hSome : (p.group slot).dirty.find? fun e =>
        (p.entry e).pageId == id with
    | none => rfl
    | some e =>
        have hIn := List.mem_of_find?_eq_some hSome
        have hNe : e ≠ d := by
          intro hEq
          have hTest := List.find?_some hSome
          rw [hEq, hNot] at hTest
          cases hTest
        rw [Option.map_some, Option.map_some, hEntry e
          ((List.mem_erase_of_ne hNe).mpr hIn)]

/- The page that is taken off is gone. -/
theorem Sound.content_clean_self
    {f : Buf → Buf}
    (h : p.Sound)
    (hMem : d ∈ (p.group slot).dirty) :
    (p.clean slot d f).content slot (p.entry d).pageId =
      none := by
  unfold content
  rw [Option.map_eq_none_iff, List.find?_eq_none]
  intro e he hTest
  have hOld := clean_mem_dirty h he
  have hNe := hOld.2 hMem
  have hEntry : (p.clean slot d f).entry e = p.entry e :=
    upd_other _ _ hNe
  rw [hEntry, beq_iff_eq] at hTest
  have hFindD := h.content_of_mem hMem
  have hFindE := h.content_of_mem hOld.1
  rw [hTest, hFindD] at hFindE
  cases hFindE
  exact hNe rfl

end BufPool

------------------------------------------------------------
-- Appending One Page
------------------------------------------------------------

/-
  The first erased page of a block that is filled from below.
-/
theorem firstErased_of_filled
    {τ : Nat → Tag}
    {key : GroupKey}
    {n k : Nat}
    (h : Filled τ key n k)
    (hn : n < pagesPerBlock)
    (m : Nat) :
    ∀ page, page ≤ n → n < page + m →
      firstErased τ m page = n := by
  induction m with
  | zero =>
      intro page hFrom hTo
      omega
  | succ m ih =>
      intro page hFrom hTo
      unfold firstErased
      by_cases hHere : page = n
      · rw [hHere, if_pos (h.erased n (Nat.le_refl n) hn)]
      · have hGood := h.good page (by omega)
        rw [if_neg]
        · exact ih (page + 1) (by omega) (by omega)
        · intro hErased
          rw [Tag.isGood_of_isErased hErased] at hGood
          cases hGood

/-
  Block `b`, whose info is the entry `i`, has room for the
  dirty pages of a group.
-/
structure Appendable
    (s : Dev)
    (H : Nat → Nat)
    (slot i b : Nat)
    (key : GroupKey)
    (n k : Nat) : Prop where
  calm : Calm s H
  mem : i ∈ s.bc.list
  block : (s.bc.info i).block = b
  sound : s.buf.Sound
  filled : Filled (s.flash.tags b) key n k
  group : s.buf.Extends slot key k
  room : n + (s.buf.group slot).dirty.length ≤ pagesPerBlock

namespace Appendable

variable {s t : Dev} {H : Nat → Nat} {slot node i b n k d : Nat}
  {key : GroupKey}

/- Tags of the block are loaded. -/
theorem reads
    (h : Appendable s H slot i b key n k)
    (hst : Reads i s t) :
    Appendable t H slot i b key n k where
  calm := h.calm.reads h.mem hst
  mem := by
    rw [hst.list]
    exact h.mem
  block := hst.block.trans h.block
  sound := by
    rw [hst.buf]
    exact h.sound
  filled := by
    rw [hst.flash]
    exact h.filled
  group := by
    rw [hst.buf]
    exact h.group
  room := by
    rw [hst.buf]
    exact h.room

end Appendable

------------------------------------------------------------
-- Page Buffers
------------------------------------------------------------

/- At most the clone buffers and the order have changed. -/
structure BufPool.Untouched (p q : BufPool) : Prop where
  list : q.list.Perm p.list
  clone : q.clone = p.clone
  group : q.group = p.group
  entry : ∀ j ∈ p.list, q.entry j = p.entry j
  free : ∀ j ∈ p.clone, (p.entry j).mark = .empty →
    (q.entry j).mark = .empty

namespace BufPool.Untouched

variable {p q r : BufPool} {slot k : Nat} {key : GroupKey}

omit [Platform] in
theorem refl (p : BufPool) : p.Untouched p where
  list := List.Perm.refl _
  clone := rfl
  group := rfl
  entry := fun _ _ => rfl
  free := fun _ _ h => h

omit [Platform] in
theorem trans
    (h : p.Untouched q)
    (h' : q.Untouched r) : p.Untouched r where
  list := h'.list.trans h.list
  clone := h'.clone.trans h.clone
  group := h'.group.trans h.group
  entry := by
    intro j hj
    rw [h'.entry j (h.list.mem_iff.mpr hj), h.entry j hj]
  free := by
    intro j hj hEmpty
    apply h'.free j
    · rw [h.clone]
      exact hj
    · exact h.free j hj hEmpty

theorem sound
    (h : p.Untouched q)
    (hp : p.Sound) : q.Sound := by
  apply BufPool.Alike.sound _ hp
  constructor
  · exact h.list
  · exact h.clone
  · intro slot
    rw [h.group]
  · intro slot
    rw [h.group]
  · intro i hi
    rw [h.entry i hi]
  · intro i hi
    rw [h.entry i hi]
  · exact h.free

theorem dirty
    (h : p.Untouched q)
    (hp : p.Sound)
    {d : Nat}
    (hd : d ∈ (p.group slot).dirty) :
    q.entry d = p.entry d :=
  h.entry d (hp.linked slot d hd).1

theorem extends_
    (h : p.Untouched q)
    (hp : p.Sound)
    (hExtends : p.Extends slot key k) :
    q.Extends slot key k := by
  constructor
  · intro d hd
    rw [h.group] at hd
    rw [h.dirty hp hd]
    exact hExtends.filled d hd
  · intro d hd id hId
    rw [h.group] at hd ⊢
    rw [h.dirty hp hd] at hId
    rcases hExtends.noGap d hd id hId with hk | ⟨e, he, hEq⟩
    · exact Or.inl hk
    · refine Or.inr ⟨e, he, ?_⟩
      rw [h.dirty hp he]
      exact hEq

theorem content
    (h : p.Untouched q)
    (hp : p.Sound)
    (id : Nat) : q.content slot id = p.content slot id := by
  unfold BufPool.content
  rw [h.group]
  have hFind : (p.group slot).dirty.find?
      (fun d => (q.entry d).pageId == id) =
      (p.group slot).dirty.find?
        (fun d => (p.entry d).pageId == id) := by
    apply List.find?_congr
    intro d hd
    rw [h.dirty hp hd]
  rw [hFind]
  cases hSome : (p.group slot).dirty.find? fun d =>
      (p.entry d).pageId == id with
  | none => rfl
  | some d =>
      rw [Option.map_some, Option.map_some,
        h.dirty hp (List.mem_of_find?_eq_some hSome)]

/- A buffer is moved to the head of the list. -/
omit [Platform] in
theorem toHead
    {i : Nat}
    (hi : i ∈ p.list) :
    p.Untouched { p with list := i :: p.list.erase i } where
  list := (List.perm_cons_erase hi).symm
  clone := rfl
  group := rfl
  entry := fun _ _ => rfl
  free := fun _ _ h => h

end BufPool.Untouched

/- A page write borrows a clone. -/
theorem Writes.untouched
    {s t : Dev}
    {b n c : Nat}
    {x : Page}
    (h : Writes b n c x s t)
    (hs : s.buf.Sound)
    (hc : c ∈ s.buf.clone) : s.buf.Untouched t.buf := by
  have hRest := h.rest
  have hBuf : t.buf = { s.buf with entry := t.buf.entry } := by
    rw [hRest]
  constructor
  · rw [hBuf]
  · rw [hBuf]
  · rw [hBuf]
  · intro j hj
    apply h.entry
    intro hEq
    rw [hEq] at hj
    exact hs.not_free hj hc
  · intro j hj hEmpty
    by_cases hjc : j = c
    · rw [hjc]
      exact h.empty.1
    · rw [h.entry j hjc]
      exact hEmpty

/- A group when one of its pages is taken off. -/
theorem BufPool.Extends.clean
    {p : BufPool}
    {slot d k : Nat}
    {key : GroupKey}
    {f : Buf → Buf}
    (h : p.Extends slot key k)
    (hp : p.Sound) :
    (p.clean slot d f).Extends slot key
      (max k (p.entry d).pageId) := by
  have hMem : ∀ {e}, e ∈ ((p.clean slot d f).group slot).dirty ↔
      e ∈ (p.group slot).dirty ∧ e ≠ d := by
    intro e
    unfold BufPool.clean
    dsimp only
    rw [upd_same]
    dsimp only
    rw [(hp.nodup slot).mem_erase_iff]
    exact And.comm
  have hEntry : ∀ {e}, e ≠ d →
      (p.clean slot d f).entry e = p.entry e :=
    fun he => upd_other _ _ he
  constructor
  · intro e he
    rw [hMem] at he
    rw [hEntry he.2]
    exact h.filled e he.1
  · intro e he id hId
    rw [hMem] at he
    rw [hEntry he.2] at hId
    rcases h.noGap e he.1 id hId with hk | ⟨x, hx, hEq⟩
    · left
      exact Nat.le_trans hk (Nat.le_max_left _ _)
    · by_cases hxd : x = d
      · left
        rw [← hEq, hxd]
        exact Nat.le_max_right _ _
      · right
        refine ⟨x, hMem.mpr ⟨hx, hxd⟩, ?_⟩
        rw [hEntry hxd]
        exact hEq

/- A dirty buffer is taken off its list. -/
theorem wp_breakFromDirty_of_sound
    {s : Dev}
    {slot d : Nat}
    (hs : s.buf.Sound)
    (hd : d ∈ (s.buf.group slot).dirty) :
    wp (breakFromDirty d)
      (fun r es t => r = .succ ∧ es = [] ∧
        t = { s with buf := s.buf.clean slot d id }) s := by
  have hMark := (hs.linked slot d hd).2
  have hClean :
      { s.buf with
        group := upd s.buf.group slot
          { s.buf.group slot with
            dirty := (s.buf.group slot).dirty.erase d
            count := (s.buf.group slot).count - 1 } } =
        s.buf.clean slot d id := by
    unfold BufPool.clean
    dsimp only [id]
    congr 1
    funext j
    by_cases hj : j = d
    · rw [hj, upd_same]
    · rw [upd_other _ _ hj]
  unfold breakFromDirty getBuf bufFindGroupSlot setGroup
  rw [wp_bind, wp_gets, if_neg (not_not_intro hMark), wp_bind,
    wp_gets, hs.findGroupSlot_eq hd]
  dsimp only
  rw [wp_bind, wp_modify, wp_pure, hClean]
  exact ⟨rfl, rfl, rfl⟩

------------------------------------------------------------
-- One Round of the Loop
------------------------------------------------------------

/- What the round leaves of the buffer that it writes. -/
def Buf.flushed (b : Buf) : Buf :=
  { b with mark := .valid }

/-
  Page `d` of a group is written to the page `n` of block `b`
  and taken off the group.
-/
structure PageAppended
    (slot b n d : Nat)
    (s t : Dev) : Prop where
  rest : t =
    { s with
      flash := t.flash
      clock := t.clock
      bc := t.bc
      buf := t.buf
      watch := t.watch }
  flash : ∃ stamp, t.flash = s.flash.write b n
    ((s.buf.entry d).image (Tag.store (s.buf.entry d).type stamp
      (s.buf.entry d).dataLen (s.buf.entry d).serial
      (s.buf.entry d).parent (s.buf.entry d).pageId))
  buf : (s.buf.clean slot d Buf.flushed).Untouched t.buf

namespace Appendable

variable {s t : Dev} {H : Nat → Nat} {slot node i b n k d : Nat}
  {key : GroupKey}

/- The block and the group after one round. -/
theorem appended
    (h : Appendable s H slot i b key n k)
    (hFits : key.Fits)
    (hMin : s.buf.findMinimunPageId (s.buf.group slot).dirty =
      some d)
    (hCalm : Calm t H)
    (hMem : i ∈ t.bc.list)
    (hBlock : (t.bc.info i).block = b)
    (hst : PageAppended slot b n d s t) :
    Appendable t H slot i b key (n + 1)
        (max k (s.buf.entry d).pageId) ∧
      (t.buf.group slot).dirty =
        (s.buf.group slot).dirty.erase d ∧
      ∀ id, t.overlay slot b id = s.overlay slot b id := by
  have hd := BufPool.findMinimunPageId_mem hMin
  have hFilled := h.group.filled d hd
  have hLe := h.group.minimum_le hd
    (BufPool.findMinimunPageId_le hMin)
  have hRoom := h.room
  have hPos := List.length_pos_of_mem hd
  have hClean : (s.buf.clean slot d Buf.flushed).Sound :=
    h.sound.clean hd (fun _ => rfl)
      (fun _ hMark => BufMark.noConfusion hMark)
  rcases hst.flash with ⟨stamp, hFlash⟩
  rw [Tag.store_filled hFits hFilled] at hFlash
  have hDirty : (t.buf.group slot).dirty =
      (s.buf.group slot).dirty.erase d := by
    rw [hst.buf.group]
    unfold BufPool.clean
    dsimp only
    rw [upd_same]
  refine ⟨?_, hDirty, ?_⟩
  · constructor
    · exact hCalm
    · exact hMem
    · exact hBlock
    · exact hst.buf.sound hClean
    · rw [hFlash, Flash.tags_write]
      exact h.filled.snoc (by omega) rfl ⟨rfl, rfl, rfl⟩ hLe
    · exact hst.buf.extends_ hClean
        (h.group.clean h.sound)
    · rw [hDirty, List.length_erase_of_mem hd]
      omega
  · intro id
    have hContent : t.flash.content b id =
        if id = (s.buf.entry d).pageId then
          some ((s.buf.entry d).data, (s.buf.entry d).dataLen)
        else
          s.flash.content b id := by
      rw [hFlash]
      exact h.filled.content_write (by omega) rfl
        ⟨rfl, rfl, rfl⟩ hLe id
    unfold Dev.overlay
    rw [hst.buf.content hClean, hContent,
      h.sound.content_clean hd (f := Buf.flushed)]
    by_cases hHere : id = (s.buf.entry d).pageId
    · rw [hHere, h.sound.content_clean_self hd, if_pos rfl,
        if_pos rfl]
      rfl
    · rw [if_neg hHere, if_neg hHere]

end Appendable

------------------------------------------------------------
-- The Loop
------------------------------------------------------------

/- The buffers after a written page is taken off its group. -/
theorem wp_cleanAndMove
    {s t : Dev}
    {slot d : Nat}
    {α : Type}
    {m : M α}
    {Q : α → List Event → Dev → Prop}
    {f : Buf → Buf}
    {g : URet → M α}
    (hs : s.buf.Sound)
    (hd : d ∈ (s.buf.group slot).dirty)
    (ht : s.buf.Untouched t.buf)
    (hSucc : g .succ = do
      setBuf d f
      moveNodeToHead d
      m)
    (hNext : ∀ u,
      u = { t with buf := u.buf } →
      (s.buf.clean slot d f).Untouched u.buf →
      wp m Q u) :
    wp (breakFromDirty d >>= g) Q t := by
  have hSound := ht.sound hs
  have hd' : d ∈ (t.buf.group slot).dirty := by
    rw [ht.group]
    exact hd
  have hList := (hs.linked slot d hd).1
  refine wp_seq (wp_breakFromDirty_of_sound hSound hd') ?_
  intro ret es u hu
  rcases hu with ⟨hRet, hEs, hu⟩
  subst hRet hEs hu
  rw [hSucc]
  dsimp only [setBuf, moveNodeToHead]
  rw [wp_bind, wp_modify, wp_bind, wp_modify]
  apply hNext
  · rfl
  · have hClean : (s.buf.clean slot d f).Untouched
        (t.buf.clean slot d f) := by
      constructor
      · exact ht.list
      · exact ht.clone
      · unfold BufPool.clean
        dsimp only
        rw [ht.group]
      · intro j hj
        unfold BufPool.clean
        dsimp only
        by_cases hjd : j = d
        · rw [hjd, upd_same, upd_same, ht.entry d hList]
        · rw [upd_other _ _ hjd, upd_other _ _ hjd]
          exact ht.entry j hj
      · intro j hj hEmpty
        have hjd : j ≠ d := by
          intro hEq
          rw [hEq] at hj
          exact hs.not_free hList hj
        unfold BufPool.clean at hEmpty ⊢
        dsimp only at hEmpty ⊢
        rw [upd_other _ _ hjd] at hEmpty ⊢
        exact ht.free j hj hEmpty
    apply hClean.trans
    rw [← BufPool.clean_clean t.buf slot d f]
    exact BufPool.Untouched.toHead (ht.list.mem_iff.mpr hList)

/-
  The loop of `uffs_BufFlush_Exist_With_Enough_FreePage`
  writes the dirty pages in the order of their page ids.
-/
theorem wp_enoughFrom
    {H : Nat → Nat}
    {slot node i b : Nat}
    {key : GroupKey}
    (hb : b ≠ invalidBlock)
    (hFits : key.Fits)
    (m : Nat) :
    ∀ (s : Dev) (page n k : Nat),
      Appendable s H slot i b key n k →
      page ≤ n →
      (s.buf.group slot).dirty.length ≤ m →
      wp (enoughFrom slot node i m page)
        (fun r _ t =>
          r = none ∧ t.tree = s.tree ∧
            (t.buf.group slot).dirty = [] ∧
            (∃ n' k', Appendable t H slot i b key n' k') ∧
            ∀ id, t.overlay slot b id = s.overlay slot b id)
        s := by
  induction m with
  | zero =>
      intro s page n k h _ hLen
      unfold enoughFrom
      rw [wp_pure]
      exact ⟨rfl, rfl, List.length_eq_zero_iff.mp (by omega),
        ⟨n, k, h⟩, fun _ => rfl⟩
  | succ m ih =>
      intro s page n k h hPage hLen
      unfold enoughFrom getGroup
      rw [wp_bind, wp_gets]
      have hCount := h.sound.count slot
      by_cases hNil : (s.buf.group slot).dirty = []
      · rw [hNil] at hCount
        rw [if_pos (Or.inr (by rw [hCount]; decide)), wp_pure]
        exact ⟨rfl, rfl, hNil, ⟨n, k, h⟩, fun _ => rfl⟩
      have hPos := List.length_pos_iff.mpr hNil
      have hRoom := h.room
      have hn : n < pagesPerBlock := by omega
      rw [if_neg (by omega), wp_bind]
      refine wp_mono (yields_findErasedPageFrom i
        (pagesPerBlock - page) s page (h.calm.readable h.mem)
        (by omega)) ?_
      intro r _ s₁ h₁
      rcases h₁ with ⟨hr, hEs, hReads₁⟩
      have hTags : s.tags i = s.flash.tags b := by
        unfold Dev.tags Flash.tags
        rw [h.block]
      rw [hTags, firstErased_of_filled h.filled hn _ page hPage
        (by omega)] at hr
      subst r hEs
      rw [if_neg (by omega)]
      have hs₁ := h.reads hReads₁
      rcases BufPool.exists_minimum (p := s₁.buf)
        (l := (s₁.buf.group slot).dirty) (by
          rw [hReads₁.buf]
          exact hNil) with ⟨d, hMin⟩
      simp only [findMinimunPageIdFromDirtyList, getBuf, wp_bind,
        wp_gets, hMin]
      refine wp_mono (yields_getBlockTimeStamp
        (hs₁.calm.readable hs₁.mem)) ?_
      intro stamp _ s₂ h₂
      rcases h₂ with ⟨_, hEs, hReads₂⟩
      subst hEs
      have hs₂ := hs₁.reads hReads₂
      have hReads := hReads₁.trans hReads₂
      rw [← hReads₂.buf] at hMin ⊢
      rcases hs₂.calm.clone_cons with ⟨c, rest, hClone⟩
      have hd := BufPool.findMinimunPageId_mem hMin
      rw [wp_setTag]
      simp only [getInfo, wp_gets, Dev.putTag_block, hs₂.block]
      refine wp_mono (wp_flashWritePageCombine b n d _
        hs₂.calm.good hs₂.calm.spare hClone) ?_
      intro x _ s₃ h₃
      rcases h₃ with ⟨hx, hEs, hWrites⟩
      subst hx hEs
      have hStored : (s₃.flash.page b n).tag =
          ((s₂.buf.entry d).image (Tag.store
            (s₂.buf.entry d).type stamp (s₂.buf.entry d).dataLen
            (s₂.buf.entry d).serial (s₂.buf.entry d).parent
            (s₂.buf.entry d).pageId)).tag := by
        rw [hWrites.rest]
        exact congrArg Page.tag (Flash.write_same _ _ _ _)
      simp only [Buf.image] at hStored
      simp only [noteNotStored, noteWhen, hStored,
        FlashRet.haveErr, reduceCtorEq, if_false, wp_bind,
        wp_get, wp_pure, bne_self_eq_false,
        Bool.false_eq_true]
      have hIn : c ∈ s₂.buf.clone := by
        rw [hClone]
        exact List.mem_cons_self
      have hUntouched : s₂.buf.Untouched s₃.buf :=
        hWrites.untouched hs₂.sound hIn
      have hValid : (s₂.bc.info i).block ≠ invalidBlock := by
        rw [hs₂.block]
        exact hb
      have hWrites' := hWrites
      rw [← hs₂.block] at hWrites'
      have hCalm₃ := hs₂.calm.writes hs₂.mem hValid hWrites'
      have hRest := hWrites.rest
      refine (wp_bind (breakFromDirty d) _
        (fun ret _ t => ret = none ∧ t.tree = s.tree ∧
          (t.buf.group slot).dirty = [] ∧
          (∃ n' k', Appendable t H slot i b key n' k') ∧
          ∀ id, t.overlay slot b id = s.overlay slot b id)
        s₃).mp ?_
      refine wp_cleanAndMove hs₂.sound hd hUntouched rfl ?_
      intro u hu hBuf
      have hst : PageAppended slot b n d s₂ u := by
        refine ⟨?_, ⟨stamp, ?_⟩, hBuf⟩
        · rw [hu, hRest]
          rfl
        · rw [hu, hRest]
          rfl
      have hCalm : Calm u H := by
        apply hCalm₃.congr
        · rw [hu]
        · rw [hu]
        · rw [hBuf.clone]
          exact hUntouched.clone.symm
        · rw [hu]
        · rw [hu]
      have hMem : i ∈ u.bc.list := by
        rw [hu, hRest]
        exact hs₂.mem
      have hBlock : (u.bc.info i).block = b := by
        rw [hu, hRest]
        exact (s₂.putTag_block i i n _).trans hs₂.block
      rcases hs₂.appended hFits hMin hCalm hMem hBlock hst with
        ⟨hNext, hDirty, hOverlay⟩
      refine wp_mono (ih u (n + 1) (n + 1) _ hNext
        (Nat.le_refl _) ?_) ?_
      · rw [hDirty, List.length_erase_of_mem hd, hReads.buf]
        omega
      · intro ret _ t ht
        rcases ht with ⟨hRet, hTree, hEmpty, hEnd, hSame⟩
        refine ⟨hRet, ?_, hEmpty, hEnd, ?_⟩
        · rw [hTree, hst.rest]
          exact hReads.tree
        · intro id
          rw [hSame, hOverlay]
          unfold Dev.overlay
          rw [hReads.buf, hReads.flash]

/-
  `uffs_BufFlush_Exist_With_Enough_FreePage` empties the
  group, and the block holds what the group overlaid.
-/
theorem wp_bufFlushExistWithEnoughFreePage
    {s : Dev}
    {H : Nat → Nat}
    {slot node i b n k : Nat}
    {key : GroupKey}
    (hb : b ≠ invalidBlock)
    (hFits : key.Fits)
    (h : Appendable s H slot i b key n k)
    (hPos : 0 < n) :
    wp (bufFlushExistWithEnoughFreePage slot node i)
      (fun r _ t =>
        r = .succ ∧ t.tree = s.tree ∧
          (t.buf.group slot).dirty = [] ∧
          (t.buf.group slot).count = 0 ∧
          ∀ id, t.flash.content b id = s.overlay slot b id)
      s := by
  have hRoom := h.room
  unfold bufFlushExistWithEnoughFreePage getGroup
  refine wp_seq (wp_enoughFrom hb hFits pagesPerBlock s 1 n k h
    hPos (by omega)) ?_
  intro r es t ht
  rcases ht with ⟨hr, hTree, hEmpty, ⟨n', k', hEnd⟩, hOverlay⟩
  subst hr
  have hCount := hEnd.sound.count slot
  rw [hEmpty] at hCount
  dsimp only
  rw [wp_bind, wp_gets, hEmpty, hCount]
  refine (wp_pure _ _ _).mpr ⟨rfl, hTree, hEmpty, hCount, ?_⟩
  intro id
  rw [← hOverlay id]
  unfold Dev.overlay BufPool.content
  rw [hEmpty]
  rfl

end Uffs
