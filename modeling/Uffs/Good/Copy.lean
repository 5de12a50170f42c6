import Uffs.Good.Erased
import Uffs.Pool.Hold

/-
  Copying a block with a dirty group to a new block on a
  flash where every operation succeeds.

  Main declarations:
    * `Source`, `wp_recoverSource`
    * `Flash.Copied`, `Copying`
    * `MayCopy`
    * `wp_recoverFrom`
-/

namespace Uffs

open Prog

variable [Platform]

------------------------------------------------------------
-- The Source of a Page
------------------------------------------------------------

/-
  Buffer `d` holds a page that is to be copied: a clone, or
  a cached buffer that is held once more.
-/
structure Source
    (useCloneBuf : Bool)
    (d : Nat)
    (p q : BufPool) : Prop where
  list : q.list.Perm p.list
  group : q.group = p.group
  clone : p.clone =
    if useCloneBuf then d :: q.clone else q.clone
  entry : ∀ j ∈ p.list, j ≠ d → q.entry j = p.entry j
  lent : useCloneBuf = true →
    (q.entry d).refCount = cloneBufMark
  held : useCloneBuf = false → d ∈ p.list ∧
    q.entry d =
      { p.entry d with refCount := (p.entry d).refCount + 1 }
  free : ∀ j ∈ q.clone, (p.entry j).mark = .empty →
    (q.entry j).mark = .empty

/-
  Buffer `d` has what is copied of a page: it is cached, or
  it is a clone that has been read from flash.
-/
inductive Found
    (s : Dev)
    (key : GroupKey)
    (b id p : Nat)
    (d : Nat)
    (x : Buf) : Bool → Prop
| cached
    (mem : d ∈ s.buf.list)
    (mark : (s.buf.entry d).mark ≠ .empty)
    (pageKey : (s.buf.entry d).pageKey =
      (key.parent, key.serial, id))
    (data : x.data = (s.buf.entry d).data)
    (len : x.dataLen = (s.buf.entry d).dataLen) :
    Found s key b id p d x false
| read
    (data : x.data = (s.flash.page b p).data)
    (len : x.dataLen = (s.flash.tags b p).dataLen) :
    Found s key b id p d x true

/-
  The content of a page is found in a cached buffer or read
  into a clone.
-/
theorem wp_recoverSource
    {s : Dev}
    {key : GroupKey}
    {i b p : Nat}
    {c : Nat}
    {rest : List Nat}
    (id : Nat)
    (hGood : GoodFrom s.clock)
    (hSpare : 2 ≤ s.spareFree)
    (hClone : s.buf.clone = c :: rest)
    (hSound : s.buf.Sound)
    (hBlock : (s.bc.info i).block = b)
    (hTag : ((s.bc.info i).spares p).tag = s.flash.tags b p) :
    wp (recoverSource key i p id)
      (fun r es t => es = [] ∧ ∃ d useCloneBuf,
        r = some (d, useCloneBuf) ∧
          Found s key b id p d (t.buf.entry d) useCloneBuf ∧
          Source useCloneBuf d s.buf t.buf ∧
          t = { s with clock := t.clock, buf := t.buf } ∧
          s.clock ≤ t.clock) s := by
  unfold recoverSource
  simp only [getTag, bufGet, bufFind, wp_bind, wp_gets]
  cases hFind : s.buf.find key.parent key.serial id with
  | some j =>
      rcases BufPool.find_some hFind with ⟨hIn, hMark, hKey⟩
      simp only [setBuf, moveNodeToHead, wp_bind, wp_modify,
        wp_pure]
      refine ⟨rfl, j, false, rfl, ?_, ?_, trivial,
        Nat.le_refl _⟩
      · apply Found.cached hIn hMark hKey
        · rw [upd_same]
        · rw [upd_same]
      · constructor
        · exact (List.perm_cons_erase hIn).symm
        · rfl
        · rfl
        · intro k _ hk
          exact upd_other _ _ hk
        · intro h
          cases h
        · intro _
          exact ⟨hIn, upd_same _ _ _⟩
        · intro k hk hEmpty
          have hkj : k ≠ j := by
            intro hEq
            rw [hEq] at hk
            exact hSound.not_free hIn hk
          dsimp only
          rw [upd_other _ _ hkj]
          exact hEmpty
  | none =>
      have hNot : c ∉ rest := by
        have hApart := hSound.apart
        unfold BufPool.Apart at hApart
        rw [hClone] at hApart
        have hNodup := (List.nodup_append.mp hApart).2.1
        exact (List.nodup_cons.mp hNodup).1
      simp only [wp_pure]
      rw [wp_bind]
      refine wp_mono (wp_bufClone hClone) ?_
      intro o _ s₁ h₁
      rcases h₁ with ⟨ho, hEs, hs₁⟩
      subst ho hEs
      have hGood₁ : GoodFrom s₁.clock := by
        rw [hs₁]
        exact hGood
      have hSpare₁ : 0 < s₁.spareFree := by
        rw [hs₁]
        exact Nat.lt_of_lt_of_le (by decide) hSpare
      have hInfo : (s₁.bc.info i).block = b := by
        rw [hs₁]
        exact hBlock
      simp only [getInfo, wp_bind, wp_gets, hInfo]
      refine wp_mono (wp_flashReadPage b p c false hGood₁
        hSpare₁) ?_
      intro r _ s₂ h₂
      rcases h₂ with ⟨hr, hEs, hs₂⟩
      subst hr hEs
      simp only [badBlockAddByFlashResult, pendingType,
        FlashRet.isNonRecoverBadBlock, FlashRet.isBadBlock,
        FlashRet.haveErr, reduceCtorEq, if_false, wp_pure,
        Bool.false_eq_true, setBuf, wp_bind, wp_modify]
      refine ⟨rfl, c, true, rfl, ?_, ?_, ?_, ?_⟩
      · rw [hs₂, hs₁]
        apply Found.read
        · simp
        · simp [hTag]
      · constructor
        · rw [hs₂, hs₁]
        · rw [hs₂, hs₁]
        · rw [hs₂, hs₁, hClone]
          rfl
        · intro j hj hjc
          rw [hs₂, hs₁]
          simp [upd_other _ _ hjc]
        · intro _
          rw [hs₂, hs₁]
          simp
        · intro h
          cases h
        · intro j hj hMark
          have hIn : j ∈ rest := by
            rw [hs₂, hs₁] at hj
            exact hj
          have hjc : j ≠ c := by
            intro hEq
            rw [hEq] at hIn
            exact hNot hIn
          rw [hs₂, hs₁]
          simp only [upd_other _ _ hjc]
          exact hMark
      · rw [hs₂, hs₁]
      · rw [hs₂, hs₁]
        exact Nat.le_succ _

namespace Source

variable {p q r : BufPool} {d c : Nat} {useCloneBuf : Bool}

/- The clones that are left are apart from the source. -/
theorem not_clone
    (h : Source useCloneBuf d p q)
    (hp : p.Sound) : d ∉ q.clone := by
  intro hIn
  cases useCloneBuf with
  | true =>
      have hApart := hp.apart
      unfold BufPool.Apart at hApart
      have hClone := h.clone
      rw [if_pos rfl] at hClone
      rw [hClone] at hApart
      have hNodup := (List.nodup_append.mp hApart).2.1
      exact (List.nodup_cons.mp hNodup).1 hIn
  | false =>
      have hClone := h.clone
      rw [if_neg Bool.false_ne_true] at hClone
      rw [← hClone] at hIn
      exact hp.not_free (h.held rfl).1 hIn

omit [Platform] in
theorem clone_subset
    (h : Source useCloneBuf d p q)
    {j : Nat}
    (hj : j ∈ q.clone) : j ∈ p.clone := by
  rw [h.clone]
  cases useCloneBuf with
  | true => exact List.mem_cons_of_mem _ hj
  | false => exact hj

/- The source while another clone is used. -/
theorem scratch
    (h : Source useCloneBuf d p q)
    (hp : p.Sound)
    (hc : c ∈ q.clone)
    (hRest : r = { q with entry := r.entry })
    (hEntry : ∀ j, j ≠ c → r.entry j = q.entry j)
    (hEmpty : (r.entry c).mark = .empty) :
    Source useCloneBuf d p r := by
  have hdc : d ≠ c := by
    intro hEq
    rw [← hEq] at hc
    exact h.not_clone hp hc
  have hList : r.list = q.list := by
    rw [hRest]
  have hClone : r.clone = q.clone := by
    rw [hRest]
  constructor
  · rw [hList]
    exact h.list
  · rw [hRest]
    exact h.group
  · rw [hClone]
    exact h.clone
  · intro j hj hjd
    rw [hEntry j, h.entry j hj hjd]
    intro hEq
    rw [hEq] at hj
    exact hp.not_free hj (h.clone_subset hc)
  · rw [hEntry d hdc]
    exact h.lent
  · rw [hEntry d hdc]
    exact h.held
  · intro j hj hMark
    by_cases hjc : j = c
    · rw [hjc]
      exact hEmpty
    · rw [hEntry j hjc]
      rw [hClone] at hj
      exact h.free j hj hMark

/- The length of the source is cut to a page. -/
theorem cut
    (h : Source useCloneBuf d p q)
    (hp : p.Sound)
    (hLen : useCloneBuf = false →
      (p.entry d).dataLen ≤ pgDataSize) :
    Source useCloneBuf d p
      { q with
        entry := upd q.entry d
          { q.entry d with
            dataLen := min (q.entry d).dataLen pgDataSize } }
    where
  list := h.list
  group := h.group
  clone := h.clone
  entry := by
    intro j hj hjd
    dsimp only
    rw [upd_other _ _ hjd]
    exact h.entry j hj hjd
  lent := by
    intro hUse
    dsimp only
    rw [upd_same]
    exact h.lent hUse
  held := by
    intro hUse
    rcases h.held hUse with ⟨hIn, hEq⟩
    refine ⟨hIn, ?_⟩
    dsimp only
    rw [upd_same, hEq]
    dsimp only
    rw [Nat.min_eq_left (hLen hUse)]
  free := by
    intro j hj hMark
    have hjd : j ≠ d := by
      intro hEq
      rw [hEq] at hj
      exact h.not_clone hp hj
    dsimp only
    rw [upd_other _ _ hjd]
    exact h.free j hj hMark

end Source

/- The source of a page is given back. -/
theorem wp_releaseSource
    {s : Dev}
    {p : BufPool}
    {d : Nat}
    {useCloneBuf : Bool}
    (h : Source useCloneBuf d p s.buf)
    (hp : p.Sound)
    (hFew : p.Few) :
    wp (if useCloneBuf then bufFreeClone d else bufPut d)
      (fun _ es t => es = [] ∧ t = { s with buf := t.buf } ∧
        p.Untouched t.buf) s := by
  cases useCloneBuf with
  | true =>
      rw [if_pos rfl]
      have hClone := h.clone
      rw [if_pos rfl] at hClone
      have hNotIn : d ∉ p.list := by
        intro hIn
        apply hp.not_free hIn
        rw [hClone]
        exact List.mem_cons_self
      refine wp_mono (wp_bufFreeClone (h.lent rfl)) ?_
      intro _ _ t ht
      rcases ht with ⟨_, hEs, ht⟩
      refine ⟨hEs, by rw [ht], ?_⟩
      rw [ht]
      constructor
      · exact h.list
      · exact hClone.symm
      · exact h.group
      · intro j hj
        have hjd : j ≠ d := by
          intro hEq
          rw [hEq] at hj
          exact hNotIn hj
        dsimp only
        rw [upd_other _ _ hjd]
        exact h.entry j hj hjd
      · intro j hj hMark
        dsimp only
        by_cases hjd : j = d
        · rw [hjd, upd_same]
        · rw [upd_other _ _ hjd]
          rw [hClone] at hj
          rcases List.mem_cons.mp hj with hEq | hIn
          · exact absurd hEq hjd
          · exact h.free j hIn hMark
  | false =>
      rw [if_neg Bool.false_ne_true]
      have hClone := h.clone
      rw [if_neg Bool.false_ne_true] at hClone
      rcases h.held rfl with ⟨hIn, hEq⟩
      have hLow := hFew d hIn
      have hRef : (s.buf.entry d).refCount =
          (p.entry d).refCount + 1 := by
        rw [hEq]
      unfold bufPut getBuf setBuf
      rw [wp_bind, wp_gets, if_neg (by omega),
        if_neg (by omega), wp_bind, wp_modify, wp_pure]
      refine ⟨rfl, rfl, ?_⟩
      constructor
      · exact h.list
      · exact hClone.symm
      · exact h.group
      · intro j hj
        dsimp only
        by_cases hjd : j = d
        · rw [hjd, upd_same, hEq]
          dsimp only
          rw [Nat.add_sub_cancel]
        · rw [upd_other _ _ hjd]
          exact h.entry j hj hjd
      · intro j hj hMark
        have hjd : j ≠ d := by
          intro hSame
          rw [hSame] at hj
          exact hp.not_free hIn hj
        dsimp only
        rw [upd_other _ _ hjd]
        apply h.free j _ hMark
        rw [← hClone]
        exact hj

/- The same, before the rest of a program. -/
theorem wp_releaseSource_bind
    {s : Dev}
    {p : BufPool}
    {d : Nat}
    {useCloneBuf : Bool}
    {α : Type}
    {m : M α}
    {Q : α → List Event → Dev → Prop}
    (h : Source useCloneBuf d p s.buf)
    (hp : p.Sound)
    (hFew : p.Few)
    (hNext : ∀ t, t = { s with buf := t.buf } →
      p.Untouched t.buf → wp m Q t) :
    wp (if useCloneBuf then do
        let _ ← bufFreeClone d
        m
      else do
        let _ ← bufPut d
        m) Q s := by
  have hRelease := wp_releaseSource h hp hFew
  cases useCloneBuf with
  | true =>
      rw [if_pos rfl] at hRelease ⊢
      refine wp_seq hRelease ?_
      intro _ es t ht
      rcases ht with ⟨hEs, ht, hUntouched⟩
      subst hEs
      exact hNext t ht hUntouched
  | false =>
      rw [if_neg Bool.false_ne_true] at hRelease ⊢
      refine wp_seq hRelease ?_
      intro _ es t ht
      rcases ht with ⟨hEs, ht, hUntouched⟩
      subst hEs
      exact hNext t ht hUntouched

/- A dirty page is found as before. -/
theorem BufPool.Untouched.find_dirty
    {p q : BufPool}
    {slot id : Nat}
    (h : p.Untouched q)
    (hp : p.Sound) :
    (q.group slot).dirty.find?
        (fun d => (q.entry d).pageId == id) =
      (p.group slot).dirty.find?
        (fun d => (p.entry d).pageId == id) := by
  rw [h.group]
  apply List.find?_congr
  intro d hd
  rw [h.dirty hp hd]

/- The buffers may still be held once more. -/
omit [Platform] in
theorem BufPool.Untouched.few
    {p q : BufPool}
    (h : p.Untouched q)
    (hp : p.Few) : q.Few := by
  intro j hj
  have hIn := h.list.mem_iff.mp hj
  rw [h.entry j hIn]
  exact hp j hIn

------------------------------------------------------------
-- The New Block
------------------------------------------------------------

/- The tag of a page that is copied to its own place. -/
def GroupKey.copyTag
    (key : GroupKey)
    (stamp len p : Nat) : Tag :=
  Tag.store key.type stamp len key.serial key.parent p

/-
  The first `n` pages of block `b` hold what `ok` allows for
  their page ids, each page id in its place, and the others
  are erased.
-/
structure Flash.Copied
    (F : Flash)
    (b : Nat)
    (key : GroupKey)
    (stamp : Nat)
    (ok : Nat → List Byte → Nat → Prop)
    (n : Nat) : Prop where
  le : n ≤ pagesPerBlock
  page : ∀ p < n, ∃ data len, ok p data len ∧
    F.page b p =
      { status := 0
        data := data
        tag := key.copyTag stamp len p }
  erased : ∀ p, n ≤ p → p < pagesPerBlock →
    F.page b p = Page.erased pgDataSize

/- One more page is copied. -/
theorem Flash.Copied.snoc
    {F : Flash}
    {b stamp n len : Nat}
    {key : GroupKey}
    {ok : Nat → List Byte → Nat → Prop}
    {x : Buf}
    (h : F.Copied b key stamp ok n)
    (hn : n < pagesPerBlock)
    (hOk : ok n x.data len) :
    (F.write b n (x.image (key.copyTag stamp len n))).Copied b
      key stamp ok (n + 1) where
  le := hn
  page := by
    intro p hp
    unfold Flash.write
    dsimp only
    rw [upd_same]
    by_cases hpn : p = n
    · rw [hpn, upd_same]
      exact ⟨x.data, len, hOk, rfl⟩
    · rw [upd_other _ _ hpn]
      exact h.page p (by omega)
  erased := by
    intro p hp hLt
    have hpn : p ≠ n := by omega
    unfold Flash.write
    dsimp only
    rw [upd_same, upd_other _ _ hpn]
    exact h.erased p (by omega) hLt

/- Loading tags of one entry, and not trusting another. -/
theorem Reads.forget
    {i c : Nat}
    {s t : Dev}
    (h : Reads i s t)
    (hci : c ≠ i)
    (n : Nat) : Reads i (s.forget c n) (t.forget c n) := by
  have hRest := h.rest
  have hFlash : t.flash = s.flash := h.flash
  have hOld : ∀ {u : Dev}, (u.forget c n).bc.info i =
      u.bc.info i := Dev.forget_other _ n (Ne.symm hci)
  constructor
  · unfold Dev.forget
    rw [hRest]
  · exact h.clock
  · exact h.list
  · intro j hj
    unfold Dev.forget
    dsimp only
    rw [h.other c hci]
    by_cases hjc : j = c
    · rw [hjc, upd_same, upd_same]
    · rw [upd_other _ _ hjc, upd_other _ _ hjc, h.other j hj]
  · rw [hOld, hOld]
    exact h.block
  · rw [hOld, hOld]
    exact h.refCount
  · rw [hOld, hOld]
    exact h.fresh
  · rw [hOld, hOld]
    exact h.kept

/-
  The first `n` pages of the new block `y`, whose info is
  `c`, are copied from the old block `b`, whose info is `i`.
  The cache need not know the tag of the next page.
-/
structure Copying
    (H : Nat → Nat)
    (i b c y : Nat)
    (key : GroupKey)
    (stamp : Nat)
    (ok : Nat → List Byte → Nat → Prop)
    (n : Nat)
    (s t : Dev) : Prop where
  calm : Calm (t.forget c n) H
  memOld : i ∈ t.bc.list
  memNew : c ∈ t.bc.list
  blockOld : (t.bc.info i).block = b
  blockNew : (t.bc.info c).block = y
  loaded : (t.bc.info i).Loaded
  tree : t.tree = s.tree
  other : ∀ x, x ≠ y → t.flash.page x = s.flash.page x
  bad : t.flash.bad = s.flash.bad
  copied : t.flash.Copied y key stamp ok n

namespace Copying

variable {H : Nat → Nat} {i b c y stamp n : Nat} {key : GroupKey}
  {ok : Nat → List Byte → Nat → Prop} {s t u : Dev}

theorem ne
    (h : Copying H i b c y key stamp ok n s t)
    (hby : b ≠ y) : i ≠ c := by
  intro hEq
  apply hby
  rw [← h.blockOld, ← h.blockNew, hEq]

/- The tag of the next page is put into the cache. -/
theorem putTag
    (h : Copying H i b c y key stamp ok n s t)
    (hby : b ≠ y)
    (tag : Tag) :
    Copying H i b c y key stamp ok n s (t.putTag c n tag) := by
  have hic := h.ne hby
  have hSame : (t.putTag c n tag).bc.info i = t.bc.info i :=
    upd_other _ _ hic
  have hCalm : Calm ((t.putTag c n tag).forget c n) H := by
    apply h.calm.forget_of
    · exact Nat.le_refl t.clock
    · rfl
    · exact h.calm.clone
    · rfl
    · rfl
    · intro j hj
      exact upd_other _ _ hj
    · exact t.putTag_block c c n tag
    · unfold Dev.putTag
      dsimp only
      rw [upd_same]
    · intro q hq
      unfold Dev.putTag
      dsimp only
      rw [upd_same]
      exact upd_other _ _ hq
  constructor
  · exact hCalm
  · exact h.memOld
  · exact h.memNew
  · rw [hSame]
    exact h.blockOld
  · exact (t.putTag_block c c n tag).trans h.blockNew
  · rw [hSame]
    exact h.loaded
  · exact h.tree
  · exact h.other
  · exact h.bad
  · exact h.copied

/- Tags of the old block are loaded. -/
theorem reads
    (h : Copying H i b c y key stamp ok n s t)
    (hby : b ≠ y)
    (hst : Reads i t u) :
    Copying H i b c y key stamp ok n s u := by
  have hic := h.ne hby
  have hSame : u.bc.info c = t.bc.info c :=
    hst.other c (Ne.symm hic)
  constructor
  · exact h.calm.reads h.memOld (hst.forget (Ne.symm hic) n)
  · rw [hst.list]
    exact h.memOld
  · rw [hst.list]
    exact h.memNew
  · exact hst.block.trans h.blockOld
  · rw [hSame]
    exact h.blockNew
  · exact hst.loaded h.loaded
  · exact hst.tree.trans h.tree
  · rw [hst.flash]
    exact h.other
  · rw [hst.flash]
    exact h.bad
  · rw [hst.flash]
    exact h.copied

/- Page buffers and the clock are changed. -/
theorem setBuf
    (h : Copying H i b c y key stamp ok n s t)
    (hRest : u = { t with clock := u.clock, buf := u.buf })
    (hClock : t.clock ≤ u.clock)
    (hClone : u.buf.clone ≠ []) :
    Copying H i b c y key stamp ok n s u := by
  have hBc : u.bc = t.bc := by
    rw [hRest]
  have hFlash : u.flash = t.flash := by
    rw [hRest]
  constructor
  · apply h.calm.forget_of hClock
    · rw [hRest]
    · exact hClone
    · exact hFlash
    · rw [hBc]
    · intro j _
      rw [hBc]
    · rw [hBc]
    · rw [hBc]
    · intro q _
      rw [hBc]
  · rw [hBc]
    exact h.memOld
  · rw [hBc]
    exact h.memNew
  · rw [hBc]
    exact h.blockOld
  · rw [hBc]
    exact h.blockNew
  · rw [hBc]
    exact h.loaded
  · rw [hRest]
    exact h.tree
  · rw [hFlash]
    exact h.other
  · rw [hFlash]
    exact h.bad
  · rw [hFlash]
    exact h.copied

/- The next page is written. -/
theorem written
    {cl len : Nat}
    {x : Buf}
    (h : Copying H i b c y key stamp ok n s t)
    (hby : b ≠ y)
    (hy : y ≠ invalidBlock)
    (hn : n < pagesPerBlock)
    (hOk : ok n x.data len)
    (hst : Writes y n cl (x.image (key.copyTag stamp len n))
      (t.putTag c n (key.copyTag stamp len n)) u) :
    Copying H i b c y key stamp ok (n + 1) s u ∧
      Calm u H := by
  have hOld := h.putTag hby (key.copyTag stamp len n)
  have hRest := hst.rest
  have hFlash : u.flash = t.flash.write y n
      (x.image (key.copyTag stamp len n)) := by
    rw [hRest]
    rfl
  have hBc : u.bc =
      (t.putTag c n (key.copyTag stamp len n)).bc := by
    rw [hRest]
  have hCalm : Calm u H := by
    apply h.calm.writes_forgotten h.memNew
    · rw [h.blockNew]
      exact hy
    · rw [h.blockNew]
      exact hst
  refine ⟨?_, hCalm⟩
  constructor
  · exact hCalm.forget c (n + 1)
  · rw [hBc]
    exact hOld.memOld
  · rw [hBc]
    exact hOld.memNew
  · rw [hBc]
    exact hOld.blockOld
  · rw [hBc]
    exact hOld.blockNew
  · rw [hBc]
    exact hOld.loaded
  · rw [hRest]
    exact hOld.tree
  · intro z hz
    rw [hFlash]
    unfold Flash.write
    dsimp only
    rw [upd_other _ _ hz]
    exact h.other z hz
  · rw [hFlash]
    exact h.bad
  · rw [hFlash]
    exact h.copied.snoc hn hOk

end Copying

------------------------------------------------------------
-- The Loop
------------------------------------------------------------

/- A note does not change the device. -/
omit [Platform] in
theorem wp_noteWhen
    (test : Dev → Bool)
    (n : Note)
    (s : Dev) :
    wp (noteWhen test n)
      (fun _ es t => t = s ∧
        ∃ notes : List Note, es = notes.map .note) s := by
  unfold noteWhen note
  rw [wp_bind, wp_get]
  by_cases h : test s = true
  · rw [if_pos h, wp_emit]
    exact ⟨rfl, [n], rfl⟩
  · rw [if_neg h, wp_pure]
    exact ⟨rfl, [], rfl⟩

/- No page of the group has this page id. -/
def BufPool.NoDirty (p : BufPool) (slot id : Nat) : Prop :=
  (p.group slot).dirty.find?
    (fun d => (p.entry d).pageId == id) = none

/-
  What a recover of block `b` may copy for each page id: the
  dirty pages of the group, the other cached pages of the
  object, and the pages of the block.
-/
structure MayCopy
    (s : Dev)
    (slot b : Nat)
    (key : GroupKey)
    (ok : Nat → List Byte → Nat → Prop) : Prop where
  sound : s.buf.Sound
  few : s.buf.Few
  two : 2 ≤ s.buf.clone.length
  dirty : ∀ d ∈ (s.buf.group slot).dirty,
    ok (s.buf.entry d).pageId (s.buf.entry d).data
      (s.buf.entry d).dataLen
  cached : ∀ j ∈ s.buf.list, (s.buf.entry j).mark ≠ .empty →
    j ∉ (s.buf.group slot).dirty →
    (s.buf.entry j).groupKey = (key.parent, key.serial) →
      (s.buf.entry j).dataLen ≤ pgDataSize ∧
        ok (s.buf.entry j).pageId (s.buf.entry j).data
          (s.buf.entry j).dataLen
  read : ∀ n p, s.buf.NoDirty slot n →
    newestPage (s.flash.tags b) n = some p →
    ok n (s.flash.page b p).data
      (min (s.flash.tags b p).dataLen pgDataSize)

/-
  Why the loop stops at page `n`, and how many pages of the
  new block are written then.
-/
inductive Ends (s : Dev) (slot b n : Nat) : Nat → Prop
| full
    (all : n = pagesPerBlock) : Ends s slot b n n
| last
    (clean : s.buf.NoDirty slot n)
    (none : newestPage (s.flash.tags b) n = none) :
    Ends s slot b n n
| empty
    (d : Nat)
    (mem : d ∈ (s.buf.group slot).dirty)
    (page : (s.buf.entry d).pageId = n)
    (len : (s.buf.entry d).dataLen = 0) :
    Ends s slot b n n
| tail
    (d : Nat)
    (mem : d ∈ (s.buf.group slot).dirty)
    (page : (s.buf.entry d).pageId = n)
    (tail : (s.buf.entry d).truncTail = true)
    (len : 0 < (s.buf.entry d).dataLen) :
    Ends s slot b n (n + 1)

theorem Ends.le
    {s : Dev}
    {slot b n m : Nat}
    (h : Ends s slot b n m) : n ≤ m := by
  cases h with
  | full _ => exact Nat.le_refl n
  | last _ _ => exact Nat.le_refl n
  | empty _ _ _ _ => exact Nat.le_refl n
  | tail _ _ _ _ _ => exact Nat.le_succ n

/-
  What the loop over the pages of the new block leaves when
  it starts at page `n` of the flash `F` and ends with `m`
  pages written.
-/
structure Recovered
    (H : Nat → Nat)
    (i b c y : Nat)
    (key : GroupKey)
    (stamp : Nat)
    (ok : Nat → List Byte → Nat → Prop)
    (slot : Nat)
    (s : Dev)
    (F : Flash)
    (n m : Nat)
    (r : Recovery)
    (es : List Event)
    (t : Dev) : Prop where
  op : r.op = .noErr
  succ : r.succ = true
  le : n ≤ r.page
  ends : Ends s slot b r.page m
  copying : Copying H i b c y key stamp ok m s t
  calm : Calm (t.forget c r.page) H
  buf : s.buf.Untouched t.buf
  kept : ∀ p < n, t.flash.page y p = F.page y p
  events : ∃ notes : List Note,
    es = (List.range' n (m - n)).map
      (fun p => .wrote y p (t.flash.page y p)) ++
        notes.map .note

/- The loop after one more page is written. -/
theorem Recovered.step
    {H : Nat → Nat}
    {i b c y stamp slot n m : Nat}
    {key : GroupKey}
    {ok : Nat → List Byte → Nat → Prop}
    {s t : Dev}
    {F : Flash}
    {r : Recovery}
    {es : List Event}
    {x : Page}
    (h : Recovered H i b c y key stamp ok slot s (F.write y n x)
      (n + 1) m r es t) :
    Recovered H i b c y key stamp ok slot s F n m r
      (.wrote y n x :: es) t where
  op := h.op
  succ := h.succ
  le := Nat.le_of_succ_le h.le
  ends := h.ends
  copying := h.copying
  calm := h.calm
  buf := h.buf
  kept := by
    intro p hp
    have hpn : p ≠ n := by omega
    rw [h.kept p (by omega)]
    unfold Flash.write
    dsimp only
    rw [upd_same, upd_other _ _ hpn]
  events := by
    rcases h.events with ⟨notes, hEs⟩
    have hLe := h.le
    have hEnd := h.ends.le
    have hLen : m - n = (m - (n + 1)) + 1 := by omega
    have hPage : t.flash.page y n = x := by
      rw [h.kept n (Nat.lt_succ_self n)]
      exact Flash.write_same _ _ _ _
    refine ⟨notes, ?_⟩
    rw [hLen, List.range'_succ, List.map_cons, hEs, hPage]
    rfl

/- The newest copy of a page is a page of the block. -/
theorem newestPage_lt
    {τ : Nat → Tag}
    {id p : Nat}
    (h : newestPage τ id = some p) : p < pagesPerBlock := by
  unfold newestPage at h
  rw [Option.bind_eq_some_iff] at h
  rcases h with ⟨q, hFind, hBest⟩
  exact bestPage_lt (pageWithId_lt hFind).2 hBest

/- A page that is found has a newest copy. -/
theorem bestPage_ne_none
    {τ : Nat → Tag}
    {id p : Nat}
    (h : pageWithId τ id = some p) : bestPage τ p ≠ none := by
  have hGood := (pageWithIdFrom_eq_some _ h).1
  unfold bestPage
  rw [hGood, Bool.not_true, if_neg Bool.false_ne_true]
  split
  · exact Option.some_ne_none _
  · split
    · exact Option.some_ne_none _
    · exact Option.some_ne_none _

/- The device after the length of a buffer is cut. -/
def Dev.cutBuf (s : Dev) (d : Nat) : Dev :=
  { s with
    buf := { s.buf with
      entry := upd s.buf.entry d
        { s.buf.entry d with
          dataLen := min (s.buf.entry d).dataLen pgDataSize } } }

section Loop

variable {H : Nat → Nat} {slot i b c y stamp n : Nat}
  {key : GroupKey} {ok : Nat → List Byte → Nat → Prop}
  {s t u : Dev}

/- What is found of a clean page may be copied. -/
theorem MayCopy.found
    {d p : Nat}
    {useCloneBuf : Bool}
    {x : Buf}
    (hRec : MayCopy s slot b key ok)
    (hBuf : s.buf.Untouched t.buf)
    (hPage : t.flash.page b = s.flash.page b)
    (hClean : s.buf.NoDirty slot n)
    (hNewest : newestPage (s.flash.tags b) n = some p)
    (h : Found t key b n p d x useCloneBuf) :
    (useCloneBuf = false →
        (t.buf.entry d).dataLen ≤ pgDataSize) ∧
      ok n x.data (min x.dataLen pgDataSize) := by
  cases h with
  | cached hMem hMark hKey hData hLen =>
      have hIn := hBuf.list.mem_iff.mp hMem
      rw [hBuf.entry d hIn] at hMark hKey hData hLen ⊢
      unfold Buf.pageKey at hKey
      rw [Prod.mk.injEq, Prod.mk.injEq] at hKey
      have hNot : d ∉ (s.buf.group slot).dirty := by
        intro hDirty
        have hFound := List.find?_eq_none.mp hClean d hDirty
        rw [hKey.2.2, beq_self_eq_true] at hFound
        exact hFound rfl
      have hGroup : (s.buf.entry d).groupKey =
          (key.parent, key.serial) := by
        unfold Buf.groupKey
        rw [hKey.1, hKey.2.1]
      have hOk := hRec.cached d hIn hMark hNot hGroup
      rw [hKey.2.2] at hOk
      rw [hData, hLen, Nat.min_eq_left hOk.1]
      exact ⟨fun _ => hOk.1, hOk.2⟩
  | read hData hLen =>
      refine ⟨fun hUse => Bool.noConfusion hUse, ?_⟩
      unfold Flash.tags at hLen
      rw [hData, hLen, hPage]
      exact hRec.read n p hClean hNewest

/-
  A page is copied from a cached buffer or from the old
  block, and the loop goes on.
-/
theorem wp_copyPage
    {p sum : Nat}
    {next : Nat → M Recovery}
    {Q : Recovery → List Event → Dev → Prop}
    (hRec : MayCopy s slot b key ok)
    (hby : b ≠ y)
    (hy : y ≠ invalidBlock)
    (hn : n < pagesPerBlock)
    (h : Copying H i b c y key stamp ok n s t)
    (hBuf : s.buf.Untouched t.buf)
    (hClean : s.buf.NoDirty slot n)
    (hNewest : newestPage (s.flash.tags b) n = some p)
    (hNext : ∀ (sum : Nat) (x : Page) (u : Dev),
      u.flash = t.flash.write y n x →
      Copying H i b c y key stamp ok (n + 1) s u →
      s.buf.Untouched u.buf →
      wp (next sum)
        (fun r es u => Q r (.wrote y n x :: es) u) u) :
    wp (do
      match ← recoverSource key i p n with
      | none =>
          pure
            { page := n, op := .noErr, succ := false
              sum := sum }
      | some (d, useCloneBuf) =>
          setBuf d fun x =>
            { x with
              dataLen := min x.dataLen pgDataSize }
          let b ← getBuf d
          let sum :=
            if n = 0 then getDirOrFileNameSum b
            else sum
          let tag := Tag.store key.type stamp
            b.dataLen key.serial key.parent n
          setTag c n tag
          let op ← flashWritePageCombine y n d tag
          let _ ←
            if useCloneBuf then bufFreeClone d
            else bufPut d
          if op ≠ .noErr then
            pure
              { page := n, op := op, succ := false
                sum := sum }
          else
            next sum) Q t := by
  have hSound := hBuf.sound hRec.sound
  have hPage := h.other b hby
  have hp := newestPage_lt hNewest
  have hTag : ((t.bc.info i).spares p).tag =
      t.flash.tags b p := by
    have hFresh := h.calm.forgotten.1 i h.memOld p hp
      (fun hEq => absurd hEq (h.ne hby)) (h.loaded p hp)
    rw [hFresh, h.blockOld]
    rfl
  have hTwo : 2 ≤ t.buf.clone.length := by
    rw [hBuf.clone]
    exact hRec.two
  rcases h.calm.clone_cons with ⟨c', rest', hClone'⟩
  rw [wp_bind]
  refine wp_mono (wp_recoverSource (s := t) n h.calm.good
    h.calm.spare hClone' hSound h.blockOld hTag) ?_
  intro o _ u hu
  rcases hu with ⟨hEs, d, useCloneBuf, ho, hFound, hSource,
    hRest, hClock⟩
  subst ho hEs
  have hOk := hRec.found hBuf hPage hClean hNewest hFound
  have hLeft : u.buf.clone ≠ [] := by
    intro hNil
    have hAll := hSource.clone
    rw [hAll, hNil] at hTwo
    cases useCloneBuf <;> simp at hTwo
  have hCopyU := h.setBuf hRest hClock hLeft
  have hFlashU : u.flash = t.flash := by
    rw [hRest]
  dsimp only
  unfold setBuf getBuf
  rw [wp_bind, wp_modify]
  change wp _ _ (u.cutBuf d)
  have hSource₁ : Source useCloneBuf d t.buf (u.cutBuf d).buf :=
    hSource.cut hSound hOk.1
  have hCopy₁ := hCopyU.setBuf (u := u.cutBuf d) rfl
    (Nat.le_refl _) hLeft
  have hOk₁ : ok n ((u.cutBuf d).buf.entry d).data
      ((u.cutBuf d).buf.entry d).dataLen := by
    unfold Dev.cutBuf
    dsimp only
    rw [upd_same]
    exact hOk.2
  have hFlash₁ : (u.cutBuf d).flash = t.flash := hFlashU
  rcases hCopy₁.calm.clone_cons with ⟨cl, rest, hClone⟩
  rw [wp_bind, wp_gets, wp_bind, wp_setTag, wp_bind]
  generalize u.cutBuf d = u₁ at *
  refine wp_mono (wp_flashWritePageCombine y n d
    (key.copyTag stamp (u₁.buf.entry d).dataLen n)
    hCopy₁.calm.good hCopy₁.calm.spare hClone) ?_
  intro op _ v hv
  rcases hv with ⟨hOp, hEs, hWrites⟩
  subst hOp hEs
  have hIn : cl ∈ u₁.buf.clone := by
    have hSame : u₁.buf.clone = cl :: rest := hClone
    rw [hSame]
    exact List.mem_cons_self
  have hCopy₂ := (hCopy₁.written hby hy hn hOk₁ hWrites).1
  have hSource₂ : Source useCloneBuf d t.buf v.buf := by
    apply hSource₁.scratch hSound hIn
    · rw [hWrites.rest]
      rfl
    · exact hWrites.entry
    · exact hWrites.empty.1
  refine wp_releaseSource_bind hSource₂ hSound
    (hBuf.few hRec.few) ?_
  intro w hRestW hUntouched
  have hCopy₃ : Copying H i b c y key stamp ok (n + 1) s w := by
    apply hCopy₂.setBuf
    · rw [hRestW]
    · rw [hRestW]
    · rw [hUntouched.clone]
      exact h.calm.clone
  rw [if_neg (not_not_intro rfl)]
  refine hNext _ _ w ?_ hCopy₃ (hBuf.trans hUntouched)
  rw [hRestW, hWrites.rest, ← hFlash₁]
  rfl

/- A dirty page is copied. -/
theorem wp_copyDirty
    {d : Nat}
    {next : FlashRet → M Recovery}
    {Q : Recovery → List Event → Dev → Prop}
    (hRec : MayCopy s slot b key ok)
    (hby : b ≠ y)
    (hy : y ≠ invalidBlock)
    (hn : n < pagesPerBlock)
    (h : Copying H i b c y key stamp ok n s t)
    (hBuf : s.buf.Untouched t.buf)
    (hd : d ∈ (s.buf.group slot).dirty)
    (hId : (s.buf.entry d).pageId = n)
    (hNext : ∀ (x : Page) (u : Dev),
      u.flash = t.flash.write y n x →
      Copying H i b c y key stamp ok (n + 1) s u →
      Calm u H →
      s.buf.Untouched u.buf →
      wp (next .noErr)
        (fun r es u => Q r (.wrote y n x :: es) u) u) :
    wp (flashWritePageCombine y n d
        (key.copyTag stamp (t.buf.entry d).dataLen n) >>= next)
      Q (t.putTag c n
        (key.copyTag stamp (t.buf.entry d).dataLen n)) := by
  have hOk := hRec.dirty d hd
  rw [hId, ← hBuf.dirty hRec.sound hd] at hOk
  rcases h.calm.clone_cons with ⟨cl, rest, hClone⟩
  rw [wp_bind]
  refine wp_mono (wp_flashWritePageCombine y n d
    (key.copyTag stamp (t.buf.entry d).dataLen n)
    h.calm.good h.calm.spare hClone) ?_
  intro op _ u hu
  rcases hu with ⟨hOp, hEs, hWrites⟩
  subst hOp hEs
  have hIn : cl ∈ t.buf.clone := by
    have hSame : t.buf.clone = cl :: rest := hClone
    rw [hSame]
    exact List.mem_cons_self
  have hCopy := h.written hby hy hn hOk hWrites
  have hUntouched : t.buf.Untouched u.buf :=
    hWrites.untouched (hBuf.sound hRec.sound) hIn
  refine hNext _ u ?_ hCopy.1 hCopy.2 (hBuf.trans hUntouched)
  rw [hWrites.rest]
  rfl

/- The loop ends at page `n` without writing it. -/
theorem wp_endLoop
    {sum : Nat}
    (hEnds : Ends s slot b n n)
    (h : Copying H i b c y key stamp ok n s t)
    (hBuf : s.buf.Untouched t.buf) :
    wp (do
      noteDropped slot n
      pure { page := n, op := .noErr, succ := true, sum := sum })
      (fun r es u => ∃ m,
        Recovered H i b c y key stamp ok slot s t.flash n m r es
          u) t := by
  unfold noteDropped
  rw [wp_bind]
  refine wp_mono (wp_noteWhen _ _ t) ?_
  intro _ es u hu
  rcases hu with ⟨hu, notes, hEs⟩
  subst hu hEs
  rw [wp_pure]
  refine ⟨n, rfl, rfl, Nat.le_refl n, hEnds, h, h.calm, hBuf,
    fun _ _ => rfl, notes, ?_⟩
  rw [Nat.sub_self, List.append_nil]
  rfl

/- The loop ends at a page that ends the file. -/
theorem wp_copyTail
    {d sum : Nat}
    (hRec : MayCopy s slot b key ok)
    (hby : b ≠ y)
    (hy : y ≠ invalidBlock)
    (hn : n < pagesPerBlock)
    (h : Copying H i b c y key stamp ok n s t)
    (hBuf : s.buf.Untouched t.buf)
    (hd : d ∈ (s.buf.group slot).dirty)
    (hId : (s.buf.entry d).pageId = n)
    (hTail : ((t.buf.entry d).dataLen = 0 ||
      (t.buf.entry d).truncTail) = true) :
    wp (if (t.buf.entry d).dataLen > 0 then do
        let op ← flashWritePageCombine y n d
          (key.copyTag stamp (t.buf.entry d).dataLen n)
        pure { page := n, op := op, succ := true, sum := sum }
      else do
        if !(t.buf.entry d).truncTail then
          noteDropped slot n
        pure
          { page := n, op := .noErr, succ := true, sum := sum })
      (fun r es u => ∃ m,
        Recovered H i b c y key stamp ok slot s t.flash n m r es
          u)
      (t.putTag c n
        (key.copyTag stamp (t.buf.entry d).dataLen n)) := by
  have hEntry := hBuf.dirty hRec.sound hd
  by_cases hPos : (t.buf.entry d).dataLen > 0
  · rw [if_pos hPos]
    have hTrunc : (s.buf.entry d).truncTail = true := by
      rw [Bool.or_eq_true, decide_eq_true_eq] at hTail
      rw [← hEntry]
      exact hTail.resolve_left (Nat.ne_of_gt hPos)
    refine wp_copyDirty hRec hby hy hn h hBuf hd hId ?_
    intro x u hFlash hCopy hCalm hUntouched
    rw [wp_pure]
    refine ⟨n + 1, rfl, rfl, Nat.le_refl n, ?_, hCopy,
      hCalm.forget c n, hUntouched, ?_, [], ?_⟩
    · rw [hEntry] at hPos
      exact Ends.tail d hd hId hTrunc hPos
    · intro p hp
      have hpn : p ≠ n := Nat.ne_of_lt hp
      rw [hFlash]
      unfold Flash.write
      dsimp only
      rw [upd_same, upd_other _ _ hpn]
    · rw [Nat.add_sub_cancel_left, hFlash]
      simp [List.range']
  · rw [if_neg hPos]
    have hEnds : Ends s slot b n n := by
      apply Ends.empty d hd hId
      rw [← hEntry]
      omega
    have hNext := h.putTag hby
      (key.copyTag stamp (t.buf.entry d).dataLen n)
    by_cases hTrunc : (t.buf.entry d).truncTail = true
    · rw [hTrunc]
      exact ⟨_, _, _, rfl, n, rfl, rfl, Nat.le_refl n, hEnds,
        hNext, hNext.calm, hBuf, fun _ _ => rfl, [], by simp⟩
    · rw [Bool.not_eq_true] at hTrunc
      rw [hTrunc]
      exact wp_endLoop hEnds hNext hBuf

/-
  The loop of `uffs_BufFlush_Exist_With_BlockRecover` copies
  what may be copied, up to a page that ends it.
-/
theorem wp_recoverFrom
    (hRec : MayCopy s slot b key ok)
    (hby : b ≠ y)
    (hy : y ≠ invalidBlock)
    (fuel : Nat) :
    ∀ (t : Dev) (n sum : Nat),
      n + fuel = pagesPerBlock →
      Copying H i b c y key stamp ok n s t →
      s.buf.Untouched t.buf →
      wp (recoverFrom slot key i c y stamp fuel n sum)
        (fun r es u => ∃ m,
          Recovered H i b c y key stamp ok slot s t.flash n m r
            es u) t := by
  induction fuel with
  | zero =>
      intro t n sum hEnd h hBuf
      unfold recoverFrom
      rw [wp_pure]
      refine ⟨n, rfl, rfl, Nat.le_refl n, Ends.full hEnd, h,
        h.calm, hBuf, fun _ _ => rfl, [], ?_⟩
      rw [Nat.sub_self]
      rfl
  | succ fuel ih =>
      intro t n sum hEnd h hBuf
      have hn : n < pagesPerBlock := by omega
      unfold recoverFrom getTag
      rw [wp_bind, wp_gets, wp_bind, wp_setTag]
      dsimp only
      have h₁ := h.putTag hby (Tag.store key.type stamp
        ((t.bc.info c).spares n).tag.dataLen key.serial
        key.parent n)
      have hBuf₁ : s.buf.Untouched
        (t.putTag c n (Tag.store key.type stamp
          ((t.bc.info c).spares n).tag.dataLen key.serial
          key.parent n)).buf := hBuf
      have hFlash₁ : (t.putTag c n (Tag.store key.type stamp
          ((t.bc.info c).spares n).tag.dataLen key.serial
          key.parent n)).flash = t.flash := rfl
      rw [← hFlash₁]
      generalize t.putTag c n (Tag.store key.type stamp
        ((t.bc.info c).spares n).tag.dataLen key.serial
        key.parent n) = t₁ at h₁ hBuf₁ ⊢
      unfold findBufInDirtyList
      rw [wp_bind, wp_gets, hBuf₁.find_dirty hRec.sound]
      cases hFind : (s.buf.group slot).dirty.find? fun d =>
          (s.buf.entry d).pageId == n with
      | some d =>
          have hd := List.mem_of_find?_eq_some hFind
          have hId := List.find?_some hFind
          rw [beq_iff_eq] at hId
          have hEntry := hBuf₁.dirty hRec.sound hd
          unfold getBuf
          rw [wp_bind, wp_gets, wp_bind, wp_setTag]
          by_cases hTail : ((t₁.buf.entry d).dataLen = 0 ||
              (t₁.buf.entry d).truncTail) = true
          · rw [if_pos hTail]
            exact wp_copyTail hRec hby hy hn h₁ hBuf₁ hd hId
              hTail
          · rw [if_neg hTail]
            refine wp_copyDirty hRec hby hy hn h₁ hBuf₁ hd hId ?_
            intro x u hFlash hCopy _ hUntouched
            rw [if_neg (not_not_intro rfl)]
            have hRun := ih u (n + 1) (if n = 0 then
              getDirOrFileNameSum (t₁.buf.entry d) else sum)
                (by omega) hCopy hUntouched
            rw [hFlash] at hRun
            refine wp_mono hRun ?_
            intro r es w hw
            rcases hw with ⟨m, hm⟩
            exact ⟨m, hm.step⟩
      | none =>
          have hPage : t₁.flash.page b = s.flash.page b :=
            h₁.other b hby
          have hReady : Readable t₁ i := by
            refine ⟨h₁.calm.good, ?_, ?_⟩
            · exact Nat.lt_of_lt_of_le (by decide)
                h₁.calm.spare
            · intro p hp
              exact h₁.calm.forgotten.1 i h₁.memOld p hp
                (fun hEq => absurd hEq (h₁.ne hby))
          have hTags : t₁.tags i = s.flash.tags b := by
            unfold Dev.tags Flash.tags
            rw [h₁.blockOld, hPage]
          dsimp only
          rw [wp_bind]
          refine wp_mono (yields_findPageInBlockWithPageId n
            hReady) ?_
          intro o _ u hu
          rcases hu with ⟨ho, hEs, hReads⟩
          subst ho hEs
          rw [hTags]
          have h₂ := h₁.reads hby hReads
          have hBuf₂ : s.buf.Untouched u.buf := by
            rw [hReads.buf]
            exact hBuf₁
          rw [← hReads.flash]
          cases hWith : pageWithId (s.flash.tags b) n with
          | none =>
              apply wp_endLoop _ h₂ hBuf₂
              apply Ends.last hFind
              unfold newestPage
              rw [hWith]
              rfl
          | some p =>
              have hp := pageWithId_lt hWith
              have hReady₂ := hReads.readable hReady
              dsimp only
              rw [wp_bind]
              refine wp_mono (yields_findBestPageInBlock hReady₂
                hp.2) ?_
              intro o _ v hv
              rcases hv with ⟨ho, hEs, hReads₂⟩
              subst ho hEs
              rw [hReads.tags, hTags]
              have h₃ := h₂.reads hby hReads₂
              have hBuf₃ : s.buf.Untouched v.buf := by
                rw [hReads₂.buf]
                exact hBuf₂
              rw [← hReads₂.flash]
              have hNewest : newestPage (s.flash.tags b) n =
                  bestPage (s.flash.tags b) p := by
                unfold newestPage
                rw [hWith]
                rfl
              cases hBest : bestPage (s.flash.tags b) p with
              | none => exact absurd hBest (bestPage_ne_none hWith)
              | some q =>
                  rw [hBest] at hNewest
                  refine wp_copyPage hRec hby hy hn h₃ hBuf₃ hFind
                    hNewest ?_
                  intro sum x w hFlash hCopy hUntouched
                  have hRun := ih w (n + 1) sum (by omega) hCopy
                    hUntouched
                  rw [hFlash] at hRun
                  refine wp_mono hRun ?_
                  intro r es z hz
                  rcases hz with ⟨m, hm⟩
                  exact ⟨m, hm.step⟩

end Loop

end Uffs
