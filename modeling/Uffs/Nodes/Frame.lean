import Uffs.Files.Buffers

/-
  What the functions below the tree leave alone, whatever
  the driver answers.

  `Quiet W A` bounds what a function may do: it writes and
  erases blocks of `W` only, reports blocks of `A` only to
  the pending list, keeps every block info that is in use,
  and does not touch the tree or the keys of the buffers.

  Main declarations:
    * `Allowed`
    * `Quiet`, `Loads`
    * `wlp_blockInfoGet`, `wlp_flashEraseBlock`,
      `wlp_flashCheckErasedBlock`
-/

namespace Uffs

open Prog

------------------------------------------------------------
-- Allowed Events
------------------------------------------------------------

/- Branches in which the node of a block is lost. -/
def Note.losesNode : Note → Bool
| .retryAfterError => true
| .uncleanNotErased => true
| .headOfSingle => true
| .resvBlock => true
| .mixedGroup => true
| _ => false

/- Branches in which a used block is taken for erased. -/
def Note.takesUsed : Note → Bool
| .eraseIgnored => true
| .pageNotChecked => true
| .usedTakenForClean => true
| .swappedAfterError => true
| _ => false

/-
  The events of a run that takes no branch of the first kind
  and, when it is strict, none of the second.
-/
def Allowed (strict : Bool) : Event → Prop
| .note n =>
    n.losesNode = false ∧ (strict = true → n.takesUsed = false)
| _ => True

------------------------------------------------------------
-- Frames
------------------------------------------------------------

/- Block infos in use stay in use and keep their block. -/
structure BcCache.Keeps (c d : BcCache) : Prop where
  refs : ∀ i, (c.info i).refCount ≤ (d.info i).refCount
  block : ∀ i, 0 < (c.info i).refCount →
    (d.info i).block = (c.info i).block

/- The type, the parent and the serial of a buffer. -/
def Buf.key (b : Buf) : GroupKey where
  type := b.type
  parent := b.parent
  serial := b.serial

/- The keys of the buffers and the dirty groups stay. -/
structure BufPool.SameKeys (p q : BufPool) : Prop where
  key : ∀ i, (q.entry i).key = (p.entry i).key
  group : q.group = p.group

/- Block `x`, taken from slot `k`, is being recovered. -/
structure Pending.Recovering
    (k x : Nat)
    (p : Pending) : Prop where
  current : p.blockInRecovery = x
  count : p.count ≤ k
  slot : (p.slot k).block = x

/- Nothing changes but the buffers, the spares and the time. -/
structure Still (s t : Dev) : Prop where
  tree : t.tree = s.tree
  flash : t.flash = s.flash
  erase : t.watch.lastErase = s.watch.lastErase
  handed : t.watch.usedHandedOut = s.watch.usedHandedOut
  bc : t.bc = s.bc
  pending : t.pending = s.pending
  buf : s.buf.SameKeys t.buf

/- See above. -/
structure Quiet (W A : Nat → Prop) (s t : Dev) : Prop where
  tree : t.tree = s.tree
  page : ∀ b, ¬ W b → t.flash.page b = s.flash.page b
  bad : ∀ b, ¬ W b → t.flash.bad b = s.flash.bad b
  erase : ∀ b, ¬ W b →
    t.watch.lastErase b = s.watch.lastErase b
  handed : t.watch.usedHandedOut = s.watch.usedHandedOut
  bc : s.bc.Keeps t.bc
  buf : s.buf.SameKeys t.buf
  pending : ∀ k x, (∀ b, A b → b = x) →
    s.pending.Recovering k x → t.pending.Recovering k x

/- No block. -/
def nowhere : Nat → Prop := fun _ => False

/- Pages of block info `i` are loaded. -/
structure Loads (i : Nat) (s t : Dev) : Prop where
  quiet : Quiet nowhere (· = (s.bc.info i).block) s t
  block : (t.bc.info i).block = (s.bc.info i).block

namespace BcCache.Keeps

variable {c d e : BcCache}

theorem refl (c : BcCache) : c.Keeps c :=
  ⟨fun _ => Nat.le_refl _, fun _ _ => rfl⟩

theorem trans (h : c.Keeps d) (h' : d.Keeps e) : c.Keeps e := by
  constructor
  · intro i
    exact Nat.le_trans (h.refs i) (h'.refs i)
  · intro i hi
    have hd := Nat.lt_of_lt_of_le hi (h.refs i)
    exact (h'.block i hd).trans (h.block i hi)

/- An entry that was taken in between is put back. -/
theorem put
    {i : Nat}
    (h : c.Keeps d)
    (hRef : (c.info i).refCount < (d.info i).refCount)
    (hInfo : e.info = upd d.info i
      { d.info i with refCount := (d.info i).refCount - 1 }) :
    c.Keeps e := by
  constructor
  · intro j
    rw [hInfo]
    by_cases hj : j = i
    · subst hj
      rw [upd_same]
      exact Nat.le_pred_of_lt hRef
    · rw [upd_other _ _ hj]
      exact h.refs j
  · intro j hPos
    rw [hInfo]
    by_cases hj : j = i
    · subst hj
      rw [upd_same]
      exact h.block j hPos
    · rw [upd_other _ _ hj]
      exact h.block j hPos

end BcCache.Keeps

namespace Pending.Recovering

variable {k x : Nat} {p : Pending}

/- The block in recovery is not reported again. -/
theorem add
    (h : p.Recovering k x)
    (mark : PendingMark) :
    (p.add x mark).Recovering k x := by
  unfold Pending.add
  rw [if_pos h.current]
  exact h

/- Taking blocks off the list leaves the slot alone. -/
theorem remove
    (h : p.Recovering k x)
    (b : Nat) : (p.remove b).Recovering k x := by
  unfold Pending.remove
  cases p.find b with
  | none => exact h
  | some i =>
      have hCount := h.count
      refine ⟨h.current, ?_, ?_⟩
      · dsimp only
        omega
      · dsimp only
        rw [if_neg (by omega)]
        exact h.slot

end Pending.Recovering

namespace Still

variable {s t u : Dev}

theorem refl (s : Dev) : Still s s :=
  ⟨rfl, rfl, rfl, rfl, rfl, rfl, fun _ => rfl, rfl⟩

theorem trans (h : Still s t) (h' : Still t u) : Still s u where
  tree := h'.tree.trans h.tree
  flash := h'.flash.trans h.flash
  erase := h'.erase.trans h.erase
  handed := h'.handed.trans h.handed
  bc := h'.bc.trans h.bc
  pending := h'.pending.trans h.pending
  buf :=
    ⟨fun i => (h'.buf.key i).trans (h.buf.key i),
      h'.buf.group.trans h.buf.group⟩

instance : IsPreorder Dev Still where
  refl := refl
  trans _ _ _ := trans

end Still

namespace Quiet

variable {W W' A A' : Nat → Prop} {s t u : Dev}

theorem refl (s : Dev) : Quiet W A s s where
  tree := rfl
  page := fun _ _ => rfl
  bad := fun _ _ => rfl
  erase := fun _ _ => rfl
  handed := rfl
  bc := .refl _
  buf := ⟨fun _ => rfl, rfl⟩
  pending := fun _ _ _ h => h

theorem trans
    (h : Quiet W A s t)
    (h' : Quiet W A t u) : Quiet W A s u where
  tree := h'.tree.trans h.tree
  page := fun b hb => (h'.page b hb).trans (h.page b hb)
  bad := fun b hb => (h'.bad b hb).trans (h.bad b hb)
  erase := fun b hb => (h'.erase b hb).trans (h.erase b hb)
  handed := h'.handed.trans h.handed
  bc := h.bc.trans h'.bc
  buf :=
    ⟨fun i => (h'.buf.key i).trans (h.buf.key i),
      h'.buf.group.trans h.buf.group⟩
  pending := fun k x hA hRec =>
    h'.pending k x hA (h.pending k x hA hRec)

instance : IsPreorder Dev (Quiet W A) where
  refl := refl
  trans _ _ _ := trans

theorem mono
    (h : Quiet W A s t)
    (hW : ∀ b, W b → W' b)
    (hA : ∀ b, A b → A' b) : Quiet W' A' s t where
  tree := h.tree
  page := fun b hb => h.page b (fun hw => hb (hW b hw))
  bad := fun b hb => h.bad b (fun hw => hb (hW b hw))
  erase := fun b hb => h.erase b (fun hw => hb (hW b hw))
  handed := h.handed
  bc := h.bc
  buf := h.buf
  pending := fun k x hAll =>
    h.pending k x (fun b hb => hAll b (hA b hb))

/- Nothing is written and nothing is reported. -/
theorem widen
    (h : Quiet nowhere nowhere s t) : Quiet W A s t :=
  h.mono (fun _ => False.elim) (fun _ => False.elim)

/- A function that only reads. -/
theorem of_still (h : Still s t) : Quiet W A s t where
  tree := h.tree
  page := fun _ _ => by rw [h.flash]
  bad := fun _ _ => by rw [h.flash]
  erase := fun _ _ => by rw [h.erase]
  handed := h.handed
  bc := by
    rw [h.bc]
    exact .refl _
  buf := h.buf
  pending := fun k x _ hRec => by
    rw [h.pending]
    exact hRec

/- A block info in use keeps its block. -/
theorem infoBlock
    {i : Nat}
    (h : Quiet W A s t)
    (hi : 0 < (s.bc.info i).refCount) :
    (t.bc.info i).block = (s.bc.info i).block :=
  h.bc.block i hi

end Quiet

/-
  Like `Quiet`, for functions that may also change the
  buffers and report any block.
-/
structure Busy (W : Nat → Prop) (s t : Dev) : Prop where
  tree : t.tree = s.tree
  page : ∀ b, ¬ W b → t.flash.page b = s.flash.page b
  bad : ∀ b, ¬ W b → t.flash.bad b = s.flash.bad b
  erase : ∀ b, ¬ W b →
    t.watch.lastErase b = s.watch.lastErase b
  handed : t.watch.usedHandedOut = s.watch.usedHandedOut
  bc : s.bc.Keeps t.bc

namespace Busy

variable {W W' A : Nat → Prop} {s t u : Dev}

theorem refl (s : Dev) : Busy W s s where
  tree := rfl
  page := fun _ _ => rfl
  bad := fun _ _ => rfl
  erase := fun _ _ => rfl
  handed := rfl
  bc := .refl _

theorem trans (h : Busy W s t) (h' : Busy W t u) :
    Busy W s u where
  tree := h'.tree.trans h.tree
  page := fun b hb => (h'.page b hb).trans (h.page b hb)
  bad := fun b hb => (h'.bad b hb).trans (h.bad b hb)
  erase := fun b hb => (h'.erase b hb).trans (h.erase b hb)
  handed := h'.handed.trans h.handed
  bc := h.bc.trans h'.bc

instance : IsPreorder Dev (Busy W) where
  refl := refl
  trans _ _ _ := trans

theorem mono
    (h : Busy W s t)
    (hW : ∀ b, W b → W' b) : Busy W' s t where
  tree := h.tree
  page := fun b hb => h.page b (fun hw => hb (hW b hw))
  bad := fun b hb => h.bad b (fun hw => hb (hW b hw))
  erase := fun b hb => h.erase b (fun hw => hb (hW b hw))
  handed := h.handed
  bc := h.bc

theorem widen (h : Busy nowhere s t) : Busy W s t :=
  h.mono (fun _ => False.elim)

theorem of_quiet (h : Quiet W A s t) : Busy W s t :=
  ⟨h.tree, h.page, h.bad, h.erase, h.handed, h.bc⟩

theorem of_buffers (h : Buffers s t) : Busy W s t := by
  rw [h]
  exact ⟨rfl, fun _ _ => rfl, fun _ _ => rfl,
    fun _ _ => rfl, rfl, .refl _⟩

variable [Platform]

/- A block that is not written stays erased. -/
theorem erased
    {b : Nat}
    (h : Busy W s t)
    (hb : ¬ W b) :
    t.flash.ErasedBlock b ↔ s.flash.ErasedBlock b := by
  unfold Flash.ErasedBlock
  rw [h.page b hb, h.bad b hb]

theorem blank
    {b : Nat}
    (h : Busy W s t)
    (hb : ¬ W b) : t.Blank b ↔ s.Blank b := by
  unfold Dev.Blank
  rw [h.erased hb, h.erase b hb]

end Busy

section

variable [Platform] {W A : Nat → Prop} {s t : Dev} {b : Nat}

theorem Quiet.erased
    (h : Quiet W A s t)
    (hb : ¬ W b) :
    t.flash.ErasedBlock b ↔ s.flash.ErasedBlock b :=
  (Busy.of_quiet h).erased hb

theorem Quiet.blank
    (h : Quiet W A s t)
    (hb : ¬ W b) : t.Blank b ↔ s.Blank b :=
  (Busy.of_quiet h).blank hb

end

namespace Loads

variable {i : Nat} {s t u : Dev}

theorem refl (s : Dev) : Loads i s s :=
  ⟨.refl s, rfl⟩

theorem trans (h : Loads i s t) (h' : Loads i t u) :
    Loads i s u := by
  have hQuiet := h'.quiet
  rw [h.block] at hQuiet
  exact ⟨h.quiet.trans hQuiet, h'.block.trans h.block⟩

instance : IsPreorder Dev (Loads i) where
  refl := refl
  trans _ _ _ := trans

theorem of_still (h : Still s t) : Loads i s t := by
  refine ⟨.of_still h, ?_⟩
  rw [h.bc]

end Loads

------------------------------------------------------------
-- Functions That Only Read
------------------------------------------------------------

section Reading

variable {ok : Event → Prop}

theorem still_setBuf
    {f : Buf → Buf}
    (i : Nat)
    (hKey : ∀ b, (f b).key = b.key) :
    Within ok Still (setBuf i f) := by
  apply Within.modify
  intro s
  refine ⟨rfl, rfl, rfl, rfl, rfl, rfl, ?_, rfl⟩
  intro j
  by_cases hj : j = i
  · subst hj
    simp only [upd_same]
    exact hKey _
  · simp only [upd_other _ _ hj]

theorem still_setData (i : Nat) (data : List Byte) :
    Within ok Still
      (setBuf i fun b => { b with data := data }) := by
  apply still_setBuf
  intro b
  rfl

theorem still_getBuf (i : Nat) :
    Within ok Still (getBuf i) := by
  unfold getBuf
  exact Within.gets _

theorem still_getInfo (i : Nat) :
    Within ok Still (getInfo i) := by
  unfold getInfo
  exact Within.gets _

theorem still_getTag (i page : Nat) :
    Within ok Still (getTag i page) := by
  unfold getTag
  exact Within.gets _

theorem still_getNode (n : Nat) :
    Within ok Still (getNode n) := by
  unfold getNode
  exact Within.gets _

theorem still_spareGet : Within ok Still spareGet := by
  unfold spareGet
  apply Within.bind Within.get
  intro s
  apply Within.ite (Within.pure _)
  apply Within.bind
  · apply Within.modify
    intro s
    exact ⟨rfl, rfl, rfl, rfl, rfl, rfl, fun _ => rfl, rfl⟩
  · intro _
    exact Within.pure _

theorem still_sparePut : Within ok Still sparePut := by
  apply Within.modify
  intro s
  exact ⟨rfl, rfl, rfl, rfl, rfl, rfl, fun _ => rfl, rfl⟩

/- Changing the list of the clone buffers. -/
theorem still_setClone (f : Dev → List Nat) :
    Within ok Still (Prog.modify fun s =>
      { s with buf := { s.buf with clone := f s } }) := by
  apply Within.modify
  intro s
  exact ⟨rfl, rfl, rfl, rfl, rfl, rfl, fun _ => rfl, rfl⟩

theorem still_bufClone : Within ok Still bufClone := by
  unfold bufClone
  apply Within.bind Within.get
  intro s
  cases s.buf.clone with
  | nil => exact Within.pure _
  | cons i rest =>
      apply Within.bind (still_setClone _)
      intro _
      apply Within.bind
      · apply still_setBuf
        intro b
        rfl
      · intro _
        exact Within.pure _

theorem still_bufFreeClone (i : Nat) :
    Within ok Still (bufFreeClone i) := by
  unfold bufFreeClone
  apply Within.bind (still_getBuf i)
  intro b
  apply Within.ite (Within.pure _)
  apply Within.bind
  · apply still_setBuf
    intro b
    rfl
  · intro _
    apply Within.bind (still_setClone _)
    intro _
    exact Within.pure _

variable [Platform]

theorem still_nextAnswer : Within ok Still nextAnswer := by
  unfold nextAnswer
  apply Within.bind Within.get
  intro s
  apply Within.bind
  · apply Within.modify
    intro s
    exact ⟨rfl, rfl, rfl, rfl, rfl, rfl, fun _ => rfl, rfl⟩
  · intro _
    exact Within.pure _

omit [Platform] in
theorem still_watchTag
    (b p : Nat)
    (failed : Bool) :
    Within ok Still (watchTag b p failed) := by
  apply Within.modify
  intro s
  exact ⟨rfl, rfl, rfl, rfl, rfl, rfl, fun _ => rfl, rfl⟩

theorem still_flashReadPageTag
    (b p : Nat)
    (tag : Tag) :
    Within ok Still (flashReadPageTag b p tag) := by
  unfold flashReadPageTag
  apply Within.bind still_spareGet
  intro got
  apply Within.ite (Within.pure _)
  apply Within.bind still_nextAnswer
  intro a
  apply Within.bind Within.get
  intro s
  apply Within.bind still_sparePut
  intro _
  apply Within.ite _ (Within.pure _)
  apply Within.bind (still_watchTag b p true)
  intro _
  exact Within.pure _

theorem still_flashReadPage
    (b p i : Nat)
    (skipEcc : Bool) :
    Within ok Still (flashReadPage b p i skipEcc) := by
  unfold flashReadPage
  apply Within.bind still_spareGet
  intro got
  apply Within.ite (Within.pure _)
  apply Within.bind still_nextAnswer
  intro a
  apply Within.bind Within.get
  intro s
  apply Within.bind (still_setData i _)
  intro _
  apply Within.bind still_sparePut
  intro _
  exact Within.pure _

theorem still_loadMiniHeader (b p : Nat) :
    Within ok Still (loadMiniHeader b p) := by
  unfold loadMiniHeader
  apply Within.bind still_nextAnswer
  intro a
  apply Within.bind Within.get
  intro s
  exact Within.ite (Within.pure _) (Within.pure _)

theorem still_readBadMark (b : Nat) :
    Within ok Still (readBadMark b) := by
  unfold readBadMark
  apply Within.bind still_nextAnswer
  intro a
  apply Within.bind Within.get
  intro s
  exact Within.pure _

theorem still_flashIsBadBlock (b : Nat) :
    Within ok Still (flashIsBadBlock b) := by
  unfold flashIsBadBlock
  apply Within.bind (still_readBadMark b)
  intro bad
  exact Within.ite (Within.pure _) (still_readBadMark b)

theorem still_verifyPageData
    (b p : Nat)
    (data : List Byte) :
    Within ok Still (verifyPageData b p data) := by
  unfold verifyPageData
  apply Within.bind still_bufClone
  intro o
  cases o with
  | none => exact Within.pure _
  | some v =>
      apply Within.bind (still_flashReadPage b p v false)
      intro ret
      apply Within.bind (still_getBuf v)
      intro x
      apply Within.bind (still_bufFreeClone v)
      intro _
      exact Within.pure _

omit [Platform] in
theorem still_noteWhen (c : Dev → Bool) (n : Note) :
    Within ok Still (noteWhen c n) := by
  unfold noteWhen
  apply Within.bind Within.get
  intro s
  exact Within.ite (Within.emit _) (Within.pure _)

omit [Platform] in
theorem wlp_noteWhen
    (c : Dev → Bool)
    (n : Note)
    (s : Dev) :
    wlp ok (noteWhen c n) (fun _ t => t = s) s := by
  unfold noteWhen
  rw [wlp_bind, wlp_get]
  split
  · unfold note
    rw [wlp_emit]
    intro _
    rfl
  · rw [wlp_pure]

theorem still_noteNotBlank (b : Nat) (n : Note) :
    Within ok Still (noteNotBlank b n) := by
  unfold noteNotBlank
  apply Within.bind Within.get
  intro s
  exact Within.ite (Within.emit _) (Within.pure _)

end Reading

------------------------------------------------------------
-- Block Infos
------------------------------------------------------------

section Infos

variable {ok : Event → Prop} {W A : Nat → Prop}

/- A function that only reads leaves everything alone. -/
theorem Still.within_quiet
    {α : Type}
    {m : M α}
    (h : Within ok Still m) : Within ok (Quiet W A) m :=
  h.mono fun _ _ => Quiet.of_still

theorem Still.within_loads
    {α : Type}
    {m : M α}
    {i : Nat}
    (h : Within ok Still m) : Within ok (Loads i) m :=
  h.mono fun _ _ => Loads.of_still

theorem keeps_upd
    {c d : BcCache}
    {i : Nat}
    {w : BlockInfo}
    (hInfo : d.info = upd c.info i w)
    (hBlock : 0 < (c.info i).refCount →
      w.block = (c.info i).block)
    (hRef : (c.info i).refCount ≤ w.refCount) : c.Keeps d := by
  constructor
  · intro j
    rw [hInfo]
    by_cases hj : j = i
    · subst hj
      rw [upd_same]
      exact hRef
    · rw [upd_other _ _ hj]
  · intro j hPos
    rw [hInfo]
    by_cases hj : j = i
    · subst hj
      rw [upd_same]
      exact hBlock hPos
    · rw [upd_other _ _ hj]

/- A change of the block info cache alone. -/
theorem quiet_bc
    {c : BcCache}
    (s : Dev)
    (h : s.bc.Keeps c) :
    Quiet W A s { s with bc := c } where
  tree := rfl
  page := fun _ _ => rfl
  bad := fun _ _ => rfl
  erase := fun _ _ => rfl
  handed := rfl
  bc := h
  buf := ⟨fun _ => rfl, rfl⟩
  pending := fun _ _ _ h => h

/- A change of the pending list alone. -/
theorem quiet_pending
    {p : Pending}
    (s : Dev)
    (h : ∀ k x, (∀ b, A b → b = x) →
      s.pending.Recovering k x → p.Recovering k x) :
    Quiet W A s { s with pending := p } where
  tree := rfl
  page := fun _ _ => rfl
  bad := fun _ _ => rfl
  erase := fun _ _ => rfl
  handed := rfl
  bc := .refl _
  buf := ⟨fun _ => rfl, rfl⟩
  pending := h

theorem quiet_setInfo
    {f : BlockInfo → BlockInfo}
    (i : Nat)
    (hBlock : ∀ w, (f w).block = w.block)
    (hRef : ∀ w, w.refCount ≤ (f w).refCount) :
    Within ok (Quiet W A) (setInfo i f) := by
  apply Within.modify
  intro s
  exact quiet_bc s
    (keeps_upd rfl (fun _ => hBlock _) (hRef _))

theorem loads_setInfo
    {f : BlockInfo → BlockInfo}
    (i : Nat)
    (hBlock : ∀ w, (f w).block = w.block)
    (hRef : ∀ w, w.refCount ≤ (f w).refCount) :
    Within ok (Loads i) (setInfo i f) := by
  apply Within.modify
  intro s
  constructor
  · exact quiet_bc s
      (keeps_upd rfl (fun _ => hBlock _) (hRef _))
  · simp only [upd_same]
    exact hBlock _

theorem quiet_setTag (i page : Nat) (tag : Tag) :
    Within ok (Quiet W A) (setTag i page tag) := by
  unfold setTag
  apply quiet_setInfo
  · intro w
    rfl
  · intro w
    exact Nat.le_refl _

theorem quiet_badBlockPendingRemove (b : Nat) :
    Within ok (Quiet W A) (badBlockPendingRemove b) := by
  apply Within.modify
  intro s
  exact quiet_pending s (fun _ _ _ h => h.remove b)

theorem quiet_badBlockAdd
    {b : Nat}
    (mark : PendingMark)
    (hA : A b) :
    Within ok (Quiet W A) (badBlockAdd b mark) := by
  apply Within.modify
  intro s
  apply quiet_pending s
  intro k x hAll h
  rw [hAll b hA]
  exact h.add mark

theorem quiet_badBlockAddByFlashResult
    {b : Nat}
    (ret : FlashRet)
    (hA : A b) :
    Within ok (Quiet W A) (badBlockAddByFlashResult b ret) := by
  unfold badBlockAddByFlashResult
  cases pendingType ret with
  | none => exact Within.pure _
  | some mark =>
      apply Within.bind (quiet_badBlockAdd mark hA)
      intro _
      exact Within.pure _

variable [Platform]

theorem quiet_blockInfoExpire (i page : Nat) :
    Within ok (Quiet W A) (blockInfoExpire i page) := by
  unfold blockInfoExpire
  apply quiet_setInfo
  · intro w
    split <;> rfl
  · intro w
    split <;> exact Nat.le_refl _

theorem quiet_blockInfoExpireAll (i : Nat) :
    Within ok (Quiet W A) (blockInfoExpireAll i) := by
  unfold blockInfoExpireAll
  apply quiet_setInfo
  · intro w
    rfl
  · intro w
    exact Nat.le_refl _

omit [Platform] in
theorem quiet_blockInfoInitErased (i : Nat) :
    Within ok (Quiet W A) (blockInfoInitErased i) := by
  unfold blockInfoInitErased
  apply quiet_setInfo
  · intro w
    rfl
  · intro w
    exact Nat.le_refl _

/- What a read reports is the block of the block info. -/
omit [Platform] in
theorem wlp_report
    {s t : Dev}
    {i : Nat}
    (ret : FlashRet)
    (h : Loads i s t) :
    wlp ok
      (badBlockAddByFlashResult (s.bc.info i).block ret)
      (fun _ u => Loads i s u) t := by
  have hAdd : wlp ok
      (badBlockAddByFlashResult (s.bc.info i).block ret)
      (fun _ u => Quiet nowhere (· = (s.bc.info i).block) t u)
      t := by
    exact quiet_badBlockAddByFlashResult
      (A := (· = (s.bc.info i).block)) ret rfl t
  have hBlock : wlp ok
      (badBlockAddByFlashResult (s.bc.info i).block ret)
      (fun _ u => u.bc = t.bc) t := by
    unfold badBlockAddByFlashResult
    cases pendingType ret with
    | none => simp
    | some mark => simp [badBlockAdd]
  refine wlp_mono (wlp_and hAdd hBlock) ?_
  intro _ u hu
  refine ⟨h.quiet.trans hu.1, ?_⟩
  rw [hu.2]
  exact h.block

theorem loads_blockInfoLoad (i page : Nat) :
    Within ok (Loads i) (blockInfoLoad i page) := by
  intro s
  unfold blockInfoLoad
  split
  · rw [wlp_pure]
    exact .refl s
  · simp only [getInfo, wlp_bind, wlp_gets]
    split
    · rw [wlp_pure]
      exact .refl s
    · rw [wlp_bind]
      refine wlp_mono (Still.within_loads (i := i)
        (still_flashReadPageTag _ _ _) s) ?_
      intro r t ht
      rcases r with ⟨ret, tag⟩
      rw [wlp_bind]
      refine wlp_mono (wlp_report ret ht) ?_
      intro _ u hu
      have hSet : ∀ f : BlockInfo → BlockInfo,
          (∀ w, (f w).block = w.block) →
          (∀ w, w.refCount ≤ (f w).refCount) → ∀ r : URet,
          wlp ok (do setInfo i f; pure r)
            (fun _ v => Loads i s v) u := by
        intro f hBlock hRef r
        rw [wlp_bind]
        refine wlp_mono (loads_setInfo i hBlock hRef u) ?_
        intro _ v hv
        rw [wlp_pure]
        exact hu.trans hv
      dsimp only
      split
      · apply hSet
        · intro w
          rfl
        · intro w
          exact Nat.le_refl _
      · apply hSet
        · intro w
          rfl
        · intro w
          exact Nat.le_refl _

theorem loads_blockInfoLoadFrom
    (i n : Nat) :
    ∀ page nfailed, Within ok (Loads i)
      (blockInfoLoadFrom i n page nfailed) := by
  induction n with
  | zero =>
      intro page nfailed
      exact Within.pure _
  | succ n ih =>
      intro page nfailed s
      unfold blockInfoLoadFrom
      simp only [getInfo, wlp_bind, wlp_gets]
      split
      · exact ih _ _ s
      · rw [wlp_bind]
        refine wlp_mono (Still.within_loads (i := i)
          (still_flashReadPageTag _ _ _) s) ?_
        intro r t ht
        rcases r with ⟨ret, tag⟩
        rw [wlp_bind]
        refine wlp_mono (wlp_report ret ht) ?_
        intro _ u hu
        have hSet : ∀ f : BlockInfo → BlockInfo,
            (∀ w, (f w).block = w.block) →
            (∀ w, w.refCount ≤ (f w).refCount) → ∀ k,
            wlp ok (do
                setInfo i f
                blockInfoLoadFrom i n (page + 1) k)
              (fun _ v => Loads i s v) u := by
          intro f hBlock hRef k
          rw [wlp_bind]
          refine wlp_mono (loads_setInfo i hBlock hRef u) ?_
          intro _ v hv
          refine wlp_mono (ih _ _ v) ?_
          intro _ x hx
          exact (hu.trans hv).trans hx
        dsimp only
        split
        · apply hSet
          · intro w
            rfl
          · intro w
            exact Nat.le_refl _
        · apply hSet
          · intro w
            rfl
          · intro w
            exact Nat.le_refl _

theorem loads_blockInfoLoadAll (i : Nat) :
    Within ok (Loads i) (blockInfoLoadAll i) := by
  unfold blockInfoLoadAll
  apply Within.bind (loads_blockInfoLoadFrom i _ _ _)
  intro nfailed
  exact Within.pure _

/- Block info `i` is taken for block `b`. -/
structure Takes (b i : Nat) (s t : Dev) : Prop where
  quiet : Quiet nowhere nowhere s t
  block : (t.bc.info i).block = b
  refCount : (t.bc.info i).refCount =
    (s.bc.info i).refCount + 1

omit [Platform] in
theorem wlp_blockInfoFindInCache (b : Nat) (s : Dev) :
    wlp ok (blockInfoFindInCache b)
      (fun o t =>
        match o with
        | none => t = s
        | some i => Takes b i s t) s := by
  unfold blockInfoFindInCache
  simp only [wlp_bind, wlp_get]
  cases hFind : s.bc.list.find? fun i =>
      (s.bc.info i).block == b with
  | none => simp only [wlp_pure]
  | some i =>
      have hBlock : (s.bc.info i).block = b := by
        simpa using List.find?_some hFind
      simp only [setInfo, wlp_bind, wlp_modify, wlp_pure]
      refine ⟨?_, ?_, ?_⟩
      · apply quiet_bc s
        exact keeps_upd rfl (fun _ => rfl) (Nat.le_succ _)
      · simp only [upd_same]
        exact hBlock
      · simp only [upd_same]

omit [Platform] in
theorem wlp_moveBcToTail (i : Nat) (s : Dev) :
    wlp ok (moveBcToTail i)
      (fun _ t => t = { s with bc := t.bc } ∧
        t.bc.info = s.bc.info) s := by
  unfold moveBcToTail
  simp only [wlp_modify, and_self]

omit [Platform] in
theorem Takes.move
    {b i : Nat}
    {s t u : Dev}
    (h : Takes b i s t)
    (hRest : u = { t with bc := u.bc })
    (hInfo : u.bc.info = t.bc.info) : Takes b i s u := by
  have hKeeps : t.bc.Keeps u.bc := by
    constructor
    · intro j
      rw [hInfo]
    · intro j _
      rw [hInfo]
  have hQuiet : Quiet nowhere nowhere t u := by
    rw [hRest]
    exact quiet_bc t hKeeps
  refine ⟨h.quiet.trans hQuiet, ?_, ?_⟩
  · rw [hInfo]
    exact h.block
  · rw [hInfo]
    exact h.refCount

theorem wlp_blockInfoGet (b : Nat) (s : Dev) :
    wlp ok (blockInfoGet b)
      (fun o t =>
        match o with
        | none => Quiet nowhere nowhere s t
        | some i => Takes b i s t) s := by
  unfold blockInfoGet
  rw [wlp_bind]
  refine wlp_mono (wlp_blockInfoFindInCache b s) ?_
  intro o t ht
  cases o with
  | some i =>
      rw [wlp_bind]
      refine wlp_mono (wlp_moveBcToTail i t) ?_
      intro _ u hu
      rw [wlp_pure]
      exact ht.move hu.1 hu.2
  | none =>
      cases ht
      simp only [wlp_bind, wlp_get]
      cases hFind : s.bc.list.find? fun i =>
          (s.bc.info i).refCount == 0 with
      | none =>
          simp only [wlp_pure]
          exact .refl s
      | some i =>
          have hZero : (s.bc.info i).refCount = 0 := by
            simpa using List.find?_some hFind
          simp only [setInfo, wlp_bind, wlp_modify]
          refine wlp_mono (wlp_moveBcToTail i _) ?_
          intro _ u hu
          rw [wlp_pure]
          refine Takes.move ?_ hu.1 hu.2
          refine ⟨?_, ?_, ?_⟩
          · apply quiet_bc s
            refine keeps_upd rfl ?_ ?_
            · intro hPos
              omega
            · omega
          · simp only [upd_same]
          · simp only [upd_same, hZero]

/- A block info that was taken since `s` is put back. -/
omit [Platform] in
theorem wlp_blockInfoPut
    {i : Nat}
    {s t : Dev}
    (h : s.bc.Keeps t.bc)
    (hRef : (s.bc.info i).refCount < (t.bc.info i).refCount) :
    wlp ok (blockInfoPut i)
      (fun _ u => u = { t with bc := u.bc } ∧
        s.bc.Keeps u.bc) t := by
  unfold blockInfoPut setInfo
  rw [wlp_modify]
  exact ⟨rfl, h.put hRef rfl⟩

end Infos

------------------------------------------------------------
-- Searches in a Block
------------------------------------------------------------

section Searches

variable {ok : Event → Prop} [Platform]

/- A tag read from a block info. -/
omit [Platform] in
theorem loads_getTag (i page : Nat) :
    Within ok (Loads i) (getTag i page) :=
  Still.within_loads (still_getTag i page)

theorem loads_findBestFrom
    (i : Nat)
    (old : Tag)
    (page n : Nat) :
    Within ok (Loads i) (findBestFrom i old page n) := by
  induction n with
  | zero => exact Within.pure _
  | succ n ih =>
      unfold findBestFrom
      apply Within.bind (loads_blockInfoLoad i _)
      intro _
      apply Within.bind (loads_getTag i _)
      intro tag
      exact Within.ite (Within.pure _) ih

theorem loads_findBestPageInBlock (i page : Nat) :
    Within ok (Loads i) (findBestPageInBlock i page) := by
  unfold findBestPageInBlock
  apply Within.bind (loads_blockInfoLoad i _)
  intro _
  apply Within.bind (loads_getTag i _)
  intro old
  apply Within.ite (Within.pure _)
  apply Within.ite (Within.pure _)
  apply Within.bind (loads_blockInfoLoad i _)
  intro _
  apply Within.bind (loads_getTag i _)
  intro last
  apply Within.ite (Within.pure _)
  apply Within.bind (loads_findBestFrom i old page _)
  intro best
  exact Within.pure _

theorem loads_findPageFrom
    (i pageId n : Nat) :
    ∀ page, Within ok (Loads i) (findPageFrom i pageId n page) := by
  induction n with
  | zero =>
      intro page
      exact Within.pure _
  | succ n ih =>
      intro page
      unfold findPageFrom
      apply Within.bind (loads_blockInfoLoad i _)
      intro _
      apply Within.bind (loads_getTag i _)
      intro tag
      exact Within.ite (Within.pure _) (ih _)

theorem loads_findPageInBlockWithPageId (i pageId : Nat) :
    Within ok (Loads i) (findPageInBlockWithPageId i pageId) :=
  loads_findPageFrom i pageId _ _

theorem loads_isThisBlockUsed (i : Nat) :
    Within ok (Loads i) (isThisBlockUsed i) := by
  unfold isThisBlockUsed
  apply Within.bind (loads_blockInfoLoad i _)
  intro _
  apply Within.bind (loads_getTag i _)
  intro tag
  exact Within.pure _

theorem loads_getBlockTimeStamp (i : Nat) :
    Within ok (Loads i) (getBlockTimeStamp i) := by
  unfold getBlockTimeStamp
  apply Within.bind (loads_isThisBlockUsed i)
  intro used
  apply Within.ite (Within.pure _)
  apply Within.bind (loads_blockInfoLoad i _)
  intro _
  apply Within.bind (loads_getTag i _)
  intro tag
  exact Within.pure _

theorem loads_isPageErased (i page : Nat) :
    Within ok (Loads i) (isPageErased i page) := by
  unfold isPageErased
  apply Within.bind (loads_blockInfoLoad i _)
  intro r
  cases r with
  | fail => exact Within.pure _
  | succ =>
      apply Within.bind (loads_getTag i _)
      intro tag
      exact Within.pure _

theorem loads_getFreePagesFrom
    (i n : Nat) :
    ∀ count, Within ok (Loads i) (getFreePagesFrom i n count) := by
  induction n with
  | zero =>
      intro count
      exact Within.pure _
  | succ n ih =>
      intro count
      unfold getFreePagesFrom
      apply Within.bind (loads_blockInfoLoad i _)
      intro _
      apply Within.bind (loads_isPageErased i _)
      intro erased
      apply Within.ite (ih _)
      apply Within.bind (loads_getTag i _)
      intro tag
      exact Within.ite (Within.pure _) (ih _)

theorem loads_getFreePagesCount (i : Nat) :
    Within ok (Loads i) (getFreePagesCount i) :=
  loads_getFreePagesFrom i _ _

theorem loads_blockLengthFrom
    (i n : Nat) :
    ∀ page pageId size, Within ok (Loads i)
      (blockLengthFrom i n page pageId size) := by
  induction n with
  | zero =>
      intro page pageId size
      exact Within.pure _
  | succ n ih =>
      intro page pageId size
      unfold blockLengthFrom
      apply Within.bind (loads_getTag i _)
      intro tag
      refine Within.ite ?_ (ih _ _ _)
      apply Within.bind (loads_findBestPageInBlock i _)
      intro best
      cases best with
      | none => exact ih _ _ _
      | some best =>
          apply Within.bind (loads_getTag i _)
          intro tag
          exact ih _ _ _

theorem loads_getBlockFileDataLength
    (i : Nat)
    (type : BlockType) :
    Within ok (Loads i) (getBlockFileDataLength i type) := by
  unfold getBlockFileDataLength
  apply Within.bind (loads_blockInfoLoad i _)
  intro _
  apply Within.bind (loads_getTag i _)
  intro last
  apply Within.ite (Within.pure _)
  apply Within.ite (Within.pure _)
  apply Within.bind (loads_blockInfoLoadAll i)
  intro _
  apply Within.bind (loads_getTag i _)
  intro tag
  apply Within.ite (Within.pure _)
  exact Within.ite (loads_blockLengthFrom i _ _ _ _)
    (loads_blockLengthFrom i _ _ _ _)

end Searches

------------------------------------------------------------
-- Writing and Erasing
------------------------------------------------------------

section Writing

variable {ok : Event → Prop} {W A : Nat → Prop} [Platform]

/- A change of one block of the medium alone. -/
omit [Platform] in
theorem quiet_flash
    {F : Flash}
    {b : Nat}
    (s : Dev)
    (hW : W b)
    (hPage : ∀ x, x ≠ b → F.page x = s.flash.page x)
    (hBad : ∀ x, x ≠ b → F.bad x = s.flash.bad x) :
    Quiet W A s { s with flash := F } where
  tree := rfl
  page := fun x hx => hPage x (fun hEq => hx (hEq ▸ hW))
  bad := fun x hx => hBad x (fun hEq => hx (hEq ▸ hW))
  erase := fun _ _ => rfl
  handed := rfl
  bc := .refl _
  buf := ⟨fun _ => rfl, rfl⟩
  pending := fun _ _ _ h => h

/- The block that an event changes. -/
def Event.on (b : Nat) : Event → Prop
| .program b' _ _ _ => b' = b
| .erase b' _ _ => b' = b
| .markBad b' => b' = b
| .note _ => True

omit [Platform] in
theorem Event.apply_other
    {e : Event}
    {b x : Nat}
    (F : Flash)
    (hOn : e.on b)
    (hx : x ≠ b) :
    (e.apply F).page x = F.page x ∧
      (e.apply F).bad x = F.bad x := by
  cases e with
  | program b' p r c =>
      cases hOn
      cases c with
      | none => exact ⟨rfl, rfl⟩
      | some c => exact ⟨upd_other _ _ hx, rfl⟩
  | erase b' r c =>
      cases hOn
      cases c with
      | none => exact ⟨rfl, rfl⟩
      | some c => exact ⟨upd_other _ _ hx, upd_other _ _ hx⟩
  | markBad b' =>
      cases hOn
      exact ⟨rfl, upd_other _ _ hx⟩
  | note n => exact ⟨rfl, rfl⟩

omit [Platform] in
theorem quiet_medium
    {e : Event}
    {b : Nat}
    (hOn : e.on b)
    (hW : W b) :
    Within ok (Quiet W A) (medium e) := by
  unfold medium
  apply Within.bind
  · apply Within.modify
    intro s
    apply quiet_flash s hW
    · intro x hx
      exact (Event.apply_other s.flash hOn hx).1
    · intro x hx
      exact (Event.apply_other s.flash hOn hx).2
  · intro _
    exact Within.emit _

theorem quiet_driverWritePage
    {b : Nat}
    (p : Nat)
    (content : Page)
    (hW : W b) :
    Within ok (Quiet W A) (driverWritePage b p content) := by
  unfold driverWritePage
  apply Within.bind (Still.within_quiet still_nextAnswer)
  intro a
  apply Within.bind
  · apply quiet_medium (b := b) _ hW
    rfl
  · intro _
    apply Within.ite _ (Within.pure _)
    apply Within.bind
      (Still.within_quiet (still_watchTag b p false))
    intro _
    exact Within.pure _

theorem quiet_flashWritePageCombine
    {b : Nat}
    (p i : Nat)
    (tag : Tag)
    (hW : W b) :
    Within ok (Quiet W A) (flashWritePageCombine b p i tag) := by
  unfold flashWritePageCombine
  apply Within.bind (Still.within_quiet still_spareGet)
  intro got
  apply Within.ite (Within.pure _)
  apply Within.bind (Still.within_quiet (still_getBuf i))
  intro x
  apply Within.bind (quiet_driverWritePage p _ hW)
  intro ret
  apply Within.ite
  · apply Within.bind (Still.within_quiet still_sparePut)
    intro _
    exact Within.pure _
  · apply Within.bind
      (Still.within_quiet (still_verifyPageData _ _ _))
    intro bad
    apply Within.bind
      (Still.within_quiet (still_flashReadPageTag _ _ _))
    intro r
    apply Within.bind (Still.within_quiet still_sparePut)
    intro _
    exact Within.ite (Within.pure _) (Within.pure _)

theorem quiet_expireCached (b : Nat) :
    Within ok (Quiet W A) (expireCached b) := by
  intro s
  unfold expireCached
  rw [wlp_bind]
  refine wlp_mono (wlp_blockInfoFindInCache b s) ?_
  intro o t ht
  cases o with
  | none =>
      cases ht
      rw [wlp_pure]
      exact .refl s
  | some i =>
      rw [wlp_bind]
      refine wlp_mono (quiet_blockInfoExpireAll
        (W := nowhere) (A := nowhere) i t) ?_
      intro _ u hu
      have hQuiet := ht.quiet.trans hu
      have hRef := hu.bc.refs i
      rw [ht.refCount] at hRef
      refine wlp_mono (wlp_blockInfoPut hQuiet.bc
        (Nat.lt_of_succ_le hRef)) ?_
      intro _ v hv
      rw [hv.1]
      exact { hQuiet.widen with bc := hv.2 }

/- What an erase of block `b` says about the medium. -/
structure Erased (b : Nat) (ret : FlashRet) (t : Dev) :
    Prop where
  last : t.watch.lastErase b = ret
  clean : ret.haveErr = false → t.flash.ErasedBlock b

theorem wlp_driverEraseBlock
    {b : Nat}
    (s : Dev)
    (hW : W b) :
    wlp ok (driverEraseBlock b)
      (fun r t => Quiet W A s t ∧ Erased b r t) s := by
  unfold driverEraseBlock
  rw [wlp_bind]
  refine wlp_mono (Still.within_quiet (W := W) (A := A)
    still_nextAnswer s) ?_
  intro a t ht
  simp only [wlp_bind]
  have hMedium : ∀ c, wlp ok (medium (.erase b a.ret c))
      (fun _ u => Quiet W A s u ∧
        u.flash = (Event.erase b a.ret c).apply t.flash) t := by
    intro c
    have hQuiet : wlp ok (medium (.erase b a.ret c))
        (fun _ u => Quiet W A t u) t :=
      quiet_medium (e := .erase b a.ret c) rfl hW t
    have hFlash : wlp ok (medium (.erase b a.ret c))
        (fun _ u =>
          u.flash = (Event.erase b a.ret c).apply t.flash)
        t := by
      simp [medium]
    refine wlp_mono (wlp_and hQuiet hFlash) ?_
    intro _ u hu
    exact ⟨ht.trans hu.1, hu.2⟩
  refine wlp_mono (hMedium _) ?_
  intro _ u hu
  rw [wlp_modify, wlp_pure]
  have hOther : ∀ x, ¬ W x → x ≠ b :=
    fun x hx hEq => hx (hEq ▸ hW)
  refine ⟨?_, ?_, ?_⟩
  · exact { hu.1 with
      erase := fun x hx =>
        (upd_other _ _ (hOther x hx)).trans (hu.1.erase x hx) }
  · exact upd_same _ _ _
  · intro hErr
    change u.flash.ErasedBlock b
    rw [hu.2]
    simp only [hErr, Bool.not_false, if_true]
    refine ⟨upd_same _ _ _, ?_⟩
    intro p _
    simp [Event.apply]

/- Leaving the medium alone keeps what an erase said. -/
theorem Erased.quiet
    {b : Nat}
    {ret : FlashRet}
    {s t : Dev}
    (h : Erased b ret s)
    (hQuiet : Quiet nowhere A s t) : Erased b ret t := by
  constructor
  · rw [hQuiet.erase b id]
    exact h.last
  · intro hErr
    exact (hQuiet.erased id).mpr (h.clean hErr)

theorem wlp_flashEraseBlock
    {b : Nat}
    (s : Dev)
    (hW : W b) :
    wlp ok (flashEraseBlock b)
      (fun r t => Quiet W A s t ∧ Erased b r t) s := by
  unfold flashEraseBlock
  rw [wlp_bind]
  refine wlp_mono (quiet_badBlockPendingRemove (W := W)
    (A := A) b s) ?_
  intro _ t ht
  rw [wlp_bind]
  refine wlp_mono (wlp_driverEraseBlock (W := W) (A := A)
    t hW) ?_
  intro r u hu
  rw [wlp_bind]
  refine wlp_mono (quiet_expireCached (W := nowhere)
    (A := nowhere) b u) ?_
  intro _ v hv
  rw [wlp_pure]
  exact ⟨(ht.trans hu.1).trans hv.widen, hu.2.quiet hv⟩

theorem quiet_flashEraseBlock
    {b : Nat}
    (hW : W b) :
    Within ok (Quiet W A) (flashEraseBlock b) := by
  intro s
  refine wlp_mono (wlp_flashEraseBlock (A := A) s hW) ?_
  intro _ t ht
  exact ht.1

theorem quiet_flashMarkBadBlock
    {b : Nat}
    (hW : W b) :
    Within ok (Quiet W A) (flashMarkBadBlock b) := by
  unfold flashMarkBadBlock
  apply Within.bind (quiet_badBlockPendingRemove b)
  intro _
  apply Within.bind (quiet_expireCached b)
  intro _
  apply Within.bind
  · intro s
    refine wlp_mono (wlp_driverEraseBlock (A := A) s hW) ?_
    intro _ t ht
    exact ht.1
  · intro _
    apply Within.bind (Still.within_quiet still_nextAnswer)
    intro a
    exact Within.ite (quiet_medium rfl hW) (Within.pure _)

/- A note that is allowed says that its branch is harmless. -/
theorem wlp_noteNotBlank
    {strict : Bool}
    {n : Note}
    (b : Nat)
    (s : Dev)
    (hUsed : n.takesUsed = true) :
    wlp (Allowed strict) (noteNotBlank b n)
      (fun _ t => Still s t ∧ (strict = true → t.Blank b)) s := by
  have hStill : wlp (Allowed strict) (noteNotBlank b n)
      (fun _ t => Still s t) s := still_noteNotBlank b n s
  have hBlank : wlp (Allowed strict) (noteNotBlank b n)
      (fun _ t => strict = true → t.Blank b) s := by
    unfold noteNotBlank
    rw [wlp_bind, wlp_get]
    split
    · unfold note
      rw [wlp_emit]
      intro hOk hStrict
      rw [hOk.2 hStrict] at hUsed
      cases hUsed
    · rename_i hBlank
      rw [wlp_pure]
      intro _
      exact not_not.mp hBlank
  exact wlp_and hStill hBlank

/- The check of an erased block, pages from `page` on. -/
theorem wlp_flashCheckErasedFrom
    {strict : Bool}
    (b i n : Nat) :
    ∀ page s, wlp (Allowed strict)
      (flashCheckErasedFrom b i n page)
      (fun r t => Still s t ∧
        (r = .succ → strict = true →
          ∀ p, page ≤ p → p < page + n →
            s.flash.page b p = Page.erased pgDataSize ∧
              s.flash.bad b = false)) s := by
  induction n with
  | zero =>
      intro page s
      unfold flashCheckErasedFrom
      rw [wlp_pure]
      refine ⟨.refl s, ?_⟩
      intro _ _ p hLe hLt
      omega
  | succ n ih =>
      intro page s
      unfold flashCheckErasedFrom
      rw [wlp_bind]
      refine wlp_mono (still_nextAnswer s) ?_
      intro a t ht
      simp only [wlp_bind, wlp_get]
      refine wlp_mono (still_setData i _ t) ?_
      intro _ u hu
      have hStill := ht.trans hu
      generalize (if a.ret.haveErr = true then a.junk page
        else t.flash.page b page) = content
      split
      · rw [wlp_pure]
        refine ⟨hStill, ?_⟩
        intro hEq
        cases hEq
      · have hRest : ∀ v, Still u v →
            (strict = true →
              s.flash.page b page = Page.erased pgDataSize ∧
                s.flash.bad b = false) →
            wlp (Allowed strict)
              (flashCheckErasedFrom b i n (page + 1))
              (fun r w => Still s w ∧
                (r = .succ → strict = true →
                  ∀ p, page ≤ p → p < page + (n + 1) →
                    s.flash.page b p =
                        Page.erased pgDataSize ∧
                      s.flash.bad b = false)) v := by
          intro v hv hThis
          have hsv := hStill.trans hv
          refine wlp_mono (ih (page + 1) v) ?_
          intro r w hw
          refine ⟨hsv.trans hw.1, ?_⟩
          intro hr hStrict p hLe hLt
          have hFlash := hsv.flash
          by_cases hp : p = page
          · rw [hp]
            exact hThis hStrict
          · rw [← hFlash]
            exact hw.2 hr hStrict p (by omega) (by omega)
        split
        · unfold note
          rw [wlp_bind, wlp_emit]
          intro hOk
          apply hRest u (.refl u)
          intro hStrict
          cases hOk.2 hStrict
        · rename_i hThis
          apply hRest u (.refl u)
          intro _
          rw [← ht.flash]
          simpa using hThis

/- A block that passes the check is erased. -/
theorem wlp_flashCheckErasedBlock
    {strict : Bool}
    (b : Nat)
    (s : Dev) :
    wlp (Allowed strict) (flashCheckErasedBlock b)
      (fun r t => Still s t ∧
        (r = .succ → strict = true → t.flash.ErasedBlock b))
      s := by
  have hUnchecked : ∀ t, Still s t →
      wlp (Allowed strict) (do
          noteUnchecked b
          pure URet.succ)
        (fun r u => Still s u ∧
          (r = .succ → strict = true →
            u.flash.ErasedBlock b)) t := by
    intro t ht
    unfold noteUnchecked
    simp only [wlp_bind, wlp_get]
    split
    · unfold note
      rw [wlp_emit]
      intro hOk
      rw [wlp_pure]
      refine ⟨ht, ?_⟩
      intro _ hStrict
      cases hOk.2 hStrict
    · rename_i hErased
      simp only [wlp_pure]
      exact ⟨ht, fun _ _ => not_not.mp hErased⟩
  unfold flashCheckErasedBlock
  rw [wlp_bind]
  refine wlp_mono (still_spareGet s) ?_
  intro got t ht
  split
  · exact hUnchecked t ht
  · rw [wlp_bind]
    refine wlp_mono (still_bufClone t) ?_
    intro o u hu
    have hsu := ht.trans hu
    cases o with
    | none =>
        dsimp only
        rw [wlp_bind]
        refine wlp_mono (still_sparePut u) ?_
        intro _ v hv
        exact hUnchecked v (hsu.trans hv)
    | some i =>
        dsimp only
        rw [wlp_bind]
        refine wlp_mono
          (wlp_flashCheckErasedFrom b i pagesPerBlock 0 u) ?_
        intro r v hv
        rw [wlp_bind]
        refine wlp_mono (still_sparePut v) ?_
        intro _ w hw
        rw [wlp_bind]
        refine wlp_mono (still_bufFreeClone i w) ?_
        intro _ x hx
        rw [wlp_pure]
        have hux := (hv.1.trans hw).trans hx
        refine ⟨hsu.trans hux, ?_⟩
        intro hr hStrict
        have hAll := hv.2 hr hStrict
        have hTwo := Platform.two_le_pagesPerBlock
        rw [hux.flash]
        constructor
        · exact (hAll 0 (Nat.le_refl _) (by omega)).2
        · intro p hp
          exact (hAll p (Nat.zero_le _) (by omega)).1

end Writing

end Uffs
