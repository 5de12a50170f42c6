import Uffs.Model.BadBlock
import Uffs.Nodes.Groups

/-
  The nodes of the tree while pending blocks are recovered,
  whatever the driver answers.

  Main declarations:
    * `Works`, `Copies`
    * `wlp_pendingFuel`
    * `runs_recoverIfPending`
-/

namespace Uffs

open Prog

variable [Platform]

------------------------------------------------------------
-- Copying a Pending Block
------------------------------------------------------------

/- Blocks of `W` are written, and only `x` is reported. -/
structure Works
    (W : Nat → Prop)
    (x : Nat)
    (s t : Dev) : Prop where
  busy : Busy W s t
  pending : ∀ k,
    s.pending.Recovering k x → t.pending.Recovering k x

namespace Works

variable {W : Nat → Prop} {x : Nat} {s t u : Dev}

omit [Platform]

instance : IsPreorder Dev (Works W x) where
  refl s := ⟨.refl s, fun _ h => h⟩
  trans _ _ _ h h' :=
    ⟨h.busy.trans h'.busy,
      fun k hk => h'.pending k (h.pending k hk)⟩

theorem of_quiet
    {A : Nat → Prop}
    (h : Quiet W A s t)
    (hA : ∀ b, A b → b = x) : Works W x s t :=
  ⟨.of_quiet h, fun k => h.pending k x hA⟩

theorem of_buffers (h : Buffers s t) : Works W x s t := by
  refine ⟨.of_buffers h, ?_⟩
  intro k hk
  rw [h]
  exact hk

theorem of_still (h : Still s t) : Works W x s t :=
  of_quiet (A := nowhere) (.of_still h) (fun _ => False.elim)

end Works

/- The same for a run that holds a block info of `x`. -/
def Copies
    (W : Nat → Prop)
    (bc x : Nat)
    (s t : Dev) : Prop :=
  (s.bc.info bc).block = x → 0 < (s.bc.info bc).refCount →
    Works W x s t

section Copying

variable {ok : Event → Prop} {W : Nat → Prop} {bc x : Nat}
  {α : Type} {m : M α}

instance : IsPreorder Dev (Copies W bc x) where
  refl s := fun _ _ => refl_of (Works W x) s
  trans _ _ _ h h' := by
    intro hBlock hInUse
    have hFirst := h hBlock hInUse
    apply trans_of (Works W x) hFirst
    apply h'
    · rw [hFirst.busy.bc.block bc hInUse]
      exact hBlock
    · exact Nat.lt_of_lt_of_le hInUse
        (hFirst.busy.bc.refs bc)

omit [Platform] in
theorem Works.within_copies
    (h : Within ok (Works W x) m) :
    Within ok (Copies W bc x) m :=
  h.mono fun _ _ hWorks _ _ => hWorks

omit [Platform] in
theorem Buffers.within_works
    (h : Within ok Buffers m) : Within ok (Works W x) m :=
  h.mono fun _ _ => Works.of_buffers

omit [Platform] in
theorem Still.within_works
    (h : Within ok Still m) : Within ok (Works W x) m :=
  h.mono fun _ _ => Works.of_still

omit [Platform] in
theorem Loads.within_copies
    (h : Within ok (Loads bc) m) :
    Within ok (Copies W bc x) m := by
  apply h.mono
  intro s t hLoads hBlock _
  apply Works.of_quiet (hLoads.quiet.mono
    (fun _ => False.elim) (fun _ => id))
  intro b hb
  rw [hb, hBlock]

theorem copies_copyFrom
    (newBc : Option Nat)
    (goodBlock n : Nat) :
    ∀ i dirty, Within ok (Copies (· = goodBlock) bc x)
      (copyFrom bc newBc goodBlock n i dirty) := by
  have hBuf : ∀ {β : Type} {m : M β}, Within ok Buffers m →
      Within ok (Copies (· = goodBlock) bc x) m :=
    fun h => Works.within_copies (Buffers.within_works h)
  have hStill : ∀ {β : Type} {m : M β}, Within ok Still m →
      Within ok (Copies (· = goodBlock) bc x) m :=
    fun h => Works.within_copies (Still.within_works h)
  have hQuiet : ∀ {β : Type} {m : M β},
      Within ok (Quiet (· = goodBlock) nowhere) m →
        Within ok (Copies (· = goodBlock) bc x) m :=
    fun h => Works.within_copies (h.mono fun _ _ hQuiet =>
      Works.of_quiet hQuiet (fun _ => False.elim))
  induction n with
  | zero =>
      intro i dirty
      exact Within.pure _
  | succ n ih =>
      intro i dirty
      unfold copyFrom
      apply Within.bind
        (Loads.within_copies (loads_findPageInBlockWithPageId _ _))
      intro o
      cases o with
      | none => exact Within.pure _
      | some page =>
          apply Within.bind
            (Loads.within_copies (loads_findBestPageInBlock _ _))
          intro o
          cases o with
          | none => exact Within.pure _
          | some page =>
              apply Within.bind (hStill (still_getTag _ _))
              intro tag
              apply Within.bind (hBuf buffers_bufClone)
              intro o
              cases o with
              | none => exact Within.pure _
              | some b =>
                  apply Within.bind (hStill (still_getInfo _))
                  intro w
                  apply Within.bind
                    (hStill (still_flashReadPage _ _ _ _))
                  intro ret
                  apply Within.ite
                  · apply Within.bind
                      (hBuf (buffers_bufFreeClone b))
                    intro _
                    exact Within.pure _
                  · apply Within.bind (hBuf (buffers_setBuf b _))
                    intro _
                    have hEnd : Within ok
                        (Copies (· = goodBlock) bc x) (do
                          let ret ← flashWritePageCombine
                            goodBlock i b
                            { tag with
                              blockTs := getNextBlockTimeStamp
                                tag.blockTs }
                          let _ ← bufFreeClone b
                          if ret.isBadBlock then
                            pure .newBad
                          else if ret = .ioErr then
                            pure (.finished false true)
                          else do
                            noteNotStored goodBlock i
                              { tag with
                                blockTs :=
                                  getNextBlockTimeStamp
                                    tag.blockTs }
                            copyFrom bc newBc goodBlock n
                              (i + 1) true) := by
                      apply Within.bind (hQuiet
                        (quiet_flashWritePageCombine _ _ _ rfl))
                      intro ret
                      apply Within.bind
                        (hBuf (buffers_bufFreeClone b))
                      intro _
                      apply Within.ite (Within.pure _)
                      apply Within.ite (Within.pure _)
                      apply Within.bind
                        (hStill (still_noteWhen _ _))
                      intro _
                      exact ih _ _
                    cases newBc with
                    | none => exact hEnd
                    | some c =>
                        apply Within.bind
                          (hQuiet (quiet_setTag _ _ _))
                        intro _
                        exact hEnd

end Copying

------------------------------------------------------------
-- Replacing a Pending Block
------------------------------------------------------------

section Replacing

variable {strict : Bool} {s : Dev} {E B : List Nat}
  {own : Nat → Nat} {k bc bad good : Nat}

omit [Platform] in
theorem TreeNode.setBlock_spec (x : TreeNode) (b : Nat) :
    (x.setBlock b).block = b ∧
      (x.setBlock b).type = x.type ∧
      (x.setBlock b).hash x.type = x.hash x.type := by
  cases x with
  | list _ _ _ _ => exact ⟨rfl, rfl, rfl⟩
  | dir _ _ _ _ => exact ⟨rfl, rfl, rfl⟩
  | file _ _ _ _ _ => exact ⟨rfl, rfl, rfl⟩
  | data _ _ _ _ => exact ⟨rfl, rfl, rfl⟩

/- All nodes are given back, and the hash entries stay. -/
theorem GivesBack.steady
    {t : Dev}
    (h : GivesBack strict [] own s t) : Steady strict s t := by
  rcases h with ⟨hBc, E', B', own', hSound, hKept⟩
  exact
    { bc := hBc
      entry := hKept.entry
      suspend := hKept.suspend
      allocated := hKept.allocated
      whole := ⟨E', B', own', hSound⟩ }

theorem wlp_pendingSucc
    (h : s.Sound strict E B [good] own)
    (hIn : bad ∈ s.tree.entryNodes)
    (hCurrent : s.pending.Recovering k (own bad))
    (hBlock : (s.tree.node good).listBlock = own good) :
    wlp (Allowed strict) (pendingSucc k bc bad good)
      (fun _ t => Steady strict s t) s := by
  have hNe : bad ≠ good :=
    h.ne_of_held List.mem_cons_self
      (List.mem_append_right _ hIn)
  have hSpec := (s.tree.node bad).setBlock_spec (own good)
  have hTake := h.takeFiled hIn (fun n => n.setBlock (own good))
    hSpec.1 hSpec.2.1 hSpec.2.2
  obtain ⟨own', hOwn⟩ :
      ∃ own', own' = own ∘ Equiv.swap bad good := ⟨_, rfl⟩
  have hOwnGood : own' good = own bad := by
    rw [hOwn, Function.comp_apply, Equiv.swap_apply_right]
  rw [← hOwn] at hTake
  unfold pendingSucc
  rw [wlp_bind, wlp_getNode, hBlock, wlp_bind, wlp_setNode,
    wlp_bind]
  refine wlp_mono (quiet_blockInfoExpireAll (W := nowhere)
    (A := nowhere) bc _) ?_
  intro _ t ht
  have hSoundT := hTake.quiet ht (fun _ _ => id)
  have hCurrentT := ht.pending k (own bad)
    (fun _ => False.elim) hCurrent
  rw [wlp_bind, wlp_get, hCurrentT.slot, wlp_bind, wlp_setNode]
  have hSet := hSoundT.setHeld List.mem_cons_self
    (fun n => n.setListBlock (own bad))
  have hSteady : ∀ u, GivesBack strict [] own'
      { t with
        tree := t.tree.setNode good fun n =>
          n.setListBlock (own bad) } u →
        Steady strict s u := by
    intro u hu
    have hEnd := GivesBack.steady hu
    refine ⟨?_, ?_, ?_, ?_, hEnd.whole⟩
    · exact ht.bc.trans hEnd.bc
    · rw [hEnd.entry, Tree.setNode_entry, ht.tree]
      exact s.tree.setNode_entry _
    · rw [hEnd.suspend, Tree.setNode_suspend, ht.tree]
      exact s.tree.setNode_suspend _
    · rw [hEnd.allocated, Tree.setNode_allocated, ht.tree]
      exact s.tree.setNode_allocated _
  have hNew : ((t.tree.setNode good fun n =>
      n.setListBlock (own bad)).node good).listBlock =
        own' good := by
    rw [Tree.setNode_same, hOwnGood]
    rfl
  have hBad : wlp (Allowed strict) (badBlockProcessNode good)
      (fun _ u => Steady strict s u)
      { t with
        tree := t.tree.setNode good fun n =>
          n.setListBlock (own bad) } := by
    refine wlp_mono (wlp_setBad hSet hNew) ?_
    intro _ u hu
    exact hSteady u hu.1
  have hErase : wlp (Allowed strict) (do
        treeEraseIgnored good
        treeInsertToErasedListTail good)
      (fun _ u => Steady strict s u)
      { t with
        tree := t.tree.setNode good fun n =>
          n.setListBlock (own bad) } := by
    rw [wlp_bind]
    refine wlp_mono (wlp_discard hSet hNew) ?_
    intro _ u hu
    refine wlp_mono hu ?_
    intro _ v hv
    exact hSteady v hv.1
  cases (t.pending.slot k).mark with
  | recover => exact hBad
  | markBad => exact hBad
  | refresh => exact hErase
  | cleanup => exact hErase

/-
  The recovery of the pending block of slot `k`, begun in
  `s`: node `bad` is filed with that block.
-/
structure Pends
    (strict : Bool)
    (s : Dev)
    (k bc bad : Nat)
    (E B : List Nat)
    (own : Nat → Nat)
    (t : Dev) : Prop where
  sound : t.Sound strict E B [] own
  filed : bad ∈ t.tree.entryNodes
  current : t.pending.Recovering k (own bad)
  block : (t.bc.info bc).block = own bad
  keeps : s.bc.Keeps t.bc
  refCount :
    (s.bc.info bc).refCount < (t.bc.info bc).refCount
  entry : t.tree.entry = s.tree.entry
  suspend : t.tree.suspend = s.tree.suspend
  allocated : t.tree.allocated = s.tree.allocated

theorem Pends.steady
    {t u : Dev}
    (h : Pends strict s k bc bad E B own t)
    (hSteady : Steady strict t u) :
    Steady strict s u where
  bc := h.keeps.trans hSteady.bc
  entry := hSteady.entry.trans h.entry
  suspend := hSteady.suspend.trans h.suspend
  allocated := hSteady.allocated.trans h.allocated
  whole := hSteady.whole

theorem Pends.put
    {t u : Dev}
    (h : Pends strict s k bc bad E B own t)
    (hSteady : Steady strict t u) :
    wlp (Allowed strict) (blockInfoPut bc)
      (fun _ v => Steady strict s v) u :=
  (h.steady hSteady).put
    (Nat.lt_of_lt_of_le h.refCount (hSteady.bc.refs bc))

/- The block info of the good block, if any, is put back. -/
omit [Platform] in
theorem wlp_putIfCached
    {ok : Event → Prop}
    {t u : Dev}
    (newBc : Option Nat)
    (h : t.bc.Keeps u.bc)
    (hHeld : ∀ c, newBc = some c →
      (t.bc.info c).refCount < (u.bc.info c).refCount) :
    wlp ok (putIfCached newBc)
      (fun _ v => v = { u with bc := v.bc } ∧
        t.bc.Keeps v.bc) u := by
  unfold putIfCached
  cases newBc with
  | none =>
      dsimp only
      rw [wlp_pure]
      exact ⟨rfl, h⟩
  | some c => exact wlp_blockInfoPut h (hHeld c rfl)

theorem wlp_pendingOnce
    {t : Dev}
    {retry : M Unit}
    (h : Pends strict s k bc bad E B own t)
    (hRetry : ∀ u E B own,
      Pends strict s k bc bad E B own u →
        wlp (Allowed strict) retry
          (fun _ v => Steady strict s v) u) :
    wlp (Allowed strict) (pendingOnce k bc bad retry)
      (fun _ v => Steady strict s v) t := by
  unfold pendingOnce
  rw [wlp_bind]
  refine wlp_mono (wlp_treeGetErasedNode h.sound) ?_
  intro o u hu
  rcases hu with ⟨hBeside, _, E', B', own', hKept, hu⟩
  cases o with
  | none =>
      apply h.put
      exact GivesBack.steady ⟨hBeside.bc, E', B', own', hu, hKept⟩
  | some good =>
      rcases hu with ⟨hSound, hList, hBlock, _, _⟩
      have hBad := hKept.node bad
        (List.mem_append_left _ h.filed)
      dsimp only
      rw [wlp_bind, wlp_getNode, hBlock, wlp_bind]
      refine wlp_mono (wlp_blockInfoFindInCache (own' good) u) ?_
      intro newBc v hv
      have hQuiet : Quiet nowhere nowhere u v := by
        cases newBc with
        | none =>
            dsimp only at hv
            rw [hv]
            exact .refl _
        | some c => exact hv.quiet
      have hHeld : ∀ c, newBc = some c →
          (u.bc.info c).refCount < (v.bc.info c).refCount := by
        intro c hc
        rw [hc] at hv
        dsimp only at hv
        rw [hv.refCount]
        exact Nat.lt_succ_self _
      have hBlockV : (v.bc.info bc).block = own' bad := by
        have hPos : 0 < (t.bc.info bc).refCount :=
          Nat.lt_of_le_of_lt (Nat.zero_le _) h.refCount
        rw [(hBeside.bc.trans hQuiet.bc).block bc hPos, hBad.2]
        exact h.block
      have hPosV : 0 < (v.bc.info bc).refCount :=
        Nat.lt_of_lt_of_le
          (Nat.lt_of_le_of_lt (Nat.zero_le _) h.refCount)
          ((hBeside.bc.trans hQuiet.bc).refs bc)
      rw [wlp_bind]
      refine wlp_mono (Loads.within_copies
        (W := (· = own' good)) (x := own' bad)
        (loads_blockInfoLoadAll bc) v) ?_
      intro _ w hw
      have hCopy : Within (Allowed strict)
          (Copies (· = own' good) bc (own' bad))
          (copyFrom bc newBc (own' good) pagesPerBlock 0
            false) := copies_copyFrom newBc _ _ 0 false
      rw [wlp_bind]
      refine wlp_mono (hCopy w) ?_
      intro r x hx
      have hWorks : Works (· = own' good) (own' bad) v x :=
        trans_of (Copies (· = own' good) bc (own' bad)) hw hx
          hBlockV hPosV
      have hCurrent : x.pending.Recovering k (own' bad) := by
        apply hWorks.pending
        apply hQuiet.pending k _ (fun _ => False.elim)
        apply hBeside.pending
        rw [hBad.2]
        exact h.current
      have hKeeps := hQuiet.bc.trans hWorks.busy.bc
      have hPut : wlp (Allowed strict) (putIfCached newBc)
          (fun _ y => y = { x with bc := y.bc } ∧
            u.bc.Keeps y.bc) x :=
        wlp_putIfCached newBc hKeeps
          (fun c hc => Nat.lt_of_lt_of_le (hHeld c hc)
            (hWorks.busy.bc.refs c))
      have hTree := hWorks.busy.tree.trans hQuiet.tree
      have hSoundX : x.Sound strict E' B' [good] own' :=
        (hSound.quiet hQuiet (fun _ _ => id)).write
          (List.mem_append_right _ List.mem_cons_self)
          hWorks.busy
      have hAfter : ∀ y : Dev, y = { x with bc := y.bc } →
          u.bc.Keeps y.bc →
            y.Sound strict E' B' [good] own' ∧
              (y.tree.node good).listBlock = own' good ∧
              y.pending.Recovering k (own' bad) ∧
              y.tree = u.tree ∧ t.bc.Keeps y.bc := by
        intro y hy hBc
        rw [hy]
        refine ⟨hSoundX.setBc _, ?_, hCurrent, hTree,
          hBeside.bc.trans hBc⟩
        dsimp only
        rw [hTree]
        exact hBlock
      have hSteady : ∀ y z, y.tree = u.tree →
          t.bc.Keeps y.bc → Steady strict y z →
            Steady strict t z := by
        intro y z hy hBc hz
        refine ⟨hBc.trans hz.bc, ?_, ?_, ?_, hz.whole⟩
        · rw [hz.entry, hy, hKept.entry]
        · rw [hz.suspend, hy, hKept.suspend]
        · rw [hz.allocated, hy, hKept.allocated]
      cases r with
      | newBad =>
          dsimp only
          rw [wlp_bind]
          refine wlp_mono hPut ?_
          intro _ y hy
          rcases hAfter y hy.1 hy.2 with
            ⟨hSoundY, hBlockY, hCurrentY, hTreeY, hBcY⟩
          rw [wlp_bind]
          refine wlp_mono (wlp_setBad hSoundY hBlockY) ?_
          intro _ z hz
          rcases hz with
            ⟨⟨hBcZ, E₂, B₂, own₂, hSoundZ, hKeptZ⟩, hBesideZ⟩
          have hKeptAll : Kept [] own own₂ t z := by
            apply hKept.trans
            apply Kept.trans (.of_tree own' hTreeY)
            exact hKeptZ
          have hBadZ := hKeptAll.node bad
            (List.mem_append_left _ h.filed)
          have hBcAll := hBcY.trans hBcZ
          apply hRetry z E₂ B₂ own₂
          exact
            { sound := hSoundZ
              filed := by
                rw [t.tree.entryNodes_congr hKeptAll.entry]
                exact h.filed
              current := by
                rw [hBadZ.2, ← hBad.2]
                exact hBesideZ.pending _ _ hCurrentY
              block := by
                rw [hBadZ.2, hBcAll.block bc
                  (Nat.lt_of_le_of_lt (Nat.zero_le _)
                    h.refCount)]
                exact h.block
              keeps := h.keeps.trans hBcAll
              refCount := Nat.lt_of_lt_of_le h.refCount
                (hBcAll.refs bc)
              entry := hKeptAll.entry.trans h.entry
              suspend := hKeptAll.suspend.trans h.suspend
              allocated := hKeptAll.allocated.trans
                h.allocated }
      | finished succ dirty =>
          dsimp only
          rw [wlp_bind]
          refine wlp_mono hPut ?_
          intro _ y hy
          rcases hAfter y hy.1 hy.2 with
            ⟨hSoundY, hBlockY, hCurrentY, hTreeY, hBcY⟩
          have hEnd : ∀ z, Steady strict y z →
              wlp (Allowed strict) (blockInfoPut bc)
                (fun _ v => Steady strict s v) z :=
            fun z hz => h.put (hSteady y z hTreeY hBcY hz)
          cases succ with
          | true =>
              rw [if_pos rfl, wlp_bind]
              refine wlp_mono (wlp_pendingSucc hSoundY ?_
                hCurrentY hBlockY) ?_
              · rw [hTreeY,
                  t.tree.entryNodes_congr hKept.entry]
                exact h.filed
              · intro _ z hz
                exact hEnd z hz
          | false =>
              simp only [Bool.false_eq_true, if_false]
              cases dirty with
              | true =>
                  simp only [if_true, wlp_bind]
                  refine wlp_mono
                    (wlp_discard hSoundY hBlockY) ?_
                  intro _ z hz
                  refine wlp_mono hz ?_
                  intro _ z' hz'
                  exact hEnd z' (GivesBack.steady hz'.1)
              | false =>
                  simp only [Bool.false_eq_true, if_false,
                    wlp_bind]
                  refine wlp_mono
                    (wlp_noteNotBlank (own' good) y rfl) ?_
                  intro _ z hz
                  refine wlp_mono
                    (wlp_treeInsertToErasedListTail
                      (hSoundY.still hz.1) ?_ hz.2) ?_
                  · rw [hz.1.tree]
                    exact hBlockY
                  · intro _ z' hz'
                    apply hEnd z'
                    apply Steady.after _ hz.1.tree
                      (GivesBack.steady hz'.1)
                    rw [hz.1.bc]
                    exact .refl _

theorem wlp_pendingFuel (fuel : Nat) :
    ∀ u E B own, Pends strict s k bc bad E B own u →
      wlp (Allowed strict) (pendingFuel k bc bad fuel)
        (fun _ v => Steady strict s v) u := by
  induction fuel with
  | zero =>
      intro u E B own h
      unfold pendingFuel
      apply wlp_pendingOnce h
      intro _ _ _ _ _
      rw [wlp_diverge]
      trivial
  | succ fuel ih =>
      intro u E B own h
      unfold pendingFuel
      exact wlp_pendingOnce h ih

/- A node that is found by its block is filed with it. -/
omit [Platform] in
theorem wlp_treeFindNodeByBlock
    {ok : Event → Prop}
    (block : Nat) :
    wlp ok (treeFindNodeByBlock block)
      (fun o t => t = s ∧ ∀ n type, o = some (n, type) →
        n ∈ s.tree.entryNodes ∧
          (s.tree.node n).block = block) s := by
  unfold treeFindNodeByBlock
  rw [wlp_gets]
  refine ⟨rfl, ?_⟩
  intro n type hFound
  have hHere : ∀ l : List Nat,
      l.find? (fun x => (s.tree.node x).block == block) =
        some n →
        n ∈ l ∧ (s.tree.node n).block = block := by
    intro l hl
    have hProp := List.find?_some hl
    rw [beq_iff_eq] at hProp
    exact ⟨List.mem_of_find?_eq_some hl, hProp⟩
  have hData : ∀ type, n ∈ s.tree.region type →
      n ∈ s.tree.entryNodes := fun _ => Tree.region_entryNodes
  dsimp only at hFound
  split at hFound
  · rename_i m hFind
    cases hFound
    have hIn := hHere _ hFind
    exact ⟨hData .data hIn.1, hIn.2⟩
  · split at hFound
    · rename_i m hFind
      cases hFound
      have hIn := hHere _ hFind
      exact ⟨hData .file hIn.1, hIn.2⟩
    · split at hFound
      · rename_i m hFind
        cases hFound
        have hIn := hHere _ hFind
        exact ⟨hData .dir hIn.1, hIn.2⟩
      · cases hFound

theorem wlp_processPendingRecover
    (h : s.Sound strict E B [] own)
    (hCurrent : s.pending.Recovering k
      (s.pending.slot k).block) :
    wlp (Allowed strict) (processPendingRecover k)
      (fun _ t => Steady strict s t) s := by
  unfold processPendingRecover
  rw [wlp_bind, wlp_get, wlp_bind]
  refine wlp_mono (wlp_blockInfoGet _ s) ?_
  intro o t ht
  cases o with
  | none =>
      rw [wlp_pure]
      exact (h.quiet ht (fun _ _ => id)).steady ht.bc ht.tree
  | some bc =>
      dsimp only at ht ⊢
      have hSound := h.quiet ht.quiet (fun _ _ => id)
      have hRef : (s.bc.info bc).refCount <
          (t.bc.info bc).refCount := by
        rw [ht.refCount]
        exact Nat.lt_succ_self _
      rw [wlp_bind]
      refine wlp_mono (wlp_treeFindNodeByBlock _) ?_
      intro o u hu
      rcases hu with ⟨hSame, hFound⟩
      subst hSame
      cases o with
      | none =>
          exact (hSound.steady ht.quiet.bc ht.quiet.tree).put
            hRef
      | some q =>
          rcases q with ⟨bad, type⟩
          rcases hFound bad type rfl with ⟨hIn, hBlock⟩
          have hOwn : own bad = (s.pending.slot k).block := by
            rw [← hSound.parts.block bad
              (List.mem_append_right _ hIn), hBlock]
          apply wlp_pendingFuel
          exact
            { sound := hSound
              filed := hIn
              current := by
                rw [hOwn]
                exact ht.quiet.pending k _
                  (fun _ => False.elim) hCurrent
              block := by
                rw [hOwn]
                exact ht.block
              keeps := ht.quiet.bc
              refCount := hRef
              entry := by rw [ht.quiet.tree]
              suspend := by rw [ht.quiet.tree]
              allocated := by rw [ht.quiet.tree] }

/- A change of the pending list alone. -/
theorem Runs.pending (p : Pending) :
    Runs strict s { s with pending := p } := by
  intro hWhole
  rcases hWhole with ⟨E, B, own, hSound⟩
  apply Steady.goes
  exact ⟨.refl _, rfl, rfl, rfl, E, B, own,
    hSound.parts, hSound.clean, hSound.handed⟩

theorem runs_badBlockRecoverFuel (fuel : Nat) :
    Within (Allowed strict) (Runs strict)
      (badBlockRecoverFuel fuel) := by
  have hEnd : Within (Allowed strict) (Runs strict)
      (Prog.modify fun s =>
        { s with pending := { s.pending with
            blockInRecovery := invalidBlock } }) := by
    apply Within.modify
    intro s
    exact .pending _
  induction fuel with
  | zero =>
      unfold badBlockRecoverFuel haveBadBlock
      apply Within.bind (Within.gets _)
      intro _
      exact Within.ite Within.diverge hEnd
  | succ fuel ih =>
      unfold badBlockRecoverFuel haveBadBlock
      apply Within.bind (Within.gets _)
      intro _
      apply Within.ite _ hEnd
      apply runs_of
      intro s hWhole
      have hTake : Runs strict s
          { s with
            pending := { s.pending with
              count := s.pending.count - 1
              blockInRecovery :=
                (s.pending.slot (s.pending.count - 1)).block } } :=
        .pending _
      have hGoes := hTake hWhole
      rcases hGoes.whole hWhole with ⟨E, B, own, hSound⟩
      rw [wlp_bind, wlp_modify, wlp_bind, wlp_get, wlp_bind]
      refine wlp_mono (wlp_processPendingRecover hSound
        ⟨rfl, Nat.le_refl _, rfl⟩) ?_
      intro _ t ht
      refine wlp_mono (ih t) ?_
      intro _ u hu
      have hNext := trans_of (Goes strict) hGoes ht.goes
      exact trans_of (Goes strict) hNext
        (hu (hNext.whole hWhole))

theorem runs_recoverIfPending :
    Within (Allowed strict) (Runs strict) recoverIfPending := by
  unfold recoverIfPending haveBadBlock
  apply Within.bind (Within.gets _)
  intro _
  apply Within.ite _ (Within.pure _)
  exact runs_badBlockRecoverFuel _

end Replacing

end Uffs
