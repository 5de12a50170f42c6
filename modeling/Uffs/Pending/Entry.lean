import Uffs.Pending.Drops

/-
  The recovery of one pending block.

  `process_pending_recover` gets a pointer to a slot behind
  the list.  `processPendingEntry` is the same function with
  the entry passed by value: the two have the same outcome,
  so that the slot holds its entry whenever it is read.

  Main declarations:
    * `processPendingEntry`
    * `Handles`, `Unlists`
    * `alike_processPendingRecover`
-/

namespace Uffs

open Prog

variable [Platform]

------------------------------------------------------------
-- The Entry by Value
------------------------------------------------------------

/- `pendingSucc` with the entry by value -/
def pendingSuccOf
    (e : PendingBlock)
    (bc bad good : Nat) : M Unit := do
  let goodBlock := (← getNode good).listBlock
  setNode bad fun n => n.setBlock goodBlock
  blockInfoExpireAll bc
  setNode good fun n => n.setListBlock e.block
  match e.mark with
  | .recover => badBlockProcessNode good
  | .markBad => badBlockProcessNode good
  | .refresh =>
      treeEraseIgnored good
      treeInsertToErasedListTail good
  | .cleanup =>
      treeEraseIgnored good
      treeInsertToErasedListTail good

/- `pendingOnce` with the entry by value -/
def pendingOnceOf
    (e : PendingBlock)
    (bc bad : Nat)
    (retry : M Unit) : M Unit := do
  match ← treeGetErasedNode with
  | none => blockInfoPut bc
  | some good =>
      let goodBlock := (← getNode good).listBlock
      let newBc ← blockInfoFindInCache goodBlock
      let _ ← blockInfoLoadAll bc
      match ← copyFrom bc newBc goodBlock pagesPerBlock 0
          false with
      | .newBad =>
          putIfCached newBc
          badBlockProcessNode good
          retry
      | .finished succ dirty =>
          putIfCached newBc
          if succ then
            pendingSuccOf e bc bad good
          else do
            if dirty then
              treeEraseIgnored good
            else
              noteNotBlank goodBlock .usedTakenForClean
            treeInsertToErasedListTail good
          blockInfoPut bc

/- `pendingFuel` with the entry by value -/
def pendingFuelOf (e : PendingBlock) (bc bad : Nat) :
    Nat → M Unit
| 0 => pendingOnceOf e bc bad Prog.diverge
| fuel + 1 =>
    pendingOnceOf e bc bad (pendingFuelOf e bc bad fuel)

/- `process_pending_recover` with the entry by value -/
def processPendingEntry (e : PendingBlock) : M Unit := do
  match ← blockInfoGet e.block with
  | none => pure ()
  | some bc =>
      match ← treeFindNodeByBlock e.block with
      | none => blockInfoPut bc
      | some (bad, _) => pendingFuelOf e bc bad Platform.fuel

------------------------------------------------------------
-- The Entry in Process
------------------------------------------------------------

/-
  Entry `e` lies in slot `k` behind the list and is being
  recovered with block info `bc`.
-/
structure Handles
    (k : Nat)
    (e : PendingBlock)
    (bc : Nat)
    (s : Dev) : Prop where
  current : s.pending.blockInRecovery = e.block
  count : s.pending.count ≤ k
  slot : s.pending.slot k = e
  block : (s.bc.info bc).block = e.block
  inUse : 0 < (s.bc.info bc).refCount

/- The list only lost erased blocks, and the tree is sound. -/
structure Unlists
    (s : Dev)
    (es : List Event)
    (t : Dev) : Prop where
  pending : s.pending.Sheds es t.pending
  queue : ∃ E, t.tree.Queue E

section Handling

variable {k bc bad good : Nat} {e : PendingBlock}
  {s t u : Dev} {es fs : List Event} {E E' : List Nat}

omit [Platform] in
theorem Handles.drops
    (h : Handles k e bc s)
    (hDrops : Drops s es t) : Handles k e bc t where
  current := hDrops.pending.current.trans h.current
  count := Nat.le_trans hDrops.pending.count_le h.count
  slot := (hDrops.pending.slot k h.count).trans h.slot
  block := (hDrops.bc.block bc h.inUse).trans h.block
  inUse := Nat.lt_of_lt_of_le h.inUse (hDrops.bc.refs bc)

theorem Unlists.after
    (h : s.pending.Sheds es t.pending)
    (h' : Unlists t fs u) : Unlists s (es ++ fs) u :=
  ⟨h.trans h'.pending, h'.queue⟩

/- Events before that change nothing. -/
theorem Unlists.behind
    (es : List Event)
    (h : Unlists s fs u) : Unlists s (es ++ fs) u :=
  Unlists.after (.refl _ es) h

/- A node keeps its link. -/
theorem Tree.Queue.setKeep
    {T : Tree}
    {f : TreeNode → TreeNode}
    (n : Nat)
    (h : T.Queue E)
    (hf : ∀ x, (f x).next = x.next) :
    (T.setNode n f).Queue E := by
  constructor
  · apply h.linked.congr
    intro m _
    unfold Tree.setNode
    dsimp only
    by_cases hm : m = n
    · rw [hm, upd_same]
      exact hf _
    · rw [upd_other _ _ hm]
  · exact h.nodup
  · exact h.pool
  · exact h.tail

omit [Platform] in
theorem TreeNode.setBlock_next (x : TreeNode) (b : Nat) :
    (x.setBlock b).next = x.next := by
  cases x <;> rfl

theorem always_copyFrom
    (newBc : Option Nat)
    (goodBlock n : Nat) :
    ∀ j dirty, Always Waits
      (copyFrom bc newBc goodBlock n j dirty) := by
  induction n with
  | zero =>
      intro j dirty
      exact Always.pure _
  | succ n ih =>
      intro j dirty
      unfold copyFrom
      apply (always_findPageFrom bc j _ _).bind
      intro o
      cases o with
      | none => exact Always.pure _
      | some page =>
          apply (always_findBestPageInBlock bc page).bind
          intro o
          cases o with
          | none => exact Always.pure _
          | some page =>
              apply (always_getTag bc page).bind
              intro tag
              apply always_bufClone.bind
              intro o
              cases o with
              | none => exact Always.pure _
              | some b =>
                  apply (always_getInfo bc).bind
                  intro w
                  apply (always_flashReadPage _ _ _ _).bind
                  intro ret
                  apply Always.ite
                  · apply (always_bufFreeClone b).bind
                    intro _
                    exact Always.pure _
                  · apply (always_setBuf b _).bind
                    intro _
                    have hEnd : Always Waits (do
                        let ret ← flashWritePageCombine
                          goodBlock j b
                          { tag with
                            blockTs := getNextBlockTimeStamp
                              tag.blockTs }
                        let _ ← bufFreeClone b
                        if ret.isBadBlock then
                          pure .newBad
                        else if ret = .ioErr then
                          pure (.finished false true)
                        else do
                          noteNotStored goodBlock j
                            { tag with
                              blockTs := getNextBlockTimeStamp
                                tag.blockTs }
                          copyFrom bc newBc goodBlock n
                            (j + 1) true) := by
                      apply (always_flashWritePageCombine
                        _ _ _ _).bind
                      intro ret
                      apply (always_bufFreeClone b).bind
                      intro _
                      apply Always.ite
                      · exact Always.pure _
                      · apply Always.ite
                        · exact Always.pure _
                        · apply (always_noteWhen _ _).bind
                          intro _
                          exact ih _ _
                    cases newBc with
                    | none => exact hEnd
                    | some c =>
                        apply (always_setTag c j _).bind
                        intro _
                        exact hEnd

omit [Platform] in
theorem always_putIfCached (newBc : Option Nat) :
    Always Waits (putIfCached newBc) := by
  unfold putIfCached
  cases newBc with
  | none => exact Always.pure _
  | some c => exact always_blockInfoPut c

------------------------------------------------------------
-- Steps of a Recovery
------------------------------------------------------------

theorem Unlists.of_queue
    (es : List Event)
    (hPending : t.pending = s.pending)
    (h : t.tree.Queue E) : Unlists s es t := by
  refine ⟨?_, E, h⟩
  rw [hPending]
  exact .refl _ es

theorem Drops.unlists
    (hPending : t.pending = s.pending)
    (h : Drops t es u)
    (hQueue : u.tree.Queue E) : Unlists s es u := by
  refine ⟨?_, E, hQueue⟩
  rw [← hPending]
  exact h.pending

theorem wp_treeGetErasedNode_drops
    (h : s.tree.Queue E) :
    wp treeGetErasedNode
      (fun o es t => HandsNode E s o t ∧ Drops s es t) s :=
  (traces_erasedFuel _).1.wp_and (wp_treeGetErasedNode_queue h)

theorem wp_badBlockProcessNode_drops
    (h : s.tree.Queue E)
    (hGood : good ∉ E) :
    wp (badBlockProcessNode good)
      (fun _ es t => t.tree.Queue E ∧ Drops s es t) s := by
  have hPops := wp_badBlockProcessNode_pops h.pops hGood
  apply wp_mono
    ((traces_badBlockProcessNode good).wp_and hPops)
  rintro _ es t ⟨hQueue, hDrops⟩
  exact ⟨hQueue.2.2, hDrops⟩

theorem wp_badBlockProcessNode_unlists
    (hPending : t.pending = s.pending)
    (h : t.tree.Queue E)
    (hGood : good ∉ E) :
    wp (badBlockProcessNode good)
      (fun _ es u => Unlists s es u) t := by
  apply wp_mono (wp_badBlockProcessNode_drops h hGood)
  rintro _ es u ⟨hQueue, hDrops⟩
  exact hDrops.unlists hPending hQueue

/- A node goes back to the end of the erased list. -/
theorem wp_treeInsertToErasedListTail_unlists
    (hPending : t.pending = s.pending)
    (h : t.tree.Queue E)
    (hGood : good ∉ E)
    (hPool : good < nodeCount) :
    wp (treeInsertToErasedListTail good)
      (fun _ es u => Unlists s es u) t := by
  unfold treeInsertToErasedListTail
    treeInsertToErasedListTailEx modifyTree
  rw [wp_modify]
  rcases h.append (some 0) hGood hPool with ⟨E', hQueue, _⟩
  exact Unlists.of_queue [] hPending hQueue

/- Its block is erased before. -/
theorem wp_eraseAndInsert_unlists
    (hPending : t.pending = s.pending)
    (h : t.tree.Queue E)
    (hGood : good ∉ E)
    (hPool : good < nodeCount) :
    wp (do
        treeEraseIgnored good
        treeInsertToErasedListTail good)
      (fun _ es u => Unlists s es u) t := by
  have hErase := wp_treeEraseIgnored_queue h hGood
  apply wp_seq ((traces_treeEraseIgnored good).wp_and hErase)
  rintro _ es u ⟨⟨E', hPops⟩, hDrops⟩
  apply wp_mono (wp_treeInsertToErasedListTail_unlists rfl
    hPops.2.2 (hPops.not_mem hGood) hPool)
  intro _ fs v hv
  apply Unlists.after _ hv
  rw [← hPending]
  exact hDrops.pending

theorem wp_blockInfoPut_unlists
    (hPending : t.pending = s.pending)
    (h : t.tree.Queue E) :
    wp (blockInfoPut bc) (fun _ es u => Unlists s es u) t := by
  unfold blockInfoPut setInfo
  rw [wp_modify]
  exact Unlists.of_queue [] hPending h

theorem wp_insertAndPut_unlists
    (hPending : t.pending = s.pending)
    (h : t.tree.Queue E)
    (hGood : good ∉ E)
    (hPool : good < nodeCount) :
    wp (do
        treeInsertToErasedListTail good
        blockInfoPut bc)
      (fun _ es u => Unlists s es u) t := by
  apply wp_seq (wp_treeInsertToErasedListTail_unlists hPending
    h hGood hPool)
  intro _ es u hu
  rcases hu.queue with ⟨E', hQueue⟩
  apply wp_mono (wp_blockInfoPut_unlists rfl hQueue)
  intro _ fs v hv
  exact Unlists.after hu.pending hv

/- The pointer is read twice in the end. -/
theorem alike_pendingSucc
    (h : Handles k e bc s)
    (hQueue : s.tree.Queue E)
    (hGood : good ∉ E)
    (hPool : good < nodeCount) :
    Alike (pendingSucc k bc bad good)
      (pendingSuccOf e bc bad good)
      (fun _ es t => Unlists s es t) s := by
  unfold pendingSucc pendingSuccOf getNode
  apply Alike.gets
  unfold setNode blockInfoExpireAll setInfo modifyTree
  apply Alike.modify
  apply Alike.modify
  apply Alike.get_left
  dsimp only
  rw [h.slot]
  apply Alike.modify
  apply Alike.same
  have hKeep := hQueue.setKeep bad
    (fun x => x.setBlock_next (s.tree.node good).listBlock)
  have hSet := hKeep.setOther
    (fun n => n.setListBlock e.block) hGood
  cases hMark : e.mark with
  | recover => exact wp_badBlockProcessNode_unlists rfl hSet hGood
  | markBad => exact wp_badBlockProcessNode_unlists rfl hSet hGood
  | refresh =>
      exact wp_eraseAndInsert_unlists rfl hSet hGood hPool
  | cleanup =>
      exact wp_eraseAndInsert_unlists rfl hSet hGood hPool

------------------------------------------------------------
-- One Recovery
------------------------------------------------------------

/- The tree, the list and the block infos in use stay. -/
structure StaysPut (s t : Dev) : Prop where
  tree : t.tree = s.tree
  pending : t.pending = s.pending
  bc : s.bc.Keeps t.bc

omit [Platform] in
theorem StaysPut.trans (h : StaysPut s t) (h' : StaysPut t u) :
    StaysPut s u :=
  ⟨h'.tree.trans h.tree, h'.pending.trans h.pending,
    h.bc.trans h'.bc⟩

omit [Platform] in
theorem StaysPut.drops (es : List Event) (h : StaysPut s t) :
    Drops s es t :=
  Drops.of_silent es h.bc h.pending

omit [Platform] in
theorem wp_blockInfoFindInCache_staysPut (b : Nat) (s : Dev) :
    wp (blockInfoFindInCache b)
      (fun o _ t => StaysPut s t ∧ ∀ c, o = some c →
        (s.bc.info c).refCount < (t.bc.info c).refCount) s := by
  have hSilent := wp_and_wlp (always_blockInfoFindInCache b s)
    (silent_blockInfoFindInCache b s)
  apply wp_mono
    (wp_and_wlp hSilent (wlp_blockInfoFindInCache b s))
  rintro o _ t ⟨⟨hWaits, hPending⟩, hTake⟩
  cases o with
  | none =>
      rw [show t = s from hTake]
      exact ⟨⟨rfl, rfl, .refl _⟩, nofun⟩
  | some i =>
      refine ⟨⟨hWaits.tree, hPending, hTake.quiet.bc⟩, ?_⟩
      intro c hc
      cases hc
      rw [hTake.refCount]
      exact Nat.lt_succ_self _

theorem wp_blockInfoLoadAll_staysPut
    (h : Handles k e bc s) :
    wp (blockInfoLoadAll bc) (fun _ _ t => StaysPut s t) s := by
  have hHears := wp_and_wlp (always_blockInfoLoadAll bc s)
    (hears_blockInfoLoadAll (i := bc) s)
  apply wp_mono
    (wp_and_wlp hHears (loads_blockInfoLoadAll bc s))
  rintro _ _ t ⟨⟨hWaits, hHear⟩, hLoad⟩
  refine ⟨hWaits.tree, ?_, hLoad.quiet.bc⟩
  apply hHear.pending
  rw [h.block]
  exact h.current

theorem wp_copyFrom_staysPut
    (newBc : Option Nat)
    (goodBlock n j : Nat)
    (dirty : Bool)
    (h : Handles k e bc s) :
    wp (copyFrom bc newBc goodBlock n j dirty)
      (fun _ _ t => StaysPut s t) s := by
  have hHears := wp_and_wlp
    (always_copyFrom newBc goodBlock n j dirty s)
    (hears_copyFrom (i := bc) newBc goodBlock n j dirty s)
  apply wp_mono (wp_and_wlp hHears (copies_copyFrom
    (x := e.block) newBc goodBlock n j dirty s))
  rintro _ _ t ⟨⟨hWaits, hHear⟩, hCopy⟩
  refine ⟨hWaits.tree, ?_, (hCopy h.block h.inUse).busy.bc⟩
  apply hHear.pending
  rw [h.block]
  exact h.current

/- What was found in the cache since `s` is put back. -/
omit [Platform] in
theorem wp_putIfCached_staysPut
    (newBc : Option Nat)
    (h : StaysPut s t)
    (hHeld : ∀ c, newBc = some c →
      (s.bc.info c).refCount < (t.bc.info c).refCount) :
    wp (putIfCached newBc) (fun _ _ u => StaysPut s u) t := by
  apply wp_mono (wp_and_wlp (always_putIfCached newBc t)
    (wlp_putIfCached newBc h.bc hHeld))
  rintro _ _ u ⟨hWaits, hSame, hBc⟩
  refine ⟨hWaits.tree.trans h.tree, ?_, hBc⟩
  rw [hSame]
  exact h.pending

theorem alike_pendingOnce
    {retry retry' : M Unit}
    (h : Handles k e bc s)
    (hQueue : s.tree.Queue E)
    (hRetry : ∀ t E', t.tree.Queue E' →
      E'.length < E.length → Handles k e bc t →
        Alike retry retry' (fun _ es u => Unlists t es u) t) :
    Alike (pendingOnce k bc bad retry)
      (pendingOnceOf e bc bad retry')
      (fun _ es t => Unlists s es t) s := by
  unfold pendingOnce pendingOnceOf
  apply Alike.bind (wp_treeGetErasedNode_drops hQueue)
  rintro o es t ⟨⟨E', hPops, hHanded⟩, hDrops⟩
  have hQueueT := hPops.2.2
  cases o with
  | none =>
      apply Alike.same
      apply wp_mono (wp_blockInfoPut_unlists rfl hQueueT)
      intro _ fs u hu
      exact Unlists.after hDrops.pending hu
  | some good =>
      rcases hHanded good rfl with ⟨hIn, hGood, hLess⟩
      have hPool := hQueue.pool good hIn
      have hT := h.drops hDrops
      dsimp only
      unfold getNode
      apply Alike.gets
      apply Alike.bind (wp_blockInfoFindInCache_staysPut _ t)
      rintro newBc es₁ u ⟨hU, hHeld⟩
      have hHandleU := hT.drops (hU.drops [])
      apply Alike.bind (wp_blockInfoLoadAll_staysPut hHandleU)
      intro _ es₂ v hUV
      have hV := hU.trans hUV
      have hHandleV := hT.drops (hV.drops [])
      apply Alike.bind
        (wp_copyFrom_staysPut newBc _ _ _ _ hHandleV)
      intro r es₃ w hVW
      have hW := hV.trans hVW
      have hHeldW : ∀ c, newBc = some c →
          (t.bc.info c).refCount < (w.bc.info c).refCount :=
        fun c hc => Nat.lt_of_lt_of_le (hHeld c hc)
          ((hUV.trans hVW).bc.refs c)
      have hPut := wp_putIfCached_staysPut newBc hW hHeldW
      -- what follows begins with the block infos put back
      have hEnd : ∀ es₄ fs y x, StaysPut t y → Unlists y fs x →
          Unlists s (es ++ (es₁ ++ (es₂ ++ (es₃ ++
            (es₄ ++ fs))))) x := by
        intro es₄ fs y x hY hx
        apply Unlists.after hDrops.pending
        have hUnlists : Unlists t fs x := by
          refine ⟨?_, hx.queue⟩
          rw [← hY.pending]
          exact hx.pending
        exact (((hUnlists.behind es₄).behind es₃).behind
          es₂).behind es₁
      cases r with
      | newBad =>
          apply Alike.bind hPut
          intro _ es₄ y hY
          have hQueueY : y.tree.Queue E' := by
            rw [hY.tree]
            exact hQueueT
          apply Alike.bind
            (wp_badBlockProcessNode_drops hQueueY hGood)
          rintro _ es₅ z ⟨hQueueZ, hDropsZ⟩
          have hZ := (hT.drops (hY.drops [])).drops hDropsZ
          apply Alike.mono (hRetry z E' hQueueZ hLess hZ)
          intro _ fs x hx
          exact hEnd es₄ _ y x hY
            (Unlists.after hDropsZ.pending hx)
      | finished succ dirty =>
          apply Alike.bind hPut
          intro _ es₄ y hY
          have hQueueY : y.tree.Queue E' := by
            rw [hY.tree]
            exact hQueueT
          have hHandleY := hT.drops (hY.drops [])
          cases succ with
          | true =>
              apply Alike.seq (alike_pendingSucc hHandleY
                hQueueY hGood hPool)
              intro _ es₅ z hz
              apply Alike.same
              rcases hz.queue with ⟨E'', hQueueZ⟩
              apply wp_mono (wp_blockInfoPut_unlists rfl hQueueZ)
              intro _ fs x hx
              exact hEnd es₄ _ y x hY
                (Unlists.after hz.pending hx)
          | false =>
              simp only [Bool.false_eq_true, if_false]
              apply Alike.same
              cases dirty with
              | true =>
                  simp only [if_true]
                  have hErase :=
                    wp_treeEraseIgnored_queue hQueueY hGood
                  apply wp_seq
                    ((traces_treeEraseIgnored good).wp_and hErase)
                  rintro _ es₅ z ⟨⟨E'', hPopsZ⟩, hDropsZ⟩
                  apply wp_mono (wp_insertAndPut_unlists rfl
                    hPopsZ.2.2 (hPopsZ.not_mem hGood) hPool)
                  intro _ fs x hx
                  exact hEnd es₄ _ y x hY
                    (Unlists.after hDropsZ.pending hx)
              | false =>
                  simp only [Bool.false_eq_true, if_false]
                  apply wp_seq ((Still.traces
                    (still_noteNotBlank _ _)).wp_and
                      (always_noteNotBlank _ _ y))
                  rintro _ es₅ z ⟨hWaits, hDropsZ⟩
                  have hQueueZ : z.tree.Queue E' := by
                    rw [hWaits.tree]
                    exact hQueueY
                  apply wp_mono (wp_insertAndPut_unlists rfl
                    hQueueZ hGood hPool)
                  intro _ fs x hx
                  exact hEnd es₄ _ y x hY
                    (Unlists.after hDropsZ.pending hx)

/- Each retry comes with fewer nodes. -/
theorem alike_pendingFuel (fuel : Nat) :
    ∀ s E, Handles k e bc s → s.tree.Queue E →
      E.length ≤ fuel →
        Alike (pendingFuel k bc bad fuel)
          (pendingFuelOf e bc bad fuel)
          (fun _ es t => Unlists s es t) s := by
  induction fuel with
  | zero =>
      intro s E h hQueue hFuel
      unfold pendingFuel pendingFuelOf
      apply alike_pendingOnce h hQueue
      intro t E' _ hLess _
      omega
  | succ fuel ih =>
      intro s E h hQueue hFuel
      unfold pendingFuel pendingFuelOf
      apply alike_pendingOnce h hQueue
      intro t E' hQueue' hLess h'
      exact ih t E' h' hQueue' (by omega)

theorem wp_blockInfoGet_takes (b : Nat) (s : Dev) :
    wp (blockInfoGet b)
      (fun o _ t => t.tree = s.tree ∧ t.pending = s.pending ∧
        ∀ i, o = some i → Takes b i s t) s := by
  have hSilent := wp_and_wlp (always_blockInfoGet b s)
    (silent_blockInfoGet b s)
  apply wp_mono (wp_and_wlp hSilent (wlp_blockInfoGet b s))
  rintro o _ t ⟨⟨hWaits, hPending⟩, hTake⟩
  refine ⟨hWaits.tree, hPending, ?_⟩
  intro i hi
  rw [hi] at hTake
  exact hTake

omit [Platform] in
theorem wp_treeFindNodeByBlock_same (b : Nat) (s : Dev) :
    wp (treeFindNodeByBlock b)
      (fun _ es t => t = s ∧ es = []) s := by
  unfold treeFindNodeByBlock
  rw [wp_gets]
  exact ⟨rfl, rfl⟩

/-
  The recovery of the entry in slot `k` is the recovery of
  the entry by value; it returns.
-/
theorem alike_processPendingRecover
    (hFuel : nodeCount ≤ Platform.fuel)
    (hQueue : s.tree.Queue E)
    (hCurrent : s.pending.blockInRecovery = e.block)
    (hCount : s.pending.count ≤ k)
    (hSlot : s.pending.slot k = e) :
    Alike (processPendingRecover k) (processPendingEntry e)
      (fun _ es t => Unlists s es t) s := by
  unfold processPendingRecover processPendingEntry
  apply Alike.get_left
  rw [hSlot]
  apply Alike.bind (wp_blockInfoGet_takes e.block s)
  rintro o es t ⟨hTree, hPending, hTakes⟩
  have hQueueT : t.tree.Queue E := by
    rw [hTree]
    exact hQueue
  cases o with
  | none =>
      apply Alike.same
      rw [wp_pure]
      exact Unlists.of_queue _ hPending hQueueT
  | some bc =>
      have hTake := hTakes bc rfl
      dsimp only
      apply Alike.bind (wp_treeFindNodeByBlock_same e.block t)
      intro found es₁ u hFound
      rw [hFound.1, hFound.2]
      cases found with
      | none =>
          apply Alike.same
          apply wp_mono
            (wp_blockInfoPut_unlists hPending hQueueT)
          intro _ fs v hv
          exact hv.behind es
      | some q =>
          rcases q with ⟨bad, type⟩
          have hHandles : Handles k e bc t := by
            constructor
            · rw [hPending]
              exact hCurrent
            · rw [hPending]
              exact hCount
            · rw [hPending]
              exact hSlot
            · exact hTake.block
            · rw [hTake.refCount]
              exact Nat.succ_pos _
          apply Alike.mono (alike_pendingFuel Platform.fuel t E
            hHandles hQueueT
            (Nat.le_trans hQueueT.length_le hFuel))
          intro _ fs v hv
          apply Unlists.behind es
          refine ⟨?_, hv.queue⟩
          rw [← hPending]
          exact hv.pending

end Handling

end Uffs
