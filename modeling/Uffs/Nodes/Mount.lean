import Uffs.Nodes.Files

/-
  The nodes of the tree after a successful mount, whatever
  the driver answers.

  Main declarations:
    * `wlp_eraseAndFile`, `wlp_eraseAlternative`
    * `wlp_buildValidTreeNode`
    * `wlp_stepOneFrom`, `wlp_stepTwoFrom`, `wlp_stepThreeFrom`
    * `wlp_mount`
-/

namespace Uffs

open Prog

variable [Platform]

------------------------------------------------------------
-- Erasing a Block and Filing Its Node
------------------------------------------------------------

section Filing

variable {strict : Bool} {s : Dev} {E B H : List Nat}
  {own : Nat → Nat} {n : Nat}

/- The block of a held node is erased, and the node filed. -/
theorem wlp_eraseAndFile
    (h : s.Sound strict E B (n :: H) own) :
    wlp (Allowed strict) (eraseAndFile n (own n))
      (fun _ t => GivesBack strict H own s t) s := by
  have hMem : n ∈ n :: H := List.mem_cons_self
  have hNot : n ∉ H := (List.nodup_cons.mp
    (List.nodup_append.mp h.parts.nodup).2.1).1
  have hSet := h.setHeld hMem (fun x => x.setListBlock (own n))
  have hKept := Kept.setHeld h hMem hNot
    (fun x => x.setListBlock (own n))
  unfold eraseAndFile
  rw [wlp_bind, wlp_setNode, wlp_bind]
  refine wlp_mono (wlp_flashEraseBlock (W := (· = own n))
    (A := nowhere) _ rfl) ?_
  intro ret t ht
  have hSound := hSet.writeHeld hMem ht.1
  have hBlock : (t.tree.node n).listBlock = own n := by
    rw [ht.1.tree, Tree.setNode_same]
    rfl
  have hBack : ∀ u, GivesBack strict H own t u →
      GivesBack strict H own s u := by
    intro u hu
    have hBc : s.bc.Keeps t.bc := ht.1.bc
    exact hu.trans hBc (hKept.trans (.of_tree own ht.1.tree))
  split
  · refine wlp_mono (wlp_setBad hSound hBlock) ?_
    intro _ u hu
    exact hBack u hu.1
  · have hInsert : (strict = true → t.Blank (own n)) →
        wlp (Allowed strict) (treeInsertToErasedListTail n)
          (fun _ u => GivesBack strict H own s u) t := by
      intro hBlank
      refine wlp_mono (wlp_treeInsertToErasedListTail hSound
        hBlock hBlank) ?_
      intro _ u hu
      exact hBack u hu.1
    dsimp only
    split
    · unfold note
      rw [wlp_bind, wlp_emit]
      intro hOk
      apply hInsert
      intro hStrict
      cases hOk.2 hStrict
    · rename_i hErr
      simp only [Bool.not_eq_true] at hErr
      apply hInsert
      intro _
      refine ⟨ht.2.clean hErr, ?_⟩
      rw [ht.2.last]
      exact hErr

omit [Platform] in
theorem Quiet.setTree
    {W A : Nat → Prop}
    {s t : Dev}
    (h : Quiet W A s t)
    (T : Tree) :
    Quiet W A { s with tree := T } { t with tree := T } :=
  ⟨rfl, h.page, h.bad, h.erase, h.handed, h.bc, h.buf,
    h.pending⟩

/- A filed node leaves its entry before or after the lists. -/
omit [Platform] in
theorem Tree.breakNode_commute
    {t : Tree}
    {g : Tree → Tree}
    {n : Nat}
    (type : BlockType)
    (hNode : (g t).node n = t.node n)
    (hEntry : (g t).entry = t.entry)
    (hCommute : ∀ d f a, g { t with
      dirEntry := d, fileEntry := f, dataEntry := a } =
        { g t with
          dirEntry := d, fileEntry := f, dataEntry := a }) :
    (g t).breakNode type n = g (t.breakNode type n) := by
  have hDir : (g t).dirEntry = t.dirEntry :=
    congrFun hEntry .dir
  have hFile : (g t).fileEntry = t.fileEntry :=
    congrFun hEntry .file
  have hData : (g t).dataEntry = t.dataEntry :=
    congrFun hEntry .data
  unfold Tree.breakNode
  cases type with
  | dir =>
      have hEq := hCommute (upd t.dirEntry
        (getDirHash (t.node n).serial)
        ((t.dirEntry (getDirHash (t.node n).serial)).erase n))
        t.fileEntry t.dataEntry
      simp only [hNode, hDir]
      rw [hEq]
      rw [← hFile, ← hData]
  | file =>
      have hEq := hCommute t.dirEntry (upd t.fileEntry
        (getFileHash (t.node n).serial)
        ((t.fileEntry
          (getFileHash (t.node n).serial)).erase n))
        t.dataEntry
      simp only [hNode, hFile]
      rw [hEq]
      rw [← hDir, ← hData]
  | data =>
      have hEq := hCommute t.dirEntry t.fileEntry
        (upd t.dataEntry
          (getDataHash (t.node n).parent (t.node n).serial)
          ((t.dataEntry (getDataHash (t.node n).parent
            (t.node n).serial)).erase n))
      simp only [hNode, hData]
      rw [hEq]
      rw [← hDir, ← hFile]
  | resv => rfl

/-
  The alternative block of a node `alt` is erased under the
  node `n`, which was taken for the block being entered; then
  `alt` is broken off and answers for that block.
-/
theorem wlp_eraseAlternative
    {type : BlockType}
    {alt : Nat}
    (h : s.Sound strict E B [n] own)
    (hAlt : alt ∈ s.tree.region type) :
    wlp (Allowed strict) (eraseAndFile n (own alt))
      (fun _ t => s.bc.Keeps t.bc ∧
        t.tree.suspend = s.tree.suspend ∧
        t.tree.allocated = s.tree.allocated ∧
        ∃ E' B' own', own' alt = own n ∧
          Dev.Sound strict
            { t with tree := t.tree.breakNode type alt }
            E' B' [alt] own') s := by
  have hMem : n ∈ [alt, n] :=
    List.mem_cons_of_mem _ List.mem_cons_self
  have hBroken := h.breakOff hAlt
  have hNe : alt ≠ n := by
    apply h.ne_of_held List.mem_cons_self
    exact List.mem_append_right _ (Tree.region_entryNodes hAlt)
  obtain ⟨own', hOwn⟩ :
      ∃ own', own' = own ∘ Equiv.swap alt n := ⟨_, rfl⟩
  have hOwnAlt : own' alt = own n := by
    rw [hOwn, Function.comp_apply, Equiv.swap_apply_left]
  have hOwnN : own' n = own alt := by
    rw [hOwn, Function.comp_apply, Equiv.swap_apply_right]
  have hSwap := hBroken.swap List.mem_cons_self hMem
  rw [← hOwn] at hSwap
  have hSet := hSwap.setHeld hMem
    (fun x => x.setListBlock (own alt))
  unfold eraseAndFile
  rw [wlp_bind, wlp_setNode, wlp_bind]
  refine wlp_mono (wlp_flashEraseBlock (W := (· = own' n))
    (A := nowhere) _ hOwnN.symm) ?_
  intro ret t ht
  have hQuiet := ht.1.setTree
    ((s.tree.breakNode type alt).setNode n fun x =>
      x.setListBlock (own alt))
  have hSound := hSet.writeHeld hMem hQuiet
  have hBc : s.bc.Keeps t.bc := ht.1.bc
  have hBlockT : (t.tree.node n).listBlock = own alt := by
    rw [ht.1.tree, Tree.setNode_same]
    rfl
  have hBlock : (((s.tree.breakNode type alt).setNode n fun x =>
      x.setListBlock (own alt)).node n).listBlock =
        own' n := by
    rw [Tree.setNode_same, hOwnN]
    rfl
  have hErase : [alt, n].erase n = [alt] := by
    rw [List.erase_cons_tail (by simpa using hNe),
      List.erase_cons_head]
  have hIn := Tree.region_entryNodes hAlt
  have hParts := (h.setHeld List.mem_cons_self
    (fun x => x.setListBlock (own alt))).parts
  have hStay : (s.tree.setNode n fun x =>
      x.setListBlock (own alt)).node alt = s.tree.node alt :=
    Tree.setNode_other _ _ hNe
  split
  · unfold badBlockProcessNode
    rw [wlp_bind, wlp_getNode, hBlockT, wlp_bind]
    refine wlp_mono (quiet_flashMarkBadBlock
      (W := (· = own' n)) (A := nowhere) hOwnN.symm t) ?_
    intro _ u hu
    have hTree := hu.tree.trans ht.1.tree
    unfold treeInsertToBadBlockList
    rw [wlp_modifyTree, hTree]
    refine ⟨hBc.trans hu.bc, ?_, ?_, E, n :: B, own', hOwnAlt,
      ?_⟩
    · exact Tree.pushBad_suspend _
    · exact Tree.pushBad_allocated _
    · have hCommute := Tree.breakNode_commute (t := s.tree)
        (g := fun T => (T.setNode n fun x =>
          x.setListBlock (own alt)).pushBad n) (n := alt) type
        ((hParts.pushBad_entryNode List.mem_cons_self hIn).trans
          hStay)
        (Tree.pushBad_entry _)
        (fun d f a => by
          unfold Tree.pushBad Tree.setNode
          cases s.tree.bad <;> rfl)
      dsimp only at hCommute ⊢
      rw [hCommute]
      have hSoundU := hSound.writeHeld hMem
        (hu.setTree ((s.tree.breakNode type alt).setNode n
          fun x => x.setListBlock (own alt)))
      have hPush := hSoundU.pushBad hMem hBlock
      rw [hErase] at hPush
      exact hPush
  · have hInsert : (strict = true → t.Blank (own' n)) →
        wlp (Allowed strict) (treeInsertToErasedListTail n)
          (fun _ u => s.bc.Keeps u.bc ∧
            u.tree.suspend = s.tree.suspend ∧
            u.tree.allocated = s.tree.allocated ∧
            ∃ E' B' own', own' alt = own n ∧
              Dev.Sound strict
                { u with tree := u.tree.breakNode type alt }
                E' B' [alt] own') t := by
      intro hBlank
      unfold treeInsertToErasedListTail
        treeInsertToErasedListTailEx
      rw [wlp_modifyTree, ht.1.tree]
      refine ⟨hBc, ?_, ?_, E ++ [n], B, own', hOwnAlt, ?_⟩
      · exact Tree.appendErased_suspend _ _
      · exact Tree.appendErased_allocated _ _
      · have hCommute := Tree.breakNode_commute (t := s.tree)
          (g := fun T => (T.setNode n fun x =>
            x.setListBlock (own alt)).appendErased n (some 0))
          (n := alt) type
          ((hParts.append_other List.mem_cons_self (some 0)
            (List.mem_append_right _ hIn)).trans hStay)
          (Tree.appendErased_entry _ _)
          (fun d f a => by
            unfold Tree.appendErased Tree.setNode
            cases s.tree.erasedTail <;> rfl)
        dsimp only at hCommute ⊢
        rw [hCommute]
        have hAppend := hSound.append hMem hBlock (some 0)
          (fun hStrict _ => hBlank hStrict)
        rw [hErase] at hAppend
        exact hAppend
    dsimp only
    split
    · unfold note
      rw [wlp_bind, wlp_emit]
      intro hOk
      apply hInsert
      intro hStrict
      cases hOk.2 hStrict
    · rename_i hErr
      simp only [Bool.not_eq_true] at hErr
      apply hInsert
      intro _
      rw [hOwnN]
      refine ⟨ht.2.clean hErr, ?_⟩
      rw [ht.2.last]
      exact hErr

end Filing

------------------------------------------------------------
-- Entering a Block
------------------------------------------------------------

section Entering

variable {strict : Bool} {s : Dev} {E B : List Nat}
  {own : Nat → Nat} {n : Nat}

/- A node that was taken is where it belongs. -/
structure Enters (strict : Bool) (s t : Dev) : Prop where
  bc : s.bc.Keeps t.bc
  suspend : t.tree.suspend = s.tree.suspend
  allocated : t.tree.allocated = s.tree.allocated
  whole : t.Whole strict

theorem GivesBack.enters
    {t : Dev}
    (h : GivesBack strict [] own s t) : Enters strict s t := by
  have hSteady := GivesBack.steady h
  exact ⟨hSteady.bc, hSteady.suspend, hSteady.allocated,
    hSteady.whole⟩

theorem Enters.busy
    {t u : Dev}
    (h : Enters strict s t)
    (hBusy : Busy nowhere t u) : Enters strict s u := by
  rcases h.whole with ⟨E', B', own', hSound⟩
  refine ⟨h.bc.trans hBusy.bc, ?_, ?_, E', B', own',
    hSound.busy hBusy (fun _ _ => id)⟩
  · rw [hBusy.tree]
    exact h.suspend
  · rw [hBusy.tree]
    exact h.allocated

theorem Enters.after
    {t u : Dev}
    (hBusy : Busy nowhere s t)
    (h : Enters strict t u) : Enters strict s u := by
  refine ⟨hBusy.bc.trans h.bc, ?_, ?_, h.whole⟩
  · rw [h.suspend, hBusy.tree]
  · rw [h.allocated, hBusy.tree]

theorem Enters.put
    {t : Dev}
    {i : Nat}
    (h : Enters strict s t)
    (hRef : (s.bc.info i).refCount < (t.bc.info i).refCount) :
    wlp (Allowed strict) (blockInfoPut i)
      (fun _ u => Enters strict s u) t := by
  refine wlp_mono (wlp_blockInfoPut h.bc hRef) ?_
  intro _ u hu
  rcases h.whole with ⟨E', B', own', hSound⟩
  rw [hu.1]
  exact ⟨hu.2, h.suspend, h.allocated, E', B', own',
    hSound.setBc _⟩

theorem wlp_treeProcessPendingBadBlock
    (h : s.Sound strict E B [n] own) :
    wlp (Allowed strict) (treeProcessPendingBadBlock n (own n))
      (fun done t => (done = true → Enters strict s t) ∧
        (done = false → t = s)) s := by
  have hStay : wlp (Allowed strict) (pure false)
      (fun done t => (done = true → Enters strict s t) ∧
        (done = false → t = s)) s := by
    rw [wlp_pure]
    exact ⟨Bool.noConfusion, fun _ => rfl⟩
  unfold treeProcessPendingBadBlock badBlockPendingNodeGet
  rw [wlp_bind, wlp_gets]
  split
  · exact hStay
  · rename_i p _
    cases p.mark with
    | cleanup =>
        dsimp only
        rw [wlp_bind]
        refine wlp_mono (wlp_eraseAndFile h) ?_
        intro _ t ht
        rw [wlp_pure]
        exact ⟨fun _ => GivesBack.enters ht, Bool.noConfusion⟩
    | markBad =>
        have hMem : n ∈ [n] := List.mem_cons_self
        have hSet := h.setHeld hMem
          (fun x => x.setListBlock (own n))
        dsimp only
        rw [wlp_bind, wlp_setNode, wlp_bind]
        refine wlp_mono (wlp_setBad hSet ?_) ?_
        · rw [Tree.setNode_same]
          rfl
        · intro _ t ht
          rw [wlp_pure]
          refine ⟨fun _ => ?_, Bool.noConfusion⟩
          have hEnters := GivesBack.enters ht.1
          exact ⟨hEnters.bc, hEnters.suspend,
            hEnters.allocated, hEnters.whole⟩
    | refresh => exact hStay
    | recover => exact hStay

theorem wlp_loadNameSum
    {bc : Nat}
    (h : s.Sound strict E B [n] own) :
    wlp (Allowed strict) (loadNameSum n bc (own n))
      (fun r t => (r = .processed → Enters strict s t) ∧
        (r ≠ .processed → Busy nowhere s t)) s := by
  have hBusy : ∀ (r : NameSum) t, r ≠ .processed →
      Busy nowhere s t →
        ((r = .processed → Enters strict s t) ∧
          (r ≠ .processed → Busy nowhere s t)) :=
    fun r t hr ht => ⟨fun h => absurd h hr, fun _ => ht⟩
  have hFree : ∀ (r : NameSum) b t, r ≠ .processed →
      Busy nowhere s t →
        wlp (Allowed strict) (do
            let _ ← bufFreeClone b
            pure r)
          (fun r t => (r = .processed → Enters strict s t) ∧
            (r ≠ .processed → Busy nowhere s t)) t := by
    intro r b t hr ht
    rw [wlp_bind]
    refine wlp_mono (buffers_bufFreeClone b t) ?_
    intro _ u hu
    rw [wlp_pure]
    exact hBusy r u hr (ht.trans (.of_buffers hu))
  unfold loadNameSum
  rw [wlp_bind]
  refine wlp_mono (buffers_bufClone s) ?_
  intro o t ht
  have hBusyT : Busy nowhere s t := .of_buffers ht
  cases o with
  | none =>
      rw [wlp_pure]
      exact hBusy _ t NameSum.noConfusion hBusyT
  | some b =>
      dsimp only
      rw [wlp_bind]
      refine wlp_mono (Loads.within_busy (W := nowhere)
        (loads_blockInfoLoadAll bc) t) ?_
      intro r u hu
      have hBusyU := hBusyT.trans hu
      cases r with
      | fail =>
          dsimp only
          rw [wlp_bind]
          refine wlp_mono (wlp_treeProcessPendingBadBlock
            (h.busy hBusyU (fun _ _ => id))) ?_
          intro done v hv
          rw [wlp_bind]
          refine wlp_mono (buffers_bufFreeClone b v) ?_
          intro _ w hw
          rw [wlp_pure]
          cases done with
          | true =>
              refine ⟨fun _ => ?_, fun hr => absurd rfl hr⟩
              apply Enters.after hBusyU
              exact (hv.1 rfl).busy (.of_buffers hw)
          | false =>
              apply hBusy _ w NameSum.noConfusion
              rw [hv.2 rfl] at hw
              exact hBusyU.trans (.of_buffers hw)
      | succ =>
          dsimp only
          rw [wlp_bind]
          refine wlp_mono (Loads.within_busy (W := nowhere)
            (loads_findPageInBlockWithPageId bc 0) u) ?_
          intro o v hv
          have hBusyV := hBusyU.trans hv
          cases o with
          | none => exact hFree _ b v NameSum.noConfusion hBusyV
          | some page =>
              dsimp only
              rw [wlp_bind]
              refine wlp_mono (Loads.within_busy (W := nowhere)
                (loads_findBestPageInBlock bc page) v) ?_
              intro o w hw
              rw [wlp_bind]
              refine wlp_mono (Still.within_busy (W := nowhere)
                (still_flashReadPage _ _ _ _) w) ?_
              intro ret x hx
              rw [wlp_bind]
              refine wlp_mono (busy_badBlockAddByFlashResult
                (W := nowhere) _ ret x) ?_
              intro pending y hy
              have hBusyY := ((hBusyV.trans hw).trans hx).trans
                hy
              split
              · exact hFree _ b y NameSum.noConfusion hBusyY
              · unfold getBuf
                rw [wlp_bind, wlp_gets]
                exact hFree _ b y NameSum.noConfusion hBusyY

theorem wlp_registerNode
    {bc : Nat}
    (tag : Tag)
    (sum : Nat)
    (h : s.Sound strict E B [n] own) :
    wlp (Allowed strict) (registerNode n bc (own n) tag sum)
      (fun _ t => Enters strict s t) s := by
  have hEnd : ∀ t (f : TreeNode → TreeNode),
      Busy nowhere s t → tag.type ≠ .resv →
      (f (t.tree.node n)).type = tag.type →
      (f (t.tree.node n)).block = own n →
        Enters strict s
          { t with
            tree := (t.tree.setNode n f).insertNode tag.type
              n } := by
    intro t f ht hResv hType hBlock
    have hSound := (h.busy ht (fun _ _ => id)).setHeld
      List.mem_cons_self f
    refine ⟨ht.bc, ?_, ?_, E, B, own, ?_⟩
    · dsimp only
      rw [Tree.insertNode_suspend, Tree.setNode_suspend,
        ht.tree]
    · dsimp only
      rw [Tree.insertNode_allocated, Tree.setNode_allocated,
        ht.tree]
    · apply hSound.insert hResv
      · rw [Tree.setNode_same]
        exact hType
      · rw [Tree.setNode_same]
        exact hBlock
  unfold registerNode insertNodeToTree
  cases hType : tag.type with
  | resv =>
      dsimp only
      unfold note
      rw [wlp_bind, wlp_emit]
      intro hOk
      cases hOk.1
  | dir =>
      simp only [wlp_bind, wlp_setNode, wlp_modifyTree, wlp_pure]
      rw [← hType]
      apply hEnd s _ (.refl s)
      · rw [hType]
        decide
      · exact hType.symm
      · rfl
  | file =>
      simp only [wlp_bind, wlp_setNode, wlp_modifyTree, wlp_pure]
      refine wlp_mono (Loads.within_busy (W := nowhere)
        (loads_getBlockFileDataLength bc .file) s) ?_
      intro len t ht
      rw [← hType]
      apply hEnd t _ ht
      · rw [hType]
        decide
      · exact hType.symm
      · rfl
  | data =>
      simp only [wlp_bind, wlp_setNode, wlp_modifyTree, wlp_pure]
      refine wlp_mono (Loads.within_busy (W := nowhere)
        (loads_getBlockFileDataLength bc .data) s) ?_
      intro len t ht
      rw [← hType]
      apply hEnd t _ ht
      · rw [hType]
        decide
      · exact hType.symm
      · rfl

theorem wlp_loadValidNode
    {bc : Nat}
    (tag : Tag)
    (h : s.Sound strict E B [n] own) :
    wlp (Allowed strict) (loadValidNode n bc (own n) tag)
      (fun r t => r = .succ → Enters strict s t) s := by
  unfold loadValidNode
  split
  · rw [wlp_bind]
    refine wlp_mono (wlp_loadNameSum h) ?_
    intro r t ht
    cases r with
    | failed =>
        dsimp only
        rw [wlp_pure]
        exact URet.noConfusion
    | processed =>
        dsimp only
        rw [wlp_pure]
        exact fun _ => ht.1 rfl
    | invalid =>
        have hBusy := ht.2 NameSum.noConfusion
        dsimp only
        rw [wlp_bind]
        refine wlp_mono (wlp_eraseAndFile
          (h.busy hBusy (fun _ _ => id))) ?_
        intro _ u hu
        rw [wlp_pure]
        exact fun _ => Enters.after hBusy (GivesBack.enters hu)
    | sum k =>
        have hBusy := ht.2 NameSum.noConfusion
        dsimp only
        unfold getTag
        rw [wlp_bind, wlp_gets]
        refine wlp_mono (wlp_registerNode _ k
          (h.busy hBusy (fun _ _ => id))) ?_
        intro _ u hu _
        exact Enters.after hBusy hu
  · refine wlp_mono (wlp_registerNode tag 0 h) ?_
    intro _ u hu _
    exact hu

theorem wlp_buildValidTreeNode
    {bc : Nat}
    (h : s.Sound strict E B [n] own)
    (hBlock : (s.bc.info bc).block = own n) :
    wlp (Allowed strict) (buildValidTreeNode n bc)
      (fun r t => r = .succ → Enters strict s t) s := by
  unfold buildValidTreeNode
  rw [wlp_bind, wlp_getInfo, hBlock, wlp_bind]
  refine wlp_mono (Loads.within_busy (W := nowhere)
    (loads_blockInfoLoad bc 0) s) ?_
  intro r t ht
  have hSoundT := h.busy ht (fun _ _ => id)
  cases r with
  | fail =>
      dsimp only
      rw [wlp_bind]
      refine wlp_mono
        (wlp_treeProcessPendingBadBlock hSoundT) ?_
      intro done u hu
      split
      · rename_i hDone
        rw [wlp_pure]
        exact fun _ => Enters.after ht (hu.1 hDone)
      · rw [wlp_pure]
        exact URet.noConfusion
  | succ =>
      have hErase : wlp (Allowed strict) (do
            eraseAndFile n (own n)
            pure URet.succ)
          (fun r u => r = .succ → Enters strict s u) t := by
        rw [wlp_bind]
        refine wlp_mono (wlp_eraseAndFile hSoundT) ?_
        intro _ u hu
        rw [wlp_pure]
        exact fun _ => Enters.after ht (GivesBack.enters hu)
      dsimp only
      unfold getTag
      rw [wlp_bind, wlp_gets]
      generalize ((t.bc.info bc).spares 0).tag = tag
      split
      · rw [wlp_pure]
        exact URet.noConfusion
      · split
        · exact hErase
        · rw [wlp_bind]
          refine wlp_mono (wlp_findFromTree _ _ _) ?_
          intro o u hu
          rcases hu with ⟨hSame, hFound⟩
          subst hSame
          cases o with
          | none =>
              refine wlp_mono (wlp_loadValidNode _ hSoundT) ?_
              intro r v hv hr
              exact Enters.after ht (hv hr)
          | some alt =>
              have hAlt := (hFound alt rfl).1
              have hOwnAlt : (u.tree.node alt).block = own alt :=
                hSoundT.parts.block alt (List.mem_append_right _
                  (Tree.region_entryNodes hAlt))
              dsimp only
              rw [wlp_bind, wlp_getNode, hOwnAlt]
              split
              · rw [wlp_pure]
                exact URet.noConfusion
              · rw [wlp_bind]
                refine wlp_mono (wlp_blockInfoGet (own alt) u) ?_
                intro o v hv
                cases o with
                | none =>
                    rw [wlp_pure]
                    exact URet.noConfusion
                | some bcAlt =>
                    dsimp only at hv ⊢
                    rw [wlp_bind]
                    refine wlp_mono (Loads.within_busy
                      (W := nowhere)
                      (loads_blockInfoLoad bcAlt 0) v) ?_
                    intro _ w hw
                    have hBusy : Busy nowhere s w :=
                      (ht.trans (.of_quiet hv.quiet)).trans hw
                    have hSoundW := h.busy hBusy (fun _ _ => id)
                    have hRef : (u.bc.info bcAlt).refCount <
                        (w.bc.info bcAlt).refCount := by
                      have hLe := hw.bc.refs bcAlt
                      rw [hv.refCount] at hLe
                      exact Nat.lt_of_succ_le hLe
                    have hRefS : (s.bc.info bcAlt).refCount <
                        (w.bc.info bcAlt).refCount :=
                      Nat.lt_of_le_of_lt (ht.bc.refs bcAlt) hRef
                    rw [wlp_bind, wlp_gets]
                    split
                    · rw [wlp_bind]
                      refine wlp_mono
                        (wlp_eraseAndFile hSoundW) ?_
                      intro _ x hx
                      have hEnters := Enters.after hBusy
                        (GivesBack.enters hx)
                      rw [wlp_bind]
                      refine wlp_mono (hEnters.put
                        (Nat.lt_of_lt_of_le hRefS
                          (hx.1.refs bcAlt))) ?_
                      intro _ y hy
                      rw [wlp_pure]
                      exact fun _ => hy
                    · rw [wlp_bind]
                      have hAltW : alt ∈ w.tree.region tag.type := by
                        rw [hw.tree, hv.quiet.tree]
                        exact hAlt
                      refine wlp_mono
                        (wlp_eraseAlternative hSoundW hAltW) ?_
                      intro _ x hx
                      rcases hx with ⟨hBcX, hSuspendX,
                        hAllocatedX, E', B', own', hOwn',
                        hSoundX⟩
                      rw [wlp_bind]
                      refine wlp_mono (wlp_blockInfoPut
                        (hBusy.bc.trans hBcX)
                        (Nat.lt_of_lt_of_le hRefS
                          (hBcX.refs bcAlt))) ?_
                      intro _ y hy
                      unfold breakFromEntry
                      rw [wlp_bind, wlp_modifyTree, ← hOwn']
                      have hTreeY : y.tree = x.tree := by
                        rw [hy.1]
                      have hSoundY := hSoundX.setBc y.bc
                      dsimp only at hSoundY
                      have hSame : { y with
                          tree := y.tree.breakNode tag.type alt } =
                            { x with
                              bc := y.bc
                              tree := x.tree.breakNode tag.type alt }
                          := by
                        rw [hTreeY, hy.1]
                      rw [hSame]
                      refine wlp_mono
                        (wlp_loadValidNode _ hSoundY) ?_
                      intro r z hz hr
                      have hEnters := hz hr
                      refine ⟨hy.2.trans hEnters.bc, ?_, ?_,
                        hEnters.whole⟩
                      · rw [hEnters.suspend]
                        dsimp only
                        rw [Tree.breakNode_suspend, hSuspendX,
                          hBusy.tree]
                      · rw [hEnters.allocated]
                        dsimp only
                        rw [Tree.breakNode_allocated,
                          hAllocatedX, hBusy.tree]

end Entering

------------------------------------------------------------
-- Step One
------------------------------------------------------------

section StepOne

variable {strict : Bool} {s : Dev} {E B : List Nat}
  {own : Nat → Nat} {n : Nat}

theorem loads_scanFrom
    {ok : Event → Prop}
    (bc block page : Nat) :
    Within ok (Busy nowhere) (scanFrom bc block page) := by
  induction page with
  | zero => exact Within.pure _
  | succ page ih =>
      unfold scanFrom
      apply Within.bind
        (Loads.within_busy (loads_blockInfoLoad _ _))
      intro loadStatus
      apply Within.bind (Still.within_busy (still_getTag _ _))
      intro tag
      apply Within.ite (Within.pure _)
      apply Within.ite (Within.pure _)
      apply Within.bind
        (Still.within_busy (still_loadMiniHeader _ _))
      intro o
      cases o with
      | none => exact Within.pure _
      | some status => exact Within.ite (Within.pure _) ih

theorem busy_scanAndFixUnCleanPage
    {ok : Event → Prop}
    (bc : Nat) :
    Within ok (Busy nowhere) (scanAndFixUnCleanPage bc) := by
  have hAdd : ∀ block mark, Within ok (Busy nowhere) (do
      badBlockAdd block mark
      pure URet.succ) := by
    intro block mark
    apply Within.bind (Quiet.within_busy
      (quiet_badBlockAdd (A := (· = block)) mark rfl))
    intro _
    exact Within.pure _
  unfold scanAndFixUnCleanPage
  apply Within.bind (Still.within_busy (still_getInfo bc))
  intro w
  apply Within.bind (loads_scanFrom _ _ _)
  intro r
  cases r with
  | failed => exact Within.pure _
  | clean => exact Within.pure _
  | needCleanup => exact hAdd _ _
  | needRecovery => exact hAdd _ _

theorem wlp_stepOneErased
    (h : s.Sound strict E B [n] own) :
    wlp (Allowed strict) (stepOneErased n (own n))
      (fun r t => r = .succ → Enters strict s t) s := by
  have hMem : n ∈ [n] := List.mem_cons_self
  unfold stepOneErased
  rw [wlp_bind]
  refine wlp_mono (still_loadMiniHeader _ _ s) ?_
  intro o t ht
  have hSoundT := h.still ht
  have hBusyT : Busy (· = own n) s t :=
    .of_quiet (A := nowhere) (.of_still ht)
  cases o with
  | none =>
      rw [wlp_pure]
      exact URet.noConfusion
  | some status =>
      have hRest : ∀ (ret : FlashRet) u,
          Busy (· = own n) t u →
          wlp (Allowed strict) (do
              setNode n fun x => x.setListBlock (own n)
              if ret.isBadBlock then
                badBlockProcessNode n
              else
                treeInsertToErasedListTailEx n (some 1)
              pure URet.succ)
            (fun r v => r = .succ → Enters strict s v) u := by
        intro ret u hu
        have hSoundU := hSoundT.write
          (List.mem_append_right _ hMem) hu
        have hBusyU := hBusyT.trans hu
        have hSet := hSoundU.setHeld hMem
          (fun x => x.setListBlock (own n))
        have hBlock : ((u.tree.setNode n fun x =>
            x.setListBlock (own n)).node n).listBlock =
              own n := by
          rw [Tree.setNode_same]
          rfl
        have hEnd : ∀ v, Enters strict
            { u with
              tree := u.tree.setNode n fun x =>
                x.setListBlock (own n) } v →
              Enters strict s v := by
          intro v hv
          refine ⟨hBusyU.bc.trans hv.bc, ?_, ?_, hv.whole⟩
          · rw [hv.suspend]
            dsimp only
            rw [Tree.setNode_suspend, hBusyU.tree]
          · rw [hv.allocated]
            dsimp only
            rw [Tree.setNode_allocated, hBusyU.tree]
        rw [wlp_bind, wlp_setNode]
        dsimp only
        split
        · rw [wlp_bind]
          refine wlp_mono (wlp_setBad hSet hBlock) ?_
          intro _ v hv
          rw [wlp_pure]
          exact fun _ => hEnd v (GivesBack.enters hv.1)
        · unfold treeInsertToErasedListTailEx
          rw [wlp_bind, wlp_modifyTree, wlp_pure]
          intro _
          have hAppend := hSet.append hMem hBlock (some 1)
            (fun _ hZero => absurd hZero Nat.one_ne_zero)
          rw [List.erase_cons_head] at hAppend
          apply hEnd
          exact ⟨.refl _, Tree.appendErased_suspend _ _,
            Tree.appendErased_allocated _ _, _, B, own,
            hAppend⟩
      dsimp only
      split
      · rw [wlp_bind]
        refine wlp_mono (quiet_flashEraseBlock
          (W := (· = own n)) (A := nowhere) rfl t) ?_
        intro ret u hu
        exact hRest ret u (.of_quiet hu)
      · rw [wlp_bind, wlp_pure]
        exact hRest _ t (.refl t)

theorem wlp_stepOneUsed
    {bc : Nat}
    (h : s.Sound strict E B [n] own)
    (hBlock : (s.bc.info bc).block = own n)
    (hInUse : 0 < (s.bc.info bc).refCount) :
    wlp (Allowed strict) (stepOneUsed n bc (own n))
      (fun r t => r = .succ → Enters strict s t) s := by
  unfold stepOneUsed
  rw [wlp_bind]
  refine wlp_mono (wlp_treeProcessPendingBadBlock h) ?_
  intro done t ht
  cases done with
  | true =>
      rw [if_pos rfl, wlp_pure]
      exact fun _ => ht.1 rfl
  | false =>
      have hSame := ht.2 rfl
      subst hSame
      simp only [Bool.false_eq_true, if_false, wlp_bind]
      refine wlp_mono (busy_scanAndFixUnCleanPage bc t) ?_
      intro r u hu
      cases r with
      | fail =>
          dsimp only
          rw [wlp_pure]
          exact URet.noConfusion
      | succ =>
          have hSoundU := h.busy hu (fun _ _ => id)
          dsimp only
          rw [wlp_bind]
          refine wlp_mono
            (wlp_treeProcessPendingBadBlock hSoundU) ?_
          intro done v hv
          cases done with
          | true =>
              rw [if_pos rfl, wlp_pure]
              exact fun _ => Enters.after hu (hv.1 rfl)
          | false =>
              have hSame := hv.2 rfl
              subst hSame
              simp only [Bool.false_eq_true, if_false]
              refine wlp_mono (wlp_buildValidTreeNode hSoundU
                ?_) ?_
              · rw [hu.bc.block bc hInUse]
                exact hBlock
              · intro r w hw hr
                exact Enters.after hu (hw hr)

/- One more node is allocated, and where it belongs. -/
structure Mounts
    (strict : Bool)
    (k : Nat)
    (s t : Dev) : Prop where
  bc : s.bc.Keeps t.bc
  suspend : t.tree.suspend = s.tree.suspend
  allocated : t.tree.allocated = s.tree.allocated + k
  whole : t.Whole strict

theorem wlp_stepOneNode
    {bc : Nat}
    (h : s.Sound strict E B [] own)
    (hBlock : (s.bc.info bc).block =
      parStart + s.tree.allocated)
    (hInUse : 0 < (s.bc.info bc).refCount) :
    wlp (Allowed strict)
      (stepOneNode bc (parStart + s.tree.allocated))
      (fun r t => r = .succ → Mounts strict 1 s t) s := by
  unfold stepOneNode treeNodeGet
  simp only [wlp_bind, wlp_get]
  split
  · rw [wlp_bind, wlp_modifyTree, wlp_pure]
    dsimp only
    obtain ⟨own', hOwn⟩ : ∃ own', own' = upd own
      s.tree.allocated (parStart + s.tree.allocated) := ⟨_, rfl⟩
    have hOwnN : own' s.tree.allocated =
        parStart + s.tree.allocated := by
      rw [hOwn, upd_same]
    have hAlloc : Dev.Sound strict
        { s with
          tree := { s.tree with
            allocated := s.tree.allocated + 1 } }
        E B [s.tree.allocated] own' := by
      rw [hOwn]
      refine ⟨h.parts.alloc, ?_, h.handed⟩
      intro hStrict m hm hZero
      have hLt : m < s.tree.allocated := h.parts.lt
        (List.mem_append_left _ (List.mem_append_left _
          (List.mem_append_left _ hm)))
      rw [upd_other _ _ (Nat.ne_of_lt hLt)]
      exact h.clean hStrict m hm hZero
    have hMem : s.tree.allocated ∈ [s.tree.allocated] :=
      List.mem_cons_self
    have hMounts : ∀ t, Enters strict
        { s with
          tree := { s.tree with
            allocated := s.tree.allocated + 1 } } t →
          Mounts strict 1 s t :=
      fun t ht => ⟨ht.bc, ht.suspend, ht.allocated, ht.whole⟩
    rw [← hOwnN] at hBlock ⊢
    rw [wlp_bind]
    refine wlp_mono (still_flashIsBadBlock _ _) ?_
    intro bad t ht
    have hSoundT := hAlloc.still ht
    have hBusyT : Busy nowhere _ t :=
      .of_quiet (A := nowhere) (.of_still ht)
    cases bad with
    | true =>
        have hSet := hSoundT.setHeld hMem
          (fun x => x.setListBlock (own' s.tree.allocated))
        have hPush := hSet.pushBad hMem
          (by rw [Tree.setNode_same]; rfl)
        rw [List.erase_cons_head] at hPush
        unfold treeInsertToBadBlockList
        rw [if_pos rfl, wlp_bind, wlp_setNode, wlp_bind,
          wlp_modifyTree, wlp_pure]
        intro _
        refine ⟨hBusyT.bc, ?_, ?_, _, _, _, hPush⟩
        · dsimp only
          rw [Tree.pushBad_suspend, Tree.setNode_suspend,
            ht.tree]
        · dsimp only
          rw [Tree.pushBad_allocated, Tree.setNode_allocated,
            ht.tree]
    | false =>
        simp only [Bool.false_eq_true, if_false, wlp_bind]
        refine wlp_mono (Loads.within_busy (W := nowhere)
          (loads_isPageErased bc 0) t) ?_
        intro erased u hu
        have hBusyU := hBusyT.trans hu
        have hSoundU := hAlloc.busy hBusyU (fun _ _ => id)
        split
        · refine wlp_mono (wlp_stepOneErased hSoundU) ?_
          intro r v hv hr
          exact hMounts v (Enters.after hBusyU (hv hr))
        · refine wlp_mono (wlp_stepOneUsed hSoundU ?_ ?_) ?_
          · rw [hBusyU.bc.block bc hInUse]
            exact hBlock
          · exact Nat.lt_of_lt_of_le hInUse (hBusyU.bc.refs bc)
          · intro r v hv hr
            exact hMounts v (Enters.after hBusyU (hv hr))
  · rw [wlp_pure]
    dsimp only
    rw [wlp_pure]
    exact URet.noConfusion

theorem wlp_stepOneBlock
    (h : s.Whole strict) :
    wlp (Allowed strict)
      (stepOneBlock (parStart + s.tree.allocated))
      (fun r t => r = .succ → Mounts strict 1 s t) s := by
  rcases h with ⟨E, B, own, hSound⟩
  unfold stepOneBlock
  rw [wlp_bind]
  refine wlp_mono (wlp_blockInfoGet _ s) ?_
  intro o t ht
  cases o with
  | none =>
      rw [wlp_pure]
      exact URet.noConfusion
  | some bc =>
      dsimp only at ht ⊢
      have hSoundT := hSound.quiet ht.quiet (fun _ _ => id)
      have hRef : (s.bc.info bc).refCount <
          (t.bc.info bc).refCount := by
        rw [ht.refCount]
        exact Nat.lt_succ_self _
      have hBlock := ht.block
      rw [← ht.quiet.tree] at hBlock ⊢
      rw [wlp_bind]
      refine wlp_mono (wlp_stepOneNode hSoundT hBlock
        (Nat.lt_of_le_of_lt (Nat.zero_le _) hRef)) ?_
      intro r u hu
      rw [wlp_bind]
      cases r with
      | fail =>
          apply wlp_of_forall
          intro _ v
          rw [wlp_pure]
          exact URet.noConfusion
      | succ =>
          have hMounts := hu rfl
          refine wlp_mono (wlp_blockInfoPut
            (ht.quiet.bc.trans hMounts.bc)
            (Nat.lt_of_lt_of_le hRef (hMounts.bc.refs bc))) ?_
          intro _ v hv
          rcases hMounts.whole with ⟨E', B', own', hSoundU⟩
          rw [wlp_pure]
          intro _
          rw [hv.1]
          refine ⟨hv.2, ?_, ?_, E', B', own', hSoundU.setBc _⟩
          · rw [← ht.quiet.tree]
            exact hMounts.suspend
          · rw [← ht.quiet.tree]
            exact hMounts.allocated

theorem wlp_stepOneFrom (k : Nat) :
    ∀ s : Dev, s.Whole strict →
      wlp (Allowed strict)
        (stepOneFrom k (parStart + s.tree.allocated))
        (fun r t => r = .succ → Mounts strict k s t) s := by
  induction k with
  | zero =>
      intro s h
      unfold stepOneFrom
      rw [wlp_pure]
      exact fun _ => ⟨.refl _, rfl, rfl, h⟩
  | succ k ih =>
      intro s h
      unfold stepOneFrom
      rw [wlp_bind]
      refine wlp_mono (wlp_stepOneBlock h) ?_
      intro r t ht
      cases r with
      | fail =>
          dsimp only
          rw [wlp_pure]
          exact URet.noConfusion
      | succ =>
          have hOne := ht rfl
          have hNext := ih t hOne.whole
          rw [hOne.allocated] at hNext
          dsimp only
          refine wlp_mono hNext ?_
          intro r u hu hr
          have hRest := hu hr
          refine ⟨hOne.bc.trans hRest.bc,
            hRest.suspend.trans hOne.suspend, ?_, hRest.whole⟩
          rw [hRest.allocated, hOne.allocated]
          omega

end StepOne

------------------------------------------------------------
-- Steps Two and Three
------------------------------------------------------------

section Later

variable {strict : Bool}

theorem wlp_stepTwoFrom (k : Nat) :
    ∀ s : Dev, s.Whole strict →
      wlp (Allowed strict) (stepTwoFrom k)
        (fun _ t => Enters strict s t) s := by
  induction k with
  | zero =>
      intro s h
      unfold stepTwoFrom
      rw [wlp_pure]
      exact ⟨.refl _, rfl, rfl, h⟩
  | succ k ih =>
      intro s h
      rcases h with ⟨E, B, own, hSound⟩
      unfold stepTwoFrom
      rw [wlp_bind]
      refine wlp_mono wlp_treeGetErasedNodeNoCheck ?_
      intro o t ht
      cases o with
      | none =>
          dsimp only
          rw [wlp_pure, ht]
          exact ⟨.refl _, rfl, rfl, E, B, own, hSound⟩
      | some x =>
          rcases ht with ⟨T, hPop, hEq⟩
          rcases take hSound hPop with
            ⟨E', hTaken, hKept, _, hBlock, hBlank⟩
          rw [← hEq] at hTaken hKept
          have hTree : t.tree = T := by
            rw [hEq]
          have hBc : t.bc = s.bc := by
            rw [hEq]
          have hBlankT : ∀ b, t.Blank b ↔ s.Blank b := by
            intro b
            rw [hEq]
            exact Iff.rfl
          rw [← hTree] at hBlock hBlank
          have hAppend := hTaken.append List.mem_cons_self hBlock
            none (fun hStrict hZero =>
              (hBlankT _).mpr (hBlank hStrict hZero))
          rw [List.erase_cons_head] at hAppend
          dsimp only
          unfold treeInsertToErasedListTailEx
          rw [wlp_bind, wlp_modifyTree]
          refine wlp_mono (ih _ ⟨_, B, own, hAppend⟩) ?_
          intro _ u hu
          refine ⟨?_, ?_, ?_, hu.whole⟩
          · rw [← hBc]
            exact hu.bc
          · rw [hu.suspend]
            dsimp only
            rw [Tree.appendErased_suspend]
            exact hKept.suspend
          · rw [hu.allocated]
            dsimp only
            rw [Tree.appendErased_allocated]
            exact hKept.allocated

omit [Platform] in
theorem Tree.mem_region_breakNode
    {t : Tree}
    {type type' : BlockType}
    {n m : Nat}
    (hNe : m ≠ n)
    (h : m ∈ t.region type) :
    m ∈ (t.breakNode type' n).region type := by
  have hUpd : ∀ (f : Nat → List Nat) (j k : Nat),
      m ∈ f k → m ∈ upd f j ((f j).erase n) k := by
    intro f j k hIn
    by_cases hk : k = j
    · subst hk
      rw [upd_same]
      exact (List.mem_erase_of_ne hNe).mpr hIn
    · rw [upd_other _ _ hk]
      exact hIn
  rcases List.mem_flatMap.mp h with ⟨k, hk, hIn⟩
  apply List.mem_flatMap.mpr
  refine ⟨k, hk, ?_⟩
  cases type <;> cases type' <;>
    first
      | exact hIn
      | exact hUpd _ _ _ hIn

/- The other DATA nodes stay in their region. -/
theorem wlp_stepThreeNode
    {s : Dev}
    {work : Nat}
    (h : s.Whole strict)
    (hIn : work ∈ s.tree.region .data) :
    wlp (Allowed strict) (stepThreeNode work)
      (fun _ t => Enters strict s t ∧
        ∀ m ∈ s.tree.region .data, m ≠ work →
          m ∈ t.tree.region .data) s := by
  rcases h with ⟨E, B, own, hSound⟩
  have hOwn : (s.tree.node work).block = own work :=
    hSound.parts.block work (List.mem_append_right _
      (Tree.region_entryNodes hIn))
  unfold stepThreeNode
  rw [wlp_bind, wlp_getNode, wlp_bind]
  refine wlp_mono (wlp_findFromTree .file 0 _) ?_
  intro o t ht
  have hSame := ht.1
  subst hSame
  cases o with
  | none =>
      have hSet := (hSound.breakOff hIn).setHeld
        List.mem_cons_self (fun x => .list none none x.block 0)
      dsimp only
      unfold breakFromEntry
      rw [wlp_bind, wlp_modifyTree, wlp_bind, wlp_setNode, hOwn]
      refine wlp_mono (wlp_eraseAndFile hSet) ?_
      intro _ u hu
      have hEnters := GivesBack.enters hu
      rcases hu with ⟨_, _, _, _, _, hKept⟩
      refine ⟨⟨hEnters.bc, ?_, ?_, hEnters.whole⟩, ?_⟩
      · rw [hEnters.suspend]
        dsimp only
        rw [Tree.setNode_suspend, Tree.breakNode_suspend]
      · rw [hEnters.allocated]
        dsimp only
        rw [Tree.setNode_allocated, Tree.breakNode_allocated]
      · intro m hm hNe
        rw [Tree.region_congr hKept.entry]
        dsimp only
        rw [Tree.region_congr (Tree.setNode_entry _ _)]
        exact Tree.mem_region_breakNode hNe hm
  | some n =>
      dsimp only
      rw [wlp_setNode]
      have hLen := hSound.inPlace n
        (TreeNode.inPlace_setLen fun x =>
          x.len + (t.tree.node work).len)
      refine ⟨⟨.refl _, rfl, rfl, E, B, own, hLen⟩, ?_⟩
      intro m hm _
      rw [Tree.region_congr (t.tree.setNode_entry _)]
      exact hm

theorem Enters.trans
    {s t u : Dev}
    (h : Enters strict s t)
    (h' : Enters strict t u) : Enters strict s u :=
  ⟨h.bc.trans h'.bc, h'.suspend.trans h.suspend,
    h'.allocated.trans h.allocated, h'.whole⟩

theorem wlp_stepThreeChain (l : List Nat) :
    ∀ s : Dev, s.Whole strict → l.Nodup →
      (∀ m ∈ l, m ∈ s.tree.region .data) →
      wlp (Allowed strict) (stepThreeChain l)
        (fun _ t => Enters strict s t) s := by
  induction l with
  | nil =>
      intro s h _ _
      unfold stepThreeChain
      rw [wlp_pure]
      exact ⟨.refl _, rfl, rfl, h⟩
  | cons work rest ih =>
      intro s h hNodup hIn
      have hCons := List.nodup_cons.mp hNodup
      unfold stepThreeChain
      rw [wlp_bind]
      refine wlp_mono (wlp_stepThreeNode h
        (hIn work List.mem_cons_self)) ?_
      intro _ t ht
      refine wlp_mono (ih t ht.1.whole hCons.2 ?_) ?_
      · intro m hm
        apply ht.2 m (hIn m (List.mem_cons_of_mem _ hm))
        intro hEq
        rw [hEq] at hm
        exact hCons.1 hm
      · intro _ u hu
        exact ht.1.trans hu

/- The nodes of one hash entry are distinct. -/
theorem Tree.Parts.nodup_dataEntry
    {t : Tree}
    {E B H : List Nat}
    {own : Nat → Nat}
    {i : Nat}
    (h : t.Parts E B H own)
    (hi : i < 512) : (t.dataEntry i).Nodup := by
  have hEntry : t.entryNodes.Nodup :=
    (List.nodup_append.mp
      (List.nodup_append.mp h.nodup).1).2.1
  have hData : (t.region .data).Nodup :=
    (List.nodup_append.mp hEntry).2.1
  unfold Tree.region at hData
  rw [List.nodup_flatMap] at hData
  exact hData.1 i (List.mem_range.mpr hi)

theorem wlp_stepThreeFrom (n : Nat) :
    ∀ i (s : Dev), s.Whole strict → i + n ≤ 512 →
      wlp (Allowed strict) (stepThreeFrom n i)
        (fun _ t => Enters strict s t) s := by
  induction n with
  | zero =>
      intro i s h _
      unfold stepThreeFrom
      rw [wlp_pure]
      exact ⟨.refl _, rfl, rfl, h⟩
  | succ n ih =>
      intro i s h hLe
      have hi : i < 512 := by omega
      unfold stepThreeFrom
      rw [wlp_bind, wlp_get, wlp_bind]
      refine wlp_mono (wlp_stepThreeChain _ s h ?_ ?_) ?_
      · rcases h with ⟨E, B, own, hSound⟩
        exact hSound.parts.nodup_dataEntry hi
      · intro m hm
        exact List.mem_flatMap.mpr
          ⟨i, List.mem_range.mpr hi, hm⟩
      · intro _ t ht
        refine wlp_mono (ih (i + 1) t ht.whole (by omega)) ?_
        intro _ u hu
        exact ht.trans hu

------------------------------------------------------------
-- Mounting
------------------------------------------------------------

theorem Goes.enters
    {s t : Dev}
    (h : Goes strict s t)
    (hWhole : s.Whole strict) : Enters strict s t :=
  ⟨h.bc, h.suspend, h.allocated, h.whole hWhole⟩

/- The empty tree: no node has been allocated. -/
theorem whole_init
    {s : Dev}
    (hTree : s.tree = Tree.init)
    (hHanded : strict = true →
      s.watch.usedHandedOut = false) : s.Whole strict := by
  refine ⟨[], [], fun n => n, ?_, ?_, hHanded⟩
  · rw [hTree]
    exact Tree.Parts.init
  · intro _ n hn
    cases hn

theorem wlp_buildTree
    {s : Dev}
    (hTree : s.tree = Tree.init)
    (hHanded : strict = true →
      s.watch.usedHandedOut = false) :
    wlp (Allowed strict) buildTree
      (fun r t => r = .succ → t.Settled strict) s := by
  have hWhole := whole_init hTree hHanded
  have hClear : ({ s with
      tree := { s.tree with
        bad := none
        badCount := 0
        erased := none
        erasedTail := none
        erasedCount := 0 } } : Dev) = s := by
    have hSame : { s.tree with
        bad := none
        badCount := 0
        erased := none
        erasedTail := none
        erasedCount := 0 } = s.tree := by
      rw [hTree]
      rfl
    rw [hSame]
  have hStart : parStart = parStart + s.tree.allocated := by
    rw [hTree]
    rfl
  have hOne : wlp (Allowed strict) buildTreeStepOne
      (fun r t => r = .succ → Mounts strict nodeCount s t) s := by
    unfold buildTreeStepOne
    rw [wlp_bind, wlp_modifyTree, hClear, hStart]
    exact wlp_stepOneFrom nodeCount s hWhole
  unfold buildTree
  rw [wlp_bind]
  refine wlp_mono hOne ?_
  intro r t ht
  cases r with
  | fail =>
      dsimp only
      rw [wlp_pure]
      exact URet.noConfusion
  | succ =>
      have hMounts := ht rfl
      dsimp only
      rw [wlp_bind]
      refine wlp_mono (runs_recoverIfPending t) ?_
      intro _ u hu
      have hRecover := (hu hMounts.whole).enters hMounts.whole
      unfold buildTreeStepTwo
      rw [wlp_bind, wlp_bind]
      refine wlp_mono (pageLayer_runs.pageBase.getCurDateTime u) ?_
      intro now v hv
      have hTime := (hv hRecover.whole).enters hRecover.whole
      rw [wlp_bind, wlp_get]
      refine wlp_mono (wlp_stepTwoFrom _ v hTime.whole) ?_
      intro r w hw
      cases r with
      | fail =>
          dsimp only
          rw [wlp_pure]
          exact URet.noConfusion
      | succ =>
          dsimp only
          rw [wlp_bind]
          refine wlp_mono (wlp_stepThreeFrom 512 0 w hw.whole
            (Nat.le_refl _)) ?_
          intro _ x hx
          rw [wlp_bind]
          refine wlp_mono (runs_recoverIfPending x) ?_
          intro _ y hy
          rw [wlp_pure]
          intro _
          have hAll := (((hRecover.trans hTime).trans hw).trans
            hx).trans ((hy hx.whole).enters hx.whole)
          refine ⟨hAll.whole, ?_, ?_⟩
          · rw [hAll.suspend, hMounts.suspend, hTree]
            rfl
          · rw [hAll.allocated, hMounts.allocated, hTree]
            exact Nat.zero_add _

/-
  A successful mount leaves every node where it belongs; in
  a strict run no used block has been handed out before.
-/
theorem wlp_mount
    {s : Dev}
    (hHanded : strict = true →
      s.watch.usedHandedOut = false) :
    wlp (Allowed strict) mount
      (fun r t => r = .succ → t.Settled strict) s := by
  unfold mount
  rw [wlp_bind, wlp_modify]
  exact wlp_buildTree rfl hHanded

end Later

end Uffs
