import Uffs.Files.Pages
import Uffs.Nodes.Pending

/-
  The nodes of the tree during the operations of the file
  layer, whatever the driver answers.

  Main declarations:
    * `fileLayer_runs`
    * `wlp_deleteNode`
    * `Disposes`, `wlp_deleteObject`
-/

namespace Uffs

open Prog

variable [Platform]

------------------------------------------------------------
-- Lengths and Names of Nodes
------------------------------------------------------------

section Nodes

variable {strict : Bool} {s : Dev} {E B H : List Nat}
  {own : Nat → Nat}

theorem Dev.Sound.inPlace
    {f : TreeNode → TreeNode}
    (h : s.Sound strict E B H own)
    (n : Nat)
    (hf : TreeNode.InPlace f) :
    Dev.Sound strict { s with tree := s.tree.setNode n f }
      E B H own := by
  have hListed : ∀ m ∈ E ++ B,
      (s.tree.setNode n f).node m = s.tree.node m := by
    intro m hm
    by_cases hEq : m = n
    · rw [hEq, Tree.setNode_same]
      apply hf.list
      rw [← hEq]
      exact h.parts.lists m hm
    · exact Tree.setNode_other _ _ hEq
  refine ⟨?_, ?_, h.handed⟩
  · apply h.parts.change rfl
    · intro m hm
      exact ⟨hListed m hm, rfl⟩
    · intro m hm
      have hBlock := h.parts.block m
        (List.mem_append_right _ hm)
      by_cases hEq : m = n
      · subst hEq
        rw [Tree.setNode_same]
        refine ⟨?_, hf.type _, hf.hash _⟩
        rw [hf.block]
        exact hBlock
      · rw [Tree.setNode_other _ _ hEq]
        exact ⟨hBlock, rfl, rfl⟩
    · exact h.parts.owned
  · intro hStrict m hm hZero
    rw [hListed m (List.mem_append_left _ hm)] at hZero
    exact h.clean hStrict m hm hZero

theorem runs_setInPlace
    {ok : Event → Prop}
    {f : TreeNode → TreeNode}
    (n : Nat)
    (hf : TreeNode.InPlace f) :
    Within ok (Runs strict) (setNode n f) := by
  intro s
  rw [wlp_setNode]
  intro hWhole
  rcases hWhole with ⟨E, B, own, hSound⟩
  apply Steady.goes
  exact ⟨.refl _, s.tree.setNode_entry f, rfl, rfl, E, B, own,
    hSound.inPlace n hf⟩

/- A filed node is taken out of its hash entry. -/
theorem Dev.Sound.breakOff
    {n : Nat}
    {type : BlockType}
    (h : s.Sound strict E B H own)
    (hIn : n ∈ s.tree.region type) :
    Dev.Sound strict
      { s with tree := s.tree.breakNode type n }
      E B (n :: H) own where
  parts := h.parts.breakOff hIn
  clean := by
    intro hStrict m hm hZero
    rw [s.tree.breakNode_node type] at hZero
    exact h.clean hStrict m hm hZero
  handed := h.handed

omit [Platform] in
@[simp] theorem Tree.breakNode_suspend
    (t : Tree)
    (type : BlockType)
    (n : Nat) :
    (t.breakNode type n).suspend = t.suspend := by
  cases type <;> rfl

end Nodes

------------------------------------------------------------
-- Pages of a File
------------------------------------------------------------

------------------------------------------------------------
-- Truncating
------------------------------------------------------------

section Truncating

variable {strict : Bool}

/- A block info is got, expired and put back. -/
theorem runs_expireBlock
    {α : Type}
    (block : Nat)
    (a : α) :
    Within (Allowed strict) (Runs strict) (do
      match ← blockInfoGet block with
      | none => pure a
      | some bc =>
          blockInfoExpireAll bc
          blockInfoPut bc
          pure a) := by
  intro s
  rw [wlp_bind]
  refine wlp_mono (wlp_blockInfoGet block s) ?_
  intro o t ht
  cases o with
  | none =>
      rw [wlp_pure]
      exact Busy.runs (.of_quiet ht)
  | some bc =>
      dsimp only at ht ⊢
      rw [wlp_bind]
      refine wlp_mono (quiet_blockInfoExpireAll (W := nowhere)
        (A := nowhere) bc t) ?_
      intro _ u hu
      rw [wlp_bind]
      refine wlp_mono (Runs.put (s := s)
        (Busy.runs (.of_quiet (ht.quiet.trans hu))) ?_) ?_
      · have hLe := hu.bc.refs bc
        rw [ht.refCount] at hLe
        exact Nat.lt_of_succ_le hLe
      · intro _ v hv
        rw [wlp_pure]
        exact hv

/-
  A DATA node has been taken out of the tree and its block
  erased; the nodes `H` are still held.
-/
structure Removes
    (strict : Bool)
    (H : List Nat)
    (own : Nat → Nat)
    (s t : Dev) : Prop where
  bc : s.bc.Keeps t.bc
  suspend : t.tree.suspend = s.tree.suspend
  allocated : t.tree.allocated = s.tree.allocated
  does : s.tree.chains.Does s.tree.allocated ChainAct.Filing
    t.tree.chains
  sound : ∃ E B own', t.Sound strict E B H own' ∧
    ∀ m ∈ H, t.tree.node m = s.tree.node m ∧ own' m = own m
  spares : Spares H own s t

/- The node is out of its hash entry and its block is known. -/
theorem wlp_removeData
    {s : Dev}
    {E B H : List Nat}
    {own : Nat → Nat}
    {n : Nat}
    (h : s.Sound strict E B H own)
    (hIn : n ∈ s.tree.region .data)
    (f : TreeNode → TreeNode)
    (hf : (f (s.tree.node n)).listBlock = own n) :
    wlp (Allowed strict) (treeEraseIgnored n)
      (fun _ t =>
        wlp (Allowed strict) (treeInsertToErasedListTail n)
          (fun _ u => Removes strict H own s u) t)
      { s with
        tree := (s.tree.breakNode .data n).setNode n f } := by
  have hBroken := h.breakOff hIn
  have hSet := hBroken.setHeld List.mem_cons_self f
  have hNotH : n ∉ H := (List.nodup_cons.mp
    (List.nodup_append.mp hBroken.parts.nodup).2.1).1
  refine wlp_mono (wlp_discard hSet ?_) ?_
  · rw [Tree.setNode_same, Tree.breakNode_node]
    exact hf
  · intro _ t ht
    refine wlp_mono ht ?_
    intro _ u hu
    rcases hu with
      ⟨⟨hBc, E', B', own', hSound, hKept⟩, _, hSpares⟩
    have hEntry := hKept.entry
    have hSuspend := hKept.suspend
    have hAllocated := hKept.allocated
    dsimp only at hEntry hSuspend hAllocated
    rw [Tree.setNode_entry] at hEntry
    rw [Tree.setNode_suspend, Tree.breakNode_suspend]
      at hSuspend
    rw [Tree.setNode_allocated, Tree.breakNode_allocated]
      at hAllocated
    refine ⟨hBc, hSuspend, hAllocated, ?_, ?_, hSpares⟩
    · rw [Tree.chains_congr hEntry]
      exact h.parts.does_breakNode hIn rfl
    · refine ⟨E', B', own', hSound, ?_⟩
      intro m hm
      have hStay := hKept.node m (List.mem_append_right _ hm)
      refine ⟨?_, hStay.2⟩
      rw [hStay.1]
      dsimp only
      rw [Tree.setNode_other, Tree.breakNode_node]
      intro hEq
      rw [hEq] at hm
      exact hNotH hm

theorem Removes.goes
    {s t : Dev}
    {own : Nat → Nat}
    (h : Removes strict [] own s t) : Goes strict s t := by
  rcases h.sound with ⟨E, B, own', hSound, _⟩
  exact ⟨h.bc, h.suspend, h.allocated, h.does,
    fun _ => ⟨E, B, own', hSound⟩⟩

theorem runs_truncateBlock
    (obj : Obj)
    (fnode fdn blockStart : Nat)
    (run : RunOption) :
    Within (Allowed strict) (Runs strict)
      (truncateBlock obj fnode fdn blockStart run) := by
  apply runs_of
  intro s hWhole
  rcases hWhole with ⟨E, B, own, hSound⟩
  have hStay : Goes strict s s := refl_of (Goes strict) s
  unfold truncateBlock
  rw [wlp_bind]
  refine wlp_mono (wlp_findFromTree .data obj.serial fdn) ?_
  intro o t ht
  rcases ht with ⟨hSame, hFound⟩
  subst hSame
  cases o with
  | none =>
      dsimp only
      rw [wlp_pure]
      exact hStay
  | some node =>
      rcases hFound node rfl with ⟨hRegion, _, _⟩
      have hOwn : (t.tree.node node).block = own node :=
        hSound.parts.block node (List.mem_append_right _
          (Tree.region_entryNodes hRegion))
      dsimp only
      rw [wlp_bind, wlp_getNode, hOwn, wlp_bind]
      refine wlp_mono (wlp_blockInfoGet (own node) t) ?_
      intro o u hu
      cases o with
      | none =>
          dsimp only
          rw [wlp_pure]
          exact Busy.runs (.of_quiet hu) ⟨E, B, own, hSound⟩
      | some bc =>
          dsimp only at hu ⊢
          rw [wlp_bind, wlp_getNode, wlp_bind]
          refine wlp_mono (Buffers.within_busy (W := nowhere)
            (buffers_discardBlockFrom _ _ run pagesPerBlock 0)
            u) ?_
          intro free v hv
          have hBusy : Busy nowhere t v :=
            (Busy.of_quiet hu.quiet).trans hv
          have hSoundV := hSound.busy hBusy (fun _ _ => id)
          have hSteady := hSoundV.steady hBusy.bc hBusy.tree
          have hRef : (t.bc.info bc).refCount <
              (v.bc.info bc).refCount := by
            have hLe := hv.bc.refs bc
            rw [hu.refCount] at hLe
            exact Nat.lt_of_succ_le hLe
          have hEnd : ∀ (q : Bool × Obj) w, Goes strict t w →
              (t.bc.info bc).refCount <
                (w.bc.info bc).refCount →
              wlp (Allowed strict) (do
                  blockInfoPut bc
                  pure q)
                (fun _ x => Goes strict t x) w := by
            intro q w hw hRefW
            rw [wlp_bind]
            refine wlp_mono (hw.put hRefW) ?_
            intro _ x hx
            rw [wlp_pure]
            exact hx
          split
          · exact hEnd _ v hSteady.goes hRef
          · split
            · have hRegionV : node ∈ v.tree.region .data := by
                rw [hBusy.tree]
                exact hRegion
              have hBlockV :
                  (v.bc.info bc).block = own node := by
                rw [hv.bc.block bc, hu.block]
                rw [hu.refCount]
                exact Nat.succ_pos _
              unfold breakFromEntry
              rw [wlp_bind, wlp_modifyTree, wlp_bind,
                wlp_getInfo, wlp_bind, wlp_setNode, wlp_bind]
              refine wlp_mono (wlp_removeData hSoundV hRegionV
                (fun x => .list none none (v.bc.info bc).block
                  x.listU) hBlockV) ?_
              intro _ w hw
              rw [wlp_bind]
              refine wlp_mono hw ?_
              intro _ x hx
              have hGoes : Goes strict t x :=
                trans_of (Goes strict) hSteady.goes hx.goes
              have hRefX : (t.bc.info bc).refCount <
                  (x.bc.info bc).refCount :=
                Nat.lt_of_lt_of_le hRef (hx.bc.refs bc)
              have hSetLen : Within (Allowed strict)
                  (Runs strict)
                  (setNode fnode fun x => x.setLen blockStart) :=
                runs_setInPlace fnode
                  (TreeNode.inPlace_setLen fun _ => blockStart)
              rw [wlp_bind]
              refine wlp_mono (hSetLen x) ?_
              intro _ y hy
              have hLen := hy (hGoes.whole ⟨E, B, own, hSound⟩)
              apply hEnd
              · exact trans_of (Goes strict) hGoes hLen
              · exact Nat.lt_of_lt_of_le hRefX (hLen.bc.refs bc)
            · exact hEnd _ v hSteady.goes hRef

end Truncating

------------------------------------------------------------
-- The File Layer
------------------------------------------------------------

section Layer

variable {strict : Bool}

theorem pageLayer_runs :
    PageLayer (Allowed strict) (Runs strict) where
  buffers := Buffers.within_runs
  nextAnswer := Still.within_runs still_nextAnswer
  setInPlace n _ hf := runs_setInPlace n hf
  recover := runs_recoverIfPending
  flushSlot := runs_bufFlushSlot
  load := runs_bufLoad
  expireBlock := runs_expireBlock
  truncateBlock := runs_truncateBlock
  watchTruncation _ := by
    apply Within.modify
    intro s
    exact Busy.runs ⟨rfl, fun _ _ => rfl, fun _ _ => rfl,
      fun _ _ => rfl, rfl, .refl _⟩

theorem fileLayer_runs :
    FileLayer (Allowed strict) (Runs strict) where
  toFileBase := pageLayer_runs.fileBase
  refCount f := by
    apply Within.modify
    intro s
    exact Busy.runs ⟨rfl, fun _ _ => rfl, fun _ _ => rfl,
      fun _ _ => rfl, rfl, .refl _⟩

end Layer

------------------------------------------------------------
-- Deleting
------------------------------------------------------------

section Deleting

variable {strict : Bool}

/-
  What the deletion of an object keeps: the block infos and
  the empty list of suspended nodes.  Its node and DATA nodes
  are taken out.
-/
structure Deletes
    (strict : Bool)
    (node : Nat)
    (s t : Dev) : Prop where
  bc : s.bc.Keeps t.bc
  suspend : t.tree.suspend = none
  allocated : t.tree.allocated = s.tree.allocated
  does : s.tree.chains.Does s.tree.allocated
    (ChainAct.Dropping node) t.tree.chains
  whole : t.Whole strict

theorem wlp_deleteDataFrom
    {H : List Nat}
    (parent n : Nat) :
    ∀ serial s E B own, s.Sound strict E B H own →
      wlp (Allowed strict) (deleteDataFrom parent n serial)
        (fun _ t => Removes strict H own s t) s := by
  have hStay : ∀ (s : Dev) E B own, s.Sound strict E B H own →
      Removes strict H own s s := by
    intro s E B own h
    exact ⟨.refl _, rfl, rfl, .refl _,
      ⟨E, B, own, h, fun _ _ => ⟨rfl, rfl⟩⟩, fun _ _ => id⟩
  induction n with
  | zero =>
      intro serial s E B own h
      unfold deleteDataFrom
      rw [wlp_pure]
      exact hStay s E B own h
  | succ n ih =>
      intro serial s E B own h
      unfold deleteDataFrom
      rw [wlp_bind]
      refine wlp_mono (wlp_findFromTree .data parent serial) ?_
      intro o t ht
      rcases ht with ⟨hSame, hFound⟩
      subst hSame
      cases o with
      | none => exact ih _ t E B own h
      | some d =>
          rcases hFound d rfl with ⟨hRegion, _, _⟩
          have hOwn : (t.tree.node d).block = own d :=
            h.parts.block d (List.mem_append_right _
              (Tree.region_entryNodes hRegion))
          dsimp only
          unfold breakFromEntry
          rw [wlp_bind, wlp_modifyTree, wlp_bind, wlp_setNode,
            wlp_bind]
          refine wlp_mono (wlp_removeData h hRegion
            (fun x => .list none none x.block x.listU) hOwn) ?_
          intro _ u hu
          rw [wlp_bind]
          refine wlp_mono hu ?_
          intro _ v hv
          rcases hv.sound with ⟨E', B', own', hSound, hHeld⟩
          refine wlp_mono (ih _ v E' B' own' hSound) ?_
          intro _ w hw
          rcases hw.sound with
            ⟨E₂, B₂, own₂, hSoundW, hHeldW⟩
          refine ⟨hv.bc.trans hw.bc,
            hw.suspend.trans hv.suspend,
            hw.allocated.trans hv.allocated,
            hv.does.trans (hv.allocated ▸ hw.does), ?_, ?_⟩
          · refine ⟨E₂, B₂, own₂, hSoundW, ?_⟩
            intro m hm
            exact ⟨(hHeldW m hm).1.trans (hHeld m hm).1,
              (hHeldW m hm).2.trans (hHeld m hm).2⟩
          · intro m hm hBlank
            have hNext := hw.spares m hm
            rw [(hHeld m hm).2] at hNext
            exact hNext (hv.spares m hm hBlank)

/- A suspended node that is alone is only written itself. -/
omit [Platform] in
theorem Tree.suspendAdd_alone
    (t : Tree)
    (n : Nat)
    (h : t.suspend = none) :
    t.suspendAdd n =
      { t.setNode n fun x => (x.setNext none).setPrev none with
        suspend := some n } := by
  unfold Tree.suspendAdd
  rw [h]

omit [Platform] in
theorem Tree.suspendRemove_alone
    (t : Tree)
    (n : Nat)
    (hSuspend : t.suspend = some n)
    (hPrev : (t.node n).prev = none)
    (hNext : (t.node n).next = none) :
    t.suspendRemove n = { t with suspend := none } := by
  unfold Tree.suspendRemove
  dsimp only
  rw [hPrev, hNext, hSuspend]
  simp

theorem Tree.Parts.setSuspend
    {t : Tree}
    {E B H : List Nat}
    {own : Nat → Nat}
    (h : t.Parts E B H own)
    (o : Option Nat) :
    Tree.Parts { t with suspend := o } E B H own :=
  ⟨h.erased, h.tail, h.count, h.bad, h.badCount, h.perm,
    h.owned, h.lists, h.block, h.hash⟩

theorem Dev.Sound.setSuspend
    {s : Dev}
    {E B H : List Nat}
    {own : Nat → Nat}
    (h : s.Sound strict E B H own)
    (o : Option Nat) :
    Dev.Sound strict
      { s with tree := { s.tree with suspend := o } }
      E B H own :=
  ⟨h.parts.setSuspend o, h.clean, h.handed⟩

theorem wlp_deleteNode
    {s : Dev}
    {E B : List Nat}
    {own : Nat → Nat}
    {node : Nat}
    (obj : Obj)
    (h : s.Sound strict E B [] own)
    (hSuspend : s.tree.suspend = none)
    (hIn : node ∈ s.tree.region obj.type) :
    wlp (Allowed strict) (deleteNode obj node)
      (fun _ t => Deletes strict node s t) s := by
  have hMem : node ∈ [node] := List.mem_cons_self
  have hOwn : (s.tree.node node).block = own node :=
    h.parts.block node (List.mem_append_right _
      (Tree.region_entryNodes hIn))
  unfold deleteNode
  rw [wlp_bind, wlp_getNode]
  dsimp only
  unfold breakFromEntry
  rw [wlp_bind, wlp_modifyTree, wlp_bind, wlp_setNode, wlp_bind]
  have hSet := (h.breakOff hIn).setHeld hMem
    (fun x => .list none none x.block x.listU)
  refine wlp_mono (wlp_treeEraseIgnored hSet hMem ?_) ?_
  · dsimp only
    rw [Tree.setNode_same, Tree.breakNode_node]
    exact hOwn
  · intro _ t ht
    rcases ht with ⟨hBeside, _, E', B', own', hKept, hSound, _,
      _, hBlock, hBlank⟩
    have hSuspendT : t.tree.suspend = none := by
      rw [hKept.suspend]
      dsimp only
      rw [Tree.setNode_suspend, Tree.breakNode_suspend]
      exact hSuspend
    have hAllocatedT : t.tree.allocated = s.tree.allocated := by
      rw [hKept.allocated]
      dsimp only
      rw [Tree.setNode_allocated, Tree.breakNode_allocated]
    have hDoesT : s.tree.chains.Does s.tree.allocated
        (ChainAct.Dropping node) t.tree.chains := by
      rw [Tree.chains_congr (hKept.entry.trans
        (Tree.setNode_entry _ _))]
      exact h.parts.does_breakNode hIn (Or.inr ⟨_, rfl⟩)
    rw [wlp_bind, wlp_setNode, wlp_bind]
    unfold treeSuspendAdd
    rw [wlp_modifyTree]
    dsimp only
    rw [Tree.suspendAdd_alone _ _
      (by rw [Tree.setNode_suspend]; exact hSuspendT), wlp_bind]
    have hListed := (((hSound.setHeld hMem
      (fun x => x.setListU obj.serial)).setHeld hMem
        (fun x => (x.setNext none).setPrev none)).setSuspend
          (some node))
    refine wlp_mono (wlp_deleteDataFrom obj.serial _ 1 _ E' B'
      own' hListed) ?_
    intro _ u hu
    rcases hu.sound with ⟨E₂, B₂, own₂, hSoundU, hHeld⟩
    have hNode := (hHeld node hMem).1
    dsimp only at hNode
    rw [Tree.setNode_same, Tree.setNode_same] at hNode
    have hSuspendU : u.tree.suspend = some node := hu.suspend
    rw [wlp_bind]
    unfold treeRemoveSuspendNode
    rw [wlp_modifyTree, Tree.suspendRemove_alone _ _ hSuspendU
      (by rw [hNode]; rfl) (by rw [hNode]; rfl)]
    refine wlp_mono (wlp_treeInsertToErasedListTail
      (hSoundU.setSuspend none) ?_ ?_) ?_
    · dsimp only
      rw [hNode, (hHeld node hMem).2]
      exact hBlock
    · intro hStrict
      have hStay := hu.spares node hMem (hBlank rfl hStrict)
      rw [(hHeld node hMem).2]
      exact hStay
    · intro _ v hv
      rcases hv.1 with ⟨hBcV, E₃, B₃, own₃, hSoundV, hKeptV⟩
      have hDoesU : t.tree.chains.Does t.tree.allocated
          (ChainAct.Dropping node) u.tree.chains :=
        hu.does.mono fun _ => Or.inl
      refine ⟨?_, hKeptV.suspend, ?_, ?_, E₃, B₃, own₃, hSoundV⟩
      · exact hBeside.bc.trans (hu.bc.trans hBcV)
      · rw [hKeptV.allocated]
        exact hu.allocated.trans hAllocatedT
      · rw [hAllocatedT] at hDoesU
        rw [Tree.chains_congr hKeptV.entry]
        exact hDoesT.trans hDoesU

/-
  The nodes of a device between two operations of the file
  layer.
-/
structure Dev.Settled (strict : Bool) (s : Dev) : Prop where
  whole : s.Whole strict
  suspend : s.tree.suspend = none
  allocated : s.tree.allocated = nodeCount

/- Every operation keeps a settled device settled. -/
def Settles (strict : Bool) (s t : Dev) : Prop :=
  s.Settled strict → t.Settled strict

instance : IsPreorder Dev (Settles strict) where
  refl _ := id
  trans _ _ _ h h' := fun hs => h' (h hs)

theorem Goes.settled
    {s t : Dev}
    (h : Goes strict s t)
    (hs : s.Settled strict) : t.Settled strict :=
  ⟨h.whole hs.whole, h.suspend.trans hs.suspend,
    h.allocated.trans hs.allocated⟩

theorem Runs.settles
    {α : Type}
    {m : M α}
    (h : Within (Allowed strict) (Runs strict) m) :
    Within (Allowed strict) (Settles strict) m :=
  h.mono fun _ _ hRuns hs => (hRuns hs.whole).settled hs

/- The node of an object that was found by name is filed. -/
theorem wlp_findByNameFrom
    (name : List Byte)
    (sum parent : Nat)
    (type : BlockType)
    (nodes : List Nat) :
    ∀ s : Dev, wlp (Allowed strict)
      (findByNameFrom name sum parent type nodes)
      (fun o t => Runs strict s t ∧ ∀ n, o = some n → n ∈ nodes)
      s := by
  induction nodes with
  | nil =>
      intro s
      unfold findByNameFrom
      rw [wlp_pure]
      exact ⟨refl_of (Runs strict) s, fun n hn => by cases hn⟩
  | cons m rest ih =>
      intro s
      have hRest : ∀ t, Runs strict s t →
          wlp (Allowed strict)
            (findByNameFrom name sum parent type rest)
            (fun o u => Runs strict s u ∧
              ∀ n, o = some n → n ∈ m :: rest) t := by
        intro t ht
        refine wlp_mono (ih t) ?_
        intro o u hu
        exact ⟨trans_of (Runs strict) ht hu.1,
          fun n hn => List.mem_cons_of_mem _ (hu.2 n hn)⟩
      unfold findByNameFrom
      rw [wlp_bind, wlp_getNode]
      split
      · rw [wlp_bind]
        refine wlp_mono
          (fileLayer_runs.compareName name sum m type s) ?_
        intro matched t ht
        split
        · rw [wlp_pure]
          refine ⟨ht, ?_⟩
          intro n hn
          cases hn
          exact List.mem_cons_self
        · exact hRest t ht
      · exact hRest s (refl_of (Runs strict) s)

/- The node of an open object is in the region of its type. -/
structure Obj.Filed (s : Dev) (obj : Obj) : Prop where
  type : obj.type ≠ .data
  node : ∀ n, obj.node = some n → n ∈ s.tree.region obj.type

theorem Goes.objFiled
    {s t : Dev}
    {obj : Obj}
    (h : Goes strict s t)
    (hObj : obj.Filed s) : obj.Filed t :=
  ⟨hObj.type,
    fun n hn => h.filed obj.type hObj.type n (hObj.node n hn)⟩

theorem wlp_openObjectEx
    {s : Dev}
    (obj : Obj)
    (dir : Nat)
    (name : List Byte)
    (oflag : OFlag)
    (hWhole : s.Whole strict)
    (hNode : obj.node = none)
    (hCreate : oflag.create = false)
    (hTrunc : oflag.trunc = false) :
    wlp (Allowed strict) (openObjectEx obj dir name oflag)
      (fun q t => Goes strict s t ∧
        (q.1 = .succ → q.2.Filed t)) s := by
  have hStay : Goes strict s s := refl_of (Goes strict) s
  have hType : ∀ b : Bool,
      (if b then BlockType.dir else .file) ≠ .data := by
    intro b
    cases b <;> decide
  have hFail : ∀ (o : Obj) (t : Dev), o.err ≠ .noErr →
      Goes strict s t →
        Goes strict s t ∧ (o.ret = .succ → o.Filed t) := by
    intro o t hErr ht
    refine ⟨ht, ?_⟩
    intro hRet
    unfold Obj.ret at hRet
    rw [if_neg hErr] at hRet
    cases hRet
  have hInval : UErr.inval ≠ .noErr := by decide
  have hNoent : UErr.noent ≠ .noErr := by decide
  unfold openObjectEx
  dsimp only
  simp only [hCreate, hTrunc, Bool.false_eq_true, if_false,
    Bool.false_and]
  cases hDir : oflag.dir with
  | true =>
      simp only [↓reduceIte, Bool.true_and, Bool.not_true,
        Bool.false_and]
      split
      · rw [wlp_pure]
        dsimp only
        refine hFail _ s ?_ hStay
        exact hInval
      · split
        · split
          · rw [wlp_pure]
            dsimp only
            refine hFail _ s ?_ hStay
            exact hInval
          · rw [wlp_pure]
            refine ⟨hStay, fun _ => ⟨?_, ?_⟩⟩
            · exact (by decide : BlockType.dir ≠ .data)
            · intro n hn
              dsimp only at hn
              rw [hNode] at hn
              cases hn
        · unfold treeFindDirNodeByName
          rw [wlp_bind, wlp_bind, wlp_get]
          refine wlp_mono (wlp_findByNameFrom _ _ _ _ _ s) ?_
          intro a t ht
          have hGoes := ht.1 hWhole
          cases a with
          | none =>
              dsimp only
              rw [wlp_pure]
              dsimp only
              refine hFail _ t ?_ hGoes
              exact hNoent
          | some node =>
              dsimp only
              rw [wlp_bind, wlp_getNode, wlp_pure]
              refine ⟨hGoes, fun _ => ⟨?_, ?_⟩⟩
              · exact (by decide : BlockType.dir ≠ .data)
              · intro n hn
                cases hn
                exact hGoes.filed .dir (by decide) node
                  (ht.2 node rfl)
  | false =>
      simp only [↓reduceIte, Bool.false_eq_true, Bool.false_and,
        Bool.not_false, Bool.true_and]
      split
      · rw [wlp_pure]
        dsimp only
        refine hFail _ s ?_ hStay
        exact hInval
      · generalize hObj : (if (decide (name = []) ||
            decide (name.getLast? = some slash)) = true then
          _ else _ : Obj) = o
        have hFile : o.type = .file := by
          rw [← hObj]
          split
          · rfl
          · rfl
        unfold treeFindFileNodeByName
        rw [wlp_bind, wlp_bind, wlp_get]
        refine wlp_mono (wlp_findByNameFrom _ _ _ _ _ s) ?_
        intro a t ht
        have hGoes := ht.1 hWhole
        cases a with
        | none =>
            dsimp only
            rw [wlp_pure]
            dsimp only
            refine hFail _ t ?_ hGoes
            exact hNoent
        | some node =>
            dsimp only
            rw [wlp_bind, wlp_getNode, wlp_pure]
            refine ⟨hGoes, fun _ => ⟨?_, ?_⟩⟩
            · dsimp only
              rw [hFile]
              decide
            · intro n hn
              cases hn
              dsimp only
              rw [hFile]
              exact hGoes.filed .file (by decide) node
                (ht.2 node rfl)

/- A parsed object has no node yet. -/
theorem wlp_parseObject
    {s : Dev}
    (obj : Obj)
    (path : List Byte) :
    wlp (Allowed strict) (parseObject obj path)
      (fun q t => Runs strict s t ∧
        (q.1 = .succ → q.2.node = none)) s := by
  refine wlp_and (fileLayer_runs.parseObject obj path s) ?_
  unfold parseObject
  split
  · rw [wlp_pure]
    intro h
    cases h
  · dsimp only
    cases path with
    | nil =>
        rw [wlp_pure]
        intro h
        cases h
    | cons c start =>
        dsimp only
        split
        · rw [wlp_pure]
          intro h
          cases h
        · rw [wlp_bind, wlp_modify]
          split
          · rw [wlp_pure]
            exact fun _ => rfl
          · rw [wlp_bind]
            apply wlp_of_forall
            intro r t
            split
            · rw [wlp_pure]
              exact fun _ => rfl
            · unfold putDevice
              rw [wlp_bind, wlp_modify, wlp_pure]
              intro h
              cases h

theorem wlp_openObject
    {s : Dev}
    (obj : Obj)
    (path : List Byte)
    (oflag : OFlag)
    (hWhole : s.Whole strict)
    (hCreate : oflag.create = false)
    (hTrunc : oflag.trunc = false) :
    wlp (Allowed strict) (openObject obj path oflag)
      (fun q t => Goes strict s t ∧
        (q.1 = .succ → q.2.Filed t)) s := by
  unfold openObject
  rw [wlp_bind]
  refine wlp_mono (wlp_parseObject obj path) ?_
  intro q t ht
  rcases q with ⟨ret, obj⟩
  have hGoes := ht.1 hWhole
  have hEnd : ∀ o u, Goes strict s u →
      wlp (Allowed strict) (do
          let o ← doReleaseObjectResource o
          pure (URet.fail, o))
        (fun q v => Goes strict s v ∧
          (q.1 = .succ → q.2.Filed v)) u := by
    intro o u hu
    rw [wlp_bind]
    refine wlp_mono (fileLayer_runs.releaseObject o u) ?_
    intro _ v hv
    rw [wlp_pure]
    refine ⟨trans_of (Goes strict) hu (hv (hu.whole hWhole)),
      ?_⟩
    intro h
    cases h
  cases ret with
  | fail =>
      dsimp only
      rw [wlp_bind, wlp_pure]
      exact hEnd _ t hGoes
  | succ =>
      dsimp only
      rw [wlp_bind]
      refine wlp_mono (wlp_openObjectEx obj _ _ oflag
        (hGoes.whole hWhole) (ht.2 rfl) hCreate hTrunc) ?_
      intro r u hu
      rcases r with ⟨ret, obj⟩
      have hGoesU := trans_of (Goes strict) hGoes hu.1
      cases ret with
      | fail => exact hEnd _ u hGoesU
      | succ =>
          dsimp only
          rw [wlp_pure]
          exact ⟨hGoesU, fun _ => hu.2 rfl⟩

/-
  A deletion leaves a settled device, and has taken out at
  most one node that is not a DATA node.
-/
structure Disposes (strict : Bool) (s t : Dev) : Prop where
  settled : t.Settled strict
  does : ∃ node, s.tree.chains.Does nodeCount
    (ChainAct.Dropping node) t.tree.chains

theorem Goes.does_settled
    {s t : Dev}
    (h : Goes strict s t)
    (hs : s.Settled strict)
    (node : Nat) :
    s.tree.chains.Does nodeCount (ChainAct.Dropping node)
      t.tree.chains := by
  have hDoes := h.does
  rw [hs.allocated] at hDoes
  exact hDoes.mono fun _ => Or.inl

/- Nothing is deleted. -/
theorem Goes.disposes
    {s t : Dev}
    (h : Goes strict s t)
    (hs : s.Settled strict) : Disposes strict s t :=
  ⟨h.settled hs, 0, h.does_settled hs 0⟩

/- What comes before a deletion. -/
theorem Disposes.after
    {s t u : Dev}
    (h : Disposes strict t u)
    (hGoes : Goes strict s t)
    (hs : s.Settled strict) : Disposes strict s u := by
  rcases h.does with ⟨node, hDoes⟩
  exact ⟨h.settled, node,
    (hGoes.does_settled hs node).trans hDoes⟩

/- What comes after it. -/
theorem Disposes.before
    {s t u : Dev}
    (h : Disposes strict s t)
    (hGoes : Goes strict t u) : Disposes strict s u := by
  rcases h.does with ⟨node, hDoes⟩
  exact ⟨hGoes.settled h.settled, node,
    hDoes.trans (hGoes.does_settled h.settled node)⟩

theorem wlp_deleteOpened
    {s : Dev}
    (obj : Obj)
    (others : List (Option Nat))
    (hs : s.Settled strict)
    (hObj : obj.Filed s) :
    wlp (Allowed strict) (deleteOpened obj others)
      (fun _ t => Disposes strict s t) s := by
  have hStay : Disposes strict s s :=
    (refl_of (Goes strict) s).disposes hs
  have hDelete : ∀ busy : Bool,
      wlp (Allowed strict)
        (if busy then
          pure (URet.fail, UErr.acces)
        else do
          let _ ← bufFlushAll
          match obj.node with
          | none => Prog.diverge
          | some node =>
              if ← checkObjBufRef obj node then
                deleteNode obj node
                pure (.succ, .noErr)
              else
                pure (.fail, .acces))
        (fun _ t => Disposes strict s t) s := by
    intro busy
    split
    · rw [wlp_pure]
      exact hStay
    · rw [wlp_bind]
      refine wlp_mono (fileLayer_runs.flushAll s) ?_
      intro _ t ht
      have hGoes := ht hs.whole
      cases hNode : obj.node with
      | none =>
          dsimp only
          rw [wlp_diverge]
          trivial
      | some node =>
          dsimp only
          have hCheck : Within (Allowed strict) (Runs strict)
              (checkObjBufRef obj node) :=
            Buffers.within_runs (buffers_checkObjBufRef obj node)
          rw [wlp_bind]
          refine wlp_mono (hCheck t) ?_
          intro free u hu
          have hGoesU := trans_of (Goes strict) hGoes
            (hu (hGoes.whole hs.whole))
          have hSettled := hGoesU.settled hs
          split
          · rcases hSettled.whole with ⟨E, B, own, hSound⟩
            rw [wlp_bind]
            refine wlp_mono (wlp_deleteNode obj hSound
              hSettled.suspend
              ((hGoesU.objFiled hObj).node node hNode)) ?_
            intro _ v hv
            have hDoes := hv.does
            rw [hSettled.allocated] at hDoes
            rw [wlp_pure]
            refine Disposes.after ⟨⟨hv.whole, hv.suspend, ?_⟩,
              node, hDoes⟩ hGoesU hs
            exact hv.allocated.trans hSettled.allocated
          · rw [wlp_pure]
            exact hGoesU.disposes hs
  unfold deleteOpened
  split
  · rw [wlp_pure]
    exact hStay
  · dsimp only
    split
    · unfold treeFindDirNodeWithParent
        treeFindFileNodeWithParent
      rw [wlp_bind, wlp_gets]
      split
      · rw [wlp_bind, wlp_pure]
        exact hDelete _
      · rw [wlp_bind, wlp_gets, wlp_bind, wlp_pure]
        exact hDelete _
    · rw [wlp_bind, wlp_pure]
      exact hDelete _

/- `uffs_DeleteObject` -/
theorem wlp_deleteObject
    {s : Dev}
    (path : List Byte)
    (used : Nat)
    (others : List (Option Nat))
    (hs : s.Settled strict) :
    wlp (Allowed strict) (deleteObject path used others)
      (fun _ t => Disposes strict s t) s := by
  have hRelease : ∀ obj (r : URet × UErr) t,
      Disposes strict s t →
      wlp (Allowed strict) (do
          let _ ← doReleaseObjectResource obj
          pure r)
        (fun _ u => Disposes strict s u) t := by
    intro obj r t ht
    rw [wlp_bind]
    refine wlp_mono (fileLayer_runs.releaseObject obj t) ?_
    intro _ u hu
    rw [wlp_pure]
    exact ht.before (hu ht.settled.whole)
  have hDelete : ∀ (obj : Obj) t, Goes strict s t →
      obj.Filed t →
      wlp (Allowed strict) (do
          let r ← deleteOpened obj others
          let _ ← doReleaseObjectResource obj
          pure r)
        (fun _ u => Disposes strict s u) t := by
    intro obj t ht hFiled
    rw [wlp_bind]
    refine wlp_mono
      (wlp_deleteOpened obj others (ht.settled hs) hFiled) ?_
    intro r u hu
    exact hRelease obj r u (hu.after ht hs)
  unfold deleteObject
  split
  · rw [wlp_pure]
    exact (refl_of (Goes strict) s).disposes hs
  · rw [wlp_bind]
    refine wlp_mono (wlp_openObject _ _ _ hs.whole rfl rfl) ?_
    intro q t ht
    rcases q with ⟨ret, obj⟩
    cases ret with
    | succ =>
        dsimp only
        rw [wlp_bind, wlp_pure]
        exact hDelete obj t ht.1 (ht.2 rfl)
    | fail =>
        dsimp only
        rw [wlp_bind]
        refine wlp_mono (wlp_openObject _ _ _
          (ht.1.whole hs.whole) rfl rfl) ?_
        intro r u hu
        rcases r with ⟨ret, o⟩
        have hGoes := trans_of (Goes strict) ht.1 hu.1
        cases ret with
        | succ => exact hDelete o u hGoes (hu.2 rfl)
        | fail => exact hRelease o _ u (hGoes.disposes hs)

theorem settles_deleteObject
    (path : List Byte)
    (used : Nat)
    (others : List (Option Nat)) :
    Within (Allowed strict) (Settles strict)
      (deleteObject path used others) := by
  intro s a es t hRun hOk hs
  exact (wlp_deleteObject path used others hs a es t hRun
    hOk).settled

end Deleting

end Uffs
