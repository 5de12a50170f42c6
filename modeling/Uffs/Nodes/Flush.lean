import Uffs.Nodes.Erased
import Uffs.Tree.Relinks

/-
  The nodes of the tree during a flush, whatever the driver
  answers.

  Main declarations:
    * `Target`, `Recovers`
    * `wlp_recoverFuel`
    * `Goes`
    * `wlp_bufFlushNewBlock`
    * `wlp_bufFlushSlot`
-/

namespace Uffs

open Prog

variable [Platform]

------------------------------------------------------------
-- Copying a Block
------------------------------------------------------------

section Copying

variable {ok : Event → Prop} {W : Nat → Prop}

omit [Platform] in
theorem Buffers.within_busy
    {α : Type}
    {m : M α}
    (h : Within ok Buffers m) : Within ok (Busy W) m :=
  h.mono fun _ _ => Busy.of_buffers

omit [Platform] in
theorem Still.within_busy
    {α : Type}
    {m : M α}
    (h : Within ok Still m) : Within ok (Busy W) m :=
  h.mono fun _ _ hStill =>
    .of_quiet (A := nowhere) (.of_still hStill)

omit [Platform] in
theorem Loads.within_busy
    {α : Type}
    {m : M α}
    {i : Nat}
    (h : Within ok (Loads i) m) : Within ok (Busy W) m :=
  h.mono fun _ _ hLoads => (Busy.of_quiet hLoads.quiet).widen

omit [Platform] in
theorem Quiet.within_busy
    {α : Type}
    {m : M α}
    {A : Nat → Prop}
    (h : Within ok (Quiet W A) m) : Within ok (Busy W) m :=
  h.mono fun _ _ => Busy.of_quiet

omit [Platform] in
theorem busy_badBlockAddByFlashResult
    (b : Nat)
    (ret : FlashRet) :
    Within ok (Busy W) (badBlockAddByFlashResult b ret) :=
  Quiet.within_busy
    (quiet_badBlockAddByFlashResult (A := (· = b)) ret rfl)

theorem busy_recoverSource
    (key : GroupKey)
    (bc page i : Nat) :
    Within ok (Busy W) (recoverSource key bc page i) := by
  unfold recoverSource
  apply Within.bind (Still.within_busy (still_getTag bc page))
  intro old
  apply Within.bind (Buffers.within_busy (buffers_bufGet _ _ _))
  intro o
  cases o with
  | some b => exact Within.pure _
  | none =>
      apply Within.bind (Buffers.within_busy buffers_bufClone)
      intro o
      cases o with
      | none => exact Within.pure _
      | some b =>
          apply Within.bind (Still.within_busy (still_getInfo bc))
          intro w
          apply Within.bind
            (Still.within_busy (still_flashReadPage _ _ _ _))
          intro ret
          apply Within.bind (busy_badBlockAddByFlashResult _ ret)
          intro o
          cases o with
          | none =>
              apply Within.ite
              · apply Within.bind
                  (Buffers.within_busy (buffers_bufFreeClone b))
                intro _
                exact Within.pure _
              · apply Within.bind
                  (Buffers.within_busy (buffers_setBuf b _))
                intro _
                exact Within.pure _
          | some mark =>
              apply Within.bind
                (Buffers.within_busy (buffers_setBuf b _))
              intro _
              exact Within.pure _

theorem busy_recoverFrom
    (slot : Nat)
    (key : GroupKey)
    (bc newBc newBlock timeStamp n : Nat) :
    ∀ i sum, Within ok (Busy (· = newBlock))
      (recoverFrom slot key bc newBc newBlock timeStamp n i
        sum) := by
  have hWrite : ∀ p d tag, Within ok (Busy (· = newBlock))
      (flashWritePageCombine newBlock p d tag) :=
    fun p d tag => Quiet.within_busy
      (quiet_flashWritePageCombine (A := nowhere) p d tag rfl)
  have hTag : ∀ p tag, Within ok (Busy (· = newBlock))
      (setTag newBc p tag) :=
    fun p tag => Quiet.within_busy
      (quiet_setTag (A := nowhere) newBc p tag)
  induction n with
  | zero =>
      intro i sum
      exact Within.pure _
  | succ n ih =>
      intro i sum
      unfold recoverFrom
      apply Within.bind (Still.within_busy (still_getTag _ _))
      intro old
      apply Within.bind (hTag _ _)
      intro _
      apply Within.bind
        (Buffers.within_busy (buffers_findBufInDirtyList _ _))
      intro o
      cases o with
      | some d =>
          apply Within.bind
            (Buffers.within_busy (buffers_getBuf d))
          intro b
          apply Within.bind (hTag _ _)
          intro _
          apply Within.ite
          · apply Within.ite
            · apply Within.bind (hWrite _ _ _)
              intro op
              exact Within.pure _
            · apply Within.ite _ (Within.pure _)
              apply Within.bind
                (Still.within_busy (still_noteWhen _ _))
              intro _
              exact Within.pure _
          · apply Within.bind (hWrite _ _ _)
            intro op
            exact Within.ite (Within.pure _) (ih _ _)
      | none =>
          apply Within.bind (Loads.within_busy
            (loads_findPageInBlockWithPageId _ _))
          intro o
          cases o with
          | none =>
              apply Within.bind
                (Still.within_busy (still_noteWhen _ _))
              intro _
              exact Within.pure _
          | some page =>
              apply Within.bind (Loads.within_busy
                (loads_findBestPageInBlock _ _))
              intro o
              cases o with
              | none => exact Within.pure _
              | some page =>
                  apply Within.bind
                    (busy_recoverSource key bc page i)
                  intro o
                  cases o with
                  | none => exact Within.pure _
                  | some q =>
                      rcases q with ⟨d, useCloneBuf⟩
                      apply Within.bind
                        (Buffers.within_busy (buffers_setBuf d _))
                      intro _
                      apply Within.bind
                        (Buffers.within_busy (buffers_getBuf d))
                      intro b
                      apply Within.bind (hTag _ _)
                      intro _
                      apply Within.bind (hWrite _ _ _)
                      intro op
                      dsimp only
                      apply Within.ite
                      · apply Within.bind (Buffers.within_busy
                          (buffers_bufFreeClone d))
                        intro _
                        exact Within.ite (Within.pure _) (ih _ _)
                      · apply Within.bind
                          (Buffers.within_busy (buffers_bufPut d))
                        intro _
                        exact Within.ite (Within.pure _) (ih _ _)

end Copying

------------------------------------------------------------
-- The Node That Is Flushed
------------------------------------------------------------

/-
  The node whose block a flush replaces, and the block info
  of that block.  Either the node is filed in the tree under
  the key of the group, or the caller holds it.
-/
structure Target
    (H : List Nat)
    (own : Nat → Nat)
    (key : GroupKey)
    (node bc : Nat)
    (s : Dev) : Prop where
  block : (s.bc.info bc).block = own node
  inUse : 0 < (s.bc.info bc).refCount
  resv : key.type ≠ .resv
  place : node ∈ H ∨
    (node ∈ s.tree.entryNodes ∧
      (s.tree.node node).type = key.type ∧
      (s.tree.node node).serial = key.serial ∧
      (key.type = .data →
        (s.tree.node node).parent = key.parent))

namespace Target

variable {H : List Nat} {own own' : Nat → Nat}
  {key : GroupKey} {node bc : Nat} {s t : Dev}

omit [Platform]

theorem mem
    (h : Target H own key node bc s) :
    node ∈ s.tree.entryNodes ++ H := by
  rcases h.place with hHeld | hFiled
  · exact List.mem_append_right _ hHeld
  · exact List.mem_append_left _ hFiled.1

/- The target stays while its node and block info do. -/
theorem keep
    (h : Target H own key node bc s)
    (hKept : Kept H own own' s t)
    (hBc : s.bc.Keeps t.bc) : Target H own' key node bc t := by
  have hNode := hKept.node node h.mem
  refine ⟨?_, ?_, h.resv, ?_⟩
  · rw [hBc.block bc h.inUse, hNode.2]
    exact h.block
  · exact Nat.lt_of_lt_of_le h.inUse (hBc.refs bc)
  · rw [hNode.1, s.tree.entryNodes_congr hKept.entry]
    exact h.place

end Target

/- A node that takes over a block keeps its place. -/
omit [Platform] in
theorem TreeNode.recovered_spec
    (x : TreeNode)
    (key : GroupKey)
    (b sum : Nat)
    (hResv : key.type ≠ .resv) :
    (x.recovered key b sum).type = key.type ∧
      (x.recovered key b sum).block = b ∧
      (x.recovered key b sum).serial = key.serial ∧
      (x.recovered key b sum).parent = key.parent := by
  unfold TreeNode.recovered
  cases hType : key.type with
  | dir => exact ⟨rfl, rfl, rfl, rfl⟩
  | file => exact ⟨rfl, rfl, rfl, rfl⟩
  | data => exact ⟨rfl, rfl, rfl, rfl⟩
  | resv => exact absurd hType hResv

omit [Platform] in
theorem TreeNode.recovered_hash
    {x : TreeNode}
    {key : GroupKey}
    (b sum : Nat)
    (hResv : key.type ≠ .resv)
    (hSerial : x.serial = key.serial)
    (hParent : key.type = .data → x.parent = key.parent) :
    (x.recovered key b sum).hash key.type =
      x.hash key.type := by
  have hSpec := x.recovered_spec key b sum hResv
  cases hType : key.type with
  | dir =>
      simp only [TreeNode.hash, hSpec.2.2.1, hSerial]
  | file =>
      simp only [TreeNode.hash, hSpec.2.2.1, hSerial]
  | data =>
      simp only [TreeNode.hash, hSpec.2.2.1, hSpec.2.2.2,
        hSerial, hParent hType]
  | resv => rfl

/-
  A filed node takes over the block of a held node, and the
  held node the block of the filed one.
-/
theorem Dev.Sound.takeFiled
    {strict : Bool}
    {s : Dev}
    {E B H : List Nat}
    {own : Nat → Nat}
    {node newNode : Nat}
    (h : s.Sound strict E B (newNode :: H) own)
    (hIn : node ∈ s.tree.entryNodes)
    (f : TreeNode → TreeNode)
    (hBlock : (f (s.tree.node node)).block = own newNode)
    (hType : (f (s.tree.node node)).type =
      (s.tree.node node).type)
    (hHash : (f (s.tree.node node)).hash
        (s.tree.node node).type =
      (s.tree.node node).hash (s.tree.node node).type) :
    Dev.Sound strict { s with tree := s.tree.setNode node f }
      E B (newNode :: H) (own ∘ Equiv.swap node newNode) := by
  have hHead : newNode ∈ newNode :: H := List.mem_cons_self
  have hNotNew : ∀ k ∈ E ++ B ++ s.tree.entryNodes,
      k ≠ newNode := fun k hk => h.ne_of_held hHead hk
  have hNotNode : ∀ k ∈ E ++ B, k ≠ node := by
    intro k hk hEq
    have hNodup := (List.nodup_append.mp h.parts.nodup).1
    rw [hEq] at hk
    exact (List.nodup_append.mp hNodup).2.2 node hk node hIn rfl
  have hSame : ∀ k, k ≠ node → k ≠ newNode →
      (own ∘ Equiv.swap node newNode) k = own k := by
    intro k hk hk'
    simp only [Function.comp_apply,
      Equiv.swap_apply_of_ne_of_ne hk hk']
  refine ⟨?_, ?_, h.handed⟩
  · apply h.parts.change rfl
    · intro k hk
      refine ⟨s.tree.setNode_other (n := node) f
        (hNotNode k hk), ?_⟩
      exact hSame k (hNotNode k hk)
        (hNotNew k (List.mem_append_left _ hk))
    · intro k hk
      by_cases hEq : k = node
      · rw [hEq, Tree.setNode_same]
        refine ⟨?_, hType, hHash⟩
        rw [hBlock, Function.comp_apply, Equiv.swap_apply_left]
      · have hAll : k ∈ E ++ B ++ s.tree.entryNodes :=
          List.mem_append_right _ hk
        rw [Tree.setNode_other _ _ hEq,
          hSame k hEq (hNotNew k hAll)]
        exact ⟨h.parts.block k hAll, rfl, rfl⟩
    · apply h.parts.owned_swap
      · apply h.parts.lt
        exact List.mem_append_left _
          (List.mem_append_right _ hIn)
      · exact h.parts.lt (List.mem_append_right _ hHead)
  · intro hStrict k hk hZero
    have hkNode := hNotNode k (List.mem_append_left _ hk)
    rw [Tree.setNode_other _ _ hkNode] at hZero
    have hkNew := hNotNew k
      (List.mem_append_left _ (List.mem_append_left _ hk))
    rw [hSame k hkNode hkNew]
    exact h.clean hStrict k hk hZero

/-
  The target node takes over the new block, and the new node
  the old one.
-/
theorem Dev.Sound.takeOver
    {strict : Bool}
    {s : Dev}
    {E B H : List Nat}
    {own : Nat → Nat}
    {key : GroupKey}
    {node bc newNode : Nat}
    (h : s.Sound strict E B (newNode :: H) own)
    (hTarget : Target H own key node bc s)
    (sum : Nat) :
    Dev.Sound strict
      { s with
        tree := s.tree.setNode node fun x =>
          x.recovered key (own newNode) sum }
      E B (newNode :: H) (own ∘ Equiv.swap node newNode) := by
  rcases hTarget.place with hHeld | hFiled
  · have hMem : node ∈ newNode :: H :=
      List.mem_cons_of_mem _ hHeld
    exact (h.swap hMem List.mem_cons_self).setHeld hMem _
  · rcases hFiled with ⟨hIn, hType, hSerial, hParent⟩
    have hSpec := (s.tree.node node).recovered_spec key
      (own newNode) sum hTarget.resv
    apply h.takeFiled hIn
    · exact hSpec.2.1
    · rw [hSpec.1, hType]
    · rw [hType]
      exact TreeNode.recovered_hash _ _ hTarget.resv hSerial
        hParent

------------------------------------------------------------
-- Nodes That Go Back to the Erased List
------------------------------------------------------------

section Back

variable {strict : Bool} {s : Dev} {E B H : List Nat}
  {own : Nat → Nat}

/- How a function ends that gives all but `H` back. -/
def GivesBack
    (strict : Bool)
    (H : List Nat)
    (own : Nat → Nat)
    (s t : Dev) : Prop :=
  s.bc.Keeps t.bc ∧ ∃ E B own',
    t.Sound strict E B H own' ∧ Kept H own own' s t

theorem GivesBack.trans
    {own' : Nat → Nat}
    {t u : Dev}
    (hBc : s.bc.Keeps t.bc)
    (hKept : Kept H own own' s t)
    (h : GivesBack strict H own' t u) :
    GivesBack strict H own s u := by
  rcases h with ⟨hBcU, E, B, own'', hSound, hKeptU⟩
  exact ⟨hBc.trans hBcU, E, B, own'', hSound,
    hKept.trans hKeptU⟩

/- A node that was just taken goes to the end of the list. -/
theorem wlp_treeInsertToErasedListTail
    {n : Nat}
    (h : s.Sound strict E B (n :: H) own)
    (hBlock : (s.tree.node n).listBlock = own n)
    (hBlank : strict = true → s.Blank (own n)) :
    wlp (Allowed strict) (treeInsertToErasedListTail n)
      (fun _ t => GivesBack strict H own s t ∧
        t = { s with tree := t.tree }) s := by
  have hMem : n ∈ n :: H := List.mem_cons_self
  have hNot : n ∉ H := (List.nodup_cons.mp
    (List.nodup_append.mp h.parts.nodup).2.1).1
  unfold treeInsertToErasedListTail treeInsertToErasedListTailEx
  rw [wlp_modifyTree]
  have hAppend := h.append hMem hBlock (some 0)
    (fun hStrict _ => hBlank hStrict)
  rw [List.erase_cons_head] at hAppend
  exact ⟨⟨.refl _, _, B, own, hAppend,
    Kept.append h hMem hNot (fun _ => List.mem_cons_of_mem _) _⟩,
    rfl⟩

/- A node that was just taken goes back in front. -/
theorem wlp_insertToErasedListHead
    {n : Nat}
    (h : s.Sound strict E B (n :: H) own)
    (hBlock : (s.tree.node n).listBlock = own n)
    (hBlank : strict = true → (s.tree.node n).listU = 0 →
      s.Blank (own n)) :
    wlp (Allowed strict) (insertToErasedListHead n)
      (fun _ t => GivesBack strict H own s t) s := by
  have hMem : n ∈ n :: H := List.mem_cons_self
  have hNot : n ∉ H := (List.nodup_cons.mp
    (List.nodup_append.mp h.parts.nodup).2.1).1
  unfold insertToErasedListHead
  simp only [wlp_bind, wlp_get]
  split
  · unfold note
    rw [wlp_bind, wlp_emit]
    intro hOk
    cases hOk.1
  · rename_i hSingle
    simp only [Bool.not_eq_true] at hSingle
    rw [wlp_modifyTree]
    have hPush := h.push hMem hBlock hSingle hBlank
    rw [List.erase_cons_head] at hPush
    exact ⟨.refl _, _, B, own, hPush,
      Kept.push h hMem hNot (fun _ => List.mem_cons_of_mem _)⟩

/- A node that was just taken is erased and goes back. -/
theorem wlp_discard
    {n : Nat}
    (h : s.Sound strict E B (n :: H) own)
    (hBlock : (s.tree.node n).listBlock = own n) :
    wlp (Allowed strict) (treeEraseIgnored n)
      (fun _ t =>
        wlp (Allowed strict) (treeInsertToErasedListTail n)
          (fun _ u => GivesBack strict H own s u ∧
            Beside s u ∧ Spares H own s u) t) s := by
  refine wlp_mono
    (wlp_treeEraseIgnored h List.mem_cons_self hBlock) ?_
  intro _ t ht
  rcases ht with ⟨hBeside, hSpares, E', B', own', hKept, hSound,
    _, _, hBlock', hBlank⟩
  rw [List.erase_cons_head] at hKept hSpares
  refine wlp_mono (wlp_treeInsertToErasedListTail hSound hBlock'
    (hBlank rfl)) ?_
  intro _ u hu
  refine ⟨hu.1.trans hBeside.bc hKept, hBeside.trans ?_, ?_⟩
  · rw [hu.2]
    exact .setTree t _
  · intro m hm hBlankM
    rw [hu.2]
    exact hSpares m hm hBlankM

/- A node that was just taken turns out to be bad. -/
theorem wlp_setBad
    {n : Nat}
    (h : s.Sound strict E B (n :: H) own)
    (hBlock : (s.tree.node n).listBlock = own n) :
    wlp (Allowed strict) (badBlockProcessNode n)
      (fun _ t => GivesBack strict H own s t ∧ Beside s t) s := by
  have hNot : n ∉ H := (List.nodup_cons.mp
    (List.nodup_append.mp h.parts.nodup).2.1).1
  refine wlp_mono (wlp_badBlockProcessNode (K := H) h
    List.mem_cons_self hBlock hNot
    (fun _ => List.mem_cons_of_mem _)) ?_
  intro _ t ht
  rcases ht with ⟨hSound, hKept, hBeside, _⟩
  rw [List.erase_cons_head] at hSound
  exact ⟨⟨hBeside.bc, E, n :: B, own, hSound, hKept⟩, hBeside⟩

end Back

------------------------------------------------------------
-- Recovering a Block
------------------------------------------------------------

/-
  How `uffs_BufFlush_Exist_With_BlockRecover` ends for a
  caller that holds the nodes `H`.
-/
structure Recovers
    (strict : Bool)
    (H : List Nat)
    (own : Nat → Nat)
    (key : GroupKey)
    (node : Nat)
    (s : Dev)
    (r : URet)
    (t : Dev) : Prop where
  bc : s.bc.Keeps t.bc
  entry : t.tree.entry = s.tree.entry
  suspend : t.tree.suspend = s.tree.suspend
  allocated : t.tree.allocated = s.tree.allocated
  sound : ∃ E B own', t.Sound strict E B H own' ∧
    (r = .fail → Kept H own own' s t) ∧
    (r = .succ → node ∈ H →
      (t.tree.node node).type = key.type ∧
        (t.tree.node node).block = own' node)

section Recovery

variable {strict : Bool} {s : Dev} {E B H : List Nat}
  {own : Nat → Nat} {key : GroupKey} {node bc : Nat}

theorem Recovers.trans
    {own' : Nat → Nat}
    {t u : Dev}
    {r : URet}
    (hBc : s.bc.Keeps t.bc)
    (hKept : Kept H own own' s t)
    (h : Recovers strict H own' key node t r u) :
    Recovers strict H own key node s r u := by
  rcases h.sound with ⟨E, B, own'', hSound, hFail, hSucc⟩
  exact
    { bc := hBc.trans h.bc
      entry := h.entry.trans hKept.entry
      suspend := h.suspend.trans hKept.suspend
      allocated := h.allocated.trans hKept.allocated
      sound := ⟨E, B, own'', hSound,
        fun hr => hKept.trans (hFail hr), hSucc⟩ }

/- What is watched does not matter. -/
theorem Recovers.of_watch
    {w : Watch}
    {r : URet}
    {t : Dev}
    (h : Recovers strict H own key node { s with watch := w } r
      t) : Recovers strict H own key node s r t := by
  rcases h.sound with ⟨E, B, own', hSound, hFail, hSucc⟩
  refine ⟨h.bc, h.entry, h.suspend, h.allocated, E, B, own',
    hSound, ?_, hSucc⟩
  intro hr
  have hKept := hFail hr
  exact ⟨hKept.entry, hKept.suspend, hKept.allocated,
    hKept.node⟩

/- The new block could not be filled. -/
theorem GivesBack.recovers
    {t : Dev}
    (h : GivesBack strict H own s t) :
    Recovers strict H own key node s .fail t := by
  rcases h with ⟨hBc, E, B, own', hSound, hKept⟩
  exact
    { bc := hBc
      entry := hKept.entry
      suspend := hKept.suspend
      allocated := hKept.allocated
      sound := ⟨E, B, own', hSound, fun _ => hKept,
        fun hr => URet.noConfusion hr⟩ }

theorem wlp_recoverSucc
    {newNode : Nat}
    (slot sum : Nat)
    (badBlock : Bool)
    (h : s.Sound strict E B (newNode :: H) own)
    (hTarget : Target H own key node bc s) :
    wlp (Allowed strict)
      (recoverSucc slot key node bc newNode (own newNode) sum
        badBlock)
      (fun _ t => Recovers strict H own key node s .succ t)
      s := by
  have hNotH : newNode ∉ H := (List.nodup_cons.mp
    (List.nodup_append.mp h.parts.nodup).2.1).1
  have hNe : node ≠ newNode := by
    intro hEq
    have hIn := hTarget.mem
    rw [hEq] at hIn
    rcases List.mem_append.mp hIn with hEntry | hHeld
    · exact h.parts.held List.mem_cons_self
        (List.mem_append_right _ hEntry)
    · exact hNotH hHeld
  unfold recoverSucc
  rw [wlp_bind]
  refine wlp_mono (Buffers.within_busy (W := nowhere)
    (buffers_cleanDirtyFrom slot pagesPerBlock 0) s) ?_
  intro _ t ht
  have hSoundT := h.busy ht (fun _ _ => id)
  have hTargetT := hTarget.keep (.of_tree own ht.tree) ht.bc
  obtain ⟨own', hOwn⟩ :
      ∃ own', own' = own ∘ Equiv.swap node newNode := ⟨_, rfl⟩
  have hOwnNode : own' node = own newNode := by
    rw [hOwn, Function.comp_apply, Equiv.swap_apply_left]
  have hOwnNew : own' newNode = own node := by
    rw [hOwn, Function.comp_apply, Equiv.swap_apply_right]
  rw [wlp_bind, wlp_setNode, wlp_bind, wlp_getInfo, wlp_bind,
    wlp_setNode]
  have hTake := hSoundT.takeOver hTargetT sum
  rw [← hOwn] at hTake
  have hSet := hTake.setHeld List.mem_cons_self
    (fun x => x.setListBlock (own node))
  dsimp only at hSet ⊢
  rw [hTargetT.block]
  generalize hEq : ({ t with
    tree := (t.tree.setNode node fun x =>
      x.recovered key (own newNode) sum).setNode newNode fun x =>
        x.setListBlock (own node) } : Dev) = u at hSet ⊢
  have hTree : u.tree = (t.tree.setNode node fun x =>
      x.recovered key (own newNode) sum).setNode newNode
        fun x => x.setListBlock (own node) := by
    rw [← hEq]
  have hBcU : u.bc = t.bc := by
    rw [← hEq]
  clear hEq hTake
  have hNodeU : u.tree.node node =
      (t.tree.node node).recovered key (own newNode) sum := by
    rw [hTree, Tree.setNode_other _ _ hNe, Tree.setNode_same]
  have hNewU : (u.tree.node newNode).listBlock =
      own' newNode := by
    rw [hTree, Tree.setNode_same, hOwnNew]
    rfl
  have hSpec := (t.tree.node node).recovered_spec key
    (own newNode) sum hTarget.resv
  have hDone : ∀ v, GivesBack strict H own' u v →
      Recovers strict H own key node s .succ v := by
    intro v hv
    rcases hv with ⟨hBcV, E', B', own'', hSoundV, hKeptV⟩
    refine ⟨?_, ?_, ?_, ?_, E', B', own'', hSoundV, ?_, ?_⟩
    · rw [hBcU] at hBcV
      exact ht.bc.trans hBcV
    · rw [hKeptV.entry, hTree, Tree.setNode_entry,
        Tree.setNode_entry, ht.tree]
    · rw [hKeptV.suspend, hTree, Tree.setNode_suspend,
        Tree.setNode_suspend, ht.tree]
    · rw [hKeptV.allocated, hTree, Tree.setNode_allocated,
        Tree.setNode_allocated, ht.tree]
    · intro hr
      cases hr
    · intro _ hHeld
      have hStay := hKeptV.node node
        (List.mem_append_right _ hHeld)
      rw [hStay.1, hStay.2, hNodeU, hOwnNode]
      exact ⟨hSpec.1, hSpec.2.1⟩
  cases badBlock with
  | true =>
      rw [if_pos rfl]
      refine wlp_mono (wlp_setBad hSet hNewU) ?_
      intro _ v hv
      exact hDone v hv.1
  | false =>
      simp only [Bool.false_eq_true, if_false, wlp_bind]
      refine wlp_mono (loads_isThisBlockUsed bc u) ?_
      intro used v hv
      have hSoundV := hSet.quiet hv.quiet (fun _ _ => id)
      have hNewV : (v.tree.node newNode).listBlock =
          own' newNode := by
        rw [hv.quiet.tree]
        exact hNewU
      have hKeptV : Kept H own' own' u v :=
        .of_tree own' hv.quiet.tree
      cases used with
      | true =>
          rw [if_pos rfl, wlp_bind]
          refine wlp_mono (wlp_discard hSoundV hNewV) ?_
          intro _ w hw
          refine wlp_mono hw ?_
          intro _ x hx
          exact hDone x (hx.1.trans hv.quiet.bc hKeptV)
      | false =>
          simp only [Bool.false_eq_true, if_false, wlp_bind]
          refine wlp_mono (wlp_noteNotBlank (own node) v rfl) ?_
          intro _ w hw
          have hSoundW := hSoundV.still hw.1
          have hNewW : (w.tree.node newNode).listBlock =
              own' newNode := by
            rw [hw.1.tree]
            exact hNewV
          refine wlp_mono (wlp_treeInsertToErasedListTail hSoundW
            hNewW ?_) ?_
          · rw [hOwnNew]
            exact hw.2
          · intro _ x hx
            have hKeptW : Kept H own' own' v w :=
              .of_tree own' hw.1.tree
            have hBcW : v.bc.Keeps w.bc := by
              rw [hw.1.bc]
              exact .refl _
            have hBack := hx.1.trans hBcW hKeptW
            exact hDone x (hBack.trans hv.quiet.bc hKeptV)

theorem wlp_recoverFail
    {newNode : Nat}
    (badBlock : Bool)
    (h : s.Sound strict E B (newNode :: H) own) :
    wlp (Allowed strict)
      (recoverFail bc newNode (own newNode) badBlock)
      (fun _ t => GivesBack strict H own s t) s := by
  have hNot : newNode ∉ H := (List.nodup_cons.mp
    (List.nodup_append.mp h.parts.nodup).2.1).1
  have hRest : ∀ t, Quiet nowhere nowhere s t →
      wlp (Allowed strict) (do
          blockInfoExpireAll bc
          setNode newNode fun n => n.setListBlock (own newNode)
          treeEraseIgnored newNode
          treeInsertToErasedListTail newNode)
        (fun _ u => GivesBack strict H own s u) t := by
    intro t ht
    rw [wlp_bind]
    refine wlp_mono (quiet_blockInfoExpireAll (W := nowhere)
      (A := nowhere) bc t) ?_
    intro _ u hu
    have hQuiet := ht.trans hu
    have hSound := h.quiet hQuiet (fun _ _ => id)
    rw [wlp_bind, wlp_setNode, wlp_bind]
    have hSet := hSound.setHeld List.mem_cons_self
      (fun x => x.setListBlock (own newNode))
    have hKept := (Kept.of_tree (K := H) own hQuiet.tree).trans
      (Kept.setHeld hSound List.mem_cons_self hNot
        (fun x => x.setListBlock (own newNode)))
    refine wlp_mono (wlp_discard hSet ?_) ?_
    · rw [Tree.setNode_same]
      rfl
    · intro _ v hv
      refine wlp_mono hv ?_
      intro _ w hw
      apply GivesBack.trans _ hKept hw.1
      exact hQuiet.bc
  unfold recoverFail
  rw [wlp_bind, wlp_getInfo]
  dsimp only
  cases badBlock with
  | true =>
      rw [if_pos rfl, wlp_bind]
      refine wlp_mono (quiet_badBlockPendingRemove
        (W := nowhere) (A := nowhere) _ s) ?_
      intro _ t ht
      exact hRest t ht
  | false => exact hRest s (.refl s)

/- A change of the block info cache alone. -/
theorem Dev.Sound.setBc
    (h : s.Sound strict E B H own)
    (c : BcCache) : Dev.Sound strict { s with bc := c } E B H own :=
  ⟨h.parts, h.clean, h.handed⟩

/- The block info taken since `s` is put back. -/
theorem Recovers.put
    {t : Dev}
    {r : URet}
    {i : Nat}
    (h : Recovers strict H own key node s r t)
    (hRef : (s.bc.info i).refCount < (t.bc.info i).refCount) :
    wlp (Allowed strict) (blockInfoPut i)
      (fun _ u => Recovers strict H own key node s r u) t := by
  refine wlp_mono (wlp_blockInfoPut h.bc hRef) ?_
  intro _ u hu
  rcases h.sound with ⟨E', B', own', hSound, hFail, hSucc⟩
  rw [hu.1]
  refine ⟨hu.2, h.entry, h.suspend, h.allocated, E', B', own',
    hSound.setBc _, ?_, hSucc⟩
  intro hr
  have hKept := hFail hr
  exact ⟨hKept.entry, hKept.suspend, hKept.allocated, hKept.node⟩

theorem GivesBack.put
    {t : Dev}
    {i : Nat}
    (h : GivesBack strict H own s t)
    (hRef : (s.bc.info i).refCount < (t.bc.info i).refCount) :
    wlp (Allowed strict) (blockInfoPut i)
      (fun _ u => GivesBack strict H own s u) t := by
  refine wlp_mono (wlp_blockInfoPut h.1 hRef) ?_
  intro _ u hu
  rcases h.2 with ⟨E', B', own', hSound, hKept⟩
  rw [hu.1]
  exact ⟨hu.2, E', B', own', hSound.setBc _,
    hKept.entry, hKept.suspend, hKept.allocated, hKept.node⟩

/-
  The branches of a round of the recovery after the loop
  over the pages: `x` is the state in which the loop ended.
-/
theorem wlp_recoverEnd
    {retry : M URet}
    {newNode newBc : Nat}
    {x : Dev}
    (slot : Nat)
    (badBlock : Bool)
    (r : Recovery)
    (h : s.Sound strict E B (newNode :: H) own)
    (hTarget : Target H own key node bc s)
    (hBlock : (s.tree.node newNode).listBlock = own newNode)
    (hBusy : Busy (· = own newNode) s x)
    (hRef : (s.bc.info newBc).refCount <
      (x.bc.info newBc).refCount)
    (hRetry : ∀ t E B own', t.Sound strict E B H own' →
      Target H own' key node bc t →
        wlp (Allowed strict) retry
          (Recovers strict H own' key node t) t) :
    wlp (Allowed strict) (do
        if r.op.isBadBlock then
          badBlockProcessNode newNode
          blockInfoPut newBc
          retry
        else if r.op.haveErr then
          blockInfoPut newBc
          note .retryAfterError
          retry
        else if r.op = .eccOk then
          treeEraseIgnored newNode
          treeInsertToErasedListTail newNode
          blockInfoPut newBc
          retry
        else if r.succ then
          recoverSucc slot key node bc newNode (own newNode)
            r.sum badBlock
          blockInfoPut newBc
          pure URet.succ
        else
          recoverFail bc newNode (own newNode) badBlock
          blockInfoPut newBc
          pure URet.fail)
      (Recovers strict H own key node s) x := by
  have hKept : Kept H own own s x := .of_tree own hBusy.tree
  have hSound := h.write
    (List.mem_append_right _ List.mem_cons_self) hBusy
  have hTargetX := hTarget.keep hKept hBusy.bc
  have hBlockX : (x.tree.node newNode).listBlock =
      own newNode := by
    rw [hBusy.tree]
    exact hBlock
  have hAgain : ∀ y, GivesBack strict H own x y →
      wlp (Allowed strict) (do
          blockInfoPut newBc
          retry)
        (Recovers strict H own key node s) y := by
    intro y hy
    have hy' := hy.trans hBusy.bc hKept
    rw [wlp_bind]
    refine wlp_mono (hy'.put
      (Nat.lt_of_lt_of_le hRef (hy.1.refs newBc))) ?_
    intro _ z hz
    rcases hz with ⟨hBcZ, E', B', own', hSoundZ, hKeptZ⟩
    refine wlp_mono (hRetry z E' B' own' hSoundZ
      (hTarget.keep hKeptZ hBcZ)) ?_
    intro q v hv
    exact hv.trans hBcZ hKeptZ
  have hPut : ∀ q y, Recovers strict H own key node x q y →
      wlp (Allowed strict) (do
          blockInfoPut newBc
          pure q)
        (Recovers strict H own key node s) y := by
    intro q y hy
    have hy' := hy.trans hBusy.bc hKept
    rw [wlp_bind]
    refine wlp_mono (hy'.put
      (Nat.lt_of_lt_of_le hRef (hy.bc.refs newBc))) ?_
    intro _ z hz
    rw [wlp_pure]
    exact hz
  split
  · rw [wlp_bind]
    refine wlp_mono (wlp_setBad hSound hBlockX) ?_
    intro _ y hy
    exact hAgain y hy.1
  · split
    · rw [wlp_bind]
      refine wlp_mono
        (wlp_blockInfoPut hBusy.bc hRef) ?_
      intro _ y _
      unfold note
      rw [wlp_bind, wlp_emit]
      intro hOk
      cases hOk.1
    · split
      · simp only [wlp_bind]
        refine wlp_mono (wlp_discard hSound hBlockX) ?_
        intro _ y hy
        refine wlp_mono hy ?_
        intro _ z hz
        have hNext := hAgain z hz.1
        rw [wlp_bind] at hNext
        exact hNext
      · split
        · rw [wlp_bind]
          refine wlp_mono (wlp_recoverSucc slot r.sum badBlock
            hSound hTargetX) ?_
          intro _ y hy
          exact hPut .succ y hy
        · rw [wlp_bind]
          refine wlp_mono (wlp_recoverFail badBlock hSound) ?_
          intro _ y hy
          exact hPut .fail y hy.recovers

/-
  A round of the recovery; `retry` is what follows a new
  block that turns out to be bad.
-/
theorem wlp_recoverOnce
    {retry : M URet}
    (slot : Nat)
    (badBlock : Bool)
    (h : s.Sound strict E B H own)
    (hTarget : Target H own key node bc s)
    (hRetry : ∀ t E B own', t.Sound strict E B H own' →
      Target H own' key node bc t →
        wlp (Allowed strict) retry
          (Recovers strict H own' key node t) t) :
    wlp (Allowed strict)
      (recoverOnce slot key node bc badBlock retry)
      (Recovers strict H own key node s) s := by
  unfold recoverOnce
  rw [wlp_bind]
  refine wlp_mono (loads_blockInfoLoadAll bc s) ?_
  intro _ t ht
  have hSoundT := h.quiet ht.quiet (fun _ _ => id)
  rw [wlp_bind]
  refine wlp_mono (wlp_treeGetErasedNode hSoundT) ?_
  intro o u hu
  rcases hu with ⟨hBeside, _, E', B', own', hKeptU, hu⟩
  have hBcU := ht.quiet.bc.trans hBeside.bc
  have hKept : Kept H own own' s u :=
    (Kept.of_tree own ht.quiet.tree).trans hKeptU
  have hTargetU := hTarget.keep hKept hBcU
  have hFrom : ∀ r v, Recovers strict H own' key node u r v →
      Recovers strict H own key node s r v :=
    fun r v hv => hv.trans hBcU hKept
  cases o with
  | none =>
      rw [wlp_pure]
      apply hFrom
      apply GivesBack.recovers
      exact ⟨.refl _, E', B', own', hu, .refl own' u⟩
  | some newNode =>
      rcases hu with ⟨hSoundU, _, hBlock, _, hBlank⟩
      dsimp only
      rw [wlp_bind, wlp_getNode, hBlock, wlp_bind]
      refine wlp_mono (wlp_blockInfoGet (own' newNode) u) ?_
      intro o v hv
      cases o with
      | none =>
          dsimp only at hv ⊢
          have hSoundV := hSoundU.quiet hv (fun _ _ => id)
          rw [wlp_bind]
          refine wlp_mono
            (wlp_insertToErasedListHead hSoundV ?_ ?_) ?_
          · rw [hv.tree]
            exact hBlock
          · rw [hv.tree, hv.blank id]
            exact hBlank
          · intro _ w hw
            rw [wlp_pure]
            apply hFrom
            apply GivesBack.recovers
            exact hw.trans hv.bc (.of_tree own' hv.tree)
      | some newBc =>
          dsimp only at hv ⊢
          rw [wlp_bind]
          refine wlp_mono (loads_blockInfoLoadAll newBc v) ?_
          intro _ w hw
          rw [wlp_bind]
          refine wlp_mono (loads_getBlockTimeStamp bc w) ?_
          intro ts w' hw'
          rw [wlp_bind]
          refine wlp_mono (busy_recoverFrom slot key bc newBc
            (own' newNode) _ pagesPerBlock 0 0xFFFF w') ?_
          intro r x hx
          have hBusy : Busy (· = own' newNode) u x :=
            (((Busy.of_quiet hv.quiet).trans
              (.of_quiet hw.quiet)).trans
                (.of_quiet hw'.quiet)).widen.trans hx
          have hKeeps := (hw.quiet.bc.trans hw'.quiet.bc).trans
            hx.bc
          have hRef : (u.bc.info newBc).refCount <
              (x.bc.info newBc).refCount := by
            have hLe := hKeeps.refs newBc
            rw [hv.refCount] at hLe
            exact Nat.lt_of_succ_le hLe
          split
          · rw [wlp_bind]
            refine wlp_mono (quiet_blockInfoExpire
              (W := nowhere) (A := nowhere) newBc r.page x) ?_
            intro _ y hy
            refine wlp_mono (wlp_recoverEnd slot badBlock r hSoundU
              hTargetU hBlock
              (hBusy.trans (Busy.of_quiet hy).widen)
              (Nat.lt_of_lt_of_le hRef (hy.bc.refs newBc))
              hRetry) ?_
            exact hFrom
          · refine wlp_mono (wlp_recoverEnd slot badBlock r hSoundU
              hTargetU hBlock hBusy hRef hRetry) ?_
            exact hFrom

theorem wlp_recoverFuel
    (slot : Nat)
    (badBlock : Bool)
    (fuel : Nat) :
    ∀ s E B own, s.Sound strict E B H own →
      Target H own key node bc s →
        wlp (Allowed strict)
          (recoverFuel slot key node bc badBlock fuel)
          (Recovers strict H own key node s) s := by
  induction fuel with
  | zero =>
      intro s E B own h hTarget
      unfold recoverFuel
      apply wlp_recoverOnce slot badBlock h hTarget
      intro t _ _ _ _ _
      rw [wlp_diverge]
      trivial
  | succ fuel ih =>
      intro s E B own h hTarget
      unfold recoverFuel
      exact wlp_recoverOnce slot badBlock h hTarget ih

end Recovery

------------------------------------------------------------
-- Flushing a Group
------------------------------------------------------------

/- The key of the first buffer of a dirty list. -/
def BufPool.headKey (p : BufPool) (slot : Nat) : GroupKey :=
  (p.entry ((p.group slot).dirty.headD 0)).key

omit [Platform] in
theorem BufPool.SameKeys.headKey
    {p q : BufPool}
    (h : p.SameKeys q)
    (slot : Nat) : q.headKey slot = p.headKey slot := by
  unfold BufPool.headKey
  rw [h.group]
  exact h.key _

section Flushing

variable {strict : Bool} {s : Dev} {E B H : List Nat}
  {own : Nat → Nat} {node bc : Nat}

omit [Platform] in
@[simp] theorem wlp_dirtyHeadKey
    {ok : Event → Prop}
    (slot : Nat)
    (Q : GroupKey → Dev → Prop) :
    wlp ok (dirtyHeadKey slot) Q s ↔
      Q (s.buf.headKey slot) s := by
  unfold dirtyHeadKey
  rw [wlp_gets]
  rfl

/- A filed node with the type of the group is no mismatch. -/
omit [Platform] in
theorem TreeNode.type_of_not_mismatch
    {x : TreeNode}
    {type : BlockType}
    (hFiled : x.type ≠ .resv)
    (h : x.mismatch type = false) : x.type = type := by
  cases x with
  | list _ _ _ _ => exact absurd rfl hFiled
  | dir _ _ _ _ =>
      simp only [TreeNode.mismatch, bne_eq_false_iff_eq] at h
      exact h.symm
  | file _ _ _ _ _ =>
      simp only [TreeNode.mismatch, bne_eq_false_iff_eq] at h
      exact h.symm
  | data _ _ _ _ =>
      simp only [TreeNode.mismatch, bne_eq_false_iff_eq] at h
      exact h.symm

theorem Tree.Parts.type_ne_resv
    {t : Tree}
    {n : Nat}
    (h : t.Parts E B H own)
    (hn : n ∈ t.entryNodes) : (t.node n).type ≠ .resv := by
  rcases Tree.mem_entryNodes.mp hn with ⟨type, k, hk, hIn⟩
  rw [(h.hash type k n hIn).1]
  intro hResv
  rw [hResv] at hk
  exact absurd hk (Nat.not_lt_zero k)

theorem wlp_bufFlushExistWithBlockRecover
    (slot : Nat)
    (badBlock : Bool)
    (h : s.Sound strict E B H own)
    (hBlock : (s.bc.info bc).block = own node)
    (hInUse : 0 < (s.bc.info bc).refCount)
    (hPlace :
      (node ∈ H ∧ (s.buf.headKey slot).type ≠ .resv) ∨
        (node ∈ s.tree.entryNodes ∧
          (s.tree.node node).serial =
            (s.buf.headKey slot).serial ∧
          ((s.tree.node node).type = .data →
            (s.tree.node node).parent =
              (s.buf.headKey slot).parent))) :
    wlp (Allowed strict)
      (bufFlushExistWithBlockRecover slot node bc badBlock)
      (Recovers strict H own (s.buf.headKey slot) node s)
      s := by
  unfold bufFlushExistWithBlockRecover watchMarks
  rw [wlp_bind, wlp_modify, wlp_bind, wlp_dirtyHeadKey, wlp_bind,
    wlp_getNode]
  split
  · unfold note
    rw [wlp_bind, wlp_emit]
    intro hOk
    cases hOk.1
  · rename_i hMatch
    simp only [Bool.not_eq_true] at hMatch
    refine wlp_mono (wlp_recoverFuel slot badBlock _ _ E B own
      ⟨h.parts, h.clean, h.handed⟩ ?_) fun _ _ => .of_watch
    rcases hPlace with ⟨hHeld, hResv⟩ | ⟨hIn, hSerial, hParent⟩
    · exact ⟨hBlock, hInUse, hResv, Or.inl hHeld⟩
    · have hFiled := h.parts.type_ne_resv hIn
      have hType := TreeNode.type_of_not_mismatch hFiled hMatch
      rw [hType] at hFiled hParent
      exact ⟨hBlock, hInUse, hFiled,
        Or.inr ⟨hIn, hType, hSerial, hParent⟩⟩

/- Every node is where it belongs, and none is held. -/
def Dev.Whole (strict : Bool) (s : Dev) : Prop :=
  ∃ E B own, s.Sound strict E B [] own

/- A function that keeps the hash entries. -/
structure Steady (strict : Bool) (s t : Dev) : Prop where
  bc : s.bc.Keeps t.bc
  entry : t.tree.entry = s.tree.entry
  suspend : t.tree.suspend = s.tree.suspend
  allocated : t.tree.allocated = s.tree.allocated
  whole : t.Whole strict

theorem Recovers.steady
    {key : GroupKey}
    {t : Dev}
    {r : URet}
    (h : Recovers strict [] own key node s r t) :
    Steady strict s t := by
  rcases h.sound with ⟨E, B, own', hSound, _⟩
  exact ⟨h.bc, h.entry, h.suspend, h.allocated,
    E, B, own', hSound⟩

theorem Steady.after
    {t u : Dev}
    (hBc : s.bc.Keeps t.bc)
    (hTree : t.tree = s.tree)
    (h : Steady strict t u) : Steady strict s u := by
  refine ⟨hBc.trans h.bc, ?_, ?_, ?_, h.whole⟩
  · rw [h.entry, hTree]
  · rw [h.suspend, hTree]
  · rw [h.allocated, hTree]

theorem Dev.Sound.steady
    {t : Dev}
    (h : t.Sound strict E B [] own)
    (hBc : s.bc.Keeps t.bc)
    (hTree : t.tree = s.tree) : Steady strict s t :=
  ⟨hBc, by rw [hTree], by rw [hTree], by rw [hTree],
    E, B, own, h⟩

/- Buffers leave the dirty lists; none changes its key. -/
structure Drains (s t : Dev) : Prop where
  rest : Buffers s t
  key : ∀ i, (t.buf.entry i).key = (s.buf.entry i).key
  dirty : ∀ slot, ∀ i ∈ (t.buf.group slot).dirty,
    i ∈ (s.buf.group slot).dirty

instance : IsPreorder Dev Drains where
  refl _ := ⟨rfl, fun _ => rfl, fun _ _ h => h⟩
  trans _ _ _ h h' :=
    ⟨h.rest.trans h'.rest,
      fun i => (h'.key i).trans (h.key i),
      fun slot i hi => h.dirty slot i (h'.dirty slot i hi)⟩

omit [Platform] in
theorem drains_setMark
    {ok : Event → Prop}
    (i : Nat) :
    Within ok Drains
      (setBuf i fun b => { b with mark := .valid }) := by
  apply Within.modify
  intro s
  refine ⟨rfl, ?_, fun _ _ h => h⟩
  intro j
  by_cases hj : j = i
  · subst hj
    simp only [upd_same]
    rfl
  · simp only [upd_other _ _ hj]

omit [Platform] in
theorem drains_moveNodeToHead
    {ok : Event → Prop}
    (i : Nat) :
    Within ok Drains (moveNodeToHead i) := by
  apply Within.modify
  intro s
  exact ⟨rfl, fun _ => rfl, fun _ _ h => h⟩

theorem drains_breakFromDirty
    {ok : Event → Prop}
    (i : Nat) :
    Within ok Drains (breakFromDirty i) := by
  unfold breakFromDirty
  apply Within.bind
  · unfold getBuf
    exact Within.gets _
  · intro b
    apply Within.ite (Within.pure _)
    apply Within.bind
    · unfold bufFindGroupSlot
      exact Within.gets _
    · intro o
      cases o with
      | none => exact Within.pure _
      | some slot =>
          apply Within.bind
          · apply Within.modify
            intro s
            refine ⟨rfl, fun _ => rfl, ?_⟩
            intro slot' j hj
            by_cases hs : slot' = slot
            · subst hs
              simp only [upd_same] at hj
              exact List.mem_of_mem_erase hj
            · simp only [upd_other _ _ hs] at hj
              exact hj
          · intro _
            exact Within.pure _

theorem loads_findErasedPageFrom
    {ok : Event → Prop}
    (bc n : Nat) :
    ∀ page, Within ok (Loads bc)
      (findErasedPageFrom bc n page) := by
  induction n with
  | zero =>
      intro page
      exact Within.pure _
  | succ n ih =>
      intro page
      unfold findErasedPageFrom
      apply Within.bind (loads_isPageErased bc page)
      intro erased
      exact Within.ite (Within.pure _) (ih _)

/-
  The state in which pages of a group are appended to the
  block of a filed node: all buffers of the group carry the
  parent and the serial of the node.
-/
structure Appends
    (strict : Bool)
    (E B : List Nat)
    (own : Nat → Nat)
    (slot node bc : Nat)
    (s : Dev) : Prop where
  sound : s.Sound strict E B [] own
  block : (s.bc.info bc).block = own node
  inUse : 0 < (s.bc.info bc).refCount
  filed : node ∈ s.tree.entryNodes
  serial : ∀ i ∈ (s.buf.group slot).dirty,
    (s.tree.node node).serial = (s.buf.entry i).serial
  parent : (s.tree.node node).type = .data →
    ∀ i ∈ (s.buf.group slot).dirty,
      (s.tree.node node).parent = (s.buf.entry i).parent

namespace Appends

variable {slot : Nat} {t : Dev}

/- The medium changes in the block of the node. -/
theorem write
    {A : Nat → Prop}
    (h : Appends strict E B own slot node bc s)
    (hQuiet : Quiet (· = own node) A s t) :
    Appends strict E B own slot node bc t := by
  have hKey : ∀ i, (t.buf.entry i).serial =
        (s.buf.entry i).serial ∧
      (t.buf.entry i).parent = (s.buf.entry i).parent := by
    intro i
    have hEq := hQuiet.buf.key i
    exact ⟨congrArg GroupKey.serial hEq,
      congrArg GroupKey.parent hEq⟩
  refine ⟨?_, ?_, ?_, ?_, ?_, ?_⟩
  · apply h.sound.write _ (.of_quiet hQuiet)
    simp [h.filed]
  · rw [hQuiet.infoBlock h.inUse]
    exact h.block
  · exact Nat.lt_of_lt_of_le h.inUse (hQuiet.bc.refs bc)
  · rw [hQuiet.tree]
    exact h.filed
  · intro i hi
    rw [hQuiet.tree, (hKey i).1]
    rw [hQuiet.buf.group] at hi
    exact h.serial i hi
  · intro hType i hi
    rw [hQuiet.tree] at hType ⊢
    rw [(hKey i).2]
    rw [hQuiet.buf.group] at hi
    exact h.parent hType i hi

theorem drain
    (h : Appends strict E B own slot node bc s)
    (hDrains : Drains s t) :
    Appends strict E B own slot node bc t := by
  have hBusy : Busy nowhere s t := .of_buffers hDrains.rest
  have hBc : t.bc = s.bc := by
    rw [hDrains.rest]
  refine ⟨h.sound.busy hBusy (fun _ _ => id), ?_, ?_, ?_, ?_,
    ?_⟩
  · rw [hBc]
    exact h.block
  · rw [hBc]
    exact h.inUse
  · rw [hBusy.tree]
    exact h.filed
  · intro i hi
    have hSerial := congrArg GroupKey.serial (hDrains.key i)
    rw [hBusy.tree]
    exact (h.serial i (hDrains.dirty slot i hi)).trans
      hSerial.symm
  · intro hType i hi
    have hParent := congrArg GroupKey.parent (hDrains.key i)
    rw [hBusy.tree] at hType ⊢
    exact (h.parent hType i (hDrains.dirty slot i hi)).trans
      hParent.symm

end Appends

omit [Platform] in
theorem findMinimunPageId_some
    {p : BufPool}
    {l : List Nat}
    {d : Nat}
    (h : p.findMinimunPageId l = some d) : l ≠ [] := by
  intro hNil
  rw [hNil] at h
  cases h

/- The key of the first buffer of a group that is not empty. -/
theorem Appends.headKey
    {slot : Nat}
    (h : Appends strict E B own slot node bc s)
    (hNil : (s.buf.group slot).dirty ≠ []) :
    (s.tree.node node).serial =
        (s.buf.headKey slot).serial ∧
      ((s.tree.node node).type = .data →
        (s.tree.node node).parent =
          (s.buf.headKey slot).parent) := by
  unfold BufPool.headKey
  have hHead : (s.buf.group slot).dirty.headD 0 ∈
      (s.buf.group slot).dirty := by
    cases hDirty : (s.buf.group slot).dirty with
    | nil => exact absurd hDirty hNil
    | cons i rest => exact List.mem_cons_self
  exact ⟨h.serial _ hHead, fun hType => h.parent hType _ hHead⟩

/- A page has been written, and its buffer is given up. -/
theorem wlp_breakThen
    {ok : Event → Prop}
    {next : M (Option URet)}
    {Q : Option URet → Dev → Prop}
    {s : Dev}
    (d : Nat)
    (hNext : ∀ t, Drains s t → wlp ok next Q t) :
    wlp ok (do
      match ← breakFromDirty d with
      | .succ =>
          setBuf d fun b => { b with mark := .valid }
          moveNodeToHead d
          next
      | .fail => next) Q s := by
  rw [wlp_bind]
  refine wlp_mono (drains_breakFromDirty d s) ?_
  intro r t ht
  cases r with
  | fail => exact hNext t ht
  | succ =>
      dsimp only
      rw [wlp_bind]
      refine wlp_mono (drains_setMark d t) ?_
      intro _ u hu
      rw [wlp_bind]
      refine wlp_mono (drains_moveNodeToHead d u) ?_
      intro _ v hv
      exact hNext v (trans_of Drains (trans_of Drains ht hu) hv)


theorem wlp_enoughFrom
    (slot n : Nat) :
    ∀ page s, Appends strict E B own slot node bc s →
      wlp (Allowed strict) (enoughFrom slot node bc n page)
        (fun _ t => Steady strict s t) s := by
  induction n with
  | zero =>
      intro page s h
      unfold enoughFrom
      rw [wlp_pure]
      exact h.sound.steady (.refl _) rfl
  | succ n ih =>
      intro page s h
      unfold enoughFrom
      rw [wlp_bind]
      unfold getGroup
      rw [wlp_gets]
      split
      · rw [wlp_pure]
        exact h.sound.steady (.refl _) rfl
      · rw [wlp_bind]
        refine wlp_mono (loads_findErasedPageFrom bc _ page s) ?_
        intro page t ht
        have hQuietT : Quiet (· = own node)
            (· = (s.bc.info bc).block) s t :=
          ht.quiet.mono (fun _ => False.elim) (fun _ => id)
        have hAppT := h.write hQuietT
        split
        · rw [wlp_pure]
          exact hAppT.sound.steady ht.quiet.bc ht.quiet.tree
        · unfold findMinimunPageIdFromDirtyList
          rw [wlp_bind, wlp_gets]
          cases hMin : t.buf.findMinimunPageId
              (t.buf.group slot).dirty with
          | none =>
              dsimp only
              rw [wlp_pure]
              exact hAppT.sound.steady ht.quiet.bc ht.quiet.tree
          | some d =>
              dsimp only
              have hNil := findMinimunPageId_some hMin
              unfold getBuf
              rw [wlp_bind, wlp_gets, wlp_bind]
              refine wlp_mono (loads_getBlockTimeStamp bc t) ?_
              intro ts u hu
              rw [wlp_bind]
              refine wlp_mono (quiet_setTag (W := nowhere)
                (A := nowhere) bc page _ u) ?_
              intro _ v hv
              rw [wlp_bind, wlp_getInfo, wlp_bind]
              have hBlockV : (v.bc.info bc).block =
                  own node := by
                rw [hv.infoBlock, hu.block]
                · exact hAppT.block
                · exact Nat.lt_of_lt_of_le hAppT.inUse
                    (hu.quiet.bc.refs bc)
              rw [hBlockV]
              refine wlp_mono (quiet_flashWritePageCombine
                (W := (· = own node)) (A := nowhere) page d _ rfl
                v) ?_
              intro x w hw
              have hQuietW : Quiet (· = own node)
                  (· = (t.bc.info bc).block) t w :=
                ((hu.quiet.mono (fun _ => False.elim)
                  (fun _ => id)).trans hv.widen).trans
                  (hw.mono (fun _ => id) (fun _ => False.elim))
              have hAppW := hAppT.write hQuietW
              have hBc := hQuietT.bc.trans hQuietW.bc
              have hTree := hQuietW.tree.trans hQuietT.tree
              unfold noteNotStored
              rw [wlp_bind]
              refine wlp_mono (wlp_noteWhen _ _ w) ?_
              intro _ w' hw'
              cases hw'
              split
              · rw [wlp_pure]
                exact hAppW.sound.steady hBc hTree
              · split
                · rw [wlp_bind]
                  have hNilW : (w.buf.group slot).dirty ≠ [] := by
                    rw [hQuietW.buf.group]
                    exact hNil
                  refine wlp_mono
                    (wlp_bufFlushExistWithBlockRecover slot true
                      hAppW.sound hAppW.block hAppW.inUse
                      (Or.inr ⟨hAppW.filed,
                        hAppW.headKey hNilW⟩)) ?_
                  intro ret y hy
                  rw [wlp_pure]
                  exact hy.steady.after hBc hTree
                · have hNext : ∀ y, Drains w y →
                      wlp (Allowed strict)
                        (enoughFrom slot node bc n (page + 1))
                        (fun _ z => Steady strict s z) y := by
                    intro y hy
                    have hBusy : Busy nowhere w y :=
                      .of_buffers hy.rest
                    refine wlp_mono (ih _ y (hAppW.drain hy)) ?_
                    intro _ z hz
                    exact hz.after (hBc.trans hBusy.bc)
                      (hBusy.tree.trans hTree)
                  split
                  · unfold note
                    rw [wlp_bind, wlp_emit]
                    intro _
                    exact wlp_breakThen d hNext
                  · exact wlp_breakThen d hNext

theorem wlp_bufFlushExistWithEnoughFreePage
    {slot : Nat}
    (h : Appends strict E B own slot node bc s) :
    wlp (Allowed strict)
      (bufFlushExistWithEnoughFreePage slot node bc)
      (fun _ t => Steady strict s t) s := by
  unfold bufFlushExistWithEnoughFreePage
  rw [wlp_bind]
  refine wlp_mono (wlp_enoughFrom slot pagesPerBlock 1 s h) ?_
  intro o t ht
  cases o with
  | some ret =>
      rw [wlp_pure]
      exact ht
  | none =>
      dsimp only
      unfold getGroup
      rw [wlp_bind, wlp_gets]
      split
      · rw [wlp_pure]
        exact ht
      · rw [wlp_pure]
        exact ht

/- The block info taken since `s` is put back. -/
theorem Steady.put
    {t : Dev}
    {i : Nat}
    (h : Steady strict s t)
    (hRef : (s.bc.info i).refCount < (t.bc.info i).refCount) :
    wlp (Allowed strict) (blockInfoPut i)
      (fun _ u => Steady strict s u) t := by
  refine wlp_mono (wlp_blockInfoPut h.bc hRef) ?_
  intro _ u hu
  rcases h.whole with ⟨E', B', own', hSound⟩
  rw [hu.1]
  exact ⟨hu.2, h.entry, h.suspend, h.allocated, E', B', own',
    hSound.setBc _⟩

/-
  `_BufFlush` of a group whose node is filed: the buffers of
  the group carry its parent and serial.
-/
theorem wlp_bufFlushExist
    {slot : Nat}
    (force : Bool)
    (h : s.Sound strict E B [] own)
    (hFiled : node ∈ s.tree.entryNodes)
    (hSerial : ∀ i ∈ (s.buf.group slot).dirty,
      (s.tree.node node).serial = (s.buf.entry i).serial)
    (hParent : (s.tree.node node).type = .data →
      ∀ i ∈ (s.buf.group slot).dirty,
        (s.tree.node node).parent = (s.buf.entry i).parent)
    (hHead : (s.tree.node node).serial =
        (s.buf.headKey slot).serial ∧
      ((s.tree.node node).type = .data →
        (s.tree.node node).parent =
          (s.buf.headKey slot).parent)) :
    wlp (Allowed strict) (bufFlushExist slot node force)
      (fun _ t => Steady strict s t) s := by
  have hOwn : (s.tree.node node).block = own node :=
    h.parts.block node (List.mem_append_right _ hFiled)
  unfold bufFlushExist
  rw [wlp_bind, wlp_getNode, hOwn, wlp_bind]
  refine wlp_mono (wlp_blockInfoGet (own node) s) ?_
  intro o t ht
  cases o with
  | none =>
      rw [wlp_pure]
      exact (h.quiet ht (fun _ _ => id)).steady ht.bc ht.tree
  | some bc =>
      dsimp only at ht ⊢
      rw [wlp_bind]
      refine wlp_mono (loads_blockInfoLoadAll bc t) ?_
      intro r u hu
      have hQuiet : Quiet nowhere
          (· = (t.bc.info bc).block) s u :=
        ht.quiet.widen.trans hu.quiet
      have hSound := h.quiet hQuiet (fun _ _ => id)
      have hSteady : Steady strict s u :=
        hSound.steady hQuiet.bc hQuiet.tree
      have hRefU : (s.bc.info bc).refCount <
          (u.bc.info bc).refCount := by
        have hLe := hu.quiet.bc.refs bc
        rw [ht.refCount] at hLe
        exact Nat.lt_of_succ_le hLe
      cases r with
      | fail =>
          dsimp only
          rw [wlp_bind]
          refine wlp_mono (hSteady.put hRefU) ?_
          intro _ v hv
          rw [wlp_pure]
          exact hv
      | succ =>
          dsimp only
          rw [wlp_bind]
          refine wlp_mono (loads_getFreePagesCount bc u) ?_
          intro n v hv
          unfold getGroup
          rw [wlp_bind, wlp_gets]
          have hQuietV : Quiet nowhere
              (· = (t.bc.info bc).block) s v := by
            have hNext := hv.quiet
            rw [hu.block] at hNext
            exact hQuiet.trans hNext
          have hSoundV := h.quiet hQuietV (fun _ _ => id)
          have hBlockV : (v.bc.info bc).block = own node := by
            rw [hv.block, hu.block, ht.block]
          have hRefV : (s.bc.info bc).refCount <
              (v.bc.info bc).refCount :=
            Nat.lt_of_lt_of_le hRefU (hv.quiet.bc.refs bc)
          have hEnd : ∀ ret w, Steady strict v w →
              wlp (Allowed strict) (do
                  blockInfoPut bc
                  pure ret)
                (fun (_ : URet) x => Steady strict s x) w := by
            intro ret w hw
            have hw' := hw.after hQuietV.bc hQuietV.tree
            rw [wlp_bind]
            refine wlp_mono (hw'.put
              (Nat.lt_of_lt_of_le hRefV (hw.bc.refs bc))) ?_
            intro _ x hx
            rw [wlp_pure]
            exact hx
          have hKey : ∀ i, (v.buf.entry i).serial =
                (s.buf.entry i).serial ∧
              (v.buf.entry i).parent =
                (s.buf.entry i).parent := by
            intro i
            have hEq := hQuietV.buf.key i
            exact ⟨congrArg GroupKey.serial hEq,
              congrArg GroupKey.parent hEq⟩
          split
          · have hAppends :
                Appends strict E B own slot node bc v := by
              refine ⟨hSoundV, hBlockV, by omega, ?_, ?_, ?_⟩
              · rw [hQuietV.tree]
                exact hFiled
              · intro i hi
                rw [hQuietV.buf.group] at hi
                rw [hQuietV.tree, (hKey i).1]
                exact hSerial i hi
              · intro hType i hi
                rw [hQuietV.buf.group] at hi
                rw [hQuietV.tree] at hType ⊢
                rw [(hKey i).2]
                exact hParent hType i hi
            rw [wlp_bind]
            refine wlp_mono
              (wlp_bufFlushExistWithEnoughFreePage hAppends) ?_
            intro ret w hw
            exact hEnd ret w hw
          · rw [wlp_bind]
            refine wlp_mono (wlp_bufFlushExistWithBlockRecover
              slot false hSoundV hBlockV (by omega)
              (Or.inr ?_)) ?_
            · rw [hQuietV.tree, hQuietV.buf.headKey]
              exact ⟨hFiled, hHead⟩
            · intro ret w hw
              exact hEnd ret w hw.steady

/-
  What the functions of the file layer keep: nodes are put
  into the hash entries and DATA nodes taken out, and the
  nodes stay where they belong.
-/
structure Goes (strict : Bool) (s t : Dev) : Prop where
  bc : s.bc.Keeps t.bc
  suspend : t.tree.suspend = s.tree.suspend
  allocated : t.tree.allocated = s.tree.allocated
  does : s.tree.chains.Does s.tree.allocated ChainAct.Filing
    t.tree.chains
  whole : s.Whole strict → t.Whole strict

instance : IsPreorder Dev (Goes strict) where
  refl _ := ⟨.refl _, rfl, rfl, .refl _, id⟩
  trans _ _ _ h h' :=
    { bc := h.bc.trans h'.bc
      suspend := h'.suspend.trans h.suspend
      allocated := h'.allocated.trans h.allocated
      does := h.does.trans (h.allocated ▸ h'.does)
      whole := fun hWhole => h'.whole (h.whole hWhole) }

/- The DIR and FILE nodes stay filed. -/
theorem Goes.filed
    {t : Dev}
    (h : Goes strict s t)
    (type : BlockType)
    (hType : type ≠ .data)
    (n : Nat)
    (hn : n ∈ s.tree.region type) : n ∈ t.tree.region type := by
  rcases h.does with ⟨acts, hRun, hFiling⟩
  rcases List.mem_flatMap.mp hn with ⟨k, hk, hIn⟩
  have hStay := Chains.Relinks.mem (k := ⟨type, k⟩) hType hRun
    hFiling (by rw [Tree.chains_eq_entry]; exact hIn)
  rw [Tree.chains_eq_entry] at hStay
  exact List.mem_flatMap.mpr ⟨k, hk, hStay⟩

omit [Platform] in
theorem Tree.region_congr
    {t u : Tree}
    (h : u.entry = t.entry)
    (type : BlockType) : u.region type = t.region type := by
  unfold Tree.region
  rw [h]

theorem Steady.goes
    {t : Dev}
    (h : Steady strict s t) : Goes strict s t := by
  refine ⟨h.bc, h.suspend, h.allocated, ?_, fun _ => h.whole⟩
  rw [Tree.chains_congr h.entry]
  exact .refl _

theorem GivesBack.goes
    {t : Dev}
    {K : List Nat}
    {own' : Nat → Nat}
    (hBc : s.bc.Keeps t.bc)
    (hKept : Kept K own own' s t)
    {u : Dev}
    (h : GivesBack strict [] own' t u) : Goes strict s u := by
  rcases h with ⟨hBcU, E', B', own'', hSound, hKeptU⟩
  apply Steady.goes
  exact
    { bc := hBc.trans hBcU
      entry := hKeptU.entry.trans hKept.entry
      suspend := hKeptU.suspend.trans hKept.suspend
      allocated := hKeptU.allocated.trans hKept.allocated
      whole := ⟨E', B', own'', hSound⟩ }

/- A held node is filed under its key. -/
theorem Dev.Sound.insert
    {n : Nat}
    {type : BlockType}
    (h : s.Sound strict E B (n :: H) own)
    (hResv : type ≠ .resv)
    (hType : (s.tree.node n).type = type)
    (hBlock : (s.tree.node n).block = own n) :
    Dev.Sound strict { s with tree := s.tree.insertNode type n }
      E B H own where
  parts := by
    have hParts := h.parts.insert List.mem_cons_self hResv hType
      hBlock
    rw [List.erase_cons_head] at hParts
    exact hParts
  clean := by
    intro hStrict m hm hZero
    rw [s.tree.insertNode_node type] at hZero
    exact h.clean hStrict m hm hZero
  handed := h.handed

omit [Platform] in
@[simp] theorem Tree.insertNode_suspend
    (t : Tree)
    (type : BlockType)
    (n : Nat) :
    (t.insertNode type n).suspend = t.suspend := by
  cases type <;> rfl

/- The block info taken since `s` is put back. -/
theorem Goes.put
    {t : Dev}
    {i : Nat}
    (h : Goes strict s t)
    (hRef : (s.bc.info i).refCount < (t.bc.info i).refCount) :
    wlp (Allowed strict) (blockInfoPut i)
      (fun _ u => Goes strict s u) t := by
  refine wlp_mono (wlp_blockInfoPut h.bc hRef) ?_
  intro _ u hu
  rw [hu.1]
  refine ⟨hu.2, h.suspend, h.allocated, h.does, ?_⟩
  intro hWhole
  rcases h.whole hWhole with ⟨E', B', own', hSound⟩
  exact ⟨E', B', own', hSound.setBc _⟩

/- `_BufFlush_NewBlock` -/
theorem wlp_bufFlushNewBlock
    {slot : Nat}
    (h : s.Sound strict E B [] own)
    (hResv : (s.buf.headKey slot).type ≠ .resv) :
    wlp (Allowed strict) (bufFlushNewBlock slot)
      (fun _ t => Goes strict s t) s := by
  unfold bufFlushNewBlock
  rw [wlp_bind]
  refine wlp_mono (wlp_treeGetErasedNode h) ?_
  intro o t ht
  rcases ht with ⟨hBeside, _, E', B', own', hKept, ht⟩
  cases o with
  | none =>
      rw [wlp_pure]
      exact GivesBack.goes hBeside.bc hKept
        ⟨.refl _, E', B', own', ht, .refl own' t⟩
  | some node =>
      rcases ht with ⟨hSound, hList, hBlock, _, hBlank⟩
      dsimp only
      rw [wlp_bind, wlp_getNode, hBlock, wlp_bind]
      refine wlp_mono (wlp_blockInfoGet (own' node) t) ?_
      intro o u hu
      cases o with
      | none =>
          dsimp only at hu ⊢
          have hSoundU := hSound.quiet hu (fun _ _ => id)
          rw [wlp_bind]
          refine wlp_mono
            (wlp_insertToErasedListHead hSoundU ?_ ?_) ?_
          · rw [hu.tree]
            exact hBlock
          · rw [hu.tree, hu.blank id]
            exact hBlank
          · intro _ v hv
            rw [wlp_pure]
            exact GivesBack.goes (hBeside.bc.trans hu.bc)
              (hKept.trans (.of_tree own' hu.tree)) hv
      | some bc =>
          dsimp only at hu ⊢
          have hSoundU := hSound.quiet hu.quiet (fun _ _ => id)
          have hKeptU := hKept.trans
            (.of_tree own' hu.quiet.tree)
          have hBcU := hBeside.bc.trans hu.quiet.bc
          have hKeyU : u.buf.headKey slot =
              s.buf.headKey slot :=
            (hu.quiet.buf.headKey slot).trans
              (hBeside.buf.headKey slot)
          have hInUse : 0 < (u.bc.info bc).refCount := by
            rw [hu.refCount]
            exact Nat.succ_pos _
          rw [wlp_bind, wlp_dirtyHeadKey, wlp_bind]
          refine wlp_mono (wlp_bufFlushExistWithBlockRecover slot
            false hSoundU hu.block hInUse
            (Or.inl ⟨List.mem_cons_self, ?_⟩)) ?_
          · rw [hKeyU]
            exact hResv
          intro r v hv
          have hBcV := hBcU.trans hv.bc
          have hRefV : (s.bc.info bc).refCount <
              (v.bc.info bc).refCount := by
            have hLe := hv.bc.refs bc
            have hStart := hBeside.bc.refs bc
            rw [hu.refCount] at hLe
            omega
          rcases hv.sound with
            ⟨E₂, B₂, own₂, hSoundV, hFail, hSucc⟩
          cases r with
          | succ =>
              have hNode := hSucc rfl List.mem_cons_self
              rw [← hKeyU] at hResv
              have hInsert := hSoundV.insert hResv hNode.1 hNode.2
              have hChains : v.tree.chains = s.tree.chains :=
                Tree.chains_congr (hv.entry.trans hKeptU.entry)
              have hAllocated :=
                hv.allocated.trans hKeptU.allocated
              have hDoes := hSoundV.parts.does_insertNode
                (P := ChainAct.Filing) List.mem_cons_self hResv
                trivial
              rw [hChains, hAllocated] at hDoes
              have hGoes : Goes strict s { v with
                  tree := v.tree.insertNode
                    (u.buf.headKey slot).type node } := by
                refine ⟨hBcV, ?_, ?_, hDoes,
                  fun _ => ⟨E₂, B₂, own₂, hInsert⟩⟩
                · exact (Tree.insertNode_suspend _ _ _).trans
                    (hv.suspend.trans hKeptU.suspend)
                · exact (v.tree.insertNode_allocated _).trans
                    hAllocated
              dsimp only
              unfold insertNodeToTree
              rw [wlp_bind, wlp_modifyTree, wlp_bind]
              refine wlp_mono (hGoes.put hRefV) ?_
              intro _ w hw
              rw [wlp_pure]
              exact hw
          | fail =>
              have hKeptV := hFail rfl
              have hStay := hKeptV.node node
                (List.mem_append_right _ List.mem_cons_self)
              have hInfo : (v.bc.info bc).block = own₂ node := by
                rw [hv.bc.block bc hInUse, hu.block, hStay.2]
              dsimp only
              rw [wlp_bind, wlp_getInfo, wlp_bind, wlp_setNode,
                hInfo]
              have hSet := hSoundV.setHeld List.mem_cons_self
                (fun x => x.setListBlock (own₂ node))
              have hKeptSet := Kept.setHeld (K := []) hSoundV
                List.mem_cons_self List.not_mem_nil
                (fun x => x.setListBlock (own₂ node))
              have hKeptAll : Kept [] own own₂ s _ :=
                (hKeptU.trans (hKeptV.mono
                  (fun _ hn => absurd hn List.not_mem_nil))).trans
                  hKeptSet
              simp only [wlp_bind]
              refine wlp_mono (wlp_discard hSet ?_) ?_
              · rw [Tree.setNode_same]
                rfl
              · intro _ w hw
                refine wlp_mono hw ?_
                intro _ x hx
                have hGoes : Goes strict s x := by
                  apply GivesBack.goes _ hKeptAll hx.1
                  exact hBcV
                refine wlp_mono (hGoes.put
                  (Nat.lt_of_lt_of_le hRefV (hx.1.1.refs bc))) ?_
                intro _ y hy
                rw [wlp_pure]
                exact hy

end Flushing

end Uffs
