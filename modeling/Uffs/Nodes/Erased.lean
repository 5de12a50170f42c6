import Uffs.Nodes.Frame
import Uffs.Tree.Parts

/-
  Taking a block off the erased list and erasing a block,
  whatever the driver answers.

  `Sound` says where the nodes are; for a strict run it also
  says that the blocks of the erased list that need no check
  are erased.

  Main declarations:
    * `Dev.Sound`, `Kept`, `Beside`
    * `wlp_treeGetErasedNode`
    * `wlp_treeEraseNode`, `wlp_treeEraseIgnored`
-/

namespace Uffs

open Prog

variable [Platform]

------------------------------------------------------------
-- Nodes and Blocks of a Device
------------------------------------------------------------

/-
  The nodes of the tree are where `Tree.Parts` says.  In a
  strict run the erased list is clean and every block that
  was handed out was erased.
-/
structure Dev.Sound
    (strict : Bool)
    (s : Dev)
    (E B H : List Nat)
    (own : Nat → Nat) : Prop where
  parts : s.tree.Parts E B H own
  clean : strict = true → ∀ n ∈ E,
    (s.tree.node n).listU = 0 → s.Blank (own n)
  handed : strict = true → s.watch.usedHandedOut = false

/-
  The hash entries and the nodes in them stay, and so do the
  held nodes `K`.
-/
structure Kept
    (K : List Nat)
    (own own' : Nat → Nat)
    (s t : Dev) : Prop where
  entry : t.tree.entry = s.tree.entry
  suspend : t.tree.suspend = s.tree.suspend
  allocated : t.tree.allocated = s.tree.allocated
  node : ∀ n ∈ s.tree.entryNodes ++ K,
    t.tree.node n = s.tree.node n ∧ own' n = own n

/- What is beside the tree and the medium. -/
structure Beside (s t : Dev) : Prop where
  bc : s.bc.Keeps t.bc
  buf : s.buf.SameKeys t.buf
  pending : ∀ k x,
    s.pending.Recovering k x → t.pending.Recovering k x

namespace Beside

variable {s t u : Dev}

omit [Platform]

theorem refl (s : Dev) : Beside s s :=
  ⟨.refl _, ⟨fun _ => rfl, rfl⟩, fun _ _ h => h⟩

theorem trans (h : Beside s t) (h' : Beside t u) :
    Beside s u where
  bc := h.bc.trans h'.bc
  buf :=
    ⟨fun i => (h'.buf.key i).trans (h.buf.key i),
      h'.buf.group.trans h.buf.group⟩
  pending := fun k x hRec =>
    h'.pending k x (h.pending k x hRec)

theorem of_same
    (hBc : t.bc = s.bc)
    (hBuf : t.buf = s.buf)
    (hPending : t.pending = s.pending) : Beside s t := by
  constructor
  · rw [hBc]
    exact .refl _
  · rw [hBuf]
    exact ⟨fun _ => rfl, rfl⟩
  · rw [hPending]
    exact fun _ _ h => h

theorem setTree
    (s : Dev)
    (T : Tree) : Beside s { s with tree := T } :=
  of_same rfl rfl rfl

theorem of_quiet
    {W : Nat → Prop}
    (h : Quiet W nowhere s t) : Beside s t :=
  ⟨h.bc, h.buf, fun k x => h.pending k x (fun _ => False.elim)⟩

end Beside

namespace Kept

variable {K K' : List Nat} {own own' own'' : Nat → Nat}
  {s t u : Dev}

omit [Platform]

theorem refl (own : Nat → Nat) (s : Dev) :
    Kept K own own s s :=
  ⟨rfl, rfl, rfl, fun _ _ => ⟨rfl, rfl⟩⟩

theorem trans
    (h : Kept K own own' s t)
    (h' : Kept K own' own'' t u) :
    Kept K own own'' s u := by
  refine ⟨h'.entry.trans h.entry, h'.suspend.trans h.suspend,
    h'.allocated.trans h.allocated, ?_⟩
  intro n hn
  have hEntry := s.tree.entryNodes_congr h.entry
  have hn' : n ∈ t.tree.entryNodes ++ K := by
    rw [hEntry]
    exact hn
  have hOld := h.node n hn
  have hNew := h'.node n hn'
  exact ⟨hNew.1.trans hOld.1, hNew.2.trans hOld.2⟩

theorem mono
    (h : Kept K own own' s t)
    (hSub : ∀ n ∈ K', n ∈ K) : Kept K' own own' s t := by
  refine ⟨h.entry, h.suspend, h.allocated, ?_⟩
  intro n hn
  apply h.node
  rcases List.mem_append.mp hn with hEntry | hK
  · exact List.mem_append_left _ hEntry
  · exact List.mem_append_right _ (hSub n hK)

theorem of_tree
    (own : Nat → Nat)
    (h : t.tree = s.tree) : Kept K own own s t := by
  refine ⟨by rw [h], by rw [h], by rw [h], ?_⟩
  intro n _
  exact ⟨by rw [h], rfl⟩

end Kept

------------------------------------------------------------
-- Links and Checks of the Lists
------------------------------------------------------------

namespace Tree

variable (t : Tree) {n m : Nat}

omit [Platform]

theorem appendErased_listU
    (c : Option Nat)
    (hm : m ≠ n) :
    ((t.appendErased n c).node m).listU =
      (t.node m).listU := by
  by_cases hTail : t.erasedTail = some m
  · rw [t.appendErased_tail c hTail hm]
    rfl
  · rw [t.appendErased_other c hTail hm]

theorem pushErased_listU
    (hm : m ≠ n) :
    ((t.pushErased n).node m).listU = (t.node m).listU := by
  rcases t.pushErased_other hm with hEq | ⟨_, hEq⟩
  · rw [hEq]
  · rw [hEq]
    rfl

theorem pushBad_listU
    (hm : m ≠ n) :
    ((t.pushBad n).node m).listU = (t.node m).listU := by
  rcases t.pushBad_other hm with hEq | ⟨_, hEq⟩
  · rw [hEq]
  · rw [hEq]
    rfl

@[simp] theorem setNode_suspend (f : TreeNode → TreeNode) :
    (t.setNode n f).suspend = t.suspend := rfl

@[simp] theorem appendErased_suspend (c : Option Nat) :
    (t.appendErased n c).suspend = t.suspend := by
  unfold Tree.appendErased
  cases t.erasedTail <;> rfl

@[simp] theorem pushErased_suspend :
    (t.pushErased n).suspend = t.suspend := by
  unfold Tree.pushErased
  cases t.erased <;> rfl

@[simp] theorem pushBad_suspend :
    (t.pushBad n).suspend = t.suspend := by
  unfold Tree.pushBad
  cases t.bad <;> rfl

theorem popErased_suspend
    {t' : Tree}
    (h : t.popErased = some (n, t')) :
    t'.suspend = t.suspend := by
  unfold popErased at h
  cases hErased : t.erased with
  | none => simp [hErased] at h
  | some k =>
      simp only [hErased, Option.some.injEq,
        Prod.mk.injEq] at h
      rw [← h.2]
      rfl

end Tree

------------------------------------------------------------
-- Changes of the Lists
------------------------------------------------------------

namespace Dev.Sound

variable {strict : Bool} {s t : Dev} {E B H : List Nat}
  {own : Nat → Nat}

theorem ne_of_held
    {n m : Nat}
    (h : Sound strict s E B H own)
    (hn : n ∈ H)
    (hm : m ∈ E ++ B ++ s.tree.entryNodes) : m ≠ n := by
  intro hEq
  apply h.parts.held hn
  rw [← hEq]
  exact hm

/- The medium changes in blocks that are not erased. -/
theorem busy
    {W : Nat → Prop}
    (h : Sound strict s E B H own)
    (hBusy : Busy W s t)
    (hW : ∀ n ∈ E, ¬ W (own n)) : Sound strict t E B H own where
  parts := by
    rw [hBusy.tree]
    exact h.parts
  clean := by
    intro hStrict n hn hZero
    rw [hBusy.tree] at hZero
    rw [hBusy.blank (hW n hn)]
    exact h.clean hStrict n hn hZero
  handed := by
    rw [hBusy.handed]
    exact h.handed

theorem quiet
    {W A : Nat → Prop}
    (h : Sound strict s E B H own)
    (hQuiet : Quiet W A s t)
    (hW : ∀ n ∈ E, ¬ W (own n)) : Sound strict t E B H own :=
  h.busy (.of_quiet hQuiet) hW

theorem still
    (h : Sound strict s E B H own)
    (hStill : Still s t) : Sound strict t E B H own :=
  h.quiet (W := nowhere) (A := nowhere) (.of_still hStill)
    (fun _ _ => id)

/- A block that is not erased is written or erased. -/
theorem write
    {n : Nat}
    (h : Sound strict s E B H own)
    (hn : n ∈ B ++ s.tree.entryNodes ++ H)
    (hBusy : Busy (· = own n) s t) :
    Sound strict t E B H own := by
  apply h.busy hBusy
  intro m hm hEq
  have hMem : ∀ k ∈ E ++ (B ++ s.tree.entryNodes ++ H),
      k < s.tree.allocated := by
    intro k hk
    apply h.parts.lt
    simpa only [List.append_assoc] using hk
  have hSame : m = n :=
    h.parts.own_inj (hMem m (List.mem_append_left _ hm))
      (hMem n (List.mem_append_right _ hn)) hEq
  have hNodup := h.parts.nodup
  simp only [List.append_assoc] at hNodup hn
  exact (List.nodup_append.mp hNodup).2.2 m hm n hn hSame

theorem writeHeld
    {n : Nat}
    {A : Nat → Prop}
    (h : Sound strict s E B H own)
    (hn : n ∈ H)
    (hQuiet : Quiet (· = own n) A s t) :
    Sound strict t E B H own :=
  h.write (List.mem_append_right _ hn) (.of_quiet hQuiet)

/- A held node may change at will. -/
theorem setHeld
    {n : Nat}
    (h : Sound strict s E B H own)
    (hn : n ∈ H)
    (f : TreeNode → TreeNode) :
    Sound strict { s with tree := s.tree.setNode n f } E B H own
    where
  parts := h.parts.setHeld hn f
  clean := by
    intro hStrict m hm hZero
    have hne : m ≠ n := by
      apply h.ne_of_held hn
      exact List.mem_append_left _ (List.mem_append_left _ hm)
    rw [s.tree.setNode_other f hne] at hZero
    exact h.clean hStrict m hm hZero
  handed := h.handed

/- Two held nodes exchange their blocks. -/
theorem swap
    {n m : Nat}
    (h : Sound strict s E B H own)
    (hn : n ∈ H)
    (hm : m ∈ H) :
    Sound strict s E B H (own ∘ Equiv.swap n m) := by
  have hKeep : ∀ k ∈ E ++ B ++ s.tree.entryNodes,
      (own ∘ Equiv.swap n m) k = own k := by
    intro k hk
    have hkn := h.ne_of_held hn hk
    have hkm := h.ne_of_held hm hk
    simp only [Function.comp_apply,
      Equiv.swap_apply_of_ne_of_ne hkn hkm]
  have hLt : ∀ k ∈ H, k < s.tree.allocated :=
    fun k hk => h.parts.lt (List.mem_append_right _ hk)
  refine ⟨?_, ?_, h.handed⟩
  · apply h.parts.change rfl
    · intro k hk
      exact ⟨rfl, hKeep k (List.mem_append_left _ hk)⟩
    · intro k hk
      have hIn : k ∈ E ++ B ++ s.tree.entryNodes :=
        List.mem_append_right _ hk
      rw [hKeep k hIn]
      exact ⟨h.parts.block k hIn, rfl, rfl⟩
    · exact h.parts.owned_swap (hLt n hn) (hLt m hm)
  · intro hStrict k hk hZero
    rw [hKeep k
      (List.mem_append_left _ (List.mem_append_left _ hk))]
    exact h.clean hStrict k hk hZero

/- A held node goes to the end of the erased list. -/
theorem append
    {n : Nat}
    (h : Sound strict s E B H own)
    (hn : n ∈ H)
    (hBlock : (s.tree.node n).listBlock = own n)
    (c : Option Nat)
    (hClean : strict = true →
      c.getD (s.tree.node n).listU = 0 → s.Blank (own n)) :
    Sound strict { s with tree := s.tree.appendErased n c }
      (E ++ [n]) B (H.erase n) own where
  parts := h.parts.append hn hBlock c
  clean := by
    intro hStrict m hm hZero
    by_cases hmn : m = n
    · rw [hmn] at hZero ⊢
      have hTail : s.tree.erasedTail ≠ some n := by
        rw [h.parts.tail]
        intro hEq
        exact h.parts.held hn
          (by simp [List.mem_of_getLast? hEq])
      rw [s.tree.appendErased_same c hTail] at hZero
      exact hClean hStrict hZero
    · rw [s.tree.appendErased_listU c hmn] at hZero
      have hE : m ∈ E := by
        simpa [hmn] using hm
      exact h.clean hStrict m hE hZero
  handed := h.handed

/- A held node goes back in front of the erased list. -/
theorem push
    {n : Nat}
    (h : Sound strict s E B H own)
    (hn : n ∈ H)
    (hBlock : (s.tree.node n).listBlock = own n)
    (hSingle : s.tree.erasedIsSingle = false)
    (hClean : strict = true →
      (s.tree.node n).listU = 0 → s.Blank (own n)) :
    Sound strict { s with tree := s.tree.pushErased n }
      (n :: E) B (H.erase n) own where
  parts := h.parts.push hn hBlock hSingle
  clean := by
    intro hStrict m hm hZero
    by_cases hmn : m = n
    · rw [hmn] at hZero ⊢
      have hHead : s.tree.erased ≠ some n := by
        rw [h.parts.erased.head]
        intro hEq
        exact h.parts.held hn (by simp [List.mem_of_head? hEq])
      rw [s.tree.pushErased_same hHead] at hZero
      exact hClean hStrict hZero
    · rw [s.tree.pushErased_listU hmn] at hZero
      have hE : m ∈ E := by
        simpa [hmn] using hm
      exact h.clean hStrict m hE hZero
  handed := h.handed

/- A held node goes into the bad list. -/
theorem pushBad
    {n : Nat}
    (h : Sound strict s E B H own)
    (hn : n ∈ H)
    (hBlock : (s.tree.node n).listBlock = own n) :
    Sound strict { s with tree := s.tree.pushBad n }
      E (n :: B) (H.erase n) own where
  parts := h.parts.pushBad hn hBlock
  clean := by
    intro hStrict m hm hZero
    have hne : m ≠ n := by
      apply h.ne_of_held hn
      exact List.mem_append_left _ (List.mem_append_left _ hm)
    rw [s.tree.pushBad_listU hne] at hZero
    exact h.clean hStrict m hm hZero
  handed := h.handed

/- The first node of the erased list is taken. -/
theorem pop
    {n : Nat}
    {t' : Tree}
    (h : Sound strict s E B H own)
    (hPop : s.tree.popErased = some (n, t')) :
    ∃ E', E = n :: E' ∧
      Sound strict { s with tree := t' } E' B (n :: H) own ∧
      t'.node = upd s.tree.node n
        ((s.tree.node n).setPrev none) ∧
      t'.entry = s.tree.entry ∧
      t'.allocated = s.tree.allocated := by
  rcases h.parts.pop hPop with
    ⟨E', hE, hParts, hNode, hEntry, hAllocated⟩
  refine ⟨E', hE, ⟨hParts, ?_, h.handed⟩, hNode, hEntry,
    hAllocated⟩
  intro hStrict m hm hZero
  have hne : m ≠ n := by
    intro hEq
    have hNodup := h.parts.nodupErased
    rw [hE] at hNodup
    apply (List.nodup_cons.mp hNodup).1
    rw [← hEq]
    exact hm
  change (t'.node m).listU = 0 at hZero
  rw [hNode, upd_other _ _ hne] at hZero
  apply h.clean hStrict m _ hZero
  rw [hE]
  exact List.mem_cons_of_mem _ hm

end Dev.Sound

------------------------------------------------------------
-- Nodes That Stay
------------------------------------------------------------

namespace Kept

variable {strict : Bool} {s t u : Dev} {E B H K : List Nat}
  {own own' : Nat → Nat}

/- A change of some nodes that are neither kept nor filed. -/
omit [Platform] in
theorem of_node
    {t' : Tree}
    (hEntry : t'.entry = s.tree.entry)
    (hSuspend : t'.suspend = s.tree.suspend)
    (hAllocated : t'.allocated = s.tree.allocated)
    (hNode : ∀ n ∈ s.tree.entryNodes ++ K,
      t'.node n = s.tree.node n) :
    Kept K own own s { s with tree := t' } :=
  ⟨hEntry, hSuspend, hAllocated,
    fun n hn => ⟨hNode n hn, rfl⟩⟩

theorem setHeld
    {n : Nat}
    (h : s.Sound strict E B H own)
    (hn : n ∈ H)
    (hK : n ∉ K)
    (f : TreeNode → TreeNode) :
    Kept K own own s
      { s with tree := s.tree.setNode n f } := by
  apply of_node (s.tree.setNode_entry f) rfl rfl
  intro m hm
  apply s.tree.setNode_other
  rcases List.mem_append.mp hm with hEntry | hIn
  · exact h.ne_of_held hn (List.mem_append_right _ hEntry)
  · intro hEq
    rw [hEq] at hIn
    exact hK hIn

theorem append
    {n : Nat}
    (h : s.Sound strict E B H own)
    (hn : n ∈ H)
    (hK : n ∉ K)
    (hSub : ∀ m ∈ K, m ∈ H)
    (c : Option Nat) :
    Kept K own own s
      { s with tree := s.tree.appendErased n c } := by
  apply of_node (s.tree.appendErased_entry c)
    (s.tree.appendErased_suspend c)
    (s.tree.appendErased_allocated c)
  intro m hm
  rcases List.mem_append.mp hm with hEntry | hIn
  · exact h.parts.append_other hn c
      (List.mem_append_right _ hEntry)
  · apply s.tree.appendErased_other
    · rw [h.parts.tail]
      intro hLast
      apply h.parts.held (hSub m hIn)
      simp [List.mem_of_getLast? hLast]
    · intro hEq
      rw [hEq] at hIn
      exact hK hIn

theorem push
    {n : Nat}
    (h : s.Sound strict E B H own)
    (hn : n ∈ H)
    (hK : n ∉ K)
    (hSub : ∀ m ∈ K, m ∈ H) :
    Kept K own own s
      { s with tree := s.tree.pushErased n } := by
  apply of_node s.tree.pushErased_entry
    s.tree.pushErased_suspend s.tree.pushErased_allocated
  intro m hm
  have hne : m ≠ n := by
    rcases List.mem_append.mp hm with hEntry | hIn
    · exact h.ne_of_held hn (List.mem_append_right _ hEntry)
    · intro hEq
      rw [hEq] at hIn
      exact hK hIn
  rcases s.tree.pushErased_other hne with hEq | ⟨hHead, _⟩
  · exact hEq
  · exfalso
    rw [h.parts.erased.head] at hHead
    have hE := List.mem_of_head? hHead
    rcases List.mem_append.mp hm with hEntry | hIn
    · have hNodup := h.parts.nodup
      simp only [List.append_assoc] at hNodup
      apply (List.nodup_append.mp hNodup).2.2 m hE m _ rfl
      simp [hEntry]
    · exact h.parts.held (hSub m hIn) (by simp [hE])

theorem pushBad
    {n : Nat}
    (h : s.Sound strict E B H own)
    (hn : n ∈ H)
    (hK : n ∉ K)
    (hSub : ∀ m ∈ K, m ∈ H) :
    Kept K own own s
      { s with tree := s.tree.pushBad n } := by
  apply of_node s.tree.pushBad_entry s.tree.pushBad_suspend
    s.tree.pushBad_allocated
  intro m hm
  rcases List.mem_append.mp hm with hEntry | hIn
  · exact h.parts.pushBad_entryNode hn hEntry
  · have hne : m ≠ n := by
      intro hEq
      rw [hEq] at hIn
      exact hK hIn
    rcases s.tree.pushBad_other hne with hEq | ⟨hHead, _⟩
    · exact hEq
    · exfalso
      rw [h.parts.bad.head] at hHead
      apply h.parts.held (hSub m hIn)
      simp [List.mem_of_head? hHead]

/- Two held nodes that are not kept exchange their blocks. -/
theorem swap
    {n m : Nat}
    (h : s.Sound strict E B H own)
    (hn : n ∈ H)
    (hm : m ∈ H)
    (hnK : n ∉ K)
    (hmK : m ∉ K) :
    Kept K own (own ∘ Equiv.swap n m) s s := by
  refine ⟨rfl, rfl, rfl, ?_⟩
  intro k hk
  refine ⟨rfl, ?_⟩
  have hNe : ∀ x ∈ H, x ∉ K → k ≠ x := by
    intro x hx hxK
    rcases List.mem_append.mp hk with hEntry | hIn
    · exact h.ne_of_held hx (List.mem_append_right _ hEntry)
    · intro hEq
      rw [hEq] at hIn
      exact hxK hIn
  simp only [Function.comp_apply,
    Equiv.swap_apply_of_ne_of_ne (hNe n hn hnK) (hNe m hm hmK)]

end Kept

------------------------------------------------------------
-- Changes of the Tree in a Program
------------------------------------------------------------

section Programs

variable {ok : Event → Prop} {strict : Bool} {s : Dev}
  {E B H : List Nat} {own : Nat → Nat}

omit [Platform] in
@[simp] theorem wlp_modifyTree
    (f : Tree → Tree)
    (Q : Unit → Dev → Prop) :
    wlp ok (modifyTree f) Q s ↔
      Q () { s with tree := f s.tree } := by
  unfold modifyTree
  rw [wlp_modify]

omit [Platform] in
@[simp] theorem wlp_setNode
    (n : Nat)
    (f : TreeNode → TreeNode)
    (Q : Unit → Dev → Prop) :
    wlp ok (setNode n f) Q s ↔
      Q () { s with tree := s.tree.setNode n f } := by
  unfold setNode
  rw [wlp_modifyTree]
  rfl

omit [Platform] in
@[simp] theorem wlp_getNode
    (n : Nat)
    (Q : TreeNode → Dev → Prop) :
    wlp ok (getNode n) Q s ↔ Q (s.tree.node n) s := by
  unfold getNode
  rw [wlp_gets]

omit [Platform] in
@[simp] theorem wlp_getInfo
    (i : Nat)
    (Q : BlockInfo → Dev → Prop) :
    wlp ok (getInfo i) Q s ↔ Q (s.bc.info i) s := by
  unfold getInfo
  rw [wlp_gets]

omit [Platform] in
theorem wlp_treeGetErasedNodeNoCheck :
    wlp ok treeGetErasedNodeNoCheck
      (fun o t =>
        match o with
        | none => t = s
        | some n => ∃ t', s.tree.popErased = some (n, t') ∧
            t = { s with tree := t' }) s := by
  unfold treeGetErasedNodeNoCheck
  rw [wlp_bind, wlp_get]
  cases hPop : s.tree.popErased with
  | none => simp only [wlp_pure]
  | some p =>
      rcases p with ⟨n, t'⟩
      simp only [wlp_bind, wlp_modifyTree, wlp_pure]
      exact ⟨t', rfl, rfl⟩

/-
  A held node, its block marked bad, goes into the bad list.
-/
theorem wlp_badBlockProcessNode
    {n : Nat}
    {K : List Nat}
    (h : s.Sound strict E B H own)
    (hn : n ∈ H)
    (hBlock : (s.tree.node n).listBlock = own n)
    (hK : n ∉ K)
    (hSub : ∀ m ∈ K, m ∈ H) :
    wlp ok (badBlockProcessNode n)
      (fun _ t =>
        t.Sound strict E (n :: B) (H.erase n) own ∧
          Kept K own own s t ∧ Beside s t ∧
          ∀ b, b ≠ own n → (t.Blank b ↔ s.Blank b)) s := by
  unfold badBlockProcessNode
  rw [wlp_bind, wlp_getNode, wlp_bind, hBlock]
  refine wlp_mono (quiet_flashMarkBadBlock (W := (· = own n))
    (A := nowhere) rfl s) ?_
  intro _ t ht
  have hSound := h.writeHeld hn ht
  have hBlock' : (t.tree.node n).listBlock = own n := by
    rw [ht.tree]
    exact hBlock
  unfold treeInsertToBadBlockList
  rw [wlp_modifyTree]
  refine ⟨hSound.pushBad hn hBlock', ?_, ?_, ?_⟩
  · exact (Kept.of_tree own ht.tree).trans
      (Kept.pushBad hSound hn hK hSub)
  · exact (Beside.of_quiet ht).trans (.setTree _ _)
  · intro b hb
    exact ht.blank hb

/- The tags of an erased block that is handed out. -/
theorem wlp_prepareErased
    {n : Nat}
    (h : s.Sound strict E B H own)
    (hBlock : (s.tree.node n).listBlock = own n)
    (hErased : strict = true → s.flash.ErasedBlock (own n)) :
    wlp ok (prepareErased n)
      (fun o t => o = some n ∧ t.tree = s.tree ∧
        t.Sound strict E B H own ∧ Beside s t ∧
        ∀ b, (t.Blank b ↔ s.Blank b) ∧
          (t.flash.ErasedBlock b ↔ s.flash.ErasedBlock b))
      s := by
  unfold prepareErased
  rw [wlp_bind, wlp_getNode, hBlock, wlp_bind]
  unfold watchHandOut
  rw [wlp_modify]
  generalize hEq : ({ s with
    watch := { s.watch with
      usedHandedOut := s.watch.usedHandedOut ||
        !decide (s.flash.ErasedBlock (own n)) } } : Dev) = t
  have hTree : t.tree = s.tree := by
    rw [← hEq]
  have hBeside : Beside s t := by
    rw [← hEq]
    exact .of_same rfl rfl rfl
  have hBlank : ∀ b, (t.Blank b ↔ s.Blank b) ∧
      (t.flash.ErasedBlock b ↔ s.flash.ErasedBlock b) := by
    intro b
    rw [← hEq]
    exact ⟨Iff.rfl, Iff.rfl⟩
  have hSound : t.Sound strict E B H own := by
    refine ⟨?_, ?_, ?_⟩
    · rw [hTree]
      exact h.parts
    · intro hStrict m hm hZero
      rw [hTree] at hZero
      exact (hBlank _).1.mpr (h.clean hStrict m hm hZero)
    · intro hStrict
      rw [← hEq]
      simp [h.handed hStrict, hErased hStrict]
  clear hEq
  have hDone : ∀ u, Quiet nowhere nowhere t u →
      (u.tree = s.tree ∧ u.Sound strict E B H own ∧
        Beside s u ∧ ∀ b, (u.Blank b ↔ s.Blank b) ∧
          (u.flash.ErasedBlock b ↔ s.flash.ErasedBlock b)) := by
    intro u hu
    refine ⟨hu.tree.trans hTree,
      hSound.quiet hu (fun _ _ => id),
      hBeside.trans (.of_quiet hu), ?_⟩
    intro b
    exact ⟨(hu.blank id).trans (hBlank b).1,
      (hu.erased id).trans (hBlank b).2⟩
  rw [wlp_bind]
  refine wlp_mono (wlp_blockInfoGet (own n) t) ?_
  intro o u hu
  cases o with
  | none =>
      rw [wlp_pure]
      exact ⟨rfl, hDone u hu⟩
  | some i =>
      rw [wlp_bind]
      refine wlp_mono (quiet_blockInfoInitErased
        (W := nowhere) (A := nowhere) i u) ?_
      intro _ v hv
      have hQuiet := hu.quiet.trans hv
      have hRef := hv.bc.refs i
      rw [hu.refCount] at hRef
      rw [wlp_bind]
      refine wlp_mono (wlp_blockInfoPut hQuiet.bc
        (Nat.lt_of_succ_le hRef)) ?_
      intro _ w hw
      rw [wlp_pure]
      refine ⟨rfl, hDone w ?_⟩
      rw [hw.1]
      exact { hQuiet with bc := hw.2 }

end Programs

------------------------------------------------------------
-- Getting and Erasing
------------------------------------------------------------

/- The blocks of the held nodes `K` stay blank. -/
def Spares
    (K : List Nat)
    (own : Nat → Nat)
    (s t : Dev) : Prop :=
  ∀ m ∈ K, s.Blank (own m) → t.Blank (own m)

/-
  How `uffs_TreeGetErasedNode` ends for a caller that holds
  the nodes `H`.
-/
def GetsErased
    (strict : Bool)
    (H : List Nat)
    (own : Nat → Nat)
    (s : Dev)
    (o : Option Nat)
    (t : Dev) : Prop :=
  Beside s t ∧ Spares H own s t ∧
    ∃ E B own', Kept H own own' s t ∧
    match o with
    | none => t.Sound strict E B H own'
    | some n => t.Sound strict E B (n :: H) own' ∧
        (t.tree.node n).isList ∧
        (t.tree.node n).listBlock = own' n ∧
        (strict = true → t.flash.ErasedBlock (own' n)) ∧
        (strict = true → (t.tree.node n).listU = 0 →
          t.Blank (own' n))

/-
  How `uffs_TreeEraseNode` ends for a caller that holds the
  nodes `H` and gives one of them, `n`.
-/
def ErasesNode
    (strict : Bool)
    (H : List Nat)
    (own : Nat → Nat)
    (n : Nat)
    (s : Dev)
    (r : URet)
    (t : Dev) : Prop :=
  Beside s t ∧ Spares (H.erase n) own s t ∧
    ∃ E B own', Kept (H.erase n) own own' s t ∧
    t.Sound strict E B H own' ∧
    (t.tree.node n).isList ∧
    (t.tree.node n).listU = 0 ∧
    (t.tree.node n).listBlock = own' n ∧
    (r = .succ → strict = true → t.Blank (own' n))

section Recursion

variable {strict : Bool}

/- The two functions call each other; see `erasedFuel`. -/
def GetsErasedFuel (strict : Bool) (fuel : Nat) : Prop :=
  ∀ (s : Dev) (E B H : List Nat) (own : Nat → Nat),
    s.Sound strict E B H own →
      wlp (Allowed strict) (getErasedNodeFuel fuel)
        (GetsErased strict H own s) s

/- The two functions call each other; see `erasedFuel`. -/
def ErasesNodeFuel (strict : Bool) (fuel : Nat) : Prop :=
  ∀ (s : Dev) (E B H : List Nat) (own : Nat → Nat) (n : Nat),
    s.Sound strict E B H own → n ∈ H →
      (s.tree.node n).listBlock = own n →
      wlp (Allowed strict) (eraseNodeFuel fuel n)
        (ErasesNode strict H own n s) s

/-
  A held node `n` and a node `new` that was just taken
  exchange their blocks; `new` goes into the bad list.
-/
theorem wlp_exchange
    {s : Dev}
    {E B H : List Nat}
    {own : Nat → Nat}
    {n new : Nat}
    (h : s.Sound strict E B (new :: H) own)
    (hn : n ∈ H)
    (hBlock : (s.tree.node n).listBlock = own n)
    (hNew : (s.tree.node new).listBlock = own new) :
    wlp (Allowed strict) (do
        let good ← getNode new
        let bad ← getNode n
        noteNotBlank good.listBlock .swappedAfterError
        setNode new fun x => x.setListBlock bad.listBlock
        setNode n fun x => x.setListBlock good.listBlock
        setNode n fun x => x.setListU 0
        badBlockProcessNode new
        pure URet.succ)
      (ErasesNode strict H own n s) s := by
  have hNodup : (new :: H).Nodup :=
    (List.nodup_append.mp h.parts.nodup).2.1
  have hNewH : new ∉ H := (List.nodup_cons.mp hNodup).1
  have hnK : n ∉ H.erase n :=
    (List.nodup_cons.mp hNodup).2.not_mem_erase
  have hNewK : new ∉ H.erase n :=
    fun hIn => hNewH (List.mem_of_mem_erase hIn)
  have hNe : n ≠ new := by
    intro hEq
    rw [hEq] at hn
    exact hNewH hn
  have hMem : n ∈ new :: H := List.mem_cons_of_mem _ hn
  have hHead : new ∈ new :: H := List.mem_cons_self
  rw [wlp_bind, wlp_getNode, wlp_bind, wlp_getNode, wlp_bind,
    hBlock, hNew]
  refine wlp_mono (wlp_noteNotBlank (own new) s rfl) ?_
  intro _ t ht
  rcases ht with ⟨hStill, hBlank⟩
  simp only [wlp_bind, wlp_setNode]
  let own' := own ∘ Equiv.swap n new
  have hOwnN : own' n = own new := by
    simp only [own', Function.comp_apply,
      Equiv.swap_apply_left]
  have hOwnNew : own' new = own n := by
    simp only [own', Function.comp_apply,
      Equiv.swap_apply_right]
  have hSwap : t.Sound strict E B (new :: H) own' :=
    (h.still hStill).swap hMem hHead
  have hOne := hSwap.setHeld hHead
    (fun x => x.setListBlock (own n))
  have hTwo := hOne.setHeld hMem
    (fun x => x.setListBlock (own new))
  have hThree := hTwo.setHeld hMem (fun x => x.setListU 0)
  have hKept : Kept (H.erase n) own own' s _ :=
    ((((Kept.of_tree own hStill.tree).trans
      (Kept.swap (h.still hStill) hMem hHead hnK hNewK)).trans
      (Kept.setHeld hSwap hHead hNewK
        (fun x => x.setListBlock (own n)))).trans
      (Kept.setHeld hOne hMem hnK
        (fun x => x.setListBlock (own new)))).trans
      (Kept.setHeld hTwo hMem hnK (fun x => x.setListU 0))
  refine wlp_mono (wlp_badBlockProcessNode (K := H) hThree hHead
    ?_ hNewH (fun _ => List.mem_cons_of_mem _)) ?_
  · rw [hOwnNew, Tree.setNode_other _ _ hNe.symm,
      Tree.setNode_other _ _ hNe.symm, Tree.setNode_same]
    rfl
  · intro _ u hu
    rcases hu with ⟨hu, hKeptU, hBeside, hBlankU⟩
    rw [List.erase_cons_head] at hu
    have hNode := (hKeptU.node n
      (List.mem_append_right _ hn)).1
    rw [Tree.setNode_same, Tree.setNode_same] at hNode
    rw [wlp_pure]
    refine ⟨?_, ?_, E, new :: B, own', ?_, hu, ?_, ?_, ?_, ?_⟩
    · exact ((Beside.of_quiet (W := nowhere)
        (.of_still hStill)).trans
          (.setTree _ _)).trans hBeside
    · intro m hm hBlankM
      have hmH := List.mem_of_mem_erase hm
      apply (hBlankU (own m) _).mpr
      · exact (Quiet.blank (W := nowhere) (A := nowhere)
          (.of_still hStill) id).mpr hBlankM
      · rw [hOwnNew]
        intro hEq
        have hSame : m = n := by
          apply h.parts.own_inj _ _ hEq
          · exact h.parts.lt (List.mem_append_right _
              (List.mem_cons_of_mem _ hmH))
          · exact h.parts.lt (List.mem_append_right _ hMem)
        rw [hSame] at hm
        exact hnK hm
    · exact hKept.trans
        (hKeptU.mono (fun _ => List.mem_of_mem_erase))
    · rw [hNode]
      rfl
    · rw [hNode]
      rfl
    · rw [hNode, hOwnN]
      rfl
    · intro _ hStrict
      rw [hOwnN]
      apply (hBlankU (own new) _).mpr
      · exact hBlank hStrict
      · rw [hOwnNew]
        intro hEq
        apply hNe
        apply h.parts.own_inj _ _ hEq.symm
        · exact h.parts.lt (List.mem_append_right _ hMem)
        · exact h.parts.lt (List.mem_append_right _ hHead)

theorem erases_succ
    {fuel : Nat}
    (ih : GetsErasedFuel strict fuel) :
    ErasesNodeFuel strict (fuel + 1) := by
  intro s E B H own n h hn hBlock
  have hNodup : H.Nodup :=
    (List.nodup_append.mp h.parts.nodup).2.1
  have hNotK : n ∉ H.erase n := hNodup.not_mem_erase
  rw [eraseNodeFuel, wlp_bind, wlp_getNode, wlp_bind,
    wlp_setNode, hBlock, wlp_bind]
  have hSet := h.setHeld hn (fun x => x.setListU 0)
  have hKeptSet := Kept.setHeld h hn hNotK
    (fun x => x.setListU 0)
  refine wlp_mono (wlp_flashEraseBlock (W := (· = own n))
    (A := nowhere) _ rfl) ?_
  intro ret t ht
  rcases ht with ⟨hQuiet, hErased⟩
  have hSound := hSet.writeHeld hn hQuiet
  have hKept := hKeptSet.trans (Kept.of_tree own hQuiet.tree)
  have hNode : t.tree.node n =
      (s.tree.node n).setListU 0 := by
    rw [hQuiet.tree]
    exact s.tree.setNode_same (n := n) (fun x => x.setListU 0)
  have hBeside : Beside s t :=
    (Beside.setTree s _).trans (.of_quiet hQuiet)
  have hSpares : Spares (H.erase n) own s t := by
    intro m hm hBlankM
    apply (hQuiet.blank _).mpr hBlankM
    intro hEq
    have hSame : m = n := by
      apply h.parts.own_inj _ _ hEq
      · exact h.parts.lt (List.mem_append_right _
          (List.mem_of_mem_erase hm))
      · exact h.parts.lt (List.mem_append_right _ hn)
    rw [hSame] at hm
    exact hNotK hm
  split
  · rw [wlp_bind]
    refine wlp_mono (ih t E B H own hSound) ?_
    intro o u hu
    rcases hu with ⟨hBesideU, hSparesU, E', B', own', hKeptU, hu⟩
    have hSparesSU : Spares (H.erase n) own s u :=
      fun m hm hBlankM => hSparesU m
        (List.mem_of_mem_erase hm) (hSpares m hm hBlankM)
    have hStay := hKeptU.node n (List.mem_append_right _ hn)
    have hNodeU : u.tree.node n =
        (s.tree.node n).setListU 0 := hStay.1.trans hNode
    have hKeptSU := hKept.trans
      (hKeptU.mono (fun _ => List.mem_of_mem_erase))
    cases o with
    | none =>
        rw [wlp_pure]
        refine ⟨hBeside.trans hBesideU, hSparesSU, E', B', own',
          hKeptSU, hu, ?_, ?_, ?_, ?_⟩
        · rw [hNodeU]
          rfl
        · rw [hNodeU]
          rfl
        · rw [hNodeU, hStay.2]
          exact hBlock
        · intro hr
          cases hr
    | some new =>
        rcases hu with ⟨hu, _, hNewBlock, _, _⟩
        have hBlockU : (u.tree.node n).listBlock = own' n := by
          rw [hNodeU, hStay.2]
          exact hBlock
        refine wlp_mono
          (wlp_exchange hu hn hBlockU hNewBlock) ?_
        intro r v hv
        rcases hv with
          ⟨hBesideV, hSparesV, E'', B'', own'', hKeptV, hv⟩
        refine ⟨(hBeside.trans hBesideU).trans hBesideV, ?_, E'',
          B'', own'', hKeptSU.trans hKeptV, hv⟩
        intro m hm hBlankM
        have hOwn := (hKeptU.node m (List.mem_append_right _
          (List.mem_of_mem_erase hm))).2
        have hNext := hSparesV m hm
        rw [hOwn] at hNext
        exact hNext (hSparesSU m hm hBlankM)
  · rw [wlp_pure]
    refine ⟨hBeside, hSpares, E, B, own, hKept, hSound, ?_, ?_,
      ?_, ?_⟩
    · rw [hNode]
      rfl
    · rw [hNode]
      rfl
    · rw [hNode]
      exact hBlock
    · intro hr _
      have hErr : ret.haveErr = false := by
        by_contra hTrue
        simp only [Bool.not_eq_false] at hTrue
        rw [hTrue] at hr
        cases hr
      refine ⟨hErased.clean hErr, ?_⟩
      rw [hErased.last]
      exact hErr

/- The first node of the erased list is in the caller's hands. -/
theorem take
    {s : Dev}
    {E B H : List Nat}
    {own : Nat → Nat}
    {n : Nat}
    {t' : Tree}
    (h : s.Sound strict E B H own)
    (hPop : s.tree.popErased = some (n, t')) :
    ∃ E', Dev.Sound strict { s with tree := t' } E' B (n :: H)
        own ∧
      Kept H own own s { s with tree := t' } ∧
      (t'.node n).isList ∧
      (t'.node n).listBlock = own n ∧
      (strict = true → (t'.node n).listU = 0 →
        s.Blank (own n)) := by
  rcases h.pop hPop with
    ⟨E', hE, hPopped, hNode, hEntry, hAllocated⟩
  have hIn : n ∈ E := by
    rw [hE]
    exact List.mem_cons_self
  have hList := h.parts.lists n (List.mem_append_left _ hIn)
  have hOwn := h.parts.block n
    (List.mem_append_left _ (List.mem_append_left _ hIn))
  rw [← TreeNode.listBlock_of_isList hList] at hOwn
  have hn : t'.node n = (s.tree.node n).setPrev none := by
    rw [hNode, upd_same]
  refine ⟨E', hPopped, ?_, ?_, ?_, ?_⟩
  · apply Kept.of_node hEntry
      (s.tree.popErased_suspend hPop) hAllocated
    intro m hm
    rw [hNode]
    apply upd_other
    intro hEq
    rw [hEq] at hm
    rcases List.mem_append.mp hm with hEntry | hH
    · have hNodup := h.parts.nodup
      simp only [List.append_assoc] at hNodup
      apply (List.nodup_append.mp hNodup).2.2 n hIn n _ rfl
      simp [hEntry]
    · exact h.parts.held hH (by simp [hIn])
  · rw [hn]
    rfl
  · rw [hn]
    exact hOwn
  · intro hStrict hZero
    rw [hn] at hZero
    exact h.clean hStrict n hIn hZero

/- A node that was taken is handed out. -/
theorem wlp_handOut
    {s t : Dev}
    {E B H : List Nat}
    {own own' : Nat → Nat}
    {n : Nat}
    (h : t.Sound strict E B (n :: H) own')
    (hKept : Kept H own own' s t)
    (hBeside : Beside s t)
    (hSpares : Spares H own s t)
    (hList : (t.tree.node n).isList)
    (hBlock : (t.tree.node n).listBlock = own' n)
    (hErased : strict = true → t.flash.ErasedBlock (own' n))
    (hBlank : strict = true → (t.tree.node n).listU = 0 →
      t.Blank (own' n)) :
    wlp (Allowed strict) (prepareErased n)
      (GetsErased strict H own s) t := by
  refine wlp_mono (wlp_prepareErased h hBlock hErased) ?_
  intro o u hu
  rcases hu with ⟨rfl, hTree, hu, hBesideU, hSame⟩
  refine ⟨hBeside.trans hBesideU,
    fun m hm hBlankM => (hSame _).1.mpr (hSpares m hm hBlankM),
    E, B, own', hKept.trans (.of_tree own' hTree), hu, ?_, ?_,
    ?_, ?_⟩
  · rw [hTree]
    exact hList
  · rw [hTree]
    exact hBlock
  · intro hStrict
    exact (hSame _).2.mpr (hErased hStrict)
  · intro hStrict hZero
    rw [hTree] at hZero
    exact (hSame _).1.mpr (hBlank hStrict hZero)

theorem gets_succ
    {fuel : Nat}
    (ih : ErasesNodeFuel strict fuel) :
    GetsErasedFuel strict (fuel + 1) := by
  intro s E B H own h
  rw [getErasedNodeFuel, wlp_bind]
  refine wlp_mono wlp_treeGetErasedNodeNoCheck ?_
  intro o t ht
  cases o with
  | none =>
      rw [wlp_pure, ht]
      exact ⟨.refl s, fun _ _ => id, E, B, own, .refl own s, h⟩
  | some n =>
      rcases ht with ⟨t', hPop, hEq⟩
      rcases take h hPop with
        ⟨E', hTaken, hKept, hList, hBlock, hBlank⟩
      have hBeside := Beside.setTree s t'
      rw [← hEq] at hTaken hKept hBeside
      have hTree : t.tree = t' := by
        rw [hEq]
      have hSame : ∀ b, t.Blank b ↔ s.Blank b := by
        intro b
        rw [hEq]
        exact Iff.rfl
      have hSpares : Spares H own s t :=
        fun m _ => (hSame (own m)).mpr
      rw [← hTree] at hList hBlock hBlank
      have hMem : n ∈ n :: H := List.mem_cons_self
      rw [wlp_bind, wlp_getNode, hBlock]
      split
      · -- the block must be checked first
        rename_i hCheck
        rw [wlp_bind]
        refine wlp_mono (wlp_flashCheckErasedBlock (own n) t) ?_
        intro r u hu
        rcases hu with ⟨hStill, hErased⟩
        have hTreeU := hStill.tree
        have hSparesU : Spares H own s u := by
          intro m hm hBlankM
          apply (Quiet.blank (W := nowhere) (A := nowhere)
            (.of_still hStill) id).mpr
          exact hSpares m hm hBlankM
        have hSound := hTaken.still hStill
        have hKeptU := hKept.trans (.of_tree own hTreeU)
        have hBesideU := hBeside.trans
          (.of_quiet (W := nowhere) (.of_still hStill))
        rw [← hTreeU] at hList hBlock hCheck
        cases r with
        | succ =>
            refine wlp_handOut hSound hKeptU hBesideU hSparesU
              hList hBlock (hErased rfl) ?_
            intro _ hZero
            exact absurd hZero hCheck
        | fail =>
            dsimp only
            rw [wlp_bind]
            refine wlp_mono (ih u E' B (n :: H) own n hSound hMem
              hBlock) ?_
            intro r v hv
            rcases hv with ⟨hBesideV, hSparesV, E'', B'', own'',
              hKeptV, hSoundV, hListV, hZeroV, hBlockV,
              hBlankV⟩
            cases r with
            | fail =>
                dsimp only
                unfold note
                rw [wlp_bind, wlp_emit]
                intro hOk
                cases hOk.1
            | succ =>
                dsimp only
                rw [wlp_bind, wlp_setNode]
                rw [List.erase_cons_head] at hKeptV hSparesV
                have hNot : n ∉ H := by
                  have hNodup :=
                    (List.nodup_append.mp hSoundV.parts.nodup).2.1
                  exact (List.nodup_cons.mp hNodup).1
                refine wlp_handOut
                  (hSoundV.setHeld hMem fun x => x.setListU 0)
                  ((hKeptU.trans hKeptV).trans
                    (Kept.setHeld hSoundV hMem hNot
                      fun x => x.setListU 0))
                  ((hBesideU.trans hBesideV).trans
                    (.setTree _ _))
                  (fun m hm hBlankM => hSparesV m hm
                    (hSparesU m hm hBlankM)) ?_ ?_ ?_ ?_
                · rw [Tree.setNode_same]
                  rfl
                · rw [Tree.setNode_same]
                  exact hBlockV
                · intro hStrict
                  exact (hBlankV rfl hStrict).1
                · intro hStrict _
                  exact hBlankV rfl hStrict
      · rename_i hCheck
        have hZero : (t.tree.node n).listU = 0 :=
          not_not.mp hCheck
        refine wlp_handOut hTaken hKept hBeside hSpares hList
          hBlock ?_ ?_
        · intro hStrict
          exact ((hSame _).mpr (hBlank hStrict hZero)).1
        · intro hStrict hZero
          exact (hSame _).mpr (hBlank hStrict hZero)

/- Both functions, for every bound on their calls. -/
theorem erasedFuel
    (fuel : Nat) :
    GetsErasedFuel strict fuel ∧ ErasesNodeFuel strict fuel := by
  induction fuel with
  | zero =>
      constructor
      · intro s E B H own _
        rw [getErasedNodeFuel, wlp_diverge]
        trivial
      · intro s E B H own n _ _ _
        rw [eraseNodeFuel, wlp_diverge]
        trivial
  | succ fuel ih => exact ⟨gets_succ ih.2, erases_succ ih.1⟩

variable {s : Dev} {E B H : List Nat} {own : Nat → Nat}

/- `uffs_TreeGetErasedNode` -/
theorem wlp_treeGetErasedNode
    (h : s.Sound strict E B H own) :
    wlp (Allowed strict) treeGetErasedNode
      (GetsErased strict H own s) s :=
  (erasedFuel _).1 s E B H own h

/- `uffs_TreeEraseNode` -/
theorem wlp_treeEraseNode
    {n : Nat}
    (h : s.Sound strict E B H own)
    (hn : n ∈ H)
    (hBlock : (s.tree.node n).listBlock = own n) :
    wlp (Allowed strict) (treeEraseNode n)
      (ErasesNode strict H own n s) s :=
  (erasedFuel _).2 s E B H own n h hn hBlock

/-
  An erase whose result is ignored: in a strict run it has
  succeeded.
-/
theorem wlp_treeEraseIgnored
    {n : Nat}
    (h : s.Sound strict E B H own)
    (hn : n ∈ H)
    (hBlock : (s.tree.node n).listBlock = own n) :
    wlp (Allowed strict) (treeEraseIgnored n)
      (fun _ t => ErasesNode strict H own n s .succ t) s := by
  unfold treeEraseIgnored
  rw [wlp_bind]
  refine wlp_mono (wlp_treeEraseNode h hn hBlock) ?_
  intro r t ht
  cases r with
  | succ =>
      rw [wlp_pure]
      exact ht
  | fail =>
      unfold note
      rw [wlp_emit]
      intro hOk
      rcases ht with ⟨hBeside, hSpares, E', B', own', hKept,
        hSound, hList, hZero, hBlock, _⟩
      refine ⟨hBeside, hSpares, E', B', own', hKept, hSound, hList,
        hZero, hBlock, ?_⟩
      intro _ hStrict
      cases hOk.2 hStrict

end Recursion

end Uffs
