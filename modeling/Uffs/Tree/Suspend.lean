import Uffs.Model.Emulator
import Uffs.Nodes.Files

/-
  The list of suspended nodes while several deletions are
  running.

  A deletion suspends the node of its object, so that no one
  uses the serial number again, and gives up the device
  between the data blocks that it erases.  Other deletions
  suspend and remove their nodes in the meantime.

  Main declarations:
    * `Suspending`, `SuspendStep`, `SuspendRun`
    * `Suspending.Exact`
    * `Suspending.Meets`
    * `suspendRun_exact`
    * `suspendRunsExact_false`
-/

namespace Uffs

section Suspending

variable [Platform]

------------------------------------------------------------
-- Steps of Deletions
------------------------------------------------------------

/-
  The tree and what the running deletions have suspended:
  the nodes, with the serial numbers of their objects.
-/
structure Suspending where
  tree : Tree
  held : List (Nat × Nat)

/-
  A step: a node with a serial number is suspended, a node
  is removed, or the device is given to someone else.
-/
inductive SuspendAct where
| add (node serial : Nat)
| remove (node : Nat)
| yield
deriving DecidableEq, Repr

/- The suspended nodes of a state. -/
def Suspending.nodes (s : Suspending) : List Nat :=
  s.held.map Prod.fst

/-
  The part of `uffs_DeleteObject` that suspends a node: the
  serial number is written, then `uffs_TreeSuspendAdd`.
-/
def Tree.suspendSerial (t : Tree) (n serial : Nat) : Tree :=
  (t.setNode n fun x => x.setListU serial).suspendAdd n

/-
  A node that is suspended was in the tree before, and so is
  not suspended yet.  Whoever gets the device leaves the
  suspended nodes alone.
-/
inductive SuspendStep :
    Suspending → SuspendAct → Suspending → Prop
| add
    {s : Suspending}
    {n : Nat}
    (serial : Nat)
    (hNew : n ∉ s.nodes)
    (hPool : n < nodeCount) :
    SuspendStep s (.add n serial)
      { tree := s.tree.suspendSerial n serial
        held := (n, serial) :: s.held }
| remove
    {s : Suspending}
    {n serial : Nat}
    (hHeld : (n, serial) ∈ s.held) :
    SuspendStep s (.remove n)
      { tree := s.tree.suspendRemove n
        held := s.held.erase (n, serial) }
| yield
    {s : Suspending}
    {t : Tree}
    (hSuspend : t.suspend = s.tree.suspend)
    (hNode : ∀ n ∈ s.nodes, t.node n = s.tree.node n) :
    SuspendStep s .yield { s with tree := t }

/- A run, with the state before each of its steps. -/
inductive SuspendRun (s : Suspending) :
    List (Suspending × SuspendAct) → Suspending → Prop
| nil : SuspendRun s [] s
| snoc
    {es : List (Suspending × SuspendAct)}
    {t u : Suspending}
    {a : SuspendAct}
    (hRun : SuspendRun s es t)
    (hStep : SuspendStep t a u) :
    SuspendRun s (es ++ [(t, a)]) u

namespace Suspending

/- No deletion is running. -/
structure Idle (s : Suspending) : Prop where
  suspend : s.tree.suspend = none
  held : s.held = []

/-
  The list holds the suspended nodes, and the serial numbers
  of their objects are not handed out.
-/
structure Exact (s : Suspending) : Prop where
  list : ∃ l, Linked (fun n => (s.tree.node n).next)
    s.tree.suspend l ∧ l.Perm s.nodes
  serial : ∀ i, s.tree.findFreeFsnSerial = some i →
    ∀ q ∈ s.held, q.2 ≠ i

/-
  A node at the head of the list is only removed when no
  other node is suspended.
-/
def Meets (s : Suspending) : SuspendAct → Prop
| .remove n => s.tree.suspend = some n → s.held.length = 1
| _ => True

end Suspending

------------------------------------------------------------
-- Links of the Suspended Nodes
------------------------------------------------------------

namespace Tree

variable (t : Tree) {n : Nat}

omit [Platform]

theorem setNode_node
    (m : Nat)
    (f : TreeNode → TreeNode) :
    (t.setNode n f).node m =
      if m = n then f (t.node m) else t.node m := by
  unfold setNode upd
  dsimp only
  split
  · rename_i hEq
    rw [hEq]
  · rfl

/- What adding a node changes. -/
structure Added (t : Tree) (n serial : Nat) (t' : Tree) :
    Prop where
  suspend : t'.suspend = some n
  next : ∀ m, (t'.node m).next =
    if m = n then t.suspend else (t.node m).next
  prev : ∀ m, (t'.node m).prev =
    if m = n then none
    else if t.suspend = some m then some n
    else (t.node m).prev
  listU : ∀ m, (t'.node m).listU =
    if m = n then serial else (t.node m).listU

theorem added_suspendSerial
    (serial : Nat)
    (h : t.suspend ≠ some n) :
    t.Added n serial (t.suspendSerial n serial) := by
  unfold suspendSerial suspendAdd
  cases hHead : t.suspend with
  | none =>
      simp only [setNode_suspend, hHead]
      constructor
      · rfl
      · intro m
        dsimp only
        rw [setNode_node, setNode_node]
        split
        · exact hHead.symm ▸ rfl
        · rfl
      · intro m
        dsimp only
        rw [setNode_node, setNode_node]
        split
        · rfl
        · rw [hHead, if_neg (by simp)]
      · intro m
        dsimp only
        rw [setNode_node, setNode_node]
        split
        · rfl
        · rfl
  | some e =>
      have hNe : e ≠ n := by
        intro hEq
        exact h (hHead.trans (congrArg some hEq))
      simp only [setNode_suspend, hHead]
      constructor
      · rfl
      · intro m
        dsimp only
        rw [setNode_node, setNode_node, setNode_node]
        by_cases hm : m = n
        · rw [if_pos hm, if_pos hm, if_pos hm,
            if_neg (hm ▸ Ne.symm hNe)]
          exact hHead.symm ▸ rfl
        · rw [if_neg hm, if_neg hm, if_neg hm]
          split
          · rfl
          · rfl
      · intro m
        dsimp only
        rw [setNode_node, setNode_node, setNode_node, hHead]
        by_cases hm : m = n
        · rw [if_pos hm, if_pos hm, if_pos hm,
            if_neg (hm ▸ Ne.symm hNe)]
          rfl
        · rw [if_neg hm, if_neg hm, if_neg hm]
          by_cases he : m = e
          · rw [if_pos he, if_pos (congrArg some he.symm)]
            rfl
          · rw [if_neg he, if_neg]
            intro hEq
            exact he (Option.some.inj hEq).symm
      · intro m
        dsimp only
        rw [setNode_node, setNode_node, setNode_node]
        by_cases hm : m = n
        · rw [if_pos hm, if_pos hm, if_pos hm,
            if_neg (hm ▸ Ne.symm hNe)]
          rfl
        · rw [if_neg hm, if_neg hm, if_neg hm]
          split
          · rfl
          · rfl

/- The neighbours `p` and `o` of a node are linked. -/
def bypass (p o : Option Nat) : Tree :=
  let t' :=
    match p with
    | none => t
    | some e => t.setNode e fun x => x.setNext o
  match o with
  | none => t'
  | some e => t'.setNode e fun x => x.setPrev p

theorem bypass_next
    (p o : Option Nat)
    (m : Nat) :
    ((t.bypass p o).node m).next =
      if p = some m then o else (t.node m).next := by
  have hPrev : ∀ (t : Tree) (e : Nat) (q : Option Nat),
      ((t.setNode e fun x => x.setPrev q).node m).next =
        (t.node m).next := by
    intro t e q
    rw [setNode_node]
    split
    · rfl
    · rfl
  have hNext : ∀ e : Nat,
      ((t.setNode e fun x => x.setNext o).node m).next =
        if some e = some m then o else (t.node m).next := by
    intro e
    simp only [setNode_node, Option.some.injEq, eq_comm]
    split
    · rfl
    · rfl
  unfold bypass
  cases p with
  | none =>
      rw [if_neg (by simp)]
      cases o with
      | none => rfl
      | some e => exact hPrev t e none
  | some p =>
      cases o with
      | none => exact hNext p
      | some e => exact (hPrev _ e (some p)).trans (hNext p)

theorem bypass_prev
    (p o : Option Nat)
    (m : Nat) :
    ((t.bypass p o).node m).prev =
      if o = some m then p else (t.node m).prev := by
  have hNext : ∀ e : Nat,
      ((t.setNode e fun x => x.setNext o).node m).prev =
        (t.node m).prev := by
    intro e
    rw [setNode_node]
    split
    · rfl
    · rfl
  have hPrev : ∀ (t : Tree) (e : Nat),
      ((t.setNode e fun x => x.setPrev p).node m).prev =
        if some e = some m then p else (t.node m).prev := by
    intro t e
    simp only [setNode_node, Option.some.injEq, eq_comm]
    split
    · rfl
    · rfl
  unfold bypass
  cases o with
  | none =>
      rw [if_neg (by simp)]
      cases p with
      | none => rfl
      | some e => exact hNext e
  | some o =>
      cases p with
      | none => exact hPrev t o
      | some e =>
          dsimp only
          rw [hPrev, hNext]

theorem bypass_listU
    (p o : Option Nat)
    (m : Nat) :
    ((t.bypass p o).node m).listU = (t.node m).listU := by
  have hNext : ∀ e : Nat,
      ((t.setNode e fun x => x.setNext o).node m).listU =
        (t.node m).listU := by
    intro e
    rw [setNode_node]
    split
    · rfl
    · rfl
  have hPrev : ∀ (t : Tree) (e : Nat),
      ((t.setNode e fun x => x.setPrev p).node m).listU =
        (t.node m).listU := by
    intro t e
    rw [setNode_node]
    split
    · rfl
    · rfl
  unfold bypass
  cases p with
  | none =>
      cases o with
      | none => rfl
      | some o => exact hPrev t o
  | some e =>
      cases o with
      | none => exact hNext e
      | some o => exact (hPrev _ o).trans (hNext e)

/- What removing a node changes. -/
structure Removed (t : Tree) (n : Nat) (t' : Tree) : Prop where
  suspend : t'.suspend =
    if t.suspend = some n then none else t.suspend
  next : ∀ m, (t'.node m).next =
    if (t.node n).prev = some m then (t.node n).next
    else (t.node m).next
  prev : ∀ m, (t'.node m).prev =
    if (t.node n).next = some m then (t.node n).prev
    else (t.node m).prev
  listU : ∀ m, (t'.node m).listU = (t.node m).listU

theorem removed_suspendRemove (n : Nat) :
    t.Removed n (t.suspendRemove n) where
  suspend := rfl
  next := t.bypass_next (t.node n).prev (t.node n).next
  prev := t.bypass_prev (t.node n).prev (t.node n).next
  listU := t.bypass_listU (t.node n).prev (t.node n).next

/- The search of the suspend list looks at all its nodes. -/
theorem findSuspendFrom_eq
    (serial : Nat)
    (l : List Nat) :
    ∀ (fuel : Nat) (o : Option Nat),
      Linked (fun n => (t.node n).next) o l → l.length ≤ fuel →
        t.findSuspendFrom serial fuel o =
          l.any fun n => (t.node n).listU == serial := by
  induction l with
  | nil =>
      intro fuel o hLinked _
      rw [Linked.nil_iff.mp hLinked]
      cases fuel <;> rfl
  | cons n l ih =>
      intro fuel o hLinked hFuel
      rcases Linked.cons_iff.mp hLinked with ⟨rfl, hRest⟩
      cases fuel with
      | zero => cases hFuel
      | succ fuel =>
          rw [List.length_cons] at hFuel
          rw [findSuspendFrom, List.any_cons,
            ih fuel _ hRest (Nat.le_of_succ_le_succ hFuel)]

end Tree

------------------------------------------------------------
-- The Invariant
------------------------------------------------------------

/- The suspended nodes `l`, in the order of the list. -/
structure Suspending.Chained
    (s : Suspending)
    (l : List Nat) : Prop where
  linked : DLinked (fun n => (s.tree.node n).next)
    (fun n => (s.tree.node n).prev) none s.tree.suspend l
  perm : l.Perm s.nodes
  nodup : l.Nodup
  pool : ∀ n ∈ l, n < nodeCount
  serial : ∀ q ∈ s.held, (s.tree.node q.1).listU = q.2

namespace Suspending.Chained

variable {s : Suspending} {l : List Nat}

theorem mem
    {q : Nat × Nat}
    (h : s.Chained l)
    (hq : q ∈ s.held) : q.1 ∈ l :=
  h.perm.mem_iff.mpr (List.mem_map_of_mem hq)

theorem exact_state
    (h : s.Chained l) : s.Exact where
  list := ⟨l, h.linked.linked, h.perm⟩
  serial := by
    intro i hFree q hq hSerial
    have hLength : l.length ≤ nodeCount := by
      have hSub : l ⊆ List.range nodeCount := by
        intro n hn
        exact List.mem_range.mpr (h.pool n hn)
      have hLe :=
        (List.subperm_of_subset h.nodup hSub).length_le
      rw [List.length_range] at hLe
      exact hLe
    have hFind := s.tree.findSuspendFrom_eq i l nodeCount _
      h.linked.linked hLength
    have hAny : (l.any fun n =>
        (s.tree.node n).listU == i) = true := by
      apply List.any_eq_true.mpr
      refine ⟨q.1, h.mem hq, ?_⟩
      rw [h.serial q hq, hSerial, beq_self_eq_true]
    have hTest := List.find?_some hFree
    rw [hFind, hAny] at hTest
    simp at hTest

theorem nil
    (h : s.Idle) : s.Chained [] where
  linked := h.suspend
  perm := by
    unfold Suspending.nodes
    rw [h.held]
    exact List.Perm.refl _
  nodup := List.nodup_nil
  pool := fun _ hn => absurd hn List.not_mem_nil
  serial := by
    rw [h.held]
    exact fun _ hq => absurd hq List.not_mem_nil

theorem add
    {n : Nat}
    (serial : Nat)
    (h : s.Chained l)
    (hNew : n ∉ s.nodes)
    (hPool : n < nodeCount) :
    Suspending.Chained
      { tree := s.tree.suspendSerial n serial
        held := (n, serial) :: s.held }
      (n :: l) := by
  have hNotIn : n ∉ l := fun hn =>
    hNew (h.perm.mem_iff.mp hn)
  have hHead : s.tree.suspend ≠ some n := by
    intro hEq
    rw [h.linked.linked.head] at hEq
    exact hNotIn (List.mem_of_mem_head? hEq)
  have hAdded := s.tree.added_suspendSerial serial hHead
  constructor
  · dsimp only
    rw [hAdded.suspend]
    apply h.linked.push hNotIn h.nodup
    · intro m hm
      rw [hAdded.next, if_neg hm]
    · intro m hm
      rw [hAdded.prev, if_neg hm]
    · rw [hAdded.next, if_pos rfl]
    · rw [hAdded.prev, if_pos rfl]
  · exact h.perm.cons n
  · exact List.nodup_cons.mpr ⟨hNotIn, h.nodup⟩
  · intro m hm
    rcases List.mem_cons.mp hm with rfl | hm
    · exact hPool
    · exact h.pool m hm
  · intro q hq
    dsimp only
    rw [hAdded.listU]
    rcases List.mem_cons.mp hq with rfl | hq
    · rw [if_pos rfl]
    · rw [if_neg, h.serial q hq]
      intro hEq
      exact hNotIn (hEq ▸ h.mem hq)

theorem remove
    {n serial : Nat}
    (h : s.Chained l)
    (hHeld : (n, serial) ∈ s.held)
    (hMeets : s.Meets (.remove n)) :
    ∃ l', Suspending.Chained
      { tree := s.tree.suspendRemove n
        held := s.held.erase (n, serial) } l' := by
  have hIn : n ∈ l := h.mem hHeld
  obtain ⟨l₁, l₂, rfl⟩ := List.mem_iff_append.mp hIn
  have hRemoved := s.tree.removed_suspendRemove n
  have hNext : (s.tree.node n).next = l₂.head? :=
    h.linked.next_eq
  have hPrev : (s.tree.node n).prev = l₁.getLast? := by
    have hBack := h.linked.prev_eq
    rw [Option.or_none] at hBack
    exact hBack
  have hHead := h.linked.linked.head
  have hPerm : (l₁ ++ l₂).Perm
      ((s.held.erase (n, serial)).map Prod.fst) := by
    have hErase := (List.perm_cons_erase hHeld).map Prod.fst
    rw [List.map_cons] at hErase
    exact ((List.perm_middle.symm.trans h.perm).trans
      hErase).cons_inv
  have hStart : (s.tree.suspendRemove n).suspend =
      if l₁ = [] then (s.tree.node n).next
      else s.tree.suspend := by
    rw [hRemoved.suspend]
    by_cases hNil : l₁ = []
    · -- the node is at the head, and so the only one
      rw [hNil, List.nil_append, List.head?_cons] at hHead
      have hOne := hMeets hHead
      have hLength := h.perm.length_eq
      unfold Suspending.nodes at hLength
      rw [List.length_map, hOne, hNil, List.nil_append,
        List.length_cons] at hLength
      have hLast : l₂ = [] :=
        List.length_eq_zero_iff.mp (by omega)
      rw [if_pos hHead, if_pos hNil, hNext, hLast]
      rfl
    · rw [if_neg hNil, if_neg]
      intro hEq
      rw [hHead] at hEq
      obtain ⟨m, l₃, rfl⟩ := List.exists_cons_of_ne_nil hNil
      rw [List.cons_append, List.head?_cons,
        Option.some.injEq] at hEq
      have hNodup := h.nodup
      rw [hEq, List.cons_append, List.nodup_cons] at hNodup
      exact hNodup.1 (List.mem_append_right _
        List.mem_cons_self)
  refine ⟨l₁ ++ l₂, ?_, hPerm, ?_, ?_, ?_⟩
  · dsimp only
    rw [hStart]
    apply h.linked.remove h.nodup
    · intro m _
      rw [hRemoved.next, hPrev]
    · intro m _
      rw [hRemoved.prev, hNext]
  · exact (List.nodup_cons.mp
      (List.perm_middle.nodup_iff.mp h.nodup)).2
  · intro m hm
    apply h.pool m
    rcases List.mem_append.mp hm with hLeft | hRight
    · exact List.mem_append_left _ hLeft
    · exact List.mem_append_right _
        (List.mem_cons_of_mem _ hRight)
  · intro q hq
    dsimp only
    rw [hRemoved.listU]
    exact h.serial q (List.mem_of_mem_erase hq)

theorem yield
    {t : Tree}
    (h : s.Chained l)
    (hSuspend : t.suspend = s.tree.suspend)
    (hNode : ∀ n ∈ s.nodes, t.node n = s.tree.node n) :
    Suspending.Chained { s with tree := t } l := by
  have hSame : ∀ n ∈ l, t.node n = s.tree.node n :=
    fun n hn => hNode n (h.perm.mem_iff.mp hn)
  constructor
  · dsimp only
    rw [hSuspend]
    apply h.linked.congr
    · intro n hn
      rw [hSame n hn]
    · intro n hn
      rw [hSame n hn]
  · exact h.perm
  · exact h.nodup
  · exact h.pool
  · intro q hq
    dsimp only
    rw [hSame q.1 (h.mem hq)]
    exact h.serial q hq

/- A step that meets the condition. -/
theorem step
    {a : SuspendAct}
    {t : Suspending}
    (h : s.Chained l)
    (hMeets : s.Meets a)
    (hStep : SuspendStep s a t) : ∃ l', t.Chained l' := by
  cases hStep with
  | add serial hNew hPool =>
      exact ⟨_, h.add serial hNew hPool⟩
  | remove hHeld => exact h.remove hHeld hMeets
  | yield hSuspend hNode => exact ⟨l, h.yield hSuspend hNode⟩

end Suspending.Chained

/-
  A step that does not meet the condition: the list is empty,
  although a node is suspended.
-/
theorem SuspendStep.meets_of_exact
    {s t : Suspending}
    {a : SuspendAct}
    (hStep : SuspendStep s a t)
    (hExact : t.Exact) : s.Meets a := by
  cases hStep with
  | add _ _ _ => trivial
  | yield _ _ => trivial
  | remove hHeld =>
      rename_i n serial
      intro hHead
      rcases hExact.list with ⟨l, hLinked, hPerm⟩
      have hRemoved := s.tree.removed_suspendRemove n
      have hNone := hRemoved.suspend
      rw [if_pos hHead] at hNone
      dsimp only at hLinked
      rw [hNone] at hLinked
      have hNil : l = [] :=
        hLinked.eq_none_iff.mp rfl
      have hLength := hPerm.length_eq
      unfold Suspending.nodes at hLength
      rw [hNil, List.length_map, List.length_erase_of_mem hHeld,
        List.length_nil] at hLength
      have hPos := List.length_pos_of_mem hHeld
      omega

/- What holds in every state of a run whose steps all meet it. -/
theorem SuspendRun.chained
    {s t : Suspending}
    {es : List (Suspending × SuspendAct)}
    (hIdle : s.Idle)
    (hRun : SuspendRun s es t) :
    (∀ e ∈ es, e.1.Meets e.2) →
      (∀ e ∈ es, ∃ l, e.1.Chained l) ∧ ∃ l, t.Chained l := by
  induction hRun with
  | nil =>
      intro _
      refine ⟨?_, [], .nil hIdle⟩
      intro e he
      exact absurd he List.not_mem_nil
  | snoc hRun hStep ih =>
      intro hMeets
      have hBefore := ih fun e he =>
        hMeets e (List.mem_append_left _ he)
      rcases hBefore.2 with ⟨l, hChained⟩
      have hLast := hMeets _
        (List.mem_append_right _ List.mem_cons_self)
      refine ⟨?_, hChained.step hLast hStep⟩
      intro e he
      rcases List.mem_append.mp he with he | he
      · exact hBefore.1 e he
      · rw [List.mem_singleton] at he
        rw [he]
        exact ⟨l, hChained⟩

------------------------------------------------------------
-- Erasing Data Blocks
------------------------------------------------------------

/-
  The loop over the data blocks is a step of the last kind:
  it leaves all suspended nodes alone.
-/
theorem wlp_deleteDataFrom_yield
    {strict : Bool}
    {s : Dev}
    {E B H : List Nat}
    {own : Nat → Nat}
    {held : List (Nat × Nat)}
    (parent n serial : Nat)
    (h : s.Sound strict E B H own)
    (hHeld : ∀ q ∈ held, q.1 ∈ H) :
    Prog.wlp (Allowed strict) (deleteDataFrom parent n serial)
      (fun _ t => SuspendStep ⟨s.tree, held⟩ .yield
        ⟨t.tree, held⟩) s := by
  refine Prog.wlp_mono
    (wlp_deleteDataFrom parent n serial s E B own h) ?_
  intro _ t ht
  rcases ht.sound with ⟨_, _, _, _, hNode⟩
  apply SuspendStep.yield ht.suspend
  intro m hm
  rcases List.mem_map.mp hm with ⟨q, hq, rfl⟩
  exact (hNode q.1 (hHeld q hq)).1

------------------------------------------------------------
-- All Runs
------------------------------------------------------------

/-
  The suspend list is right in all states of a run exactly
  when all steps of the run meet the condition.
-/
theorem suspendRun_exact
    {s t : Suspending}
    {es : List (Suspending × SuspendAct)}
    (hIdle : s.Idle)
    (hRun : SuspendRun s es t) :
    (∀ e ∈ es, e.1.Meets e.2) ↔
      (∀ e ∈ es, e.1.Exact) ∧ t.Exact := by
  constructor
  · intro hMeets
    have hChained := hRun.chained hIdle hMeets
    refine ⟨?_, ?_⟩
    · intro e he
      exact (hChained.1 e he).elim fun _ h => h.exact_state
    · exact hChained.2.elim fun _ h => h.exact_state
  · intro hExact
    induction hRun with
    | nil =>
        intro e he
        exact absurd he List.not_mem_nil
    | snoc hRun hStep ih =>
        have hMid := hExact.1 _
          (List.mem_append_right _ List.mem_cons_self)
        have hBefore := ih ⟨fun e he =>
          hExact.1 e (List.mem_append_left _ he), hMid⟩
        intro e he
        rcases List.mem_append.mp he with he | he
        · exact hBefore e he
        · rw [List.mem_singleton] at he
          rw [he]
          exact hStep.meets_of_exact hExact.2

/- The property for every run. -/
def SuspendRunsExact : Prop :=
  ∀ (s t : Suspending) (es : List (Suspending × SuspendAct)),
    s.Idle → SuspendRun s es t → t.Exact

/- A new device. -/
def Suspending.fresh : Suspending where
  tree := Tree.init
  held := []

omit [Platform] in
theorem Suspending.idle_fresh : fresh.Idle where
  suspend := rfl
  held := rfl

end Suspending

theorem suspendRun_exact_two :
    letI := emulator alwaysOk
    ∃ es t, SuspendRun .fresh es t ∧ es.length = 3 ∧
      ((∀ e ∈ es, e.1.Meets e.2) ↔
        (∀ e ∈ es, e.1.Exact) ∧ t.Exact) := by
  let _ := emulator alwaysOk
  have hRun : SuspendRun .fresh _ _ :=
    .snoc (.snoc (.snoc .nil
      (.add (n := 5) 1 (by decide) (by decide)))
      (.add (n := 6) 2 (by decide) (by decide)))
      (.remove (n := 5) (.tail _ (.head _)))
  exact ⟨_, _, hRun, rfl,
    suspendRun_exact Suspending.idle_fresh hRun⟩

/-
  The first of two deletions is still erasing data blocks when
  the second one removes its node from the head of the list:
  the serial number of the first is free.
-/
theorem suspendRunsExact_false :
    ¬ @SuspendRunsExact (emulator alwaysOk) := by
  let _ := emulator alwaysOk
  intro hAll
  have hRun : SuspendRun .fresh _ _ :=
    .snoc (.snoc (.snoc .nil
      (.add (n := 5) 1 (by decide) (by decide)))
      (.add (n := 6) 2 (by decide) (by decide)))
      (.remove (n := 6) (.head _))
  have hExact := hAll _ _ _ Suspending.idle_fresh hRun
  have hFree : (((Tree.init.suspendSerial 5 1).suspendSerial
      6 2).suspendRemove 6).findFreeFsnSerial = some 1 := by
    decide +kernel
  exact hExact.serial 1 hFree (5, 1) (by decide) rfl

end Uffs
