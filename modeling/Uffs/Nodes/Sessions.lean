import Uffs.Files.Sessions
import Uffs.Model.Emulator
import Uffs.Nodes.Mount

/-
  Every node is where it belongs after every session.

  Main declarations:
    * `wlp_formatDevice`
    * `wlp_session`
    * `session_allFiled`
    * `session_erasedClean`
-/

namespace Uffs

open Prog

section Operations

variable [Platform] {strict : Bool}

------------------------------------------------------------
-- Formatting
------------------------------------------------------------

theorem busy_expireAllFrom
    {ok : Event → Prop}
    (l : List Nat) :
    Within ok (Busy nowhere) (expireAllFrom l) := by
  induction l with
  | nil => exact Within.pure _
  | cons i rest ih =>
      unfold expireAllFrom
      have hExpire : Within ok (Busy nowhere)
          (blockInfoExpireAll i) :=
        (quiet_blockInfoExpireAll (W := nowhere)
          (A := nowhere) i).mono fun _ _ => Busy.of_quiet
      apply Within.bind hExpire
      intro _
      exact ih

/- Some block. -/
def anywhere : Nat → Prop := fun _ => True

theorem busy_eraseAllFrom
    {ok : Event → Prop}
    (n : Nat) :
    ∀ block, Within ok (Busy anywhere)
      (eraseAllFrom n block) := by
  induction n with
  | zero =>
      intro block
      exact Within.pure _
  | succ n ih =>
      intro block
      have hBad : Within ok (Busy anywhere)
          (flashIsBadBlock block) :=
        (still_flashIsBadBlock block).mono fun _ _ h =>
          .of_quiet (Quiet.of_still (A := nowhere) h)
      have hErase : Within ok (Busy anywhere)
          (flashEraseBlock block) :=
        (quiet_flashEraseBlock (A := nowhere) trivial).mono
          fun _ _ => Busy.of_quiet
      unfold eraseAllFrom
      apply Within.bind hBad
      intro bad
      dsimp only
      apply Within.ite
      · apply Within.bind hErase
        intro _
        exact ih _
      · exact ih _

/-
  What is left of a device when its blocks have been erased
  for a format: the tree is about to be built anew.
-/
structure Emptied (strict : Bool) (t : Dev) : Prop where
  suspend : t.tree.suspend = none
  handed : strict = true → t.watch.usedHandedOut = false

theorem wlp_formatErase
    {s : Dev}
    (force : Bool)
    (hs : s.Settled strict) :
    wlp (Allowed strict) (formatErase force)
      (fun r t =>
        (r = .fail → t.Settled strict) ∧
          (r = .succ → Emptied strict t)) s := by
  have hRefuse : ∀ t, t.Settled strict →
      wlp (Allowed strict) (pure URet.fail)
        (fun r t =>
          (r = .fail → t.Settled strict) ∧
            (r = .succ → Emptied strict t)) t := by
    intro t ht
    rw [wlp_pure]
    constructor
    · intro _
      exact ht
    · exact fun h => URet.noConfusion h
  unfold formatErase
  rw [wlp_bind]
  refine wlp_mono (Runs.settles fileLayer_runs.flushAll s) ?_
  intro ret t ht
  have hSettled := ht hs
  rw [wlp_bind, wlp_get]
  split
  · exact hRefuse t hSettled
  split
  · exact hRefuse t hSettled
  split
  · exact hRefuse t hSettled
  rw [wlp_bind]
  refine wlp_mono (buffers_bufSetAllEmpty t) ?_
  intro _ u hu
  have hRuns : Runs strict t u :=
    Busy.runs (Busy.of_buffers hu)
  have hSettledU := (hRuns hSettled.whole).settled hSettled
  split
  · exact hRefuse u hSettledU
  · unfold bcExpireAll
    rw [wlp_bind, wlp_bind, wlp_get]
    refine wlp_mono (busy_expireAllFrom _ u) ?_
    intro _ v hv
    rw [wlp_bind]
    refine wlp_mono (busy_eraseAllFrom _ _ v) ?_
    intro _ w hw
    rw [wlp_pure]
    constructor
    · exact fun h => URet.noConfusion h
    · intro _
      constructor
      · rw [hw.tree, hv.tree]
        exact hSettledU.suspend
      · intro hStrict
        rcases hSettledU.whole with ⟨E, B, own, hSound⟩
        rw [hw.handed, hv.handed]
        exact hSound.handed hStrict

theorem wlp_formatDevice
    {s : Dev}
    (force : Bool)
    (hs : s.Settled strict) :
    wlp (Allowed strict) (formatDevice force)
      (fun r t => r ≠ .noTree → t.Settled strict) s := by
  unfold formatDevice
  rw [wlp_bind]
  refine wlp_mono (wlp_formatErase force hs) ?_
  intro r t ht
  cases r with
  | fail =>
      rw [wlp_pure]
      intro _
      exact ht.1 rfl
  | succ =>
      have hEmptied := ht.2 rfl
      dsimp only
      unfold treeInit modifyTree
      rw [wlp_bind, wlp_modify, wlp_bind]
      refine wlp_mono (wlp_buildTree ?_ hEmptied.handed) ?_
      · dsimp only
        rw [hEmptied.suspend]
        rfl
      · intro r u hu
        cases r with
        | fail =>
            rw [wlp_pure]
            exact fun h => absurd rfl h
        | succ =>
            rw [wlp_pure]
            intro _
            exact hu rfl

------------------------------------------------------------
-- Operations
------------------------------------------------------------

theorem settles_refCount (f : Int → Int) :
    Within (Allowed strict) (Settles strict)
      (Prog.modify fun s =>
        { s with refCount := f s.refCount }) :=
  Runs.settles (fileLayer_runs.refCount f)

theorem settles_format
    (p : ObjPool)
    (force : Bool) :
    Within (Allowed strict) (Settles strict)
      (Op.exec p (.format force)) := by
  have hEnd : ∀ (q : Reply × ObjPool),
      Within (Allowed strict) (Settles strict) (do
        putDevice
        pure q) := by
    intro q
    apply Within.bind (Runs.settles fileLayer_runs.putDevice)
    intro _
    exact Within.pure _
  unfold Op.exec
  apply Within.bind (settles_refCount fun c => c + 1)
  intro _ s a es t hRun hOk hs
  revert a es t
  change wlp (Allowed strict) _ (fun _ t => t.Settled strict) s
  rw [wlp_bind]
  refine wlp_mono (wlp_formatDevice force hs) ?_
  intro r t ht
  cases r with
  | refused =>
      refine wlp_mono (hEnd _ t) ?_
      intro _ u hu
      exact hu (ht FormatEnd.noConfusion)
  | noTree =>
      dsimp only
      rw [wlp_diverge]
      trivial
  | formatted =>
      refine wlp_mono (hEnd _ t) ?_
      intro _ u hu
      exact hu (ht FormatEnd.noConfusion)

/- One operation; a mount needs no settled device. -/
theorem wlp_exec
    (p : ObjPool)
    (op : Op)
    (s : Dev)
    (hs : op ≠ .mount → s.Settled strict)
    (hHanded : strict = true →
      s.watch.usedHandedOut = false) :
    wlp (Allowed strict) (op.exec p)
      (fun _ t => t.Settled strict) s := by
  have hSettles : Within (Allowed strict) (Settles strict)
      (op.exec p) → op ≠ .mount →
      wlp (Allowed strict) (op.exec p)
        (fun _ t => t.Settled strict) s := by
    intro h hOp
    refine wlp_mono (h s) ?_
    intro _ t ht
    exact ht (hs hOp)
  by_cases hPlain : op.plain = true
  · apply hSettles
    · exact Runs.settles (fileLayer_runs.exec p op hPlain)
    · intro hOp
      rw [hOp] at hPlain
      cases hPlain
  cases op with
  | deleteObject path =>
      apply hSettles _ Op.noConfusion
      unfold Op.exec
      apply Within.bind (settles_deleteObject _ _ _)
      intro _
      exact Within.pure _
  | format force =>
      exact hSettles (settles_format p force) Op.noConfusion
  | mount =>
      unfold Op.exec
      rw [wlp_bind]
      refine wlp_mono (wlp_mount hHanded) ?_
      intro r t ht
      cases r with
      | fail =>
          dsimp only
          rw [wlp_diverge]
          trivial
      | succ =>
          dsimp only
          rw [wlp_pure]
          exact ht rfl
  | _ => exact absurd rfl hPlain

theorem Dev.Settled.handed
    {s : Dev}
    (hs : s.Settled strict) :
    strict = true → s.watch.usedHandedOut = false := by
  rcases hs.whole with ⟨E, B, own, hSound⟩
  exact hSound.handed

/-
  After every session that takes none of the branches that
  `Allowed` excludes, the device is settled.
-/
theorem wlp_session
    (ops : List Op)
    (s : Dev)
    (hHanded : strict = true →
      s.watch.usedHandedOut = false) :
    wlp (Allowed strict) (session ops)
      (fun _ t => t.Settled strict) s := by
  have hRun := runOps_induct
    (fun p op s (hs : s.Settled strict) =>
      wlp_exec p op s (fun _ => hs) hs.handed)
    ops
  unfold session runOps
  refine wlp_seq (wlp_exec _ .mount s ?_ hHanded) ?_
  · exact fun h => absurd rfl h
  intro q t ht
  refine wlp_seq (hRun q.2 t ht) ?_
  intro r u hu
  rw [wlp_pure]
  exact hu

end Operations

------------------------------------------------------------
-- Every Block Has One Node
------------------------------------------------------------

section Filed

variable [Platform] {strict : Bool}

/-
  `E` and `B` are the erased and the bad list.  Every node
  of the pool is in exactly one of these lists or in one
  hash entry, and every block has exactly one node.
-/
structure Dev.AllFiled (s : Dev) (E B : List Nat) : Prop where
  erased : Linked (fun n => (s.tree.node n).next) s.tree.erased E
  erasedCount : s.tree.erasedCount = E.length
  erasedTail : s.tree.erasedTail = E.getLast?
  bad : Linked (fun n => (s.tree.node n).next) s.tree.bad B
  badCount : s.tree.badCount = B.length
  nodes : (E ++ B ++ s.tree.entryNodes).Perm
    (List.range nodeCount)
  blocks : ∀ b, parStart ≤ b → b ≤ parEnd →
    ∃! n, n < nodeCount ∧ (s.tree.node n).block = b
  lists : ∀ n ∈ E ++ B, (s.tree.node n).type = .resv
  hash : ∀ type h, ∀ n ∈ s.tree.entry type h,
    (s.tree.node n).type = type ∧
      (s.tree.node n).hash type = h

omit [Platform] in
theorem TreeNode.isList_type
    {x : TreeNode}
    (h : x.isList = true) : x.type = .resv := by
  cases x with
  | list => rfl
  | dir => cases h
  | file => cases h
  | data => cases h

/- A block of the partition has exactly one node. -/
theorem Tree.Parts.existsUnique
    {t : Tree}
    {E B : List Nat}
    {own : Nat → Nat}
    (h : t.Parts E B [] own)
    (hAll : t.allocated = nodeCount)
    {b : Nat}
    (hStart : parStart ≤ b)
    (hEnd : b ≤ parEnd) :
    ∃! n, n < nodeCount ∧ (t.node n).block = b := by
  have hCount : nodeCount = parEnd - parStart + 1 := rfl
  have hOwn : ∀ n < nodeCount, (t.node n).block = own n := by
    intro n hn
    apply h.block n
    have hMem := h.perm.mem_iff (a := n)
    rw [hAll, List.append_nil] at hMem
    exact hMem.mpr (List.mem_range.mpr hn)
  have hMem := h.owned.mem_iff (a := b)
  rw [hAll] at hMem
  have hRange : b ∈ List.range' parStart nodeCount := by
    rw [List.mem_range'_1]
    omega
  rcases List.mem_map.mp (hMem.mpr hRange) with ⟨n, hn, hEq⟩
  have hLt := List.mem_range.mp hn
  refine ⟨n, ⟨hLt, (hOwn n hLt).trans hEq⟩, ?_⟩
  intro m hm
  apply h.own_inj
  · rw [hAll]
    exact hm.1
  · rw [hAll]
    exact hLt
  · rw [← hOwn m hm.1, hm.2, hEq]

theorem Dev.Settled.allFiled
    {s : Dev}
    (hs : s.Settled strict) : ∃ E B, s.AllFiled E B := by
  rcases hs.whole with ⟨E, B, own, hSound⟩
  have hParts := hSound.parts
  have hPerm := hParts.perm
  rw [List.append_nil, hs.allocated] at hPerm
  refine ⟨E, B, ?_⟩
  constructor
  · exact hParts.erased
  · exact hParts.count
  · exact hParts.tail
  · exact hParts.bad
  · exact hParts.badCount
  · exact hPerm
  · intro b hStart hEnd
    exact hParts.existsUnique hs.allocated hStart hEnd
  · intro n hn
    exact TreeNode.isList_type (hParts.lists n hn)
  · exact hParts.hash

/-
  After every session that takes no branch in which a node
  is lost, whatever the driver answers.
-/
theorem session_allFiled
    (F : Flash)
    (clock : Nat)
    (ops : List Op)
    {replies : List Reply × ObjPool}
    {es : List Event}
    {t : Dev}
    (hRun : session ops (Dev.init F clock) =
      some (replies, es, t))
    (hNotes : ∀ n, .note n ∈ es → n.losesNode = false) :
    ∃ E B, t.AllFiled E B := by
  have hOk : ∀ e ∈ es, Allowed false e := by
    intro e he
    cases e with
    | note n =>
        refine ⟨hNotes n he, ?_⟩
        intro hStrict
        cases hStrict
    | _ => trivial
  have hSettled := wlp_session ops (Dev.init F clock)
    (fun _ => rfl) replies es t hRun hOk
  exact hSettled.allFiled

/- Does a run take no branch in which a node is lost? -/
def losesNoNode (es : List Event) : Bool :=
  es.all fun e =>
    match e with
    | .note n => !n.losesNode
    | _ => true

/- The property for every session. -/
def SessionsFileAll : Prop :=
  ∀ (F : Flash) (clock : Nat) (ops : List Op) q es t,
    session ops (Dev.init F clock) = some (q, es, t) →
      ∃ E B, t.AllFiled E B

end Filed

theorem session_allFiled_renameAB :
    letI := emulator alwaysOk
    ∃ q es t E B,
      session renameAB (Dev.init Flash.blank 0) =
          some (q, es, t) ∧
        t.AllFiled E B := by
  let _ := emulator alwaysOk
  have hCheck : (session renameAB).check
      (fun _ es _ => losesNoNode es)
      (Dev.init Flash.blank 0) = true := by
    decide +kernel
  rcases wp_of_check hCheck with ⟨q, es, t, hRun, hTest⟩
  have hFiled := session_allFiled Flash.blank 0 renameAB hRun
    (fun n hn => by
      have hNote := List.all_eq_true.mp hTest _ hn
      simpa using hNote)
  rcases hFiled with ⟨E, B, hFiled⟩
  exact ⟨q, es, t, E, B, hRun, hFiled⟩

/-
  When the page write of a new file reports an I/O error,
  the block is in no list any more.
-/
theorem sessionsFileAll_false :
    ¬ @SessionsFileAll (emulator (failAt 50 .ioErr)) := by
  let _ := emulator (failAt 50 .ioErr)
  intro hAll
  have hCheck : (session createA).check
      (fun _ _ t => decide (t.tree.erasedCount +
        t.tree.badCount + t.tree.entryNodes.length = 9))
      (Dev.init Flash.blank 0) = true := by
    decide +kernel
  rcases wp_of_check hCheck with ⟨q, es, t, hRun, hTest⟩
  rcases hAll _ _ _ _ _ _ hRun with ⟨E, B, hFiled⟩
  have hLength := hFiled.nodes.length_eq
  rw [List.length_append, List.length_append,
    List.length_range, ← hFiled.erasedCount,
    ← hFiled.badCount, of_decide_eq_true hTest] at hLength
  exact absurd hLength (by decide)

------------------------------------------------------------
-- The Erased List Is Clean
------------------------------------------------------------

section Clean

variable [Platform]

/-
  No used block has been handed out, and the blocks of the
  erased list `E` that need no check are erased.
-/
structure Dev.ErasedClean (s : Dev) (E : List Nat) : Prop where
  erased : Linked (fun n => (s.tree.node n).next) s.tree.erased E
  erasedTail : s.tree.erasedTail = E.getLast?
  handed : s.watch.usedHandedOut = false
  clean : ∀ n ∈ E, (s.tree.node n).listU = 0 →
    s.Blank (s.tree.node n).block

theorem Dev.Settled.erasedClean
    {s : Dev}
    (hs : s.Settled true) : ∃ E, s.ErasedClean E := by
  rcases hs.whole with ⟨E, B, own, hSound⟩
  refine ⟨E, hSound.parts.erased, hSound.parts.tail,
    hSound.handed rfl, ?_⟩
  intro n hn hU
  have hMem : n ∈ E ++ B ++ s.tree.entryNodes := by
    simp only [List.mem_append]
    exact Or.inl (Or.inl hn)
  rw [hSound.parts.block n hMem]
  exact hSound.clean rfl n hn hU

/-
  After every session that takes no branch in which a node
  is lost or a used block is taken for erased, whatever the
  driver answers.
-/
theorem session_erasedClean
    (F : Flash)
    (clock : Nat)
    (ops : List Op)
    {replies : List Reply × ObjPool}
    {es : List Event}
    {t : Dev}
    (hRun : session ops (Dev.init F clock) =
      some (replies, es, t))
    (hNotes : ∀ n, .note n ∈ es →
      n.losesNode = false ∧ n.takesUsed = false) :
    ∃ E, t.ErasedClean E := by
  have hOk : ∀ e ∈ es, Allowed true e := by
    intro e he
    cases e with
    | note n => exact ⟨(hNotes n he).1, fun _ => (hNotes n he).2⟩
    | _ => trivial
  have hSettled := wlp_session ops (Dev.init F clock)
    (fun _ => rfl) replies es t hRun hOk
  exact hSettled.erasedClean

/- Does a run take none of the branches of a `Note`? -/
def noNotes (es : List Event) : Bool :=
  es.all fun e =>
    match e with
    | .note _ => false
    | _ => true

/- The property for every session. -/
def SessionsKeepErased : Prop :=
  ∀ (F : Flash) (clock : Nat) (ops : List Op) q es t,
    session ops (Dev.init F clock) = some (q, es, t) →
      ∃ E, t.ErasedClean E

end Clean

theorem session_erasedClean_renameAB :
    letI := emulator alwaysOk
    ∃ q es t E,
      session renameAB (Dev.init Flash.blank 0) =
          some (q, es, t) ∧
        t.ErasedClean E := by
  let _ := emulator alwaysOk
  have hCheck : (session renameAB).check
      (fun _ es _ => noNotes es)
      (Dev.init Flash.blank 0) = true := by
    decide +kernel
  rcases wp_of_check hCheck with ⟨q, es, t, hRun, hTest⟩
  have hClean := session_erasedClean Flash.blank 0 renameAB hRun
    (fun n hn => by
      have hNote := List.all_eq_true.mp hTest _ hn
      cases hNote)
  rcases hClean with ⟨E, hClean⟩
  exact ⟨q, es, t, E, hRun, hClean⟩

/-
  When the erase of the old block of a renamed file reports
  an I/O error, the block is filed as erased all the same.
-/
theorem sessionsKeepErased_false :
    ¬ @SessionsKeepErased (emulator (failAt 62 .ioErr)) := by
  let _ := emulator (failAt 62 .ioErr)
  intro hAll
  have hCheck : (session renameAB).check
      (fun _ _ t => t.tree.erasedTail.any fun n =>
        decide ((t.tree.node n).listU = 0) &&
          (t.watch.lastErase (t.tree.node n).block).haveErr)
      (Dev.init Flash.blank 0) = true := by
    decide +kernel
  rcases wp_of_check hCheck with ⟨q, es, t, hRun, hTest⟩
  rcases hAll _ _ _ _ _ _ hRun with ⟨E, hClean⟩
  cases hTail : t.tree.erasedTail with
  | none =>
      rw [hTail] at hTest
      cases hTest
  | some n =>
      rw [hTail, Option.any_some, Bool.and_eq_true,
        decide_eq_true_eq] at hTest
      have hMem := List.mem_of_getLast?
        (hClean.erasedTail.symm.trans hTail)
      have hBlank := hClean.clean n hMem hTest.1
      rw [hBlank.2] at hTest
      cases hTest.2

end Uffs
