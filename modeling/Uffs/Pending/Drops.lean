import Uffs.Lib.Trace
import Uffs.Nodes.Pending
import Uffs.Pending.List
import Uffs.Retry.Recover

/-
  What the functions below a recovery do to the list of
  pending blocks.

  An erase takes its block off the list.  Loading the pages
  of the block in recovery reports that block only, which is
  ignored.  Nothing else touches the list.

  Main declarations:
    * `Drops`, `traces_erasedFuel`
    * `Hears`, `hears_copyFrom`
-/

namespace Uffs

open Prog

variable [Platform]

------------------------------------------------------------
-- Functions That Only Read
------------------------------------------------------------

section Reading

variable {ok : Event → Prop}

/- A note that depends on the medium. -/
theorem still_noteUnchecked (b : Nat) :
    Within ok Still (noteUnchecked b) := by
  unfold noteUnchecked
  apply Within.bind Within.get
  intro s
  exact Within.ite (Within.emit _) (Within.pure _)

/-
  By induction on the pages; only the clone buffer and the
  clock change.
-/
theorem still_flashCheckErasedFrom (b i n : Nat) :
    ∀ page, Within ok Still
      (flashCheckErasedFrom b i n page) := by
  induction n with
  | zero =>
      intro page
      exact Within.pure _
  | succ n ih =>
      intro page
      unfold flashCheckErasedFrom
      apply Within.bind still_nextAnswer
      intro a
      apply Within.bind Within.get
      intro s
      apply Within.bind (still_setData i _)
      intro _
      apply Within.ite (Within.pure _)
      dsimp only
      apply Within.ite
      · apply Within.bind (Within.emit _)
        intro _
        exact ih _
      · exact ih _

/- The clone buffer is freed again. -/
theorem still_flashCheckErasedBlock (b : Nat) :
    Within ok Still (flashCheckErasedBlock b) := by
  unfold flashCheckErasedBlock
  apply Within.bind still_spareGet
  intro spare
  apply Within.ite
  · apply Within.bind (still_noteUnchecked b)
    intro _
    exact Within.pure _
  · apply Within.bind still_bufClone
    intro o
    cases o with
    | none =>
        apply Within.bind still_sparePut
        intro _
        apply Within.bind (still_noteUnchecked b)
        intro _
        exact Within.pure _
    | some i =>
        apply Within.bind (still_flashCheckErasedFrom _ _ _ _)
        intro ret
        apply Within.bind still_sparePut
        intro _
        apply Within.bind (still_bufFreeClone i)
        intro _
        exact Within.pure _

end Reading

------------------------------------------------------------
-- Functions That Leave the List Alone
------------------------------------------------------------

/- The list of pending blocks stays as it is. -/
def Silent (s t : Dev) : Prop :=
  t.pending = s.pending

section Silence

variable {ok : Event → Prop} {α : Type} {m : M α}

instance : IsPreorder Dev Silent where
  refl _ := rfl
  trans _ _ _ h h' := Eq.trans h' h

/-
  What leaves everything but the buffers alone leaves the
  list alone.
-/
omit [Platform] in
theorem Still.within_silent
    (h : Within ok Still m) : Within ok Silent m :=
  h.mono fun _ _ hStill => hStill.pending

omit [Platform] in
theorem silent_setInfo
    (i : Nat)
    (f : BlockInfo → BlockInfo) :
    Within ok Silent (setInfo i f) :=
  Within.modify fun _ => rfl

omit [Platform] in
theorem silent_medium (e : Event) :
    Within ok Silent (medium e) := by
  unfold medium
  apply Within.bind
  · exact Within.modify fun _ => rfl
  · intro _
    exact Within.emit _

omit [Platform] in
theorem silent_blockInfoFindInCache (b : Nat) :
    Within ok Silent (blockInfoFindInCache b) := by
  unfold blockInfoFindInCache
  apply Within.bind Within.get
  intro s
  split
  · exact Within.pure _
  · apply Within.bind (silent_setInfo _ _)
    intro _
    exact Within.pure _

omit [Platform] in
theorem silent_moveBcToTail (i : Nat) :
    Within ok Silent (moveBcToTail i) :=
  Within.modify fun _ => rfl

/- The block is cached, or a free block info is taken. -/
theorem silent_blockInfoGet (b : Nat) :
    Within ok Silent (blockInfoGet b) := by
  unfold blockInfoGet
  apply Within.bind (silent_blockInfoFindInCache b)
  intro o
  cases o with
  | some i =>
      apply Within.bind (silent_moveBcToTail i)
      intro _
      exact Within.pure _
  | none =>
      apply Within.bind Within.get
      intro s
      dsimp only
      split
      · exact Within.pure _
      · apply Within.bind (silent_setInfo _ _)
        intro _
        apply Within.bind (silent_moveBcToTail _)
        intro _
        exact Within.pure _

omit [Platform] in
theorem silent_blockInfoPut (i : Nat) :
    Within ok Silent (blockInfoPut i) :=
  silent_setInfo _ _

theorem silent_expireCached (b : Nat) :
    Within ok Silent (expireCached b) := by
  unfold expireCached
  apply Within.bind (silent_blockInfoFindInCache b)
  intro o
  cases o with
  | none => exact Within.pure _
  | some i =>
      apply Within.bind (silent_setInfo _ _)
      intro _
      exact silent_blockInfoPut i

/-
  The erase itself is silent; its caller takes the block off
  the list.
-/
theorem silent_driverEraseBlock (b : Nat) :
    Within ok Silent (driverEraseBlock b) := by
  unfold driverEraseBlock
  apply Within.bind (Still.within_silent still_nextAnswer)
  intro a
  apply Within.bind (silent_medium _)
  intro _
  apply Within.bind
  · exact Within.modify fun _ => rfl
  · intro _
    exact Within.pure _

theorem silent_watchHandOut (b : Nat) :
    Within ok Silent (watchHandOut b) :=
  Within.modify fun _ => rfl

/- A block that is handed out is not looked up in the list. -/
theorem silent_prepareErased (n : Nat) :
    Within ok Silent (prepareErased n) := by
  unfold prepareErased
  apply Within.bind (Still.within_silent (still_getNode n))
  intro node
  apply Within.bind (silent_watchHandOut _)
  intro _
  apply Within.bind (silent_blockInfoGet _)
  intro o
  cases o with
  | none => exact Within.pure _
  | some i =>
      apply Within.bind (silent_setInfo _ _)
      intro _
      apply Within.bind (silent_blockInfoPut i)
      intro _
      exact Within.pure _

end Silence

------------------------------------------------------------
-- Functions That Erase
------------------------------------------------------------

/-
  Blocks that are erased leave the list, and block infos in
  use keep their block.
-/
structure Drops
    (s : Dev)
    (es : List Event)
    (t : Dev) : Prop where
  bc : s.bc.Keeps t.bc
  pending : s.pending.Sheds es t.pending

instance : Additive Drops where
  refl s := ⟨.refl s.bc, .refl s.pending []⟩
  trans h h' :=
    ⟨h.bc.trans h'.bc, h.pending.trans h'.pending⟩

section Erasing

variable {s t : Dev} {es : List Event} {α : Type} {m : M α}

/- Nothing leaves the list, whatever was erased. -/
omit [Platform] in
theorem Drops.of_silent
    (es : List Event)
    (hBc : s.bc.Keeps t.bc)
    (h : Silent s t) : Drops s es t := by
  refine ⟨hBc, ?_⟩
  rw [h]
  exact .refl s.pending es

/- A function that only reads has nothing to show. -/
omit [Platform] in
theorem Still.traces
    (h : Within (fun _ => True) Still m) : Traces Drops m := by
  apply Traces.of_within h
  intro s es t hStill
  apply Drops.of_silent es _ hStill.pending
  rw [hStill.bc]
  exact .refl _

omit [Platform] in
theorem traces_setNode
    (n : Nat)
    (f : TreeNode → TreeNode) : Traces Drops (setNode n f) :=
  Traces.modify fun _ => Drops.of_silent [] (.refl _) rfl

omit [Platform] in
theorem traces_treeGetErasedNodeNoCheck :
    Traces Drops treeGetErasedNodeNoCheck := by
  unfold treeGetErasedNodeNoCheck
  apply Traces.get.bind
  intro s
  split
  · exact Traces.pure _
  · apply Traces.bind
    · exact Traces.modify fun _ => Drops.of_silent [] (.refl _) rfl
    · intro _
      exact Traces.pure _

/-
  The block info is given back at the end, so that those in
  use keep their block.
-/
theorem traces_prepareErased (n : Nat) :
    Traces Drops (prepareErased n) := by
  constructor
  intro s o es t hRun
  apply Drops.of_silent es
  · unfold prepareErased at hRun
    rcases run_bind_eq_some.mp hRun with
      ⟨node, _, s₁, _, hNode, hRest, _⟩
    cases hNode
    rcases run_bind_eq_some.mp hRest with
      ⟨_, _, s₂, _, hWatch, hRest, _⟩
    cases hWatch
    rcases run_bind_eq_some.mp hRest with
      ⟨o', _, s₃, _, hGet, hRest, _⟩
    have hTakes := wlp_run (wlp_blockInfoGet _ _) hGet
    cases o' with
    | none =>
        cases hRest
        exact hTakes.bc
    | some i =>
        rcases run_bind_eq_some.mp hRest with
          ⟨_, _, s₄, _, hInit, hRest, _⟩
        rcases run_bind_eq_some.mp hRest with
          ⟨_, _, s₅, _, hPut, hRest, _⟩
        cases hRest
        have hQuiet := Within.of_run
          (quiet_blockInfoInitErased (W := nowhere)
            (A := nowhere) i) hInit
        have hRef := hQuiet.bc.refs i
        rw [hTakes.refCount] at hRef
        exact (wlp_run (wlp_blockInfoPut
          (hTakes.quiet.bc.trans hQuiet.bc)
          (Nat.lt_of_succ_le hRef)) hPut).2
  · exact (silent_prepareErased n).of_run hRun

/- An erase is seen in the events. -/
theorem scrubs_driverEraseBlock (b : Nat) :
    Traces (fun _ es _ => Scrubs b es)
      (driverEraseBlock b) := by
  constructor
  intro s r es t hRun
  unfold driverEraseBlock medium at hRun
  rcases run_bind_eq_some.mp hRun with
    ⟨a, _, s₁, _, _, hRest, hEvents⟩
  rcases run_bind_eq_some.mp hRest with
    ⟨_, _, s₂, _, hMedium, _, hEvents'⟩
  rcases run_bind_eq_some.mp hMedium with
    ⟨_, _, s₃, _, _, hEmit, hEvents''⟩
  cases hEmit
  rw [hEvents, hEvents', hEvents'']
  refine ⟨_, _, List.mem_append_right _
    (List.mem_append_left _ (List.mem_append_right _
      (List.mem_singleton_self _)))⟩

/-
  The block leaves the list first, and the erase that
  follows is among the events.
-/
theorem traces_flashEraseBlock (b : Nat) :
    Traces Drops (flashEraseBlock b) := by
  constructor
  intro s r es t hRun
  have hQuiet := Within.of_run (quiet_flashEraseBlock
    (W := (· = b)) (A := nowhere) rfl) hRun
  refine ⟨hQuiet.bc, ?_⟩
  unfold flashEraseBlock at hRun
  rcases run_bind_eq_some.mp hRun with
    ⟨_, _, s₁, _, hRemove, hRest, hEvents⟩
  cases hRemove
  rcases run_bind_eq_some.mp hRest with
    ⟨_, _, s₂, _, hErase, hRest, hEvents'⟩
  rcases run_bind_eq_some.mp hRest with
    ⟨_, _, s₃, _, hExpire, hEnd, _⟩
  cases hEnd
  have hSilent : s₂.pending = s.pending.remove b :=
    (silent_driverEraseBlock b).of_run hErase
  have hSilent' : t.pending = s₂.pending :=
    (silent_expireCached b).of_run hExpire
  rw [hSilent', hSilent]
  apply Pending.Sheds.remove
  rw [hEvents, hEvents']
  exact Scrubs.append (Or.inr (Scrubs.append
    (Or.inl ((scrubs_driverEraseBlock b).run hErase))))

/- The same with the mark behind the erase. -/
theorem traces_flashMarkBadBlock (b : Nat) :
    Traces Drops (flashMarkBadBlock b) := by
  constructor
  intro s r es t hRun
  have hQuiet := Within.of_run (quiet_flashMarkBadBlock
    (W := (· = b)) (A := nowhere) rfl) hRun
  refine ⟨hQuiet.bc, ?_⟩
  unfold flashMarkBadBlock at hRun
  rcases run_bind_eq_some.mp hRun with
    ⟨_, _, s₁, _, hRemove, hRest, hEvents⟩
  cases hRemove
  rcases run_bind_eq_some.mp hRest with
    ⟨_, _, s₂, _, hExpire, hRest, hEvents'⟩
  rcases run_bind_eq_some.mp hRest with
    ⟨_, _, s₃, _, hErase, hRest, hEvents''⟩
  have hMark : Within (fun _ => True) Silent (do
      let a ← nextAnswer
      if !a.ret.haveErr || a.done then
        medium (.markBad b)) := by
    apply Within.bind (Still.within_silent still_nextAnswer)
    intro a
    exact Within.ite (silent_medium _) (Within.pure _)
  have hSilent : s₂.pending = s.pending.remove b :=
    (silent_expireCached b).of_run hExpire
  have hSilent' : s₃.pending = s₂.pending :=
    (silent_driverEraseBlock b).of_run hErase
  have hSilent'' : t.pending = s₃.pending :=
    hMark.of_run hRest
  rw [hSilent'', hSilent', hSilent]
  apply Pending.Sheds.remove
  rw [hEvents, hEvents', hEvents'']
  exact Scrubs.append (Or.inr (Scrubs.append (Or.inr
    (Scrubs.append
      (Or.inl ((scrubs_driverEraseBlock b).run hErase))))))

theorem traces_badBlockProcessNode (n : Nat) :
    Traces Drops (badBlockProcessNode n) := by
  unfold badBlockProcessNode
  apply (Still.traces (still_getNode n)).bind
  intro node
  apply (traces_flashMarkBadBlock _).bind
  intro _
  exact Traces.modify fun _ => Drops.of_silent [] (.refl _) rfl

/-
  The two functions call each other; the induction is on the
  fuel that they share.
-/
theorem traces_erasedFuel (fuel : Nat) :
    Traces Drops (getErasedNodeFuel fuel) ∧
      ∀ n, Traces Drops (eraseNodeFuel fuel n) := by
  induction fuel with
  | zero =>
      constructor
      · unfold getErasedNodeFuel
        exact Traces.diverge
      · intro n
        unfold eraseNodeFuel
        exact Traces.diverge
  | succ fuel ih =>
      constructor
      · unfold getErasedNodeFuel
        apply traces_treeGetErasedNodeNoCheck.bind
        intro o
        cases o with
        | none => exact Traces.pure _
        | some n =>
            apply (Still.traces (still_getNode n)).bind
            intro node
            apply Traces.ite _ (traces_prepareErased n)
            apply (Still.traces
              (still_flashCheckErasedBlock _)).bind
            intro r
            cases r with
            | succ => exact traces_prepareErased n
            | fail =>
                apply (ih.2 n).bind
                intro r
                cases r with
                | fail =>
                    apply (Still.traces (Within.emit _)).bind
                    intro _
                    exact Traces.pure _
                | succ =>
                    apply (traces_setNode n _).bind
                    intro _
                    exact traces_prepareErased n
      · intro n
        unfold eraseNodeFuel
        apply (Still.traces (still_getNode n)).bind
        intro node
        apply (traces_setNode n _).bind
        intro _
        apply (traces_flashEraseBlock _).bind
        intro ret
        apply Traces.ite _ (Traces.pure _)
        apply ih.1.bind
        intro o
        cases o with
        | none => exact Traces.pure _
        | some new =>
            apply (Still.traces (still_getNode new)).bind
            intro good
            apply (Still.traces (still_getNode n)).bind
            intro bad
            apply (Still.traces
              (still_noteNotBlank _ _)).bind
            intro _
            apply (traces_setNode new _).bind
            intro _
            apply (traces_setNode n _).bind
            intro _
            apply (traces_setNode n _).bind
            intro _
            apply (traces_badBlockProcessNode new).bind
            intro _
            exact Traces.pure _

/- A failing erase is noted. -/
theorem traces_treeEraseIgnored (n : Nat) :
    Traces Drops (treeEraseIgnored n) := by
  unfold treeEraseIgnored treeEraseNode
  apply ((traces_erasedFuel _).2 n).bind
  intro r
  cases r with
  | succ => exact Traces.pure _
  | fail => exact Still.traces (Within.emit _)

end Erasing

------------------------------------------------------------
-- Functions That Load Pages
------------------------------------------------------------

/-
  Only the block of block info `i` is reported, and while it
  is the block in recovery the list stays.
-/
structure Hears (i : Nat) (s t : Dev) : Prop where
  block : (t.bc.info i).block = (s.bc.info i).block
  pending : s.pending.blockInRecovery = (s.bc.info i).block →
    t.pending = s.pending

section Loading

variable {ok : Event → Prop} {α : Type} {m : M α} {i : Nat}
  {s t : Dev}

instance : IsPreorder Dev (Hears i) where
  refl _ := ⟨rfl, fun _ => rfl⟩
  trans s t u h h' := by
    refine ⟨h'.block.trans h.block, ?_⟩
    intro hCurrent
    have hFirst := h.pending hCurrent
    apply (h'.pending ?_).trans hFirst
    rw [hFirst, h.block]
    exact hCurrent

/- Functions that only read do not report. -/
omit [Platform] in
theorem Still.within_hears
    (h : Within ok Still m) : Within ok (Hears i) m := by
  apply h.mono
  intro s t hStill
  refine ⟨?_, fun _ => hStill.pending⟩
  rw [hStill.bc]

/- Neither do changes of the buffers. -/
omit [Platform] in
theorem Buffers.within_hears
    (h : Within ok Buffers m) : Within ok (Hears i) m := by
  apply h.mono
  intro s t hBuffers
  rw [hBuffers]
  exact ⟨rfl, fun _ => rfl⟩

omit [Platform] in
theorem hears_setInfo
    {f : BlockInfo → BlockInfo}
    (c : Nat)
    (hBlock : ∀ w, (f w).block = w.block) :
    Within ok (Hears i) (setInfo c f) := by
  apply Within.modify
  intro s
  refine ⟨?_, fun _ => rfl⟩
  dsimp only
  by_cases hi : i = c
  · rw [hi, upd_same]
    exact hBlock _
  · rw [upd_other _ _ hi]

omit [Platform] in
theorem hears_setTag (c page : Nat) (tag : Tag) :
    Within ok (Hears i) (setTag c page tag) :=
  hears_setInfo c fun _ => rfl

/- The block in recovery is not reported again. -/
omit [Platform] in
theorem wlp_hear
    (ret : FlashRet)
    (h : Hears i s t) :
    wlp ok (badBlockAddByFlashResult (s.bc.info i).block ret)
      (fun _ u => Hears i s u) t := by
  unfold badBlockAddByFlashResult badBlockAdd
  cases pendingType ret with
  | none =>
      rw [wlp_pure]
      exact h
  | some mark =>
      simp only [wlp_bind, wlp_modify, wlp_pure]
      refine ⟨h.block, ?_⟩
      intro hCurrent
      dsimp only
      rw [h.pending hCurrent]
      unfold Pending.add
      rw [if_pos hCurrent]

/- A page is read, its result is reported, and so on. -/
theorem wlp_hearPage
    {k : FlashRet → Tag → M α}
    (page : Nat)
    (old : Tag)
    (hk : ∀ ret tag, Within ok (Hears i) (k ret tag)) :
    wlp ok (flashReadPageTag (s.bc.info i).block page old)
      (fun q t =>
        wlp ok (do
            let _ ← badBlockAddByFlashResult
              (s.bc.info i).block q.1
            k q.1 q.2)
          (fun _ u => Hears i s u) t) s := by
  refine wlp_mono (Still.within_hears (i := i)
    (still_flashReadPageTag _ _ _) s) ?_
  intro q t ht
  refine wlp_seq (wlp_hear q.1 ht) ?_
  intro _ u hu
  refine wlp_mono (hk q.1 q.2 u) ?_
  intro _ v hv
  exact trans_of (Hears i) hu hv

/- What was read is entered into the block info. -/
omit [Platform] in
theorem hears_enter
    {f : BlockInfo → BlockInfo}
    {k : M α}
    (hBlock : ∀ w, (f w).block = w.block)
    (hk : Within ok (Hears i) k) :
    Within ok (Hears i) (do setInfo i f; k) := by
  apply Within.bind (hears_setInfo i hBlock)
  intro _
  exact hk

/- The page is expired, or it is not read again. -/
theorem hears_blockInfoLoad (page : Nat) :
    Within ok (Hears i) (blockInfoLoad i page) := by
  intro s
  unfold blockInfoLoad
  split
  · rw [wlp_pure]
    exact refl_of (Hears i) s
  · simp only [getInfo, wlp_bind, wlp_gets]
    split
    · rw [wlp_pure]
      exact refl_of (Hears i) s
    · rw [wlp_bind]
      apply wlp_hearPage page _ (k := fun ret tag =>
        if ret.haveErr then do
          setTag i page tag
          pure URet.fail
        else do
          setInfo i fun w => w.refresh page tag
          pure URet.succ)
      intro ret tag
      apply Within.ite
      · exact hears_enter (fun _ => rfl) (Within.pure _)
      · exact hears_enter (fun _ => rfl) (Within.pure _)

/-
  By induction on the pages; each is reported by its own
  read.
-/
theorem hears_blockInfoLoadFrom (n : Nat) :
    ∀ page nfailed, Within ok (Hears i)
      (blockInfoLoadFrom i n page nfailed) := by
  induction n with
  | zero =>
      intro page nfailed
      exact Within.pure _
  | succ n ih =>
      intro page nfailed s
      unfold blockInfoLoadFrom
      simp only [getInfo, wlp_bind, wlp_gets]
      split
      · exact ih _ _ s
      · rw [wlp_bind]
        apply wlp_hearPage page _ (k := fun ret tag =>
          if ret.haveErr then do
            setInfo i fun w =>
              w.refresh page { tag with valid := 1 }
            blockInfoLoadFrom i n (page + 1) (nfailed + 1)
          else do
            setInfo i fun w => w.refresh page tag
            blockInfoLoadFrom i n (page + 1) nfailed)
        intro ret tag
        apply Within.ite
        · exact hears_enter (fun _ => rfl) (ih _ _)
        · exact hears_enter (fun _ => rfl) (ih _ _)

theorem hears_blockInfoLoadAll :
    Within ok (Hears i) (blockInfoLoadAll i) := by
  unfold blockInfoLoadAll
  apply Within.bind (hears_blockInfoLoadFrom _ _ _)
  intro nfailed
  exact Within.pure _

omit [Platform] in
theorem hears_getTag (page : Nat) :
    Within ok (Hears i) (getTag i page) :=
  Still.within_hears (still_getTag i page)

theorem hears_findBestFrom (old : Tag) (page n : Nat) :
    Within ok (Hears i) (findBestFrom i old page n) := by
  induction n with
  | zero => exact Within.pure _
  | succ n ih =>
      unfold findBestFrom
      apply Within.bind (hears_blockInfoLoad _)
      intro _
      apply Within.bind (hears_getTag _)
      intro tag
      exact Within.ite (Within.pure _) ih

theorem hears_findBestPageInBlock (page : Nat) :
    Within ok (Hears i) (findBestPageInBlock i page) := by
  unfold findBestPageInBlock
  apply Within.bind (hears_blockInfoLoad _)
  intro _
  apply Within.bind (hears_getTag _)
  intro old
  apply Within.ite (Within.pure _)
  apply Within.ite (Within.pure _)
  apply Within.bind (hears_blockInfoLoad _)
  intro _
  apply Within.bind (hears_getTag _)
  intro last
  apply Within.ite (Within.pure _)
  apply Within.bind (hears_findBestFrom old page _)
  intro best
  exact Within.pure _

/- By induction on the pages that are left. -/
theorem hears_findPageFrom (pageId n : Nat) :
    ∀ page, Within ok (Hears i)
      (findPageFrom i pageId n page) := by
  induction n with
  | zero =>
      intro page
      exact Within.pure _
  | succ n ih =>
      intro page
      unfold findPageFrom
      apply Within.bind (hears_blockInfoLoad _)
      intro _
      apply Within.bind (hears_getTag _)
      intro tag
      exact Within.ite (Within.pure _) (ih _)

------------------------------------------------------------
-- Copying the Pages
------------------------------------------------------------

omit [Platform] in
theorem hears_medium (e : Event) :
    Within ok (Hears i) (medium e) := by
  unfold medium
  apply Within.bind
  · exact Within.modify fun _ => ⟨rfl, fun _ => rfl⟩
  · intro _
    exact Within.emit _

/- A write is not reported by the driver layer. -/
theorem hears_driverWritePage
    (b p : Nat)
    (content : Page) :
    Within ok (Hears i) (driverWritePage b p content) := by
  unfold driverWritePage
  apply Within.bind (Still.within_hears still_nextAnswer)
  intro a
  apply Within.bind (hears_medium _)
  intro _
  apply Within.ite _ (Within.pure _)
  apply Within.bind
    (Still.within_hears (still_watchTag b p false))
  intro _
  exact Within.pure _

/-
  The copy goes to another block, whose results are not
  reported.
-/
theorem hears_flashWritePageCombine
    (b p j : Nat)
    (tag : Tag) :
    Within ok (Hears i) (flashWritePageCombine b p j tag) := by
  unfold flashWritePageCombine
  apply Within.bind (Still.within_hears still_spareGet)
  intro got
  apply Within.ite (Within.pure _)
  apply Within.bind (Still.within_hears (still_getBuf j))
  intro x
  apply Within.bind (hears_driverWritePage b p _)
  intro ret
  apply Within.ite
  · apply Within.bind (Still.within_hears still_sparePut)
    intro _
    exact Within.pure _
  · apply Within.bind
      (Still.within_hears (still_verifyPageData _ _ _))
    intro bad
    apply Within.bind
      (Still.within_hears (still_flashReadPageTag _ _ _))
    intro r
    apply Within.bind (Still.within_hears still_sparePut)
    intro _
    exact Within.ite (Within.pure _) (Within.pure _)

/- The end of a round of the loop: page `j` is written. -/
theorem hears_copyPage
    {k : M CopyEnd}
    (goodBlock j b : Nat)
    (tag : Tag)
    (hk : Within ok (Hears i) k) :
    Within ok (Hears i) (do
      let ret ← flashWritePageCombine goodBlock j b tag
      let _ ← bufFreeClone b
      if ret.isBadBlock then
        pure .newBad
      else if ret = .ioErr then
        pure (.finished false true)
      else do
        noteNotStored goodBlock j tag
        k) := by
  apply Within.bind (hears_flashWritePageCombine _ _ _ _)
  intro ret
  apply Within.bind (Still.within_hears (still_bufFreeClone b))
  intro _
  apply Within.ite (Within.pure _)
  apply Within.ite (Within.pure _)
  apply Within.bind (Still.within_hears (still_noteWhen _ _))
  intro _
  exact hk

/-
  By induction on the pages of the new block; the reads of
  the old one are not reported.
-/
theorem hears_copyFrom
    (newBc : Option Nat)
    (goodBlock n : Nat) :
    ∀ j dirty, Within ok (Hears i)
      (copyFrom i newBc goodBlock n j dirty) := by
  induction n with
  | zero =>
      intro j dirty
      exact Within.pure _
  | succ n ih =>
      intro j dirty
      unfold copyFrom
      apply Within.bind (hears_findPageFrom j _ _)
      intro o
      cases o with
      | none => exact Within.pure _
      | some page =>
          apply Within.bind (hears_findBestPageInBlock page)
          intro o
          cases o with
          | none => exact Within.pure _
          | some page =>
              apply Within.bind (hears_getTag page)
              intro tag
              apply Within.bind
                (Still.within_hears still_bufClone)
              intro o
              cases o with
              | none => exact Within.pure _
              | some b =>
                  apply Within.bind
                    (Still.within_hears (still_getInfo _))
                  intro w
                  apply Within.bind (Still.within_hears
                    (still_flashReadPage _ _ _ _))
                  intro ret
                  apply Within.ite
                  · apply Within.bind (Still.within_hears
                      (still_bufFreeClone b))
                    intro _
                    exact Within.pure _
                  · apply Within.bind (Buffers.within_hears
                      (buffers_setBuf b _))
                    intro _
                    cases newBc with
                    | none =>
                        exact hears_copyPage _ _ _ _ (ih _ _)
                    | some c =>
                        apply Within.bind (hears_setTag c j _)
                        intro _
                        exact hears_copyPage _ _ _ _ (ih _ _)

end Loading

end Uffs
