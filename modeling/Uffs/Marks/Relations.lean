import Uffs.Files.Steps

/-
  What happens to the truncate marks of the page buffers.

  No function but the truncation of a block sets a mark.  A
  block recover takes a buffer from its dirty group only
  together with its mark.

  Main declarations:
    * `StaysDirty`, `rekeyLayer_staysDirty`
    * `FewerMarks`, `bufferLayer_fewerMarks`
    * `Unmarks`, `tameLayer_unmarks`
    * `Dev.Harmless`, `wlp_flushGroup_harmless`
-/

namespace Uffs

open Prog

variable [Platform] {ok : Event → Prop}

------------------------------------------------------------
-- Steps That Keep the Marks
------------------------------------------------------------

theorem BufPool.linked_iff
    {p : BufPool}
    {i : Nat} :
    p.linked i = true ↔
      ∃ slot < dirtyGroups, i ∈ (p.group slot).dirty := by
  unfold linked
  rw [List.any_eq_true]
  constructor
  · intro h
    rcases h with ⟨slot, hSlot, hMem⟩
    exact ⟨slot, List.mem_range.mp hSlot,
      of_decide_eq_true hMem⟩
  · intro h
    rcases h with ⟨slot, hSlot, hMem⟩
    exact ⟨slot, List.mem_range.mpr hSlot,
      decide_eq_true hMem⟩

namespace Tails

variable {s t : Dev}

omit [Platform] in
theorem truncTail (h : Tails s t) (i : Nat) :
    (t.buf.entry i).truncTail = (s.buf.entry i).truncTail :=
  congrArg (fun k => k.1) (h.tail i)

omit [Platform] in
theorem type (h : Tails s t) (i : Nat) :
    (t.buf.entry i).type = (s.buf.entry i).type :=
  congrArg (fun k => k.2.1) (h.tail i)

omit [Platform] in
theorem pageId (h : Tails s t) (i : Nat) :
    (t.buf.entry i).pageId = (s.buf.entry i).pageId :=
  congrArg (fun k => k.2.2) (h.tail i)

theorem linked (h : Tails s t) (i : Nat) :
    t.buf.linked i = s.buf.linked i := by
  unfold BufPool.linked
  rw [h.group]

end Tails

omit [Platform] in
theorem tails_setInfo (i : Nat) (f : BlockInfo → BlockInfo) :
    Within ok Tails (setInfo i f) := by
  apply Within.modify
  intro s
  exact ⟨rfl, fun _ => rfl, rfl, rfl⟩

omit [Platform] in
theorem tails_moveBcToTail (i : Nat) :
    Within ok Tails (moveBcToTail i) := by
  apply Within.modify
  intro s
  exact ⟨rfl, fun _ => rfl, rfl, rfl⟩

omit [Platform] in
theorem tails_blockInfoFindInCache (b : Nat) :
    Within ok Tails (blockInfoFindInCache b) := by
  unfold blockInfoFindInCache
  apply Within.bind Within.get
  intro s
  cases s.bc.list.find? (fun i => (s.bc.info i).block == b) with
  | none => exact Within.pure _
  | some i =>
      apply Within.bind (tails_setInfo _ _)
      intro _
      exact Within.pure _

theorem tails_blockInfoGet (b : Nat) :
    Within ok Tails (blockInfoGet b) := by
  unfold blockInfoGet
  apply Within.bind (tails_blockInfoFindInCache b)
  intro o
  cases o with
  | some i =>
      apply Within.bind (tails_moveBcToTail i)
      intro _
      exact Within.pure _
  | none =>
      apply Within.bind Within.get
      intro s
      cases s.bc.list.find?
          (fun i => (s.bc.info i).refCount == 0) with
      | none => exact Within.pure _
      | some i =>
          apply Within.bind (tails_setInfo _ _)
          intro _
          apply Within.bind (tails_moveBcToTail i)
          intro _
          exact Within.pure _

/- Relations that hold when all marks are kept. -/
theorem stepLayer_of_tails
    {R : Dev → Dev → Prop}
    (h : ∀ s t, Tails s t → R s t) : StepLayer ok R where
  tails s t hTails _ _ := h s t hTails
  infoFind b := (tails_blockInfoFindInCache b).mono h
  infoGet b := (tails_blockInfoGet b).mono h

theorem stepLayer_tails : StepLayer ok Tails :=
  stepLayer_of_tails fun _ _ => id

------------------------------------------------------------
-- Steps That Take Marks Away
------------------------------------------------------------

/- A buffer with a mark stays in its dirty groups. -/
structure StaysDirty (s t : Dev) : Prop where
  mark : ∀ i, (t.buf.entry i).truncTail = true →
    (s.buf.entry i).truncTail = true ∧
      (s.buf.linked i = true → t.buf.linked i = true)
  staleMark : t.watch.staleMark = s.watch.staleMark

/- No mark is set. -/
structure FewerMarks (s t : Dev) : Prop where
  mark : ∀ i, (t.buf.entry i).truncTail = true →
    (s.buf.entry i).truncTail = true
  staleMark : t.watch.staleMark = s.watch.staleMark

/- No buffer has a mark. -/
def Dev.Unmarked (s : Dev) : Prop :=
  ∀ i, (s.buf.entry i).truncTail = false

/-
  Where there is no mark, there is none afterwards, and none
  was met below the end of a file.
-/
def Unmarks (s t : Dev) : Prop :=
  s.Unmarked →
    t.Unmarked ∧ t.watch.staleMark = s.watch.staleMark

instance : IsPreorder Dev StaysDirty where
  refl _ := ⟨fun _ h => ⟨h, id⟩, rfl⟩
  trans _ _ _ h h' :=
    ⟨fun i hi =>
      ⟨(h.mark i (h'.mark i hi).1).1,
        fun hLinked => (h'.mark i hi).2
          ((h.mark i (h'.mark i hi).1).2 hLinked)⟩,
      h'.staleMark.trans h.staleMark⟩

instance : IsPreorder Dev FewerMarks where
  refl _ := ⟨fun _ => id, rfl⟩
  trans _ _ _ h h' :=
    ⟨fun i hi => h.mark i (h'.mark i hi),
      h'.staleMark.trans h.staleMark⟩

instance : IsPreorder Dev Unmarks where
  refl _ := fun hs => ⟨hs, rfl⟩
  trans _ _ _ h h' := fun hs =>
    ⟨(h' (h hs).1).1, (h' (h hs).1).2.trans (h hs).2⟩

theorem Tails.staysDirty
    {s t : Dev}
    (h : Tails s t) : StaysDirty s t := by
  constructor
  · intro i hi
    rw [h.truncTail] at hi
    rw [h.linked]
    exact ⟨hi, id⟩
  · exact h.staleMark

theorem StaysDirty.fewer
    {s t : Dev}
    (h : StaysDirty s t) : FewerMarks s t :=
  ⟨fun i hi => (h.mark i hi).1, h.staleMark⟩

omit [Platform] in
theorem FewerMarks.unmarks
    {s t : Dev}
    (h : FewerMarks s t) : Unmarks s t := by
  intro hs
  refine ⟨?_, h.staleMark⟩
  intro i
  by_contra hi
  rw [Bool.not_eq_false] at hi
  have hMark := h.mark i hi
  rw [hs i] at hMark
  cases hMark

theorem StaysDirty.unmarks
    {s t : Dev}
    (h : StaysDirty s t) : Unmarks s t :=
  h.fewer.unmarks

theorem staysDirty_rekey
    (i : Nat)
    (f : Buf → Buf)
    (hf : Unmarking f) : Within ok StaysDirty (setBuf i f) := by
  apply Within.modify
  intro s
  constructor
  · intro j hj
    refine ⟨?_, id⟩
    dsimp only at hj
    by_cases hji : j = i
    · subst hji
      rw [upd_same] at hj
      exact hf _ hj
    · rw [upd_other _ _ hji] at hj
      exact hj
  · rfl

/- What breaking a buffer from its group leaves. -/
theorem wlp_breakFromDirty_stays
    (d : Nat)
    (s : Dev) :
    wlp ok (breakFromDirty d)
      (fun r t => (r = .fail → t = s) ∧
        t.buf.entry = s.buf.entry ∧
        t.watch.staleMark = s.watch.staleMark ∧
        ∀ i ≠ d, s.buf.linked i = true → t.buf.linked i = true)
      s := by
  unfold breakFromDirty getBuf bufFindGroupSlot setGroup
  rw [wlp_bind, wlp_gets]
  split
  · rw [wlp_pure]
    exact ⟨fun _ => rfl, rfl, rfl, fun _ _ => id⟩
  rw [wlp_bind, wlp_gets]
  split
  · rw [wlp_pure]
    exact ⟨fun _ => rfl, rfl, rfl, fun _ _ => id⟩
  · rename_i slot hSlot
    rw [wlp_bind, wlp_modify, wlp_pure]
    refine ⟨fun hr => URet.noConfusion hr, rfl, rfl, ?_⟩
    intro i hi hLinked
    rw [BufPool.linked_iff] at hLinked ⊢
    rcases hLinked with ⟨slot', hBound, hMem⟩
    refine ⟨slot', hBound, ?_⟩
    by_cases hEq : slot' = slot
    · subst hEq
      dsimp only
      rw [upd_same]
      exact (List.mem_erase_of_ne hi).mpr hMem
    · dsimp only
      rw [upd_other _ _ hEq]
      exact hMem

theorem staysDirty_cleanDirtyFrom
    (slot n : Nat) :
    ∀ i, Within ok StaysDirty (cleanDirtyFrom slot n i) := by
  have hSteps : StepLayer ok StaysDirty :=
    stepLayer_of_tails fun _ _ => Tails.staysDirty
  induction n with
  | zero =>
      intro i
      exact Within.pure _
  | succ n ih =>
      intro i
      unfold cleanDirtyFrom findBufInDirtyList
      apply Within.bind (Within.gets _)
      intro o
      cases o with
      | none => exact ih _
      | some d =>
          have hRest : Within ok StaysDirty (do
              moveNodeToHead d
              cleanDirtyFrom slot n (i + 1)) := by
            apply Within.bind
            · exact hSteps.setLists
                (fun p => { p with list := d :: p.list.erase d })
                fun _ => ⟨rfl, rfl⟩
            · intro _
              exact ih _
          intro s
          refine wlp_seq (wlp_breakFromDirty_stays d s) ?_
          intro r t ht
          rcases ht with ⟨hFail, hEntry, hStale, hLinked⟩
          cases r with
          | fail =>
              rw [hFail rfl]
              exact ih _ s
          | succ =>
              unfold setBuf
              dsimp only
              rw [wlp_bind, wlp_modify]
              refine wlp_mono (hRest _) ?_
              intro _ u hu
              apply trans_of StaysDirty _ hu
              -- the mark goes with the buffer
              constructor
              · intro j hj
                dsimp only at hj
                by_cases hjd : j = d
                · subst hjd
                  rw [upd_same] at hj
                  cases hj
                · rw [upd_other _ _ hjd, hEntry] at hj
                  exact ⟨hj, hLinked j hjd⟩
              · exact hStale

theorem rekeyLayer_staysDirty : RekeyLayer ok StaysDirty where
  toStepLayer := stepLayer_of_tails fun _ _ => Tails.staysDirty
  rekey := staysDirty_rekey
  cleanDirty := staysDirty_cleanDirtyFrom

theorem bufferLayer_fewerMarks : BufferLayer ok FewerMarks where
  rekey i f hf := (staysDirty_rekey i f hf).mono fun _ _ =>
    StaysDirty.fewer
  setGroup _ _ := Within.modify fun _ => ⟨fun _ => id, rfl⟩
  setLists f hf := by
    apply Within.modify
    intro s
    constructor
    · intro i
      dsimp only
      rw [(hf s.buf).1]
      exact id
    · rfl

/- Watching finds no mark where there is none. -/
theorem unmarks_watchMarks (slot : Nat) :
    Within ok Unmarks (watchMarks slot) := by
  apply Within.modify
  intro s hs
  have hNone : s.marksStale slot = false := by
    unfold Dev.marksStale
    rw [List.any_eq_false]
    intro d _
    rw [hs d, Bool.false_and]
    exact Bool.false_ne_true
  refine ⟨hs, ?_⟩
  dsimp only
  rw [hNone, Bool.or_false]

theorem tameLayer_unmarks : TameLayer ok Unmarks where
  toStepLayer := stepLayer_of_tails fun _ _ h =>
    h.staysDirty.unmarks
  rekey i f hf := (staysDirty_rekey i f hf).mono fun _ _ =>
    StaysDirty.unmarks
  cleanDirty slot n i :=
    (staysDirty_cleanDirtyFrom slot n i).mono fun _ _ =>
      StaysDirty.unmarks
  setGroup slot f :=
    (bufferLayer_fewerMarks.setGroup slot f).mono fun _ _ =>
      FewerMarks.unmarks
  watchMarks := unmarks_watchMarks

------------------------------------------------------------
-- The Flush of a Truncation
------------------------------------------------------------

/-
  A truncation is running, and no page that is kept follows
  a marked page in its block.
-/
def Dev.Harmless (s : Dev) : Prop :=
  ∃ start remain,
    s.watch.truncating = some (start, remain) ∧
      ∀ i, (s.buf.entry i).truncTail = true →
        remain ≤ pageEnd (s.buf.entry i).type start
          (s.buf.entry i).pageId

namespace Dev.Harmless

variable {s t : Dev}

theorem tails
    (h : s.Harmless)
    (hst : Tails s t) : t.Harmless := by
  rcases h with ⟨start, remain, hTruncating, hEnd⟩
  refine ⟨start, remain, ?_, ?_⟩
  · rw [hst.truncating]
    exact hTruncating
  · intro i hi
    rw [hst.truncTail] at hi
    rw [hst.type, hst.pageId]
    exact hEnd i hi

theorem not_stale
    (h : s.Harmless)
    (slot : Nat) : s.marksStale slot = false := by
  rcases h with ⟨start, remain, hTruncating, hEnd⟩
  unfold Dev.marksStale
  rw [List.any_eq_false]
  intro d _ hStale
  rw [Bool.and_eq_true] at hStale
  rcases hStale with ⟨hMark, hBehind⟩
  have hLe := hEnd d hMark
  unfold Dev.dataBehind at hBehind
  rw [hTruncating] at hBehind
  simp only [Bool.and_eq_true, decide_eq_true_eq] at hBehind
  omega

end Dev.Harmless

theorem wlp_recover_harmless
    {s : Dev}
    (slot node bc : Nat)
    (badBlock : Bool)
    (hs : s.Harmless) :
    wlp ok (bufFlushExistWithBlockRecover slot node bc badBlock)
      (fun _ t => StaysDirty s t) s := by
  have hLayer : RekeyLayer ok StaysDirty :=
    rekeyLayer_staysDirty
  have hRest : ∀ key, Within ok StaysDirty
      (recoverFuel slot key node bc badBlock Platform.fuel) :=
    fun key => hLayer.recoverFuel _ _ _ _ _ _
  unfold bufFlushExistWithBlockRecover watchMarks
  rw [wlp_bind, wlp_modify, hs.not_stale, Bool.or_false]
  have hEnd : Within ok StaysDirty (do
      let key ← dirtyHeadKey slot
      if (← getNode node).mismatch key.type then
        note .mixedGroup
      recoverFuel slot key node bc badBlock Platform.fuel) := by
    apply Within.bind (Within.gets _)
    intro key
    apply Within.bind (Within.gets _)
    intro n
    apply Within.ite _ (hRest key)
    apply Within.bind (Within.emit _)
    intro _
    exact hRest key
  exact hEnd s

theorem wlp_staysDirty
    {s u : Dev}
    {α : Type}
    {m : M α}
    (hs : StaysDirty s u)
    (hm : Within ok StaysDirty m) :
    wlp ok m (fun _ t => StaysDirty s t) u := by
  refine wlp_mono (hm u) ?_
  intro _ t ht
  exact trans_of StaysDirty hs ht

theorem wlp_flushNewBlock_harmless
    {s : Dev}
    (slot : Nat)
    (hs : s.Harmless) :
    wlp ok (bufFlushNewBlock slot)
      (fun _ t => StaysDirty s t) s := by
  have hTails : BlockLayer ok Tails := stepLayer_tails.blockLayer
  have hBlocks : BlockLayer ok StaysDirty :=
    rekeyLayer_staysDirty.blockLayer
  unfold bufFlushNewBlock
  refine wlp_seq (hTails.treeGetErasedNode s) ?_
  intro o t ht
  cases o with
  | none =>
      rw [wlp_pure]
      exact ht.staysDirty
  | some node =>
  unfold getNode dirtyHeadKey
  dsimp only
  rw [wlp_bind, wlp_gets]
  refine wlp_seq (tails_blockInfoGet _ t) ?_
  intro o u hu
  have hTail : Tails s u := trans_of Tails ht hu
  cases o with
  | none =>
      apply wlp_staysDirty hTail.staysDirty
      apply Within.bind (hBlocks.insertToErasedListHead _)
      intro _
      exact Within.pure _
  | some bc =>
  dsimp only
  rw [wlp_bind, wlp_gets]
  refine wlp_seq
    (wlp_recover_harmless slot node bc false (hs.tails hTail)) ?_
  intro r v hv
  have hStays : StaysDirty s v :=
    trans_of StaysDirty hTail.staysDirty hv
  apply wlp_staysDirty hStays
  cases r with
  | succ =>
      apply Within.bind (hBlocks.modifyTree _)
      intro _
      apply Within.bind (hBlocks.infoPut _)
      intro _
      exact Within.pure _
  | fail =>
      apply Within.bind (Within.gets _)
      intro w
      apply Within.bind (hBlocks.setNode _ _)
      intro _
      apply Within.bind (hBlocks.treeEraseIgnored _)
      intro _
      apply Within.bind (hBlocks.treeInsertToErasedListTail _)
      intro _
      apply Within.bind (hBlocks.infoPut _)
      intro _
      exact Within.pure _

theorem wlp_flushExist_harmless
    {s : Dev}
    (slot node : Nat)
    (hs : s.Harmless) :
    wlp ok (bufFlushExist slot node true)
      (fun _ t => StaysDirty s t) s := by
  have hTails : BlockLayer ok Tails := stepLayer_tails.blockLayer
  have hBlocks : BlockLayer ok StaysDirty :=
    rekeyLayer_staysDirty.blockLayer
  unfold bufFlushExist getNode getGroup
  rw [wlp_bind, wlp_gets]
  refine wlp_seq (tails_blockInfoGet _ s) ?_
  intro o t ht
  cases o with
  | none =>
      rw [wlp_pure]
      exact ht.staysDirty
  | some bc =>
  refine wlp_seq (hTails.infoLoadAll bc t) ?_
  intro r u hu
  have hLoad : Tails s u := trans_of Tails ht hu
  cases r with
  | fail =>
      apply wlp_staysDirty hLoad.staysDirty
      apply Within.bind (hBlocks.infoPut _)
      intro _
      exact Within.pure _
  | succ =>
  refine wlp_seq (hTails.getFreePagesCount bc u) ?_
  intro n v hv
  have hCount : Tails s v := trans_of Tails hLoad hv
  rw [wlp_bind, wlp_gets]
  -- a forced flush is a block recover
  simp only [Bool.not_true, Bool.and_false, Bool.false_eq_true,
    if_false]
  refine wlp_seq
    (wlp_recover_harmless slot node bc false (hs.tails hCount)) ?_
  intro r w hw
  have hStays : StaysDirty s w :=
    trans_of StaysDirty hCount.staysDirty hw
  apply wlp_staysDirty hStays
  apply Within.bind (hBlocks.infoPut _)
  intro _
  exact Within.pure _

/- A forced flush does no harm with harmless marks. -/
theorem wlp_flushGroup_harmless
    {s : Dev}
    (parent serial : Nat)
    (hs : s.Harmless) :
    wlp ok (bufFlushGroupEx parent serial true)
      (fun _ t => StaysDirty s t) s := by
  have hSame : StaysDirty s s := refl_of StaysDirty s
  unfold bufFlushGroupEx bufFindGroupSlot bufFlushSlot getGroup
    checkDirtyList dirtyHeadKey
  rw [wlp_bind, wlp_gets]
  split
  · rw [wlp_pure]
    exact hSame
  rw [wlp_bind, wlp_gets]
  split
  · rw [wlp_pure]
    exact hSame
  rw [wlp_bind, wlp_gets]
  split
  · rw [wlp_pure]
    exact hSame
  rw [wlp_bind, wlp_gets]
  split
  · rw [wlp_pure]
    exact hSame
  refine wlp_seq
    (DeviceLayer.findFromTree (R := Tails) _ _ _ s) ?_
  intro o t ht
  have hTo : ∀ {m : M URet},
      wlp ok m (fun _ u => StaysDirty t u) t →
        wlp ok m (fun _ u => StaysDirty s u) t := by
    intro m hm
    refine wlp_mono hm ?_
    intro _ u hu
    exact trans_of StaysDirty ht.staysDirty hu
  cases o with
  | none => exact hTo (wlp_flushNewBlock_harmless _ (hs.tails ht))
  | some node =>
      exact hTo (wlp_flushExist_harmless _ node (hs.tails ht))

end Uffs
