import Uffs.Nodes.Flush

/-
  The nodes of the tree while dirty groups are flushed and
  page buffers are filled.

  Main declarations:
    * `Runs`
    * `runs_bufFlushSlot`
    * `runs_bufLoad`
-/

namespace Uffs

open Prog

variable [Platform]

------------------------------------------------------------
-- Runs from a Whole State
------------------------------------------------------------

/- From a state in which every node is where it belongs. -/
def Runs (strict : Bool) (s t : Dev) : Prop :=
  s.Whole strict → Goes strict s t

instance {strict : Bool} : IsPreorder Dev (Runs strict) where
  refl s := fun _ => refl_of (Goes strict) s
  trans _ _ _ h h' := fun hWhole =>
    trans_of (Goes strict) (h hWhole)
      (h' ((h hWhole).whole hWhole))

section Support

variable {strict : Bool} {ok : Event → Prop} {α : Type}
  {m : M α}

/- It is enough to look at whole states. -/
theorem runs_of
    (h : ∀ s, s.Whole strict →
      wlp ok m (fun _ t => Goes strict s t) s) :
    Within ok (Runs strict) m := by
  intro s a es t hRun hOk hWhole
  exact h s hWhole a es t hRun hOk

theorem Busy.runs
    {s t : Dev}
    (h : Busy nowhere s t) : Runs strict s t := by
  intro hWhole
  rcases hWhole with ⟨E, B, own, hSound⟩
  apply Steady.goes
  exact (hSound.busy h (fun _ _ => id)).steady h.bc h.tree

theorem Busy.within_runs
    (h : Within ok (Busy nowhere) m) :
    Within ok (Runs strict) m :=
  h.mono fun _ _ => Busy.runs

theorem Buffers.within_runs
    (h : Within ok Buffers m) : Within ok (Runs strict) m :=
  Busy.within_runs (Buffers.within_busy h)

theorem Still.within_runs
    (h : Within ok Still m) : Within ok (Runs strict) m :=
  Busy.within_runs (Still.within_busy h)

end Support

------------------------------------------------------------
-- Flushing a Slot
------------------------------------------------------------

section Slots

variable {strict : Bool} {s : Dev}

omit [Platform] in
theorem Tree.region_entryNodes
    {t : Tree}
    {type : BlockType}
    {n : Nat}
    (h : n ∈ t.region type) : n ∈ t.entryNodes := by
  rcases List.mem_flatMap.mp h with ⟨k, hk, hIn⟩
  exact Tree.mem_entryNodes.mpr
    ⟨type, k, List.mem_range.mp hk, hIn⟩

theorem Tree.Parts.region_type
    {t : Tree}
    {E B H : List Nat}
    {own : Nat → Nat}
    {type : BlockType}
    {n : Nat}
    (h : t.Parts E B H own)
    (hIn : n ∈ t.region type) : (t.node n).type = type := by
  rcases List.mem_flatMap.mp hIn with ⟨k, _, hEntry⟩
  exact (h.hash type k n hEntry).1

/- A node that is found by its key carries it. -/
omit [Platform] in
theorem wlp_findFromTree
    {ok : Event → Prop}
    (type : BlockType)
    (parent serial : Nat) :
    wlp ok (findFromTree type parent serial)
      (fun o t => t = s ∧ ∀ n, o = some n →
        n ∈ s.tree.region type ∧
          (s.tree.node n).serial = serial ∧
          (type = .data → (s.tree.node n).parent = parent))
      s := by
  have hEnd : ∀ n k, n ∈ s.tree.entry type k →
      k < entrySize type → n ∈ s.tree.region type := by
    intro n k hIn hk
    exact List.mem_flatMap.mpr
      ⟨k, List.mem_range.mpr hk, hIn⟩
  unfold findFromTree
  cases type with
  | resv =>
      dsimp only
      rw [wlp_pure]
      exact ⟨rfl, fun n hn => by cases hn⟩
  | dir =>
      unfold treeFindDirNode
      dsimp only
      rw [wlp_gets]
      refine ⟨rfl, ?_⟩
      intro n hn
      unfold Tree.findDirNode at hn
      have hIn := hEnd n _ (List.mem_of_find?_eq_some hn)
        (Nat.mod_lt _ (by decide))
      have hSerial := List.find?_some hn
      rw [beq_iff_eq] at hSerial
      exact ⟨hIn, hSerial, fun h => by cases h⟩
  | file =>
      unfold treeFindFileNode
      dsimp only
      rw [wlp_gets]
      refine ⟨rfl, ?_⟩
      intro n hn
      unfold Tree.findFileNode at hn
      have hIn := hEnd n _ (List.mem_of_find?_eq_some hn)
        (Nat.mod_lt _ (by decide))
      have hSerial := List.find?_some hn
      rw [beq_iff_eq] at hSerial
      exact ⟨hIn, hSerial, fun h => by cases h⟩
  | data =>
      unfold treeFindDataNode
      dsimp only
      rw [wlp_gets]
      refine ⟨rfl, ?_⟩
      intro n hn
      unfold Tree.findDataNode at hn
      have hIn := hEnd n _ (List.mem_of_find?_eq_some hn)
        (Nat.mod_lt _ (by decide))
      have hKey := List.find?_some hn
      rw [Bool.and_eq_true, beq_iff_eq, beq_iff_eq] at hKey
      exact ⟨hIn, hKey.2, fun _ => hKey.1⟩

/- The buffers of a checked list carry the key of the first. -/
omit [Platform] in
theorem wlp_checkDirtyList
    {ok : Event → Prop}
    (slot : Nat) :
    wlp ok (checkDirtyList slot)
      (fun r t => t = s ∧
        (r = .succ → ∀ i ∈ (s.buf.group slot).dirty,
          (s.buf.entry i).serial =
              (s.buf.headKey slot).serial ∧
            (s.buf.entry i).parent =
              (s.buf.headKey slot).parent)) s := by
  unfold checkDirtyList
  rw [wlp_gets]
  refine ⟨rfl, ?_⟩
  intro hSucc
  unfold BufPool.headKey
  cases hDirty : (s.buf.group slot).dirty with
  | nil =>
      intro i hi
      cases hi
  | cons j rest =>
      rw [hDirty] at hSucc
      dsimp only at hSucc
      split at hSucc
      · rename_i hAll
        rw [List.all_eq_true] at hAll
        intro i hi
        rcases List.mem_cons.mp hi with hEq | hIn
        · rw [hEq]
          exact ⟨rfl, rfl⟩
        · have hSame := hAll i hIn
          simp only [Bool.and_eq_true, beq_iff_eq] at hSame
          exact ⟨hSame.1.2, hSame.1.1⟩
      · cases hSucc

theorem runs_bufFlushSlot
    (force : Bool)
    (slot : Nat) :
    Within (Allowed strict) (Runs strict)
      (bufFlushSlot force slot) := by
  apply runs_of
  intro s hWhole
  have hStay : Goes strict s s := refl_of (Goes strict) s
  unfold bufFlushSlot getGroup
  rw [wlp_bind, wlp_gets]
  split
  · rw [wlp_pure]
    exact hStay
  · rw [wlp_bind]
    refine wlp_mono (wlp_checkDirtyList slot) ?_
    intro r t ht
    rcases ht with ⟨hSame, hKeys⟩
    subst hSame
    cases r with
    | fail =>
        dsimp only
        rw [wlp_pure]
        exact hStay
    | succ =>
        dsimp only
        rw [wlp_bind, wlp_dirtyHeadKey]
        split
        · rw [wlp_pure]
          exact hStay
        · rename_i hResv
          rcases hWhole with ⟨E, B, own, hSound⟩
          rw [wlp_bind]
          refine wlp_mono (wlp_findFromTree _ _ _) ?_
          intro o u hu
          rcases hu with ⟨hSame, hFound⟩
          subst hSame
          cases o with
          | none => exact wlp_bufFlushNewBlock hSound hResv
          | some node =>
              rcases hFound node rfl with
                ⟨hRegion, hSerial, hParent⟩
              have hIn := Tree.region_entryNodes hRegion
              have hType := hSound.parts.region_type hRegion
              have hKey := hKeys rfl
              refine wlp_mono (wlp_bufFlushExist force hSound hIn
                ?_ ?_ ?_) ?_
              · intro i hi
                rw [hSerial, (hKey i hi).1]
              · intro hData i hi
                rw [hParent (hType.symm.trans hData),
                  (hKey i hi).2]
              · exact ⟨hSerial, fun hData =>
                  hParent (hType.symm.trans hData)⟩
              · intro _ v hv
                exact hv.goes

end Slots

------------------------------------------------------------
-- Page Buffers of the File Layer
------------------------------------------------------------

section PageBuffers

variable {strict : Bool}

/- The block info got since `s` is put back. -/
theorem Runs.put
    {s t : Dev}
    {i : Nat}
    (h : Runs strict s t)
    (hRef : (s.bc.info i).refCount < (t.bc.info i).refCount) :
    wlp (Allowed strict) (blockInfoPut i)
      (fun _ u => Runs strict s u) t := by
  by_cases hWhole : s.Whole strict
  · refine wlp_mono ((h hWhole).put hRef) ?_
    intro _ u hu _
    exact hu
  · intro _ _ u _ _ hWhole'
    exact absurd hWhole' hWhole

/- The part of `bufLoad` after the page has been found. -/
theorem runs_bufFill
    (type : BlockType)
    (parent serial pageId : Nat)
    (noEcc : Bool)
    (i bc page block : Nat) :
    Within (Allowed strict) (Runs strict) (do
      setBuf i fun b =>
        { b with
          mark := .empty
          type := type
          parent := parent
          serial := serial
          pageId := pageId }
      let ret ← flashReadPage block page i noEcc
      let pending ← badBlockAddByFlashResult block ret
      if pending = some .markBad then
        pure none
      else if pending = none && ret.haveErr then
        pure none
      else do
        let tag ← getTag bc page
        setBuf i fun b =>
          { b with
            dataLen := tag.dataLen
            mark := .valid
            refCount := b.refCount + 1 }
        moveNodeToHead i
        pure (some i)) := by
  apply Within.bind (Buffers.within_runs (buffers_setBuf i _))
  intro _
  apply Within.bind
    (Still.within_runs (still_flashReadPage _ _ _ _))
  intro ret
  apply Within.bind
    (Busy.within_runs (busy_badBlockAddByFlashResult block ret))
  intro pending
  apply Within.ite (Within.pure _)
  apply Within.ite (Within.pure _)
  apply Within.bind (Still.within_runs (still_getTag bc page))
  intro tag
  apply Within.bind (Buffers.within_runs (buffers_setBuf i _))
  intro _
  apply Within.bind
    (Buffers.within_runs (buffers_moveNodeToHead i))
  intro _
  exact Within.pure _

theorem runs_bufLoad
    (type : BlockType)
    (parent serial pageId : Nat)
    (noEcc : Bool)
    (node i : Nat) :
    Within (Allowed strict) (Runs strict)
      (bufLoad type parent serial pageId noEcc node i) := by
  intro s
  unfold bufLoad
  rw [wlp_bind, wlp_getNode, wlp_bind]
  refine wlp_mono (wlp_blockInfoGet _ s) ?_
  intro o t ht
  cases o with
  | none =>
      rw [wlp_pure]
      exact Busy.runs (.of_quiet ht)
  | some bc =>
      dsimp only at ht ⊢
      have hPut : ∀ u, Busy nowhere t u →
          wlp (Allowed strict) (blockInfoPut bc)
            (fun _ v => Runs strict s v) u := by
        intro u hu
        have hBusy : Busy nowhere s u :=
          (Busy.of_quiet ht.quiet).trans hu
        apply Runs.put hBusy.runs
        have hLe := hu.bc.refs bc
        rw [ht.refCount] at hLe
        exact Nat.lt_of_succ_le hLe
      rw [wlp_bind]
      refine wlp_mono (Loads.within_busy (W := nowhere)
        (loads_findPageInBlockWithPageId bc pageId) t) ?_
      intro o u hu
      cases o with
      | none =>
          dsimp only
          rw [wlp_bind]
          refine wlp_mono (hPut u hu) ?_
          intro _ v hv
          rw [wlp_pure]
          exact hv
      | some page =>
          dsimp only
          rw [wlp_bind]
          refine wlp_mono (Loads.within_busy (W := nowhere)
            (loads_findBestPageInBlock bc page) u) ?_
          intro o v hv
          cases o with
          | none =>
              rw [wlp_pure]
              exact Busy.runs
                ((Busy.of_quiet ht.quiet).trans (hu.trans hv))
          | some page =>
              dsimp only
              rw [wlp_bind]
              refine wlp_mono (hPut v (hu.trans hv)) ?_
              intro _ w hw
              refine wlp_mono
                (runs_bufFill type parent serial pageId noEcc
                  i bc page _ w) ?_
              intro _ x hx
              exact trans_of (Runs strict) hw hx

end PageBuffers

end Uffs
