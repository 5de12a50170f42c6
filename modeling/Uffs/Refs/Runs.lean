import Uffs.Model.Emulator
import Uffs.Refs.Handles

/-
  The reference count of the device over runs of the POSIX
  like functions.

  Each call changes the count by as much as it changes the
  number of the allocated objects that are attached to the
  device, but for a format with force: it puts back the
  objects without giving up their references.  It also needs
  that no object is put back twice, and one that a directory
  uses is when an old descriptor of it is closed as well.

  Main declarations:
    * `Fds.Keeps`
    * `FdState`, `FdRun`
    * `FdState.Balanced`, `FdState.Steady`
    * `FdState.Meets`
    * `fdRun_balanced`
    * `fdRunsBalanced_false`
-/

namespace Uffs

open Prog

section Refs

variable [Platform] {ok : Event → Prop}

------------------------------------------------------------
-- Calls That Keep the Balance
------------------------------------------------------------

/-
  The handles stay whole, and the reference count changes as
  the references of the objects do.
-/
structure Fds.Keeps
    (s : Fds)
    (d : Dev)
    (t : Fds)
    (e : Dev) : Prop where
  whole : t.Whole
  refs : e.refCount - t.refs = d.refCount - s.refs

namespace Fds

variable {s t : Fds} {d e : Dev} {i : Nat}

omit [Platform]

theorem Whole.setError
    (h : s.Whole)
    (err : UErr) : (s.setError err).Whole :=
  ⟨h.objs, h.dirs, h.object⟩

theorem Keeps.setError
    (h : s.Keeps d t e)
    (err : UErr) : s.Keeps d (t.setError err) e :=
  ⟨h.whole.setError err, h.refs⟩

theorem Whole.keeps
    (h : s.Whole)
    (hRef : e.refCount = d.refCount) : s.Keeps d s e :=
  ⟨h, by rw [hRef]⟩

/- An object that is taken and stays in use. -/
theorem Whole.keeps_setObject
    (h : s.Whole)
    (hGet : s.getObject = some (i, t))
    {obj : Obj}
    (hRef : e.refCount = d.refCount + obj.refs) :
    s.Keeps d (t.setObject i obj) e := by
  rcases h.getObject hGet with ⟨hHolds, hMem, hRefs, _⟩
  refine ⟨hHolds.whole.setObject i obj, ?_⟩
  have hZero : Obj.zero.refs = 0 := rfl
  rw [refs_setObject obj hHolds.allocated, hMem, hZero, hRefs,
    hRef]
  omega

/- An object that is taken and put back. -/
theorem Whole.keeps_putObject
    (h : s.Whole)
    (hGet : s.getObject = some (i, t))
    (obj : Obj)
    (hRef : e.refCount = d.refCount) :
    s.Keeps d ((t.setObject i obj).putObject i) e := by
  rcases h.getObject hGet with ⟨hHolds, hMem, hRefs, _⟩
  have hFinish := hHolds.finish obj
  have hZero : Obj.zero.refs = 0 := rfl
  rw [hMem, hZero, hRefs] at hFinish
  refine ⟨hFinish.1, ?_⟩
  rw [hFinish.2, hRef]
  omega

/- An object in use that is put back, and its reference. -/
theorem Holds.keeps_putObject
    (h : s.Holds i)
    (obj : Obj)
    (hRef : e.refCount = d.refCount - (s.objs.mem i).refs) :
    s.Keeps d ((s.setObject i obj).putObject i) e := by
  have hFinish := h.finish obj
  refine ⟨hFinish.1, ?_⟩
  rw [hFinish.2, hRef]
  omega

end Fds

theorem wlp_uffsOpen
    {s : Fds}
    {d : Dev}
    (name : List Byte)
    (oflag : OFlag)
    (h : s.Whole) :
    wlp ok (uffsOpen s name oflag)
      (fun q t => s.Keeps d q.2 t) d := by
  unfold uffsOpen
  cases hGet : s.getObject with
  | none =>
      dsimp only
      rw [wlp_pure]
      exact (h.keeps rfl).setError _
  | some r =>
      rcases r with ⟨i, s'⟩
      dsimp only
      rw [wlp_bind]
      refine wlp_mono (wlp_openObject_refs name oflag rfl) ?_
      intro q t ht
      rcases q with ⟨ret, obj⟩
      cases ret with
      | fail =>
          dsimp only
          rw [wlp_pure]
          exact (h.keeps_putObject hGet obj ht.detached).setError _
      | succ =>
          dsimp only
          rw [wlp_pure]
          exact h.keeps_setObject hGet ht.refs

/- The object of a descriptor is in use. -/
omit [Platform] in
theorem Fds.allocated_fd2obj
    {s : Fds}
    {fd : Int}
    {i : Nat}
    (h : s.fd2obj fd = some i) :
    s.objs.allocated i = true := by
  unfold Fds.fd2obj at h
  dsimp only at h
  split at h
  · cases h
  · split at h
    · rename_i hAll
      cases h
      exact hAll
    · cases h

theorem wlp_uffsClose
    {s : Fds}
    {d : Dev}
    (fd : Int)
    (h : s.Whole) :
    wlp ok (uffsClose s fd)
      (fun q t => s.Keeps d q.2 t) d := by
  unfold uffsClose
  cases hFd : s.fd2obj fd with
  | none =>
      dsimp only
      rw [wlp_pure]
      exact (h.keeps rfl).setError _
  | some i =>
      have hHolds : s.Holds i :=
        ⟨h, s.allocated_fd2obj hFd⟩
      dsimp only
      rw [wlp_bind]
      refine wlp_mono (wlp_closeObject_refs _) ?_
      intro q t ht
      rcases q with ⟨ret, obj⟩
      cases ret with
      | succ =>
          dsimp only
          rw [wlp_pure]
          exact hHolds.keeps_putObject obj ht.1
      | fail =>
          dsimp only
          rw [wlp_pure]
          refine ⟨(h.setObject i obj).setError _, ?_⟩
          have hSet := s.refs_setObject obj hHolds.allocated
          rw [Obj.refs_of_detached ht.2] at hSet
          change _ - (s.setObject i obj).refs = _
          rw [hSet, ht.1]
          change _ - (s.objs.mem i).refs - _ = _
          omega

theorem wlp_doStat
    (obj : Obj)
    {d : Dev} :
    wlp ok (doStat obj)
      (fun _ t => t.refCount = d.refCount) d := by
  have hKept : Within ok RefKept (doStat obj) := by
    unfold doStat
    apply Within.bind
      (sessionBase_refKept.base.getObjectInfo obj)
    rintro ⟨o, err⟩
    cases o with
    | none => exact Within.pure _
    | some info => exact Within.pure _
  exact hKept d

theorem wlp_openForStat
    (name : List Byte)
    {d : Dev} :
    wlp ok (openForStat name) (Opened d) d := by
  unfold openForStat
  split
  · exact wlp_openObject_refs name _ rfl
  · have hZero : Obj.zero.dev = false := rfl
    have hOpen : wlp ok _ (Opened d) d := wlp_openTwice_refs
      name OFlag.rdonly { dir := true } hZero
    exact hOpen

theorem wlp_uffsStat
    {s : Fds}
    {d : Dev}
    (name : List Byte)
    (h : s.Whole) :
    wlp ok (uffsStat s name)
      (fun q t => s.Keeps d q.2 t) d := by
  unfold uffsStat
  cases hGet : s.getObject with
  | none =>
      dsimp only
      rw [wlp_pure]
      exact (h.keeps rfl).setError _
  | some r =>
      rcases r with ⟨i, s'⟩
      dsimp only
      rw [wlp_bind]
      refine wlp_mono (wlp_openForStat name) ?_
      intro q t ht
      rcases q with ⟨ret, obj⟩
      cases ret with
      | fail =>
          dsimp only
          rw [wlp_pure]
          exact (h.keeps_putObject hGet obj ht.detached).setError _
      | succ =>
          dsimp only
          rw [wlp_bind]
          refine wlp_mono (wlp_doStat obj) ?_
          intro _ u hu
          rw [wlp_bind]
          refine wlp_mono
            (wlp_closeObject_undo (hu.trans ht.refs)) ?_
          intro q v hv
          rw [wlp_pure]
          exact (h.keeps_putObject hGet q.2 hv.1).setError _

theorem wlp_uffsMkdir
    {s : Fds}
    {d : Dev}
    (name : List Byte)
    (h : s.Whole) :
    wlp ok (uffsMkdir s name)
      (fun q t => s.Keeps d q.2 t) d := by
  unfold uffsMkdir
  cases hGet : s.getObject with
  | none =>
      dsimp only
      rw [wlp_pure]
      exact (h.keeps rfl).setError _
  | some r =>
      rcases r with ⟨i, s'⟩
      dsimp only
      rw [wlp_bind]
      refine wlp_mono (wlp_createObject_refs name _ rfl) ?_
      intro q t ht
      rcases q with ⟨ret, obj⟩
      rcases ht with ⟨hRefs, hFail⟩
      cases ret with
      | fail =>
          have hRef : t.refCount = d.refCount :=
            Obj.refCount_of_detached hRefs (hFail rfl)
          dsimp only
          rw [wlp_pure]
          exact (h.keeps_putObject hGet obj hRef).setError _
      | succ =>
          dsimp only
          rw [wlp_bind]
          refine wlp_mono (wlp_closeObject_undo hRefs) ?_
          intro q v hv
          rw [wlp_pure]
          exact (h.keeps_putObject hGet q.2 hv.1).setError _

theorem wlp_uffsOpendir
    {s : Fds}
    {d : Dev}
    (path : List Byte)
    (h : s.Whole) :
    wlp ok (uffsOpendir s path)
      (fun q t => s.Keeps d q.2 t) d := by
  unfold uffsOpendir
  cases hGetDir : s.getDirEntry with
  | none =>
      dsimp only
      rw [wlp_pure]
      exact (h.keeps rfl).setError _
  | some r =>
  rcases r with ⟨k, s₁⟩
  rcases h.getDirEntry hGetDir with ⟨hWhole, hk, hObjs⟩
  have hRefs₁ : s₁.refs = s.refs := by
    unfold Fds.refs
    rw [hObjs]
  have hStart : ∀ {t : Fds} {e : Dev}, s₁.Keeps d t e →
      s.Keeps d t e := by
    intro t e hKeeps
    exact ⟨hKeeps.whole, hRefs₁ ▸ hKeeps.refs⟩
  dsimp only
  cases hGet : s₁.getObject with
  | none =>
      dsimp only
      rw [wlp_pure]
      apply hStart
      exact ⟨(hWhole.putDirEntry hk).setError _, rfl⟩
  | some r =>
  rcases r with ⟨i, s₂⟩
  rcases hWhole.getObject hGet with ⟨hHolds, _, _, hDirs⟩
  have hk₂ : s₂.dirs.allocated k = true := hDirs ▸ hk
  -- the entry of the directory is given back after the object
  have hBack : ∀ (obj : Obj) (e : Dev),
      e.refCount = d.refCount →
      s.Keeps d
        ((((s₂.setDirEntry k (some i)).setObject i obj).putObject
          i).setDirEntry k none |>.putDirEntry k) e := by
    intro obj e hRef
    have hKeeps := hWhole.keeps_putObject hGet obj hRef
    have hClear := hKeeps.whole.clearDirEntry k
    apply hStart
    have hPut := hClear.putDirEntry (d := k) hk₂
    have hSame : ((((s₂.setDirEntry k (some i)).setObject i
        obj).putObject i).setDirEntry k none |>.putDirEntry k) =
        (((s₂.setObject i obj).putObject i).setDirEntry k
          none).putDirEntry k := by
      unfold Fds.setDirEntry Fds.putDirEntry Fds.setObject
        Fds.putObject Pool.set
      have hUpd : upd (upd s₂.dirs.mem k (some i)) k none =
          upd s₂.dirs.mem k none := by
        funext j
        unfold upd
        split
        · rfl
        · rfl
      rw [hUpd]
    rw [hSame]
    exact ⟨hPut, hKeeps.refs⟩
  dsimp only
  rw [wlp_bind]
  refine wlp_mono (wlp_openObject_refs path _ rfl) ?_
  intro q t ht
  rcases q with ⟨ret, obj⟩
  cases ret with
  | fail =>
      dsimp only
      rw [wlp_pure]
      exact (hBack obj t ht.detached).setError _
  | succ =>
      dsimp only
      split
      · rw [wlp_pure]
        apply Fds.Keeps.setError
        apply hStart
        have hKeeps := hWhole.keeps_setObject hGet ht.refs
        have hNamed := (hHolds.setObject obj).setDirEntry k
        exact ⟨hNamed, hKeeps.refs⟩
      · rw [wlp_bind]
        refine wlp_mono (wlp_closeObject_undo ht.refs) ?_
        intro q u hu
        rw [wlp_pure]
        exact (hBack q.2 u hu.1).setError _

/-
  A directory is closed whose object has not been put back
  yet.
-/
theorem wlp_uffsClosedir
    {s : Fds}
    {d : Dev}
    (k : Nat)
    (h : s.Whole)
    (hHas : ∀ i, s.dirs.allocated k = true →
      s.dirs.mem k = some i → s.objs.allocated i = true) :
    wlp ok (uffsClosedir s k)
      (fun q t => s.Keeps d q.2 t) d := by
  unfold uffsClosedir
  cases hk : s.dirs.allocated k with
  | false =>
      rw [if_pos (by decide), wlp_pure]
      exact (h.keeps rfl).setError _
  | true =>
      rw [if_neg (by decide)]
      cases hMem : s.dirs.mem k with
      | none =>
          dsimp only
          rw [wlp_pure]
          exact ⟨h.putDirEntry hk, rfl⟩
      | some i =>
          dsimp only
          rw [wlp_bind]
          refine wlp_mono (wlp_closeObject_refs _) ?_
          intro q t ht
          rw [wlp_pure]
          have hHolds : s.Holds i := ⟨h, hHas i hk hMem⟩
          have hKeeps := hHolds.keeps_putObject q.2 ht.1
          exact ⟨hKeeps.whole.putDirEntry hk, hKeeps.refs⟩

/- A directory is closed whose object has been put back. -/
theorem wlp_uffsClosedir_doubled
    {s : Fds}
    {d : Dev}
    {k i : Nat}
    (h : s.Whole)
    (hk : s.dirs.allocated k = true)
    (hMem : s.dirs.mem k = some i)
    (hFree : ¬ s.objs.allocated i = true) :
    wlp ok (uffsClosedir s k) (fun q _ => q.2.Doubled) d := by
  unfold uffsClosedir
  rw [hk, hMem, if_neg (by decide)]
  dsimp only
  rw [wlp_bind]
  apply wlp_of_forall
  intro q t
  rw [wlp_pure]
  exact h.doubled_putObject q.2 hk hMem hFree

/- Two handles come back in the other order. -/
omit [Platform] in
theorem keeps_swapped
    {s : Fds}
    {d t : Dev}
    (h : s.Whole)
    (ht : t.refCount = d.refCount) :
    s.Keeps d
      (match s.objs.freeList with
      | i :: j :: rest =>
          { s with
            objs := { s.objs with freeList := j :: i :: rest } }
      | _ => s)
      t := by
  split
  · rename_i i j rest hFree
    have hSwap : (j :: i :: rest).Perm s.objs.freeList := by
      rw [hFree]
      exact List.Perm.swap i j rest
    constructor
    · exact h.permObjs hSwap
    · rw [ht, Fds.refs_permObjs hSwap]
  · exact ⟨h, by rw [ht]⟩

theorem wlp_uffsRename
    {s : Fds}
    {d : Dev}
    (oldName newName : List Byte)
    (h : s.Whole) :
    wlp ok (uffsRename s oldName newName)
      (fun q t => s.Keeps d q.2 t) d := by
  unfold uffsRename
  rw [wlp_bind]
  refine wlp_mono (wlp_renameObject_refs oldName newName _) ?_
  intro q t ht
  have hKeeps := keeps_swapped h ht
  rcases q with ⟨ret, err⟩
  cases ret with
  | succ =>
      dsimp only
      rw [wlp_pure]
      exact hKeeps.setError err
  | fail =>
      dsimp only
      rw [wlp_pure]
      exact hKeeps.setError err

theorem wlp_removeWhen
    {s : Fds}
    {d : Dev}
    (dir : Bool)
    (otherwise : UErr)
    (name : List Byte)
    (h : s.Whole) :
    wlp ok (removeWhen dir otherwise s name)
      (fun q t => s.Keeps d q.2 t) d := by
  unfold removeWhen
  rw [wlp_bind]
  refine wlp_mono (wlp_uffsStat name h) ?_
  intro q t ht
  dsimp only
  split
  · rw [wlp_pure]
    exact ht.setError _
  · split
    · rw [wlp_pure]
      exact ht.setError _
    · rw [wlp_bind]
      refine wlp_mono (wlp_deleteObject_refs name _ _) ?_
      intro r u hu
      have hKeeps : s.Keeps d q.2 u :=
        ⟨ht.whole, hu ▸ ht.refs⟩
      rcases r with ⟨ret, err⟩
      cases ret with
      | succ =>
          dsimp only
          rw [wlp_pure]
          exact hKeeps.setError _
      | fail =>
          dsimp only
          rw [wlp_pure]
          exact hKeeps.setError _

------------------------------------------------------------
-- Formatting
------------------------------------------------------------

/- Are all buffers flushed when a format begins? -/
def FormatFlushes (d : Dev) : Prop :=
  ∃ es t, bufFlushAll { d with refCount := d.refCount + 1 } =
    some (.succ, es, t)

/- A format with force is refused when its flush fails. -/
theorem formatDevice_forced
    {d t : Dev}
    {r : FormatEnd}
    {es : List Event}
    (hRun : formatDevice true d = some (r, es, t)) :
    ∃ ret fs u, bufFlushAll d = some (ret, fs, u) ∧
      (r = .refused ↔ ret = .fail) := by
  unfold formatDevice at hRun
  rcases run_bind_eq_some.mp hRun with
    ⟨r₁, _, u₁, _, hErase, hEnd, _⟩
  unfold formatErase at hErase
  rcases run_bind_eq_some.mp hErase with
    ⟨r₀, fs, u₀, _, hFlush, hTail, _⟩
  refine ⟨r₀, fs, u₀, hFlush, ?_⟩
  have hFirst : r₁ = .fail ↔ r₀ = .fail := by
    cases r₀ with
    | fail =>
        refine iff_of_true
          (Returns.of_run (P := fun r => r = .fail) ?_ hTail) rfl
        apply Returns.bind
        intro s
        exact Returns.pure rfl
    | succ =>
        have hSucc : r₁ = .succ := by
          refine Returns.of_run (P := fun r => r = .succ) ?_ hTail
          apply Returns.bind
          intro s
          simp only [Bool.not_true, Bool.and_false,
            Bool.or_false, Bool.false_eq_true, if_false,
            reduceCtorEq, decide_false]
          apply Returns.bind
          intro _
          apply Returns.bind
          intro _
          apply Returns.bind
          intro _
          exact Returns.pure rfl
        rw [hSucc]
  have hSecond : r = .refused ↔ r₁ = .fail := by
    cases r₁ with
    | fail =>
        refine iff_of_true
          (Returns.of_run (P := fun r => r = .refused) ?_ hEnd)
          rfl
        exact Returns.pure rfl
    | succ =>
        refine iff_of_false
          (Returns.of_run (P := fun r => r ≠ .refused) ?_ hEnd)
          fun h => nomatch h
        apply Returns.bind
        intro _
        apply Returns.bind
        intro ret
        cases ret with
        | fail => exact Returns.pure fun h => nomatch h
        | succ => exact Returns.pure fun h => nomatch h
  exact hSecond.trans hFirst

/- What a format does to the balance. -/
structure Formats
    (s : Fds)
    (d : Dev)
    (force : Bool)
    (t : Fds)
    (e : Dev) : Prop where
  keeps : force = false ∨ ¬ FormatFlushes d → s.Keeps d t e
  puts : force = true → FormatFlushes d →
    t.Whole ∧ t.refs = 0 ∧ e.refCount = d.refCount

omit [Platform] in
theorem wlp_putAll
    {s : Fds}
    {d : Dev} :
    wlp ok s.putAll (fun t e => t = s.afterPutAll ∧ e = d) d := by
  unfold Fds.putAll
  split
  · rw [wlp_diverge]
    trivial
  · rw [wlp_pure]
    exact ⟨rfl, rfl⟩

/- The end of a format that is not refused. -/
theorem wlp_formatEnd
    {s : Fds}
    {d u : Dev}
    (force : Bool)
    (n : Int)
    (hWhole : s.Whole)
    (hFlushes : force = true → FormatFlushes d)
    (hRef : u.refCount = d.refCount + 1) :
    wlp ok (do
        let s ← if force then s.putAll else pure s
        putDevice
        pure (n, s))
      (fun q e => Formats s d force q.2 e) u := by
  cases force with
  | false =>
      rw [if_neg (by decide), wlp_bind, wlp_pure, wlp_bind]
      refine wlp_mono wlp_putDevice ?_
      intro _ e he
      rw [wlp_pure]
      constructor
      · intro _
        apply hWhole.keeps
        rw [he, hRef]
        exact Int.add_sub_cancel _ _
      · exact fun h => nomatch h
  | true =>
      rw [if_pos rfl, wlp_bind]
      refine wlp_mono wlp_putAll ?_
      rintro _ _ ⟨rfl, rfl⟩
      rw [wlp_bind]
      refine wlp_mono wlp_putDevice ?_
      intro _ e he
      rw [wlp_pure]
      constructor
      · intro h
        rcases h with h | h
        · cases h
        · exact absurd (hFlushes rfl) h
      · intro _ _
        refine ⟨hWhole.afterPutAll, hWhole.refs_afterPutAll, ?_⟩
        rw [he, hRef]
        exact Int.add_sub_cancel _ _

theorem uffsFormat_formats
    {s t : Fds}
    {d e : Dev}
    {force : Bool}
    {n : Int}
    {es : List Event}
    (hWhole : s.Whole)
    (hRun : uffsFormat s force d = some ((n, t), es, e)) :
    Formats s d force t e := by
  unfold uffsFormat at hRun
  rcases run_bind_eq_some.mp hRun with
    ⟨_, _, d', _, hModify, hFormat, _⟩
  cases hModify
  rcases run_bind_eq_some.mp hFormat with
    ⟨r, fs, u, gs, hDevice, hEnd, _⟩
  have hKept : RefKept _ u := sessionBase_refKept.formatDevice
    force _ r fs u hDevice fun _ _ => trivial
  have hRef : u.refCount = d.refCount + 1 := hKept
  have hRefused : force = true → (r = .refused ↔ ¬ FormatFlushes d) := by
    rintro rfl
    rcases formatDevice_forced hDevice with
      ⟨ret, fs', u', hFlush, hIff⟩
    rw [hIff]
    unfold FormatFlushes
    rw [hFlush]
    cases ret with
    | fail =>
        refine iff_of_true rfl ?_
        rintro ⟨_, _, hEq⟩
        cases hEq
    | succ =>
        refine iff_of_false (fun h => nomatch h) ?_
        exact fun h => h ⟨fs', u', rfl⟩
  have hFlushes : r ≠ .refused → force = true → FormatFlushes d := by
    intro hNot hForce
    by_contra hFail
    exact hNot ((hRefused hForce).mpr hFail)
  cases r with
  | refused =>
      have hOut : wlp (fun _ => True) (do
            putDevice
            pure ((-1 : Int), s))
          (fun q e => Formats s d force q.2 e) u := by
        rw [wlp_bind]
        refine wlp_mono wlp_putDevice ?_
        intro _ e he
        rw [wlp_pure]
        constructor
        · intro _
          apply hWhole.keeps
          rw [he, hRef]
          exact Int.add_sub_cancel _ _
        · intro hForce hFlush
          exact absurd hFlush ((hRefused hForce).mp rfl)
      exact hOut (n, t) gs e hEnd fun _ _ => trivial
  | noTree =>
      exact wlp_formatEnd force (-1) hWhole
        (hFlushes fun h => nomatch h) hRef (n, t) gs e hEnd
        fun _ _ => trivial
  | formatted =>
      exact wlp_formatEnd force 0 hWhole
        (hFlushes fun h => nomatch h) hRef (n, t) gs e hEnd
        fun _ _ => trivial

------------------------------------------------------------
-- Runs
------------------------------------------------------------

/- The handles and the device. -/
structure FdState where
  fds : Fds
  dev : Dev

/- A run of calls, with the state before each of them. -/
inductive FdRun (s : FdState) :
    List (FdState × FdCall) → FdState → Prop
| nil : FdRun s [] s
| snoc
    {es : List (FdState × FdCall)}
    {t u : FdState}
    {c : FdCall}
    {reply : FdReply}
    {fs : List Event}
    (hRun : FdRun s es t)
    (hExec : c.exec t.fds t.dev =
      some ((reply, u.fds), fs, u.dev)) :
    FdRun s (es ++ [(t, c)]) u

namespace FdState

/- A device that is mounted, and no handle in use. -/
structure Fresh (s : FdState) : Prop where
  fds : s.fds = Fds.init
  refCount : s.dev.refCount = 0

/-
  The count is the number of the attached objects, so it is
  not negative, and the device is not busy without them.
-/
structure Balanced (s : FdState) : Prop where
  count : s.dev.refCount = s.fds.objs.count Obj.dev
  nonneg : 0 ≤ s.dev.refCount
  notBusy : s.fds.objs.count Obj.dev = 0 →
    ∀ busy es d, unMountBusy s.dev = some (busy, es, d) →
      busy = false

/-
  A format with force that is not refused is made without
  attached objects, and a directory is closed while its
  object is in use.  An old descriptor that happens to be
  one of the object of a directory can be closed as well, and
  the object is then put back before the directory is closed.
-/
def Meets (s : FdState) : FdCall → Prop
| .format true =>
    FormatFlushes s.dev → s.fds.objs.count Obj.dev = 0
| .closedir k =>
    ∀ i, s.fds.dirs.allocated k = true →
      s.fds.dirs.mem k = some i → s.fds.objs.allocated i = true
| _ => True

/-
  The count is right, also when the root directory is opened
  next.
-/
structure Steady (s : FdState) : Prop where
  balanced : s.Balanced
  next : ∀ (t : FdState) reply es,
    (FdCall.open [slash] { dir := true }).exec s.fds s.dev =
      some ((reply, t.fds), es, t.dev) → t.Balanced

/- What the references hold more than they should. -/
def excess (s : FdState) : Int :=
  s.dev.refCount - s.fds.refs

theorem balanced_iff {s : FdState} :
    s.Balanced ↔ s.excess = 0 := by
  unfold excess Fds.refs
  constructor
  · intro h
    rw [h.count]
    exact Int.sub_self _
  · intro h
    have hCount : s.dev.refCount = s.fds.objs.count Obj.dev :=
      Int.sub_eq_zero.mp h
    refine ⟨hCount, ?_, ?_⟩
    · rw [hCount]
      exact Int.natCast_nonneg _
    · intro hNone busy es d hRun
      have hBusy : wlp (fun _ => True) unMountBusy
          (fun busy _ => busy = false) s.dev := by
        unfold unMountBusy
        rw [wlp_bind]
        refine wlp_mono
          (sessionBase_refKept.base.recover s.dev) ?_
        intro _ t ht
        rw [wlp_bind, wlp_get, wlp_pure]
        have hZero : t.refCount = 0 := by
          rw [ht, hCount, hNone]
          rfl
        rw [hZero]
        rfl
      exact hBusy busy es d hRun fun _ _ => trivial

end FdState

/-
  What one call does to the balance; a directory is closed
  while its object is in use.
-/
theorem FdCall.exec_balance
    {s t : FdState}
    {c : FdCall}
    {reply : FdReply}
    {es : List Event}
    (hWhole : s.fds.Whole)
    (hHas : ∀ k i, c = .closedir k →
      s.fds.dirs.allocated k = true →
      s.fds.dirs.mem k = some i → s.fds.objs.allocated i = true)
    (hExec : c.exec s.fds s.dev =
      some ((reply, t.fds), es, t.dev)) :
    t.fds.Whole ∧
      ((c ≠ .format true ∨ ¬ FormatFlushes s.dev) →
        t.excess = s.excess) ∧
      (c = .format true → FormatFlushes s.dev →
        t.fds.refs = 0 ∧ t.dev.refCount = s.dev.refCount) := by
  rcases t with ⟨t, e⟩
  have hKeeps : ∀ {α : Type} {m : M (α × Fds)} {f : α → FdReply},
      wlp (fun _ => True) m
        (fun q e => s.fds.Keeps s.dev q.2 e) s.dev →
      (do
        let q ← m
        pure (f q.1, q.2)) s.dev = some ((reply, t), es, e) →
      s.fds.Keeps s.dev t e := by
    intro α m f hm hRun
    rcases run_bind_eq_some.mp hRun with
      ⟨q, fs, u, _, hLeft, hRight, _⟩
    cases hRight
    exact hm q fs e hLeft fun _ _ => trivial
  have hPlain : c ≠ .format true → s.fds.Keeps s.dev t e →
      t.Whole ∧
      ((c ≠ .format true ∨ ¬ FormatFlushes s.dev) →
        FdState.excess ⟨t, e⟩ = s.excess) ∧
      (c = .format true → FormatFlushes s.dev →
        t.refs = 0 ∧ e.refCount = s.dev.refCount) :=
    fun hNot h =>
      ⟨h.whole, fun _ => h.refs, fun hEq => absurd hEq hNot⟩
  cases c with
  | «open» name oflag =>
      exact hPlain (fun h => nomatch h)
        (hKeeps (wlp_uffsOpen name oflag hWhole) hExec)
  | close fd =>
      exact hPlain (fun h => nomatch h)
        (hKeeps (wlp_uffsClose fd hWhole) hExec)
  | opendir path =>
      exact hPlain (fun h => nomatch h)
        (hKeeps (wlp_uffsOpendir path hWhole) hExec)
  | closedir k =>
      exact hPlain (fun h => nomatch h)
        (hKeeps (wlp_uffsClosedir k hWhole fun i =>
          hHas k i rfl) hExec)
  | stat name =>
      exact hPlain (fun h => nomatch h)
        (hKeeps (f := fun r : Int × Option Stat => .stat r.1 r.2)
          (wlp_uffsStat name hWhole) hExec)
  | mkdir name =>
      exact hPlain (fun h => nomatch h)
        (hKeeps (wlp_uffsMkdir name hWhole) hExec)
  | rename oldName newName =>
      exact hPlain (fun h => nomatch h)
        (hKeeps (wlp_uffsRename oldName newName hWhole) hExec)
  | remove name =>
      exact hPlain (fun h => nomatch h)
        (hKeeps (wlp_removeWhen _ _ name hWhole) hExec)
  | rmdir name =>
      exact hPlain (fun h => nomatch h)
        (hKeeps (wlp_removeWhen _ _ name hWhole) hExec)
  | format force =>
      unfold FdCall.exec at hExec
      rcases run_bind_eq_some.mp hExec with
        ⟨q, fs, u, _, hLeft, hRight, _⟩
      cases hRight
      have hFormats := uffsFormat_formats hWhole hLeft
      by_cases hFlush : FormatFlushes s.dev
      · cases force with
        | false =>
            have hKept := hFormats.keeps (.inl rfl)
            exact hPlain (fun h => nomatch h) hKept
        | true =>
            have hPuts := hFormats.puts rfl hFlush
            refine ⟨hPuts.1, ?_, fun _ _ => hPuts.2⟩
            intro h
            rcases h with h | h
            · exact absurd rfl h
            · exact absurd hFlush h
      · have hKept := hFormats.keeps (.inr hFlush)
        exact ⟨hKept.whole, fun _ => hKept.refs,
          fun _ h => absurd h hFlush⟩

/-
  From a balanced state a call that meets the condition leads
  to a balanced state.
-/
theorem FdCall.balanced_of_meets
    {s t : FdState}
    {c : FdCall}
    {reply : FdReply}
    {es : List Event}
    (hWhole : s.fds.Whole)
    (hBalanced : s.Balanced)
    (hMeets : s.Meets c)
    (hExec : c.exec s.fds s.dev =
      some ((reply, t.fds), es, t.dev)) :
    t.fds.Whole ∧ t.Balanced := by
  have hStep := FdCall.exec_balance hWhole (by
    rintro k i rfl
    exact hMeets i) hExec
  refine ⟨hStep.1, FdState.balanced_iff.mpr ?_⟩
  by_cases hForced : c = .format true ∧ FormatFlushes s.dev
  · rcases hForced with ⟨rfl, hFlush⟩
    have hAfter := hStep.2.2 rfl hFlush
    unfold FdState.excess
    rw [hAfter.1, hAfter.2, hBalanced.count, hMeets hFlush]
    rfl
  · rw [hStep.2.1 (not_and_or.mp hForced)]
    exact FdState.balanced_iff.mp hBalanced

/- A format that finds attached objects forgets them. -/
theorem FdCall.not_balanced_format
    {s t : FdState}
    {reply : FdReply}
    {es : List Event}
    (hWhole : s.fds.Whole)
    (hBalanced : s.Balanced)
    (hFlush : FormatFlushes s.dev)
    (hCount : s.fds.objs.count Obj.dev ≠ 0)
    (hExec : (FdCall.format true).exec s.fds s.dev =
      some ((reply, t.fds), es, t.dev)) : ¬ t.Balanced := by
  have hStep := FdCall.exec_balance hWhole
    (fun _ _ h => FdCall.noConfusion h) hExec
  have hAfter := hStep.2.2 rfl hFlush
  intro h
  have hZero := FdState.balanced_iff.mp h
  unfold FdState.excess at hZero
  rw [hAfter.1, hAfter.2, hBalanced.count, Int.sub_zero]
    at hZero
  exact hCount (Int.natCast_eq_zero.mp hZero)

/- A directory is closed whose object has been put back. -/
theorem FdCall.doubled_closedir
    {s t : FdState}
    {k i : Nat}
    {reply : FdReply}
    {es : List Event}
    (hWhole : s.fds.Whole)
    (hk : s.fds.dirs.allocated k = true)
    (hMem : s.fds.dirs.mem k = some i)
    (hFree : ¬ s.fds.objs.allocated i = true)
    (hExec : (FdCall.closedir k).exec s.fds s.dev =
      some ((reply, t.fds), es, t.dev)) : t.fds.Doubled := by
  rcases t with ⟨t, e⟩
  unfold FdCall.exec at hExec
  rcases run_bind_eq_some.mp hExec with
    ⟨q, fs, u, _, hClose, hEnd, _⟩
  cases hEnd
  have hDoubled : wlp (fun _ => True) (uffsClosedir s.fds k)
      (fun q _ => q.2.Doubled) s.dev :=
    wlp_uffsClosedir_doubled hWhole hk hMem hFree
  exact hDoubled q fs e hClose fun _ _ => trivial

/- The root directory can be opened while objects are free. -/
theorem run_uffsOpen_root
    {s t : Fds}
    {i : Nat}
    (hGet : s.getObject = some (i, t))
    (d : Dev) :
    ∃ obj n, uffsOpen s [slash] { dir := true } d =
      some ((n, t.setObject i obj), [],
        { d with refCount := d.refCount + 1 }) := by
  unfold uffsOpen
  rw [hGet]
  exact ⟨_, _, rfl⟩

namespace FdState

variable {s : FdState}

theorem steady
    (hWhole : s.fds.Whole)
    (hBalanced : s.Balanced) : s.Steady where
  balanced := hBalanced
  next := by
    intro t reply es hExec
    have hMeets : s.Meets (.open [slash] { dir := true }) :=
      trivial
    exact (FdCall.balanced_of_meets hWhole hBalanced hMeets
      hExec).2

/-
  The object that is put back twice: who opens it next has a
  reference, and the object counts as free.
-/
theorem not_steady_of_doubled
    (h : s.fds.Doubled) : ¬ s.Steady := by
  intro hSteady
  have hDoubled := h
  rcases h with ⟨i, rest, hList, hi⟩
  have hGet : ∃ t, s.fds.getObject = some (i, t) := by
    unfold Fds.getObject Pool.get
    rw [hList]
    exact ⟨_, rfl⟩
  rcases hGet with ⟨t, hGet⟩
  rcases run_uffsOpen_root hGet s.dev with ⟨obj, n, hRun⟩
  have hExec : (FdCall.open [slash] { dir := true }).exec
      s.fds s.dev =
        some ((.int n, t.setObject i obj), [],
          { s.dev with refCount := s.dev.refCount + 1 }) := by
    unfold FdCall.exec
    dsimp only
    rw [run_bind, hRun]
    rfl
  have hNext := hSteady.next ⟨t.setObject i obj, _⟩ _ _ hExec
  have hBefore := balanced_iff.mp hSteady.balanced
  have hAfter := balanced_iff.mp hNext
  unfold excess at hBefore hAfter
  rw [hDoubled.refs_setObject obj hGet] at hAfter
  dsimp only at hAfter
  omega

end FdState

/-
  From a balanced state, a call that does not meet the
  condition leads to one that is not steady.
-/
theorem FdCall.not_steady
    {s t : FdState}
    {c : FdCall}
    {reply : FdReply}
    {es : List Event}
    (hWhole : s.fds.Whole)
    (hBalanced : s.Balanced)
    (hNot : ¬ s.Meets c)
    (hExec : c.exec s.fds s.dev =
      some ((reply, t.fds), es, t.dev)) : ¬ t.Steady := by
  unfold FdState.Meets at hNot
  split at hNot
  · rw [Classical.not_imp] at hNot
    intro hSteady
    exact FdCall.not_balanced_format hWhole hBalanced hNot.1
      hNot.2 hExec hSteady.balanced
  · rename_i k
    simp only [not_forall] at hNot
    rcases hNot with ⟨i, hk, hMem, hFree⟩
    exact FdState.not_steady_of_doubled
      (FdCall.doubled_closedir hWhole hk hMem hFree hExec)
  · exact absurd trivial hNot

theorem FdState.Fresh.balanced
    {s : FdState}
    (h : s.Fresh) : s.Balanced := by
  rw [FdState.balanced_iff]
  unfold FdState.excess
  rw [h.fds, h.refCount, Fds.refs_init]
  rfl

/-
  The handles are whole and the count is right in every run
  whose calls meet the condition.
-/
theorem FdRun.balanced
    {s t : FdState}
    {es : List (FdState × FdCall)}
    (hFresh : s.Fresh)
    (hRun : FdRun s es t)
    (hMeets : ∀ e ∈ es, e.1.Meets e.2) :
    (∀ e ∈ es, e.1.fds.Whole ∧ e.1.Balanced) ∧
      t.fds.Whole ∧ t.Balanced := by
  induction hRun with
  | nil =>
      refine ⟨fun e he => absurd he List.not_mem_nil, ?_,
        hFresh.balanced⟩
      rw [hFresh.fds]
      exact Fds.whole_init
  | snoc hRun hExec ih =>
      rw [List.forall_mem_append, List.forall_mem_singleton]
        at hMeets ⊢
      have hPrefix := ih hMeets.1
      refine ⟨⟨hPrefix.1, hPrefix.2⟩, ?_⟩
      exact FdCall.balanced_of_meets hPrefix.2.1 hPrefix.2.2
        hMeets.2 hExec

/-
  The reference count is right in all states of a run, also
  when the root directory is opened next, exactly when all
  calls of the run meet the condition.
-/
theorem fdRun_balanced
    {s t : FdState}
    {es : List (FdState × FdCall)}
    (hFresh : s.Fresh)
    (hRun : FdRun s es t) :
    (∀ e ∈ es, e.1.Meets e.2) ↔
      (∀ e ∈ es, e.1.Steady) ∧ t.Steady := by
  constructor
  · intro hMeets
    have hAll := hRun.balanced hFresh hMeets
    refine ⟨fun e he => ?_, FdState.steady hAll.2.1 hAll.2.2⟩
    exact FdState.steady (hAll.1 e he).1 (hAll.1 e he).2
  · intro hSteady
    induction hRun with
    | nil => exact fun e he => absurd he List.not_mem_nil
    | snoc hRun hExec ih =>
        rw [List.forall_mem_append, List.forall_mem_singleton]
          at hSteady ⊢
        have hPrefix := ih hSteady.1
        have hLast := (hRun.balanced hFresh hPrefix).2
        refine ⟨hPrefix, ?_⟩
        by_contra hNot
        exact FdCall.not_steady hLast.1 hLast.2 hNot hExec
          hSteady.2

/- The property for every run. -/
def FdRunsBalanced : Prop :=
  ∀ (s t : FdState) (es : List (FdState × FdCall)),
    s.Fresh → FdRun s es t → t.Balanced

end Refs

theorem fdRun_balanced_open :
    letI := emulator alwaysOk
    ∃ s es t, s.Fresh ∧ FdRun s es t ∧ es.length = 2 ∧
      t.dev.refCount = 1 ∧
      ((∀ e ∈ es, e.1.Meets e.2) ↔
        (∀ e ∈ es, e.1.Steady) ∧ t.Steady) := by
  let _ := emulator alwaysOk
  have hCheck : mount.check
      (fun _ _ d₀ =>
        decide (d₀.refCount = 0) &&
          ((FdCall.mkdir pathB).exec Fds.init).check
            (fun q _ d₁ =>
              ((FdCall.open pathA { create := true }).exec
                q.2).check
                (fun _ _ d₂ => decide (d₂.refCount = 1)) d₁)
            d₀)
      (Dev.init Flash.blank 0) = true := by
    decide +kernel
  rcases wp_of_check hCheck with ⟨_, _, d₀, _, hMount⟩
  rw [Bool.and_eq_true, decide_eq_true_iff] at hMount
  rcases wp_of_check hMount.2 with ⟨q, _, d₁, hMkdir, hTest⟩
  rcases wp_of_check hTest with ⟨r, _, d₂, hOpen, hEnd⟩
  have hFirst : FdRun ⟨Fds.init, d₀⟩ _ ⟨q.2, d₁⟩ :=
    .snoc (c := .mkdir _) .nil hMkdir
  have hRun : FdRun ⟨Fds.init, d₀⟩ _ ⟨r.2, d₂⟩ :=
    .snoc (c := .open _ _) hFirst hOpen
  have hFresh : FdState.Fresh ⟨Fds.init, d₀⟩ :=
    ⟨rfl, hMount.1⟩
  exact ⟨_, _, _, hFresh, hRun, rfl, of_decide_eq_true hEnd,
    fdRun_balanced hFresh hRun⟩

/-
  The descriptor 3 is opened and closed, its object is used
  for a directory, and 3 is closed again: when the directory
  is closed too, the object that is opened next is free.
-/
example :
    letI := emulator alwaysOk
    mount.check
      (fun _ _ d₀ =>
        ((FdCall.open [slash] { dir := true }).exec
          Fds.init).check
          (fun q _ d₁ =>
            ((FdCall.close 3).exec q.2).check
              (fun q _ d₂ =>
                ((FdCall.opendir [slash]).exec q.2).check
                  (fun q _ d₃ =>
                    ((FdCall.close 3).exec q.2).check
                      (fun q _ d₄ =>
                        ((FdCall.closedir 0).exec q.2).check
                          (fun q _ d₅ =>
                            ((FdCall.open [slash]
                              { dir := true }).exec q.2).check
                              (fun q _ d₆ =>
                                decide (d₆.refCount = 1 ∧
                                  q.2.objs.count Obj.dev = 0))
                              d₅) d₄) d₃) d₂) d₁) d₀)
      (Dev.init Flash.blank 0) = true := by
  decide +kernel

/-
  A file is created and left open, and the device is
  formatted with force: a reference without an object.
-/
theorem fdRunsBalanced_false :
    ¬ @FdRunsBalanced (emulator alwaysOk) := by
  let _ := emulator alwaysOk
  intro hAll
  have hCheck : mount.check
      (fun ret _ d₀ =>
        decide (ret = .succ ∧ d₀.refCount = 0) &&
          ((FdCall.open pathA { create := true }).exec
            Fds.init).check
            (fun q _ d₁ =>
              ((FdCall.format true).exec q.2).check
                (fun r _ d₂ =>
                  decide (d₂.refCount = 1 ∧
                    r.2.objs.count Obj.dev = 0)) d₁) d₀)
      (Dev.init Flash.blank 0) = true := by
    decide +kernel
  rcases wp_of_check hCheck with ⟨_, _, d₀, _, hMount⟩
  rw [Bool.and_eq_true, decide_eq_true_iff] at hMount
  rcases wp_of_check hMount.2 with ⟨q, _, d₁, hOpen, hTest⟩
  rcases wp_of_check hTest with ⟨r, _, d₂, hFormat, hEnd⟩
  rw [decide_eq_true_iff] at hEnd
  have hFirst : FdRun ⟨Fds.init, d₀⟩ _ ⟨q.2, d₁⟩ :=
    .snoc (c := .open _ _) .nil hOpen
  have hRun : FdRun ⟨Fds.init, d₀⟩ _ ⟨r.2, d₂⟩ :=
    .snoc (c := .format true) hFirst hFormat
  have hBalanced := hAll _ _ _ ⟨rfl, hMount.1.2⟩ hRun
  have hCount := hBalanced.count
  dsimp only at hCount
  rw [hEnd.1, hEnd.2] at hCount
  cases hCount

end Uffs
