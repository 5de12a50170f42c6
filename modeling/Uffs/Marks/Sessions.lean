import Uffs.Marks.Relations
import Uffs.Model.Emulator

/-
  No recover meets a truncate mark below the end of its file
  in a session in which every truncation writes its last
  page.

  Main declarations:
    * `unmarks_truncateInternal`
    * `session_noStaleMark`
    * `sessionsMarked_false`
-/

namespace Uffs

open Prog

section Sessions

variable [Platform] {ok : Event → Prop}

------------------------------------------------------------
-- The Last Block of a Truncation
------------------------------------------------------------

/- What follows a note that is not allowed does not matter. -/
omit [Platform] in
theorem wlp_noteWhen_never
    {α : Type}
    {c : Dev → Bool}
    {n : Note}
    {m : M α}
    {Q : α → Dev → Prop}
    {s : Dev}
    (hNote : ¬ ok (.note n))
    (hm : c s = false → wlp ok m Q s) :
    wlp ok (noteWhen c n >>= fun _ => m) Q s := by
  unfold noteWhen note
  rw [wlp_bind, wlp_bind, wlp_get]
  split
  · rw [wlp_emit]
    intro hOk
    exact absurd hOk hNote
  · rename_i hc
    rw [wlp_pure]
    exact hm (Bool.not_eq_true _ ▸ hc)

/- The last page that is kept ends at or after `remain`. -/
theorem le_pageEnd_last
    (type : BlockType)
    (start remain : Nat) :
    remain ≤ pageEnd type start
      ((remain - start) / pgDataSize +
        if type = .file then 1 else 0) := by
  have hSize : 0 < pgDataSize := Platform.pgDataSize_pos
  have hMod := Nat.mod_lt (remain - start) hSize
  have hDiv := Nat.div_add_mod (remain - start) pgDataSize
  have hSucc : ((remain - start) / pgDataSize + 1) *
      pgDataSize = pgDataSize * ((remain - start) / pgDataSize) +
        pgDataSize := by
    rw [Nat.add_mul, Nat.one_mul, Nat.mul_comm]
  unfold pageEnd
  split
  · omega
  · rw [Nat.add_zero]
    omega

/- The only mark is that of the last page that is kept. -/
theorem harmless_of_last
    {s t u : Dev}
    {i start remain : Nat}
    {type : BlockType}
    (hs : s.Unmarked)
    (hSet : t.buf.entry = upd s.buf.entry i
      { s.buf.entry i with
        dataLen := truncDataLen remain
        truncTail := true })
    (hFewer : FewerMarks t u)
    (hType : (u.buf.entry i).type = type)
    (hPage : (u.buf.entry i).pageId =
      (remain - start) / pgDataSize +
        if type = .file then 1 else 0) :
    Dev.Harmless
      { u with
        watch := { u.watch with
          truncating := some (start, remain) } } := by
  refine ⟨start, remain, rfl, ?_⟩
  intro j hj
  have hMark := hFewer.mark j hj
  rw [hSet] at hMark
  by_cases hji : j = i
  · subst hji
    dsimp only
    rw [hType, hPage]
    exact le_pageEnd_last type start remain
  · rw [upd_other _ _ hji, hs j] at hMark
    cases hMark

theorem unmarks_expireBlock
    (b : Nat)
    (a : Obj) :
    Within ok Unmarks (do
      match ← blockInfoGet b with
      | none => pure ()
      | some bc =>
          blockInfoExpireAll bc
          blockInfoPut bc
      pure a) := by
  have hBlocks : BlockLayer ok Unmarks :=
    tameLayer_unmarks.blockLayer
  apply Within.bind (hBlocks.infoGet b)
  intro o
  cases o with
  | none => exact Within.pure _
  | some bc =>
      apply Within.bind (hBlocks.infoExpireAll bc)
      intro _
      apply Within.bind (hBlocks.infoPut bc)
      intro _
      exact Within.pure _

/- The mark is gone when the last page was written. -/
theorem unmarks_truncateInternal
    (hWritten : ¬ ok (.note .tailNotWritten))
    (obj : Obj)
    (key : GroupKey)
    (node maxPageId blockStart remain : Nat) :
    Within ok Unmarks
      (truncateInternal obj key node maxPageId blockStart
        remain) := by
  have hBase : PageBase ok Unmarks := tameLayer_unmarks.pageBase
  have hFewer : BufferLayer ok FewerMarks :=
    bufferLayer_fewerMarks
  have hTail : ∀ i n pageId (m : M Obj),
      Within ok Unmarks m →
        Within ok Unmarks (do
          setBuf i fun b =>
            { b with
              dataLen := truncDataLen remain
              truncTail := true }
          let _ ← bufPut i
          markEmptyFrom key.parent key.serial n pageId
          noteWhen
            (fun s => !s.buf.linksPage i key.type
              ((remain - blockStart) / pgDataSize +
                if key.type = .file then 1 else 0))
            .tailNotWritten
          Uffs.watchTruncation (some (blockStart, remain))
          let _ ← bufFlushGroupEx key.parent key.serial true
          Uffs.watchTruncation none
          noteWhen (fun s => s.buf.linked i) .tailNotWritten
          m) := by
    intro i n pageId m hm s
    by_cases hs : s.Unmarked
    swap
    · intro _ _ t _ _ hUnmarked
      exact absurd hUnmarked hs
    unfold setBuf watchTruncation
    rw [wlp_bind, wlp_modify]
    generalize hEq : ({ s with
      buf := { s.buf with
        entry := upd s.buf.entry i
          { s.buf.entry i with
            dataLen := truncDataLen remain
            truncTail := true } } } : Dev) = t
    have hEntry : t.buf.entry = upd s.buf.entry i
        { s.buf.entry i with
          dataLen := truncDataLen remain
          truncTail := true } := by
      rw [← hEq]
    have hStaleT : t.watch.staleMark = s.watch.staleMark := by
      rw [← hEq]
    refine wlp_seq (hFewer.bufPut i t) ?_
    intro _ u hu
    refine wlp_seq (hFewer.markEmptyFrom _ _ n pageId u) ?_
    intro _ v hv
    have hKept : FewerMarks t v := trans_of FewerMarks hu hv
    refine wlp_noteWhen_never hWritten ?_
    intro hLinks
    rw [Bool.not_eq_false'] at hLinks
    unfold BufPool.linksPage at hLinks
    simp only [Bool.and_eq_true, decide_eq_true_eq] at hLinks
    rcases hLinks with ⟨⟨hLinked, hType⟩, hPage⟩
    rw [wlp_bind, wlp_modify]
    have hHarmless := harmless_of_last hs hEntry hKept hType hPage
    refine wlp_seq
      (wlp_flushGroup_harmless key.parent key.serial hHarmless)
      ?_
    intro _ w hw
    rw [wlp_bind, wlp_modify]
    refine wlp_noteWhen_never hWritten ?_
    intro hGone
    -- only the last page had a mark, and it was taken away
    have hUnmarked : Dev.Unmarked
        { w with watch := { w.watch with truncating := none } } := by
      intro j
      by_contra hj
      rw [Bool.not_eq_false] at hj
      have hStays := hw.mark j hj
      have hMark := hKept.mark j hStays.1
      rw [hEntry] at hMark
      by_cases hji : j = i
      · subst hji
        have hStill := hStays.2 hLinked
        dsimp only at hGone
        rw [hGone] at hStill
        cases hStill
      · rw [upd_other _ _ hji, hs j] at hMark
        cases hMark
    refine wlp_mono (hm _) ?_
    intro _ x hx _
    refine ⟨(hx hUnmarked).1, ?_⟩
    rw [(hx hUnmarked).2]
    exact hw.staleMark.trans (hKept.staleMark.trans hStaleT)
  unfold truncateInternal
  apply Within.bind (Within.gets _)
  intro n
  dsimp only
  apply Within.ite (Within.pure _)
  apply Within.bind (hBase.bufFlushGroupEx _ _ _)
  intro _
  apply Within.bind (hBase.bufGetEx _ _ _ _)
  intro o
  cases o with
  | none => exact Within.pure _
  | some i =>
      apply Within.bind (hBase.bufWrite _ _ _)
      intro _
      unfold bufFindGroupSlot
      apply Within.bind (Within.gets _)
      intro slot
      cases slot with
      | none => exact hTail _ _ _ _ (unmarks_expireBlock _ _)
      | some slot =>
          unfold bufLockGroup bufUnLockGroup
          apply Within.bind (hBase.setGroup slot _)
          intro _
          apply hTail
          apply Within.bind (hBase.setGroup slot _)
          intro _
          exact unmarks_expireBlock _ _

------------------------------------------------------------
-- Sessions
------------------------------------------------------------

theorem sessionLayer_unmarks
    (hWritten : ¬ ok (.note .tailNotWritten)) :
    SessionLayer ok Unmarks where
  toSessionBase := tameLayer_unmarks.sessionBase
    (unmarks_truncateInternal hWritten)
  refCount f := by
    apply Within.modify
    intro s hs
    exact ⟨hs, rfl⟩

/- No buffer has a mark, and no stale one was met. -/
structure Dev.MarksFresh (s : Dev) : Prop where
  unmarked : s.Unmarked
  notStale : s.watch.staleMark = false

omit [Platform] in
theorem Unmarks.fresh
    {s t : Dev}
    (h : Unmarks s t)
    (hs : s.MarksFresh) : t.MarksFresh where
  unmarked := (h hs.unmarked).1
  notStale := by
    rw [(h hs.unmarked).2]
    exact hs.notStale

theorem marksFresh_exec
    (hWritten : ¬ ok (.note .tailNotWritten))
    (p : ObjPool)
    (op : Op)
    (s : Dev)
    (hs : s.MarksFresh) :
    wlp ok (op.exec p) (fun _ t => t.MarksFresh) s := by
  have hLayer := sessionLayer_unmarks hWritten
  by_cases hMount : op = .mount
  · subst hMount
    unfold Op.exec mount
    rw [wlp_bind, wlp_bind, wlp_modify]
    refine wlp_mono (hLayer.buildTree _) ?_
    intro r t ht
    have hInit : Dev.MarksFresh
        { Dev.init s.flash s.clock with watch := s.watch } :=
      ⟨fun _ => rfl, hs.notStale⟩
    have hFresh := ht.fresh hInit
    cases r with
    | fail =>
        dsimp only
        rw [wlp_diverge]
        trivial
    | succ =>
        dsimp only
        rw [wlp_pure]
        exact hFresh
  · refine wlp_mono (hLayer.exec p op hMount s) ?_
    intro _ t ht
    exact ht.fresh hs

/-
  In every session in which each truncation puts its last
  page into a dirty group and writes it in the forced flush,
  no recover meets a truncate mark below a page that holds
  data of the file, whatever the driver answers.
-/
theorem session_noStaleMark
    (F : Flash)
    (clock : Nat)
    (ops : List Op)
    {replies : List Reply × ObjPool}
    {es : List Event}
    {t : Dev}
    (hRun : session ops (Dev.init F clock) =
      some (replies, es, t))
    (hWritten : .note .tailNotWritten ∉ es) :
    t.watch.staleMark = false := by
  have hExec : ∀ p (op : Op) (s : Dev), s.MarksFresh →
      wlp (fun e => e ≠ .note .tailNotWritten) (op.exec p)
        (fun _ t => t.MarksFresh) s :=
    marksFresh_exec fun h => h rfl
  have hInit : (Dev.init F clock).MarksFresh :=
    ⟨fun _ => rfl, rfl⟩
  have hSession : wlp (fun e => e ≠ .note .tailNotWritten)
      (session ops) (fun _ t => t.MarksFresh)
      (Dev.init F clock) := by
    unfold session runOps
    refine wlp_seq (hExec _ .mount _ hInit) ?_
    intro q t ht
    refine wlp_seq (runOps_induct hExec ops q.2 t ht) ?_
    intro r u hu
    rw [wlp_pure]
    exact hu
  have hEnd := hSession replies es t hRun fun e he hEq =>
    hWritten (hEq ▸ he)
  exact hEnd.notStale

/- The property for every session. -/
def SessionsMarked : Prop :=
  ∀ (F : Flash) (clock : Nat) (ops : List Op) q es t,
    session ops (Dev.init F clock) = some (q, es, t) →
      t.watch.staleMark = false

end Sessions

/-
  Write a data block for "/a", and in a new session truncate
  the file into the block and append to it again.
-/
def truncateA : List Op :=
  createA ++
    [.openObject 0 pathA { rdwr := true },
      .writeObject 0 (List.replicate 480 1), .flushObject 0,
      .closeObject 0, .mount, .getObject,
      .openObject 0 pathA { rdwr := true },
      .truncateObject 0 100, .seekObject 0 0 .end,
      .writeObject 0 (List.replicate 380 2), .flushObject 0]

/- Did every truncation write its last page? -/
def tailsWritten (es : List Event) : Bool :=
  es.all fun e =>
    match e with
    | .note n => n != .tailNotWritten
    | _ => true

theorem session_noStaleMark_truncateA :
    letI := emulator alwaysOk
    ∃ q es t,
      session truncateA (Dev.init Flash.blank 0) =
          some (q, es, t) ∧
        t.watch.staleMark = false := by
  let _ := emulator alwaysOk
  have hCheck : (session truncateA).check
      (fun _ es _ => tailsWritten es)
      (Dev.init Flash.blank 0) = true := by
    decide +kernel
  rcases wp_of_check hCheck with ⟨q, es, t, hRun, hTest⟩
  have hNone : .note .tailNotWritten ∉ es := by
    intro hNote
    have hTestNote := List.all_eq_true.mp hTest _ hNote
    cases hTestNote
  have hEnd := session_noStaleMark Flash.blank 0 truncateA hRun
    hNone
  exact ⟨q, es, t, hRun, hEnd⟩

/- The driver fails at two calls. -/
def failTwice (j k : Nat) (ret : FlashRet) : Nat → Answer :=
  fun n =>
    if n = j ∨ n = k then Answer.of ret else Answer.of .noErr

/-
  When the forced flush of a truncation fails, the mark stays
  on the last page, and the next recover of the block meets
  it although the file has grown again.
-/
theorem sessionsMarked_false :
    ¬ @SessionsMarked (emulator (failTwice 112 113 .ioErr)) := by
  let _ := emulator (failTwice 112 113 .ioErr)
  intro hAll
  have hCheck : (session truncateA).check
      (fun _ _ t => t.watch.staleMark)
      (Dev.init Flash.blank 0) = true := by
    decide +kernel
  rcases wp_of_check hCheck with ⟨q, es, t, hRun, hStale⟩
  have hFresh := hAll _ _ _ _ _ _ hRun
  rw [hFresh] at hStale
  cases hStale

end Uffs
