import Uffs.Files.Plain
import Uffs.Model.Fd

/-
  An object that is attached to the device holds one
  reference of it: what each function on objects does to the
  reference count.

  Main declarations:
    * `RefKept`
    * `Obj.refs`
    * `wlp_openObject_refs`, `wlp_createObject_refs`
    * `wlp_closeObject_refs`
    * `wlp_deleteObject_refs`, `wlp_renameObject_refs`
-/

namespace Uffs

open Prog

/- The reference count of the device stays. -/
def RefKept (s t : Dev) : Prop :=
  t.refCount = s.refCount

instance : IsPreorder Dev RefKept where
  refl _ := rfl
  trans _ _ _ h h' := Eq.trans h' h

/- The references that an object holds. -/
def Obj.refs (obj : Obj) : Int :=
  if obj.dev then 1 else 0

/- Is `obj->dev` set? -/
def Obj.Attached (obj : Obj) : Prop :=
  obj.dev = true

theorem Obj.refs_of_detached
    {obj : Obj}
    (h : obj.dev = false) : obj.refs = 0 := by
  unfold Obj.refs
  rw [h]
  rfl

theorem Obj.refCount_of_detached
    {obj : Obj}
    {n m : Int}
    (hRefs : n = m + obj.refs)
    (hDev : obj.dev = false) : n = m := by
  rw [hRefs, Obj.refs_of_detached hDev, Int.add_zero]

theorem Obj.Attached.refs
    {obj : Obj}
    (h : obj.Attached) : obj.refs = 1 := by
  unfold Obj.Attached at h
  unfold Obj.refs
  rw [h]
  rfl

section Objects

variable [Platform] {ok : Event → Prop}

omit [Platform] in
theorem refKept_infoFind (b : Nat) :
    Within ok RefKept (blockInfoFindInCache b) := by
  unfold blockInfoFindInCache
  apply Within.bind Within.get
  intro s
  cases s.bc.list.find? (fun i => (s.bc.info i).block == b) with
  | none => exact Within.pure _
  | some i =>
      apply Within.bind
      · exact Within.modify fun _ => rfl
      intro _
      exact Within.pure _

theorem refKept_infoGet (b : Nat) :
    Within ok RefKept (blockInfoGet b) := by
  have hTail : ∀ i, Within ok RefKept (moveBcToTail i) :=
    fun i => Within.modify fun _ => rfl
  unfold blockInfoGet
  apply Within.bind (refKept_infoFind b)
  intro o
  cases o with
  | some i =>
      apply Within.bind (hTail i)
      intro _
      exact Within.pure _
  | none =>
      apply Within.bind Within.get
      intro s
      cases s.bc.list.find?
          (fun i => (s.bc.info i).refCount == 0) with
      | none => exact Within.pure _
      | some i =>
          apply Within.bind
          · exact Within.modify fun _ => rfl
          intro _
          apply Within.bind (hTail i)
          intro _
          exact Within.pure _

theorem plainLayer_refKept : PlainLayer ok RefKept where
  same _ _ hRef _ := hRef
  infoFind := refKept_infoFind
  infoGet := refKept_infoGet

theorem sessionBase_refKept : SessionBase ok RefKept :=
  plainLayer_refKept.sessionBase

------------------------------------------------------------
-- The Device of an Object
------------------------------------------------------------

/- The block of a truncation is looked up once more. -/
theorem returns_expireBlock
    {obj : Obj}
    (block : Nat)
    (hDev : obj.Attached) :
    Returns ok Obj.Attached (do
      match ← blockInfoGet block with
      | none => pure ()
      | some bc =>
          blockInfoExpireAll bc
          blockInfoPut bc
      pure obj) := by
  apply Returns.bind
  intro o
  cases o with
  | none => exact Returns.pure hDev
  | some bc =>
      apply Returns.bind
      intro _
      apply Returns.bind
      intro _
      exact Returns.pure hDev

/- A truncation from the page that it shortens on. -/
theorem returns_truncateTail
    {obj : Obj}
    (i block page maxPageId start remain : Nat)
    (key : GroupKey)
    (slot : Option Nat)
    (hDev : obj.Attached) :
    Returns ok Obj.Attached (do
      setBuf i fun b =>
        { b with
          dataLen := truncDataLen remain
          truncTail := true }
      let _ ← bufPut i
      markEmptyFrom key.parent key.serial
        (maxPageId - page) (page + 1)
      noteWhen (fun s => !s.buf.linksPage i key.type page)
        .tailNotWritten
      watchTruncation (some (start, remain))
      let _ ← bufFlushGroupEx key.parent key.serial true
      watchTruncation none
      noteWhen (fun s => s.buf.linked i) .tailNotWritten
      match slot with
      | none => pure ()
      | some slot => bufUnLockGroup slot
      match ← blockInfoGet block with
      | none => pure ()
      | some bc =>
          blockInfoExpireAll bc
          blockInfoPut bc
      pure obj) := by
  apply Returns.bind
  intro _
  apply Returns.bind
  intro _
  apply Returns.bind
  intro _
  apply Returns.bind
  intro _
  apply Returns.bind
  intro _
  apply Returns.bind
  intro _
  apply Returns.bind
  intro _
  apply Returns.bind
  intro _
  cases slot with
  | none => exact returns_expireBlock _ hDev
  | some slot =>
      apply Returns.bind
      intro _
      exact returns_expireBlock _ hDev

theorem returns_truncateInternal
    {obj : Obj}
    (key : GroupKey)
    (node maxPageId start remain : Nat)
    (hDev : obj.Attached) :
    Returns ok Obj.Attached
      (truncateInternal obj key node maxPageId start
        remain) := by
  unfold truncateInternal
  apply Returns.bind
  intro n
  dsimp only
  apply Returns.ite
  · exact Returns.pure hDev
  apply Returns.bind
  intro _
  apply Returns.bind
  intro o
  cases o with
  | none => exact Returns.pure hDev
  | some i =>
      apply Returns.bind
      intro _
      apply Returns.bind
      intro slot
      have hTail : Returns ok Obj.Attached _ :=
        returns_truncateTail i n.block
          ((remain - start) / pgDataSize +
            if key.type = .file then 1 else 0)
          maxPageId start remain key slot hDev
      cases slot with
      | none => exact hTail
      | some slot =>
          apply Returns.bind
          intro _
          exact hTail

/- What a truncation does with the node of a block. -/
theorem returns_truncateNode
    {obj : Obj}
    (fdn remain : Nat)
    (run : RunOption)
    (hDev : obj.Attached)
    (o : Option Nat) :
    Returns ok Obj.Attached
      (match o with
      | none => pure { obj with err := .ioerr }
      | some node => do
          let n ← getNode node
          let key : GroupKey :=
            { type := if fdn = 0 then .file else .data
              parent := n.parent
              serial := n.serial }
          let maxPageId :=
            if fdn = 0 then obj.headPages
            else pagesPerBlock - 1
          match run with
          | .dryRun =>
              let s ← Prog.get
              if s.buf.heldFrom key.parent key.serial
                  (maxPageId + 1) 0 then
                pure { obj with err := .exist }
              else
                pure obj
          | .realRun =>
              truncateInternal obj key node maxPageId
                (getStartOfDataBlock obj.headPages fdn)
                remain) := by
  cases o with
  | none => exact Returns.pure hDev
  | some node =>
      apply Returns.bind
      intro n
      cases run with
      | dryRun =>
          apply Returns.bind
          intro s
          apply Returns.ite
          · exact Returns.pure hDev
          · exact Returns.pure hDev
      | realRun =>
          exact returns_truncateInternal _ _ _ _ _ hDev

theorem returns_doTruncateInternalWithBlockRecover
    {obj : Obj}
    (fnode fdn remain : Nat)
    (run : RunOption)
    (hDev : obj.Attached) :
    Returns ok Obj.Attached
      (doTruncateInternalWithBlockRecover obj fnode fdn remain
        run) := by
  unfold doTruncateInternalWithBlockRecover
  apply Returns.bind
  intro f
  dsimp only
  apply Returns.ite
  · apply Returns.bind
    exact returns_truncateNode _ _ _ hDev
  · apply Returns.bind
    exact returns_truncateNode _ _ _ hDev

/- The second component is attached. -/
abbrev SndAttached {α : Type} (q : α × Obj) : Prop :=
  q.2.Attached

theorem returns_doWriteZeros
    {obj : Obj}
    (fnode gap : Nat)
    (hDev : obj.Attached) :
    Returns ok SndAttached (doWriteZeros obj fnode gap) := by
  unfold doWriteZeros doWriteObject
  apply Returns.ite
  · apply Returns.seq (P := SndAttached)
    · apply Returns.bind
      intro q
      exact Returns.pure hDev
    · intro q hq
      exact Returns.pure hq
  · exact Returns.pure hDev

theorem returns_truncateBlock
    {obj : Obj}
    (fnode fdn blockStart : Nat)
    (run : RunOption)
    (hDev : obj.Attached) :
    Returns ok SndAttached
      (truncateBlock obj fnode fdn blockStart run) := by
  have hPut : ∀ (bc : Nat) (more : Bool),
      Returns ok SndAttached (do
        blockInfoPut bc
        pure (more, obj)) := by
    intro bc more
    apply Returns.bind
    intro _
    exact Returns.pure hDev
  unfold truncateBlock
  apply Returns.bind
  intro o
  cases o with
  | none => exact Returns.pure hDev
  | some node =>
  apply Returns.bind
  intro n
  apply Returns.bind
  intro o
  cases o with
  | none => exact Returns.pure hDev
  | some bc =>
  apply Returns.bind
  intro f
  apply Returns.bind
  intro free
  dsimp only
  apply Returns.ite (hPut bc _)
  apply Returns.ite
  · apply Returns.bind
    intro _
    apply Returns.bind
    intro w
    apply Returns.bind
    intro _
    apply Returns.bind
    intro _
    apply Returns.bind
    intro _
    apply Returns.bind
    intro _
    exact hPut bc _
  · exact hPut bc _

theorem returns_truncateFrom
    (fnode remain : Nat)
    (run : RunOption)
    (n : Nat) :
    ∀ (flen : Nat) (obj : Obj), obj.Attached →
      Returns ok SndAttached
        (truncateFrom fnode remain run n flen obj) := by
  induction n with
  | zero =>
      intro flen obj hDev
      unfold truncateFrom
      split
      · exact Returns.pure hDev
      · exact Returns.diverge
  | succ n ih =>
      intro flen obj hDev
      unfold truncateFrom
      apply Returns.ite
      · exact Returns.pure hDev
      dsimp only
      apply Returns.ite
      · apply Returns.seq
          (returns_truncateBlock fnode _ _ run hDev)
        intro q hq
        apply Returns.ite
        · exact ih _ _ hq
        · exact Returns.pure hq
      · apply Returns.seq
          (returns_doTruncateInternalWithBlockRecover
            fnode _ remain run hDev)
        intro o ho
        cases o.ret with
        | fail => exact ih _ _ ho
        | succ =>
            apply Returns.ite
            · apply Returns.bind
              intro _
              exact ih _ _ ho
            · exact ih _ _ ho

theorem returns_doTruncateObject
    {obj : Obj}
    (remain : Nat)
    (run : RunOption)
    (hDev : obj.Attached) :
    Returns ok Obj.Attached
      (doTruncateObject obj remain run) := by
  unfold doTruncateObject
  dsimp only
  cases obj.node with
  | none => exact Returns.pure hDev
  | some fnode =>
      dsimp only
      apply Returns.ite
      · exact Returns.pure hDev
      apply Returns.ite
      · exact Returns.pure hDev
      apply Returns.bind
      intro f
      apply Returns.ite
      · have hEnd : ∀ o : Obj, o.Attached →
            Returns ok Obj.Attached (do
              recoverIfPending
              pure { o with pos := obj.pos }) := by
          intro o ho
          apply Returns.bind
          intro _
          exact Returns.pure ho
        cases run with
        | dryRun => exact Returns.seq (Returns.pure hDev) hEnd
        | realRun =>
            apply Returns.seq (P := SndAttached)
            · exact returns_doWriteZeros fnode _ hDev
            · intro q hq
              apply Returns.seq (P := Obj.Attached) _ hEnd
              apply Returns.pure
              split
              · exact hq
              · exact hq
      · apply Returns.seq
          (returns_truncateFrom fnode remain run _ _ obj hDev)
        intro q hq
        apply Returns.ite
        · apply Returns.bind
          intro _
          exact Returns.pure hq
        · exact Returns.pure hq

theorem returns_truncateTwice
    {obj : Obj}
    (remain : Nat)
    (hDev : obj.Attached) :
    Returns ok Obj.Attached (truncateTwice obj remain) := by
  unfold truncateTwice
  apply Returns.seq
    (returns_doTruncateObject remain .dryRun hDev)
  intro o ho
  cases o.ret with
  | fail => exact Returns.pure ho
  | succ => exact returns_doTruncateObject remain .realRun ho

theorem returns_createNew
    {obj : Obj}
    (hDev : obj.Attached) :
    Returns ok Obj.Attached (createNew obj) := by
  unfold createNew
  apply Returns.bind
  intro o
  cases o with
  | none => exact Returns.pure hDev
  | some serial =>
      apply Returns.bind
      intro s
      dsimp only
      apply Returns.ite
      · exact Returns.pure hDev
      apply Returns.bind
      intro o
      cases o with
      | none => exact Returns.pure hDev
      | some i =>
          apply Returns.bind
          intro now
          apply Returns.bind
          intro _
          apply Returns.bind
          intro _
          apply Returns.bind
          intro _
          apply Returns.bind
          intro o
          cases o with
          | none => exact Returns.pure hDev
          | some node =>
              have hEnd : Returns ok Obj.Attached (do
                  recoverIfPending
                  pure
                    { obj with
                      serial := serial
                      node := some node
                      openSucc := true }) := by
                apply Returns.bind
                intro _
                exact Returns.pure hDev
              apply Returns.ite
              · apply Returns.bind
                intro _
                exact hEnd
              · exact hEnd

/- An object is attached once it is created. -/
theorem returns_createObjectEx
    (obj : Obj)
    (dir : Nat)
    (name : List Byte)
    (oflag : OFlag) :
    Returns ok SndAttached
      (createObjectEx obj dir name oflag) := by
  have hNew : ∀ o : Obj, o.Attached →
      Returns ok SndAttached (do
        let o ← createNew o
        pure (o.ret, o)) := by
    intro o ho
    apply Returns.seq (returns_createNew ho)
    intro o' ho'
    exact Returns.pure ho'
  unfold createObjectEx
  dsimp only
  apply Returns.ite
  · exact Returns.diverge
  apply Returns.ite
  · exact Returns.pure rfl
  apply Returns.ite
  · exact Returns.pure rfl
  apply Returns.ite
  · apply Returns.bind
    intro o
    cases o with
    | some _ => exact Returns.pure rfl
    | none =>
        apply Returns.bind
        intro o
        cases o with
        | some _ => exact Returns.pure rfl
        | none => exact hNew _ rfl
  · apply Returns.bind
    intro o
    cases o with
    | some _ => exact Returns.pure rfl
    | none =>
        apply Returns.bind
        intro o
        cases o with
        | some _ =>
            apply Returns.bind
            intro n
            apply Returns.seq (P := Obj.Attached)
            · exact returns_truncateTwice 0 rfl
            · intro o ho
              exact Returns.pure ho
        | none => exact hNew _ rfl

/-
  What `uffs_OpenObjectEx` returns: the object is still
  attached, and open when the result is `U_SUCC`.
-/
structure OpenedEx (q : URet × Obj) : Prop where
  attached : q.2.Attached
  openSucc : q.1 = .succ → q.2.openSucc = true

omit [Platform] in
theorem openedEx
    {obj : Obj}
    (hDev : obj.Attached)
    (hOpen : obj.openSucc = decide (obj.err = .noErr)) :
    OpenedEx (obj.ret, obj) := by
  constructor
  · exact hDev
  · intro hRet
    dsimp only at hRet ⊢
    unfold Obj.ret at hRet
    split at hRet
    · rename_i hErr
      rw [hOpen]
      exact decide_eq_true hErr
    · cases hRet

theorem returns_openObjectEx
    {obj : Obj}
    (dir : Nat)
    (name : List Byte)
    (oflag : OFlag)
    (hDev : obj.Attached) :
    Returns ok OpenedEx (openObjectEx obj dir name oflag) := by
  have hDone : ∀ o : Obj, o.Attached →
      Returns ok OpenedEx (pure
        (Obj.ret { o with openSucc := decide (o.err = .noErr) },
          { o with openSucc := decide (o.err = .noErr) }) :
        M (URet × Obj)) :=
    fun _ ho => Returns.pure (openedEx ho rfl)
  unfold openObjectEx
  dsimp only
  apply Returns.ite
  · exact hDone { obj with err := .inval } hDev
  apply Returns.ite
  · apply Returns.ite
    · exact Returns.pure (openedEx rfl rfl)
    · exact Returns.pure (openedEx rfl rfl)
  generalize hObj : (if (!oflag.dir && (decide (name = []) ||
      decide (name.getLast? = some slash))) = true then
    _ else _ : Obj) = o
  have ho : o.Attached := by
    rw [← hObj]
    split
    · rfl
    · rfl
  apply Returns.ite
  all_goals
    apply Returns.bind
    intro found
    cases found with
    | none =>
        apply Returns.ite
        · apply Returns.ite
          · exact hDone { o with node := none, err := .exist } ho
          · apply Returns.seq (returns_createObjectEx _ _ _ _)
            intro q hq
            exact hDone q.2 hq
        · exact hDone { o with node := none, err := .noent } ho
    | some node =>
        apply Returns.ite
        · exact hDone
            { o with node := some node, err := .exist } ho
        · apply Returns.bind
          intro n
          apply Returns.ite
          · apply Returns.seq (P := Obj.Attached)
            · exact returns_truncateTwice 0 ho
            · exact hDone
          · exact hDone
              { o with node := some node, serial := n.serial } ho

/- Moving an object leaves it attached. -/
theorem returns_moveObjectEx
    (obj : Obj)
    (newParent : Nat)
    (newName : List Byte) :
    Returns ok (fun q => q.2.dev = obj.dev)
      (moveObjectEx obj newParent newName) := by
  unfold moveObjectEx
  cases obj.node with
  | none => exact Returns.pure rfl
  | some node =>
      dsimp only
      apply Returns.ite
      · exact Returns.pure rfl
      have hMoved : ∀ o : Obj, o.dev = obj.dev →
          Returns ok (fun q : URet × Obj => q.2.dev = obj.dev)
            (do
              setNode node fun n => n.setName o.sum newParent
              pure (o.ret, o)) := by
        intro o ho
        apply Returns.bind
        intro _
        exact Returns.pure ho
      apply Returns.ite
      · apply Returns.pure_bind
        exact hMoved _ rfl
      · apply Returns.bind
        intro o
        cases o with
        | none =>
            apply Returns.pure_bind
            exact Returns.pure rfl
        | some i =>
            apply Returns.bind
            intro b
            apply Returns.bind
            intro now
            apply Returns.bind
            intro _
            apply Returns.bind
            intro _
            apply Returns.bind
            intro _
            apply Returns.bind
            intro _
            apply Returns.bind
            intro _
            apply Returns.pure_bind
            exact hMoved _ rfl

------------------------------------------------------------
-- References
------------------------------------------------------------

omit [Platform] in
theorem wlp_of_refKept
    {α : Type}
    {m : M α}
    {P : α → Prop}
    {s : Dev}
    (hKept : Within ok RefKept m)
    (hValue : Returns ok P m) :
    wlp ok m (fun a t => t.refCount = s.refCount ∧ P a) s :=
  wlp_and (hKept s) (hValue s)

omit [Platform] in
theorem wlp_putDevice {s : Dev} :
    wlp ok putDevice
      (fun _ t => t.refCount = s.refCount - 1) s := by
  unfold putDevice
  rw [wlp_modify]

/- A released object is not attached. -/
theorem wlp_releaseObject_refs
    (obj : Obj)
    {s : Dev} :
    wlp ok (doReleaseObjectResource obj)
      (fun o t => t.refCount = s.refCount - obj.refs ∧
        o.dev = false) s := by
  unfold doReleaseObjectResource
  split
  · rename_i hDev
    rw [wlp_bind]
    refine wlp_mono (sessionBase_refKept.base.recover s) ?_
    intro _ t ht
    rw [wlp_bind]
    refine wlp_mono wlp_putDevice ?_
    intro _ u hu
    rw [wlp_pure, Obj.Attached.refs hDev, hu, ht]
    exact ⟨rfl, rfl⟩
  · rename_i hDev
    rw [Bool.not_eq_true] at hDev
    rw [wlp_pure, Obj.refs_of_detached hDev]
    exact ⟨(Int.sub_zero _).symm, hDev⟩

/- A release gives up the reference that was taken. -/
theorem wlp_releaseObject_undo
    {obj : Obj}
    {s t : Dev}
    (hRefs : t.refCount = s.refCount + obj.refs) :
    wlp ok (doReleaseObjectResource obj)
      (fun o u => u.refCount = s.refCount ∧
        o.dev = false) t := by
  refine wlp_mono (wlp_releaseObject_refs obj) ?_
  intro o u hu
  rw [hu.1, hRefs]
  exact ⟨Int.add_sub_cancel _ _, hu.2⟩

theorem wlp_closeObject_refs
    (obj : Obj)
    {s : Dev} :
    wlp ok (closeObject obj)
      (fun q t => t.refCount = s.refCount - obj.refs ∧
        q.2.dev = false) s := by
  have hRelease : ∀ (o : Obj) (t : Dev),
      o.refs = obj.refs → t.refCount = s.refCount →
      wlp ok (do
          let o ← doReleaseObjectResource o
          pure (o.ret, o))
        (fun q u => u.refCount = s.refCount - obj.refs ∧
          q.2.dev = false) t := by
    intro o t ho ht
    rw [wlp_bind]
    refine wlp_mono (wlp_releaseObject_refs o) ?_
    intro o' u hu
    rw [wlp_pure, ← ho, ← ht]
    exact hu
  unfold closeObject
  split
  · exact hRelease _ s rfl rfl
  · dsimp only
    split
    · rw [wlp_bind]
      refine wlp_mono
        (sessionBase_refKept.base.doFlushObject obj s) ?_
      intro _ t ht
      exact hRelease obj t rfl ht
    · exact hRelease obj s rfl rfl

/- And so does a close. -/
theorem wlp_closeObject_undo
    {obj : Obj}
    {s t : Dev}
    (hRefs : t.refCount = s.refCount + obj.refs) :
    wlp ok (closeObject obj)
      (fun q u => u.refCount = s.refCount ∧
        q.2.dev = false) t := by
  refine wlp_mono (wlp_closeObject_refs obj) ?_
  intro q u hu
  rw [hu.1, hRefs]
  exact ⟨Int.add_sub_cancel _ _, hu.2⟩

/- What parsing a path leaves, given a detached object. -/
structure Parsed (s : Dev) (q : URet × Obj) (t : Dev) : Prop where
  refs : t.refCount = s.refCount + q.2.refs
  succ : q.1 = .succ → q.2.Attached
  fail : q.1 = .fail → q.2.dev = false

theorem wlp_parseObject_refs
    {obj : Obj}
    (path : List Byte)
    {s : Dev}
    (hDev : obj.dev = false) :
    wlp ok (parseObject obj path) (Parsed s) s := by
  have hFail : ∀ (o : Obj) (t : Dev), o.dev = false →
      t.refCount = s.refCount → Parsed s (.fail, o) t := by
    intro o t ho ht
    constructor
    · rw [ht, Obj.refs_of_detached ho, Int.add_zero]
    · exact fun h => nomatch h
    · exact fun _ => ho
  have hSucc : ∀ (o : Obj) (t : Dev), o.Attached →
      t.refCount = s.refCount + 1 → Parsed s (.succ, o) t := by
    intro o t ho ht
    constructor
    · rw [ht, ho.refs]
    · exact fun _ => ho
    · exact fun h => nomatch h
  unfold parseObject
  split
  · rw [wlp_pure]
    exact hFail obj s hDev rfl
  · dsimp only
    cases path with
    | nil =>
        rw [wlp_pure]
        exact hFail _ s rfl rfl
    | cons c start =>
        dsimp only
        split
        · rw [wlp_pure]
          exact hFail _ s rfl rfl
        · rw [wlp_bind, wlp_modify]
          split
          · rw [wlp_pure]
            exact hSucc _ _ rfl rfl
          · rw [wlp_bind]
            refine wlp_mono
              (sessionBase_refKept.base.parseDirs _ _ _ _ _ _)
              ?_
            intro r t ht
            split
            · rw [wlp_pure]
              exact hSucc _ t rfl ht
            · rw [wlp_bind]
              refine wlp_mono wlp_putDevice ?_
              intro _ u hu
              rw [wlp_pure]
              apply hFail _ u rfl
              rw [hu, ht]
              exact Int.add_sub_cancel _ _

/-
  What opening an object leaves: it is attached and open, or
  detached.
-/
structure Opened (s : Dev) (q : URet × Obj) (t : Dev) : Prop where
  refs : t.refCount = s.refCount + q.2.refs
  succ : q.1 = .succ → q.2.Attached ∧ q.2.openSucc = true
  fail : q.1 = .fail → q.2.dev = false

omit [Platform] in
theorem Opened.detached
    {s t : Dev}
    {o : Obj}
    (h : Opened s (.fail, o) t) : t.refCount = s.refCount :=
  Obj.refCount_of_detached h.refs (h.fail rfl)

theorem wlp_openObject_refs
    {obj : Obj}
    (path : List Byte)
    (oflag : OFlag)
    {s : Dev}
    (hDev : obj.dev = false) :
    wlp ok (openObject obj path oflag) (Opened s) s := by
  have hFail : ∀ (o : Obj) (t : Dev),
      t.refCount = s.refCount + o.refs →
      wlp ok (do
        let o ← doReleaseObjectResource o
        pure (URet.fail, o))
        (Opened s) t := by
    intro o t hRefs
    rw [wlp_bind]
    refine wlp_mono (wlp_releaseObject_undo hRefs) ?_
    intro o' u hu
    rw [wlp_pure]
    constructor
    · dsimp only
      rw [hu.1, Obj.refs_of_detached hu.2, Int.add_zero]
    · exact fun h => nomatch h
    · exact fun _ => hu.2
  unfold openObject
  rw [wlp_bind]
  refine wlp_mono (wlp_parseObject_refs path hDev) ?_
  intro q t ht
  rcases q with ⟨ret, o⟩
  cases ret with
  | fail =>
      dsimp only
      rw [wlp_bind, wlp_pure]
      exact hFail o t ht.refs
  | succ =>
      dsimp only
      rw [wlp_bind]
      have hOpened := ht.succ rfl
      refine wlp_mono (wlp_of_refKept
        (sessionBase_refKept.base.openObjectEx _ _ _ _)
        (returns_openObjectEx _ _ _ hOpened)) ?_
      intro r u hu
      rcases r with ⟨ret, o'⟩
      have hRefs : u.refCount = s.refCount + o'.refs := by
        rw [hu.1, ht.refs, hu.2.attached.refs, hOpened.refs]
      cases ret with
      | succ =>
          dsimp only
          rw [wlp_pure]
          exact ⟨hRefs,
            fun _ => ⟨hu.2.attached, hu.2.openSucc rfl⟩,
            fun h => nomatch h⟩
      | fail => exact hFail o' u hRefs

theorem wlp_createObject_refs
    {obj : Obj}
    (path : List Byte)
    (oflag : OFlag)
    {s : Dev}
    (hDev : obj.dev = false) :
    wlp ok (createObject obj path oflag)
      (fun q t => t.refCount = s.refCount + q.2.refs ∧
        (q.1 = .fail → q.2.dev = false)) s := by
  have hEnd : ∀ (o : Obj) (t : Dev),
      t.refCount = s.refCount + o.refs →
      wlp ok
        (if o.err = .noErr then
          pure (URet.succ, o)
        else do
          if o.dev then
            putDevice
          pure (.fail, { o with dev := false }))
        (fun q t => t.refCount = s.refCount + q.2.refs ∧
          (q.1 = .fail → q.2.dev = false)) t := by
    intro o t ht
    split
    · rw [wlp_pure]
      exact ⟨ht, fun h => nomatch h⟩
    · split
      · rename_i hAttached
        rw [wlp_bind]
        refine wlp_mono wlp_putDevice ?_
        intro _ u hu
        rw [wlp_pure]
        refine ⟨?_, fun _ => rfl⟩
        rw [hu, ht, Obj.Attached.refs hAttached,
          Obj.refs_of_detached rfl]
        omega
      · rename_i hDetached
        rw [Bool.not_eq_true] at hDetached
        rw [wlp_pure]
        refine ⟨?_, fun _ => rfl⟩
        rw [ht, Obj.refs_of_detached hDetached,
          Obj.refs_of_detached rfl]
  unfold createObject
  rw [wlp_bind]
  refine wlp_mono (wlp_parseObject_refs path hDev) ?_
  intro q t ht
  rcases q with ⟨ret, o⟩
  cases ret with
  | fail =>
      dsimp only
      rw [wlp_bind, wlp_pure]
      exact hEnd o t ht.refs
  | succ =>
      dsimp only
      rw [wlp_bind]
      refine wlp_mono (wlp_of_refKept
        (sessionBase_refKept.base.createObjectEx _ _ _ _)
        (returns_createObjectEx _ _ _ _)) ?_
      intro r u hu
      rw [wlp_bind, wlp_pure]
      apply hEnd r.2 u
      rw [hu.1, ht.refs, (ht.succ rfl).refs, hu.2.refs]

------------------------------------------------------------
-- Deleting and Renaming
------------------------------------------------------------

/- A detached object is released in vain. -/
theorem wlp_releaseDetached
    {α : Type}
    {obj : Obj}
    (r : α)
    {s : Dev}
    (hDev : obj.dev = false) :
    wlp ok (do
        let _ ← doReleaseObjectResource obj
        pure r)
      (fun _ t => t.refCount = s.refCount) s := by
  have hRefs : s.refCount = s.refCount + obj.refs := by
    rw [Obj.refs_of_detached hDev, Int.add_zero]
  rw [wlp_bind]
  refine wlp_mono (wlp_releaseObject_undo hRefs) ?_
  intro _ t ht
  rw [wlp_pure]
  exact ht.1

/- Opening with one set of flags, then with another one. -/
theorem wlp_openTwice_refs
    {obj : Obj}
    (path : List Byte)
    (oflag oflag' : OFlag)
    {s : Dev}
    (hDev : obj.dev = false) :
    wlp ok (do
        let (ret, o) ← openObject obj path oflag
        match ret with
        | .succ => pure (ret, o)
        | .fail => openObject o path oflag')
      (Opened s) s := by
  rw [wlp_bind]
  refine wlp_mono (wlp_openObject_refs path oflag hDev) ?_
  intro q t ht
  rcases q with ⟨ret, o⟩
  cases ret with
  | succ =>
      dsimp only
      rw [wlp_pure]
      exact ht
  | fail =>
      dsimp only
      refine wlp_mono
        (wlp_openObject_refs path oflag' (ht.fail rfl)) ?_
      intro r u hu
      exact ⟨ht.detached ▸ hu.refs, hu.succ, hu.fail⟩

theorem wlp_deleteObject_refs
    (path : List Byte)
    (used : Nat)
    (others : List (Option Nat))
    {s : Dev} :
    wlp ok (deleteObject path used others)
      (fun _ t => t.refCount = s.refCount) s := by
  have hDelete : ∀ (o : Obj) (t : Dev), Opened s (.succ, o) t →
      wlp ok (do
        let r ← deleteOpened o others
        let _ ← doReleaseObjectResource o
        pure r)
        (fun _ u => u.refCount = s.refCount) t := by
    intro o t ht
    rw [wlp_bind]
    refine wlp_mono
      (sessionBase_refKept.deleteOpened o others t) ?_
    intro r u hu
    rw [wlp_bind]
    have hRefs : u.refCount = s.refCount + o.refs :=
      Eq.trans hu ht.refs
    refine wlp_mono (wlp_releaseObject_undo hRefs) ?_
    intro _ v hv
    rw [wlp_pure]
    exact hv.1
  unfold deleteObject
  split
  · rw [wlp_pure]
  · have hZero : Obj.zero.dev = false := rfl
    have hOpen : wlp ok _ (Opened s) s := wlp_openTwice_refs
      path { rdwr := true, dir := true } { rdwr := true } hZero
    rw [wlp_bind] at hOpen ⊢
    refine wlp_mono hOpen ?_
    intro q t ht
    rcases q with ⟨ret, o⟩
    cases ret with
    | succ =>
        dsimp only at ht ⊢
        rw [wlp_pure] at ht
        rw [wlp_bind, wlp_pure]
        exact hDelete o t ht
    | fail =>
        dsimp only at ht ⊢
        rw [wlp_bind]
        refine wlp_mono ht ?_
        intro r u hu
        rcases r with ⟨ret, o⟩
        cases ret with
        | succ => exact hDelete o u hu
        | fail =>
            dsimp only
            rw [← hu.detached]
            exact wlp_releaseDetached _ (hu.fail rfl)

theorem wlp_pathTaken_refs
    (path : List Byte)
    {s : Dev} :
    wlp ok (pathTaken path)
      (fun q t => t.refCount = s.refCount ∧
        q.2.dev = false) s := by
  have hClose : ∀ (o : Obj) (t : Dev),
      t.refCount = s.refCount + o.refs →
      wlp ok (do
          let (_, o) ← closeObject o
          pure (true, o))
        (fun q u => u.refCount = s.refCount ∧
          q.2.dev = false) t := by
    intro o t ht
    rw [wlp_bind]
    refine wlp_mono (wlp_closeObject_undo ht) ?_
    intro q u hu
    rw [wlp_pure]
    exact hu
  unfold pathTaken
  rw [wlp_bind]
  refine wlp_mono (wlp_openObject_refs path _ rfl) ?_
  intro q t ht
  rcases q with ⟨ret, o⟩
  cases ret with
  | succ => exact hClose o t ht.refs
  | fail =>
      dsimp only
      rw [wlp_bind]
      refine wlp_mono
        (wlp_openObject_refs path _ (ht.fail rfl)) ?_
      intro r u hu
      rcases r with ⟨ret, o'⟩
      cases ret with
      | succ => exact hClose o' u (ht.detached ▸ hu.refs)
      | fail =>
          dsimp only
          rw [wlp_pure]
          exact ⟨hu.detached.trans ht.detached, hu.fail rfl⟩

theorem wlp_renameTo_refs
    (target : Obj)
    (oldPath : List Byte)
    {s : Dev} :
    wlp ok (renameTo target oldPath)
      (fun _ t => t.refCount = s.refCount) s := by
  have hMove : ∀ (o : Obj) (t : Dev), Opened s (.succ, o) t →
      wlp ok (do
        let r ← moveObjectEx o target.parent target.name
        let _ ← closeObject r.2
        pure (r.1, r.2.err))
        (fun _ u => u.refCount = s.refCount) t := by
    intro o t ht
    rw [wlp_bind]
    refine wlp_mono (wlp_of_refKept
      (sessionBase_refKept.base.moveObjectEx o _ _)
      (returns_moveObjectEx o _ _)) ?_
    intro r u hu
    rw [wlp_bind]
    have hRefs : u.refCount = s.refCount + r.2.refs := by
      unfold Obj.refs
      rw [hu.1, hu.2]
      exact ht.refs
    refine wlp_mono (wlp_closeObject_undo hRefs) ?_
    intro _ v hv
    rw [wlp_pure]
    exact hv.1
  unfold renameTo
  have hZero : Obj.zero.dev = false := rfl
  have hOpen : wlp ok _ (Opened s) s := wlp_openTwice_refs
    oldPath OFlag.rdonly { dir := true } hZero
  rw [wlp_bind] at hOpen ⊢
  refine wlp_mono hOpen ?_
  intro q t ht
  rcases q with ⟨ret, o⟩
  cases ret with
  | succ =>
      dsimp only at ht ⊢
      rw [wlp_pure] at ht
      rw [wlp_bind, wlp_pure]
      exact hMove o t ht
  | fail =>
      dsimp only at ht ⊢
      rw [wlp_bind]
      refine wlp_mono ht ?_
      intro r u hu
      rcases r with ⟨ret, o⟩
      cases ret with
      | succ => exact hMove o u hu
      | fail =>
          dsimp only
          rw [wlp_pure]
          exact hu.detached

theorem wlp_renameObject_refs
    (oldPath newPath : List Byte)
    (used : Nat)
    {s : Dev} :
    wlp ok (renameObject oldPath newPath used)
      (fun _ t => t.refCount = s.refCount) s := by
  unfold renameObject
  split
  · rw [wlp_pure]
  · rw [wlp_bind]
    refine wlp_mono (wlp_pathTaken_refs newPath) ?_
    intro q t ht
    rcases q with ⟨taken, target⟩
    rcases ht with ⟨hRefs, hDev⟩
    rw [← hRefs]
    dsimp only at hDev ⊢
    split
    · exact wlp_releaseDetached _ hDev
    · rw [wlp_bind]
      refine wlp_mono (wlp_parseObject_refs newPath hDev) ?_
      intro r u hu
      rcases r with ⟨ret, o⟩
      have hRelease : ∀ (a : URet × UErr) (v : Dev),
          v.refCount = u.refCount →
          wlp ok (do
              let _ ← doReleaseObjectResource o
              pure a)
            (fun _ w => w.refCount = t.refCount) v := by
        intro a v hv
        rw [wlp_bind]
        refine wlp_mono
          (wlp_releaseObject_undo (Eq.trans hv hu.refs)) ?_
        intro _ w hw
        rw [wlp_pure]
        exact hw.1
      cases ret with
      | fail => exact hRelease _ u rfl
      | succ =>
          dsimp only
          split
          · exact hRelease _ u rfl
          · rw [wlp_bind]
            refine wlp_mono (wlp_renameTo_refs o oldPath) ?_
            intro a v hv
            exact hRelease a v hv

end Objects

end Uffs
