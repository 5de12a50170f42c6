import Uffs.Model.Fs

/-
  Functions that change nothing but the page buffers.

  None of them sets a truncate mark: they stay within each
  relation that the other changes of a buffer, of a dirty
  group and of the lists stay within.

  Main declarations:
    * `Buffers`, `BufferLayer`
    * `BufferLayer.breakFromDirty`,
      `BufferLayer.bufMarkEmpty`
    * `buffers_bufGet`, `buffers_bufPut`
-/

namespace Uffs

open Prog

/- Only the buffers change. -/
def Buffers (s t : Dev) : Prop :=
  t = { s with buf := t.buf }

namespace Buffers

variable {s t u : Dev}

/- What is beside the buffers stays. -/
theorem trans (h : Buffers s t) (h' : Buffers t u) :
    Buffers s u := by
  unfold Buffers at *
  rw [h', h]

instance : IsPreorder Dev Buffers where
  refl _ := rfl
  trans _ _ _ := trans

end Buffers

/- A change of a buffer that sets no truncate mark. -/
def Unmarking (f : Buf → Buf) : Prop :=
  ∀ b, (f b).truncTail = true → b.truncTail = true

/- What the functions below rest on. -/
structure BufferLayer
    (ok : Event → Prop)
    (R : Dev → Dev → Prop) : Prop where
  rekey : ∀ i f, Unmarking f → Within ok R (setBuf i f)
  setGroup : ∀ slot f, Within ok R (setGroup slot f)
  setLists : ∀ f : BufPool → BufPool,
    (∀ p, (f p).entry = p.entry ∧ (f p).group = p.group) →
      Within ok R
        (Prog.modify fun s => { s with buf := f s.buf })

variable [Platform] {ok : Event → Prop}

namespace BufferLayer

variable {R : Dev → Dev → Prop} [IsPreorder Dev R]

------------------------------------------------------------
-- Buffers and Dirty Lists
------------------------------------------------------------

/- The order of the buffers is one of the lists. -/
omit [Platform] [IsPreorder Dev R] in
protected theorem moveNodeToHead
    (h : BufferLayer ok R)
    (i : Nat) :
    Within ok R (moveNodeToHead i) :=
  h.setLists (fun p => { p with list := i :: p.list.erase i })
    fun _ => ⟨rfl, rfl⟩

/- A clone buffer is a new one for the page it is used for. -/
omit [Platform] in
protected theorem bufClone
    (h : BufferLayer ok R) : Within ok R bufClone := by
  unfold Uffs.bufClone
  apply Within.bind Within.get
  intro s
  cases s.buf.clone with
  | nil => exact Within.pure _
  | cons i rest =>
      apply Within.bind
      · exact h.setLists (fun p => { p with clone := rest })
          fun _ => ⟨rfl, rfl⟩
      · intro _
        refine Within.bind (h.rekey i _ fun _ => id) ?_
        intro _
        exact Within.pure _

/- A buffer that is no clone buffer is left alone. -/
omit [Platform] in
protected theorem bufFreeClone
    (h : BufferLayer ok R)
    (i : Nat) :
    Within ok R (bufFreeClone i) := by
  unfold Uffs.bufFreeClone getBuf
  apply Within.bind (Within.gets _)
  intro b
  apply Within.ite (Within.pure _)
  refine Within.bind (h.rekey i _ fun _ => id) ?_
  intro _
  apply Within.bind
  · exact h.setLists (fun p => { p with clone := i :: p.clone })
      fun _ => ⟨rfl, rfl⟩
  · intro _
    exact Within.pure _

omit [Platform] in
protected theorem bufGet
    (h : BufferLayer ok R)
    (parent serial pageId : Nat) :
    Within ok R (bufGet parent serial pageId) := by
  unfold Uffs.bufGet bufFind
  apply Within.bind (Within.gets _)
  intro o
  cases o with
  | none => exact Within.pure _
  | some i =>
      refine Within.bind (h.rekey i _ fun _ => id) ?_
      intro _
      apply Within.bind (h.moveNodeToHead i)
      intro _
      exact Within.pure _

/- A clone buffer goes back to its list. -/
omit [Platform] in
protected theorem bufPut
    (h : BufferLayer ok R)
    (i : Nat) :
    Within ok R (bufPut i) := by
  unfold Uffs.bufPut getBuf
  apply Within.bind (Within.gets _)
  intro b
  apply Within.ite (Within.pure _)
  apply Within.ite (h.bufFreeClone i)
  refine Within.bind (h.rekey i _ fun _ => id) ?_
  intro _
  exact Within.pure _

/-
  The group forgets the buffer, and the buffer is left with
  its mark.
-/
protected theorem breakFromDirty
    (h : BufferLayer ok R)
    (i : Nat) :
    Within ok R (breakFromDirty i) := by
  unfold Uffs.breakFromDirty getBuf
  apply Within.bind (Within.gets _)
  intro b
  apply Within.ite (Within.pure _)
  apply Within.bind
  · unfold bufFindGroupSlot
    exact Within.gets _
  · intro o
    cases o with
    | none => exact Within.pure _
    | some slot =>
        apply Within.bind (h.setGroup slot _)
        intro _
        exact Within.pure _

omit [Platform] in
protected theorem linkToDirtyList
    (h : BufferLayer ok R)
    (slot i : Nat) :
    Within ok R (linkToDirtyList slot i) := by
  unfold Uffs.linkToDirtyList
  refine Within.bind (h.rekey i _ fun _ => id) ?_
  intro _
  exact h.setGroup slot _

/- By induction on the pages of the block. -/
protected theorem cleanDirtyFrom
    (h : BufferLayer ok R)
    (slot n : Nat) :
    ∀ i, Within ok R (cleanDirtyFrom slot n i) := by
  induction n with
  | zero =>
      intro i
      exact Within.pure _
  | succ n ih =>
      intro i
      unfold Uffs.cleanDirtyFrom findBufInDirtyList
      apply Within.bind (Within.gets _)
      intro o
      cases o with
      | none => exact ih _
      | some d =>
          apply Within.bind (h.breakFromDirty d)
          intro r
          cases r with
          | fail => exact ih _
          | succ =>
              refine Within.bind (h.rekey d _ nofun) ?_
              intro _
              apply Within.bind (h.moveNodeToHead d)
              intro _
              exact ih _

/- A dirty buffer is taken out of its group first. -/
protected theorem bufMarkEmpty
    (h : BufferLayer ok R)
    (i : Nat) :
    Within ok R (bufMarkEmpty i) := by
  unfold Uffs.bufMarkEmpty getBuf
  apply Within.bind (Within.gets _)
  intro b
  dsimp only
  apply Within.ite
  · apply Within.ite
    · apply Within.bind (h.breakFromDirty i)
      intro _
      exact h.rekey i _ fun _ => id
    · exact h.rekey i _ fun _ => id
  · exact Within.pure _

------------------------------------------------------------
-- Emptying Buffers
------------------------------------------------------------

/-
  By induction on the page ids; a page that is not cached is
  passed over.
-/
protected theorem markEmptyFrom
    (h : BufferLayer ok R)
    (parent serial n : Nat) :
    ∀ pageId, Within ok R
      (markEmptyFrom parent serial n pageId) := by
  induction n with
  | zero =>
      intro pageId
      exact Within.pure _
  | succ n ih =>
      intro pageId
      unfold Uffs.markEmptyFrom bufFind
      apply Within.bind (Within.gets _)
      intro o
      cases o with
      | none => exact ih _
      | some i =>
          apply Within.bind (h.bufMarkEmpty i)
          intro _
          exact ih _

/- A buffer that is in use ends the loop. -/
protected theorem discardBlockFrom
    (h : BufferLayer ok R)
    (parent serial : Nat)
    (run : RunOption)
    (n : Nat) :
    ∀ page, Within ok R
      (discardBlockFrom parent serial run n page) := by
  induction n with
  | zero =>
      intro page
      exact Within.pure _
  | succ n ih =>
      intro page
      unfold Uffs.discardBlockFrom bufFind getBuf
      apply Within.bind (Within.gets _)
      intro o
      cases o with
      | none => exact ih _
      | some i =>
          apply Within.bind (Within.gets _)
          intro b
          apply Within.ite (Within.pure _)
          dsimp only
          apply Within.ite
          · apply Within.bind (h.bufMarkEmpty i)
            intro _
            exact ih _
          · exact ih _

/-
  By induction on the list; a buffer of the block that is in
  use ends the loop.
-/
omit [Platform] in
protected theorem emptyBuffers
    (h : BufferLayer ok R)
    (parent serial : Nat)
    (l : List Nat) :
    Within ok R (emptyBuffers parent serial l) := by
  induction l with
  | nil => exact Within.pure _
  | cons i rest ih =>
      unfold Uffs.emptyBuffers getBuf
      apply Within.bind (Within.gets _)
      intro b
      apply Within.ite
      · apply Within.ite (Within.pure _)
        have hRest : Within ok R (do
            setBuf i fun b => { b with mark := .empty }
            Uffs.emptyBuffers parent serial rest) := by
          refine Within.bind (h.rekey i _ fun _ => id) ?_
          intro _
          exact ih
        apply Within.ite _ hRest
        apply Within.bind (Within.emit _)
        intro _
        exact hRest
      · exact ih

/- The DATA blocks of a file, one after the other. -/
omit [Platform] in
protected theorem emptyDataBuffers
    (h : BufferLayer ok R)
    (parent n : Nat) :
    ∀ serial, Within ok R
      (emptyDataBuffers parent n serial) := by
  induction n with
  | zero =>
      intro serial
      exact Within.pure _
  | succ n ih =>
      intro serial
      unfold Uffs.emptyDataBuffers
      apply Within.bind Within.get
      intro s
      apply Within.bind (h.emptyBuffers _ _ _)
      intro free
      exact Within.ite (ih _) (Within.pure _)

/- The buffers of the object, then those of its DATA blocks. -/
protected theorem checkObjBufRef
    (h : BufferLayer ok R)
    (obj : Obj)
    (node : Nat) :
    Within ok R (checkObjBufRef obj node) := by
  unfold Uffs.checkObjBufRef getNode
  apply Within.bind Within.get
  intro s
  apply Within.bind (h.emptyBuffers _ _ _)
  intro free
  apply Within.ite _ (Within.pure _)
  apply Within.bind (Within.gets _)
  intro n
  exact Within.ite (h.emptyDataBuffers _ _ _)
    (Within.pure _)

end BufferLayer

------------------------------------------------------------
-- Nothing but Buffers
------------------------------------------------------------

omit [Platform] in
theorem buffers_setBuf (i : Nat) (f : Buf → Buf) :
    Within ok Buffers (setBuf i f) := by
  apply Within.modify
  intro s
  rfl

omit [Platform] in
theorem buffers_setGroup
    (slot : Nat)
    (f : DirtyGroup → DirtyGroup) :
    Within ok Buffers (setGroup slot f) := by
  apply Within.modify
  intro s
  rfl

/- Every change of the buffers is allowed. -/
omit [Platform] in
theorem bufferLayer_buffers : BufferLayer ok Buffers where
  rekey i f _ := buffers_setBuf i f
  setGroup := buffers_setGroup
  setLists _ _ := Within.modify fun _ => rfl

omit [Platform] in
theorem buffers_moveNodeToHead (i : Nat) :
    Within ok Buffers (moveNodeToHead i) :=
  bufferLayer_buffers.moveNodeToHead i

omit [Platform] in
theorem buffers_getBuf (i : Nat) :
    Within ok Buffers (getBuf i) := by
  unfold getBuf
  exact Within.gets _

omit [Platform] in
theorem buffers_bufClone : Within ok Buffers bufClone :=
  bufferLayer_buffers.bufClone

omit [Platform] in
theorem buffers_bufFreeClone (i : Nat) :
    Within ok Buffers (bufFreeClone i) :=
  bufferLayer_buffers.bufFreeClone i

omit [Platform] in
theorem buffers_bufGet (parent serial pageId : Nat) :
    Within ok Buffers (bufGet parent serial pageId) :=
  bufferLayer_buffers.bufGet parent serial pageId

/- The functions of the source, for this relation. -/
omit [Platform] in
theorem buffers_bufPut (i : Nat) :
    Within ok Buffers (bufPut i) :=
  bufferLayer_buffers.bufPut i

theorem buffers_breakFromDirty (i : Nat) :
    Within ok Buffers (breakFromDirty i) :=
  bufferLayer_buffers.breakFromDirty i

omit [Platform] in
theorem buffers_findBufInDirtyList (slot pageId : Nat) :
    Within ok Buffers (findBufInDirtyList slot pageId) := by
  unfold findBufInDirtyList
  exact Within.gets _

theorem buffers_cleanDirtyFrom (slot n i : Nat) :
    Within ok Buffers (cleanDirtyFrom slot n i) :=
  bufferLayer_buffers.cleanDirtyFrom slot n i

theorem buffers_discardBlockFrom
    (parent serial : Nat)
    (run : RunOption)
    (n page : Nat) :
    Within ok Buffers
      (discardBlockFrom parent serial run n page) :=
  bufferLayer_buffers.discardBlockFrom parent serial run n page

theorem buffers_checkObjBufRef
    (obj : Obj)
    (node : Nat) :
    Within ok Buffers (checkObjBufRef obj node) :=
  bufferLayer_buffers.checkObjBufRef obj node

end Uffs
