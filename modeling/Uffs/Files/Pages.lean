import Uffs.Files.Buffers
import Uffs.Files.Within
import Uffs.Tree.Parts

/-
  The file layer over the page buffers.

  `PageLayer` is for relations in which the page buffers may
  change in any way: it names the steps of the file layer
  that do more than that.

  Main declarations:
    * `TreeNode.InPlace`
    * `PageLayer`
    * `PageLayer.fileBase`
-/

namespace Uffs

open Prog

variable [Platform]

------------------------------------------------------------
-- Lengths and Names of Nodes
------------------------------------------------------------

/-
  A change that keeps the block and the place of a node in
  the hash entries, and does nothing to a listed node.
-/
structure TreeNode.InPlace (f : TreeNode → TreeNode) :
    Prop where
  list : ∀ x, x.isList → f x = x
  block : ∀ x, (f x).block = x.block
  type : ∀ x, (f x).type = x.type
  hash : ∀ x, (f x).hash x.type = x.hash x.type

omit [Platform] in
theorem TreeNode.inPlace_setLen (g : TreeNode → Nat) :
    TreeNode.InPlace fun x => x.setLen (g x) := by
  constructor
  · intro x hList
    cases x with
    | list _ _ _ _ => rfl
    | dir _ _ _ _ => cases hList
    | file _ _ _ _ _ => cases hList
    | data _ _ _ _ => cases hList
  · intro x
    cases x with
    | list _ _ _ _ => rfl
    | dir _ _ _ _ => rfl
    | file _ _ _ _ _ => rfl
    | data _ _ _ _ => rfl
  · intro x
    cases x with
    | list _ _ _ _ => rfl
    | dir _ _ _ _ => rfl
    | file _ _ _ _ _ => rfl
    | data _ _ _ _ => rfl
  · intro x
    cases x with
    | list _ _ _ _ => rfl
    | dir _ _ _ _ => rfl
    | file _ _ _ _ _ => rfl
    | data _ _ _ _ => rfl

omit [Platform] in
theorem TreeNode.inPlace_setName (sum parent : Nat) :
    TreeNode.InPlace fun x => x.setName sum parent := by
  constructor
  · intro x hList
    cases x with
    | list _ _ _ _ => rfl
    | dir _ _ _ _ => cases hList
    | file _ _ _ _ _ => cases hList
    | data _ _ _ _ => cases hList
  · intro x
    cases x with
    | list _ _ _ _ => rfl
    | dir _ _ _ _ => rfl
    | file _ _ _ _ _ => rfl
    | data _ _ _ _ => rfl
  · intro x
    cases x with
    | list _ _ _ _ => rfl
    | dir _ _ _ _ => rfl
    | file _ _ _ _ _ => rfl
    | data _ _ _ _ => rfl
  · intro x
    cases x with
    | list _ _ _ _ => rfl
    | dir _ _ _ _ => rfl
    | file _ _ _ _ _ => rfl
    | data _ _ _ _ => rfl

omit [Platform] in
theorem TreeNode.inPlace_ite
    {c : TreeNode → Prop}
    [DecidablePred c]
    {f : TreeNode → TreeNode}
    (h : TreeNode.InPlace f) :
    TreeNode.InPlace fun x => if c x then f x else x := by
  constructor
  · intro x hList
    split
    · exact h.list x hList
    · rfl
  · intro x
    split
    · exact h.block x
    · rfl
  · intro x
    split
    · exact h.type x
    · rfl
  · intro x
    split
    · exact h.hash x
    · rfl

------------------------------------------------------------
-- Page Buffers
------------------------------------------------------------

/- What the functions of the file layer rest on. -/
structure PageBase
    (ok : Event → Prop)
    (R : Dev → Dev → Prop) : Prop
    extends BufferLayer ok R where
  nextAnswer : Within ok R nextAnswer
  setInPlace : ∀ n {f : TreeNode → TreeNode},
    TreeNode.InPlace f → Within ok R (setNode n f)
  recover : Within ok R recoverIfPending
  flushSlot : ∀ force slot,
    Within ok R (bufFlushSlot force slot)
  load : ∀ type parent serial pageId noEcc node i,
    Within ok R
      (bufLoad type parent serial pageId noEcc node i)
  truncateBlock : ∀ obj fnode fdn start run,
    Within ok R (truncateBlock obj fnode fdn start run)

/- See above. -/
structure PageLayer
    (ok : Event → Prop)
    (R : Dev → Dev → Prop) : Prop where
  buffers : ∀ {α : Type} {m : M α},
    Within ok Buffers m → Within ok R m
  nextAnswer : Within ok R nextAnswer
  setInPlace : ∀ n {f : TreeNode → TreeNode},
    TreeNode.InPlace f → Within ok R (setNode n f)
  recover : Within ok R recoverIfPending
  flushSlot : ∀ force slot,
    Within ok R (bufFlushSlot force slot)
  load : ∀ type parent serial pageId noEcc node i,
    Within ok R
      (bufLoad type parent serial pageId noEcc node i)
  expireBlock : ∀ {α : Type} block (a : α), Within ok R (do
    match ← blockInfoGet block with
    | none => pure a
    | some bc =>
        blockInfoExpireAll bc
        blockInfoPut bc
        pure a)
  truncateBlock : ∀ obj fnode fdn start run,
    Within ok R (truncateBlock obj fnode fdn start run)
  watchTruncation : ∀ w, Within ok R (watchTruncation w)

namespace PageBase

variable {ok : Event → Prop} {R : Dev → Dev → Prop}
  [IsPreorder Dev R]

omit [Platform] in
protected theorem noteWhen
    (c : Dev → Bool)
    (n : Note) : Within ok R (noteWhen c n) := by
  unfold noteWhen
  apply Within.bind Within.get
  intro s
  exact Within.ite (Within.emit _) (Within.pure _)

protected theorem bufFlushMostDirtyGroup (h : PageBase ok R) :
    Within ok R bufFlushMostDirtyGroup := by
  unfold bufFlushMostDirtyGroup
  apply Within.bind Within.get
  intro s
  cases s.buf.findMostDirtyGroup with
  | none => exact Within.pure _
  | some slot => exact h.flushSlot false slot

protected theorem bufFlushGroupEx
    (h : PageBase ok R)
    (parent serial : Nat)
    (force : Bool) :
    Within ok R
      (bufFlushGroupEx parent serial force) := by
  unfold bufFlushGroupEx bufFindGroupSlot
  apply Within.bind (Within.gets _)
  intro o
  cases o with
  | none => exact Within.pure _
  | some slot => exact h.flushSlot force slot

protected theorem findFreeBufOrFlush (h : PageBase ok R) :
    Within ok R findFreeBufOrFlush := by
  unfold findFreeBufOrFlush findFreeBuf
  apply Within.bind (Within.gets _)
  intro o
  cases o with
  | some i => exact Within.pure _
  | none =>
      apply Within.bind h.bufFlushMostDirtyGroup
      intro _
      exact Within.gets _

protected theorem bufNew
    (h : PageBase ok R)
    (type : BlockType)
    (parent serial pageId : Nat) :
    Within ok R
      (bufNew type parent serial pageId) := by
  have hEnd : ∀ i (f : Buf → Buf), Unmarking f →
      Within ok R (do
        setBuf i f
        moveNodeToHead i
        pure (some i)) := by
    intro i f hf
    apply Within.bind (h.rekey i f hf)
    intro _
    apply Within.bind (h.moveNodeToHead i)
    intro _
    exact Within.pure _
  unfold bufNew
  apply Within.bind (h.bufGet _ _ _)
  intro o
  cases o with
  | some i =>
      apply Within.bind (Within.gets _)
      intro b
      dsimp only
      apply Within.ite
      · exact hEnd i _ fun _ => id
      · apply Within.bind (h.moveNodeToHead i)
        intro _
        exact Within.pure _
  | none =>
      apply Within.bind h.findFreeBufOrFlush
      intro o
      cases o with
      | none => exact Within.pure _
      | some i => exact hEnd i _ fun _ => id

protected theorem bufGetEx
    (h : PageBase ok R)
    (type : BlockType)
    (node pageId : Nat)
    (noEcc : Bool) :
    Within ok R
      (bufGetEx type node pageId noEcc) := by
  unfold bufGetEx
  apply Within.ite (Within.pure _)
  unfold getNode
  apply Within.bind (Within.gets _)
  intro n
  apply Within.bind (Within.gets _)
  intro o
  cases o with
  | some i =>
      refine Within.bind (h.rekey i _ fun _ => id) ?_
      intro _
      exact Within.pure _
  | none =>
      apply Within.bind h.findFreeBufOrFlush
      intro o
      cases o with
      | none => exact Within.pure _
      | some i => exact h.load _ _ _ _ _ _ _

protected theorem bufWrite
    (h : PageBase ok R)
    (i : Nat)
    (data : List Byte)
    (ofs : Nat) :
    Within ok R
      (bufWrite i data ofs) := by
  unfold bufWrite
  dsimp only
  apply Within.ite (Within.pure _)
  apply Within.bind (Within.gets _)
  intro b
  apply Within.bind
  · unfold bufWriteSlot bufFindGroupSlot bufFindFreeGroupSlot
    apply Within.bind (Within.gets _)
    intro o
    cases o with
    | some slot => exact Within.pure _
    | none =>
        apply Within.bind (Within.gets _)
        intro o
        cases o with
        | some slot => exact Within.pure _
        | none =>
            apply Within.bind h.bufFlushMostDirtyGroup
            intro r
            cases r with
            | fail => exact Within.pure _
            | succ => exact Within.gets _
  · intro o
    cases o with
    | none => exact Within.pure _
    | some slot =>
        have hEnd : Within ok R (do
            let g ← getGroup slot
            if g.count ≥ dirtyBufMax then
              bufFlushGroup b.parent b.serial
            else
              pure .succ) := by
          apply Within.bind (Within.gets _)
          intro g
          exact Within.ite (h.bufFlushGroupEx _ _ _)
            (Within.pure _)
        refine Within.bind (h.rekey i _ fun _ => id) ?_
        intro _
        apply Within.bind (Within.gets _)
        intro g
        apply Within.ite
        · apply Within.bind (h.linkToDirtyList slot i)
          intro _
          exact hEnd
        · exact hEnd

------------------------------------------------------------
-- Reading and Writing
------------------------------------------------------------

protected theorem writeNewBlockFrom
    (h : PageBase ok R)
    (fnode parent serial n : Nat) :
    ∀ pageId rest wrote,
      Within ok R
        (writeNewBlockFrom fnode parent serial n pageId rest
          wrote) := by
  induction n with
  | zero =>
      intro pageId rest wrote
      exact Within.pure _
  | succ n ih =>
      intro pageId rest wrote
      unfold writeNewBlockFrom
      apply Within.ite (Within.pure _)
      apply Within.bind (h.bufNew _ _ _ _)
      intro o
      cases o with
      | none => exact Within.pure _
      | some i =>
          apply Within.bind (h.bufWrite _ _ _)
          intro ret
          apply Within.bind (h.bufPut i)
          intro _
          cases ret with
          | fail => exact Within.pure _
          | succ =>
              apply Within.bind (h.setInPlace _
                (TreeNode.inPlace_setLen _))
              intro _
              exact ih _ _ _

/- Write one page, and go on when that went well. -/
protected theorem writePage
    (h : PageBase ok R)
    (i fnode pageOfs wrote : Nat)
    (data : List Byte)
    {f : TreeNode → TreeNode}
    (hInPlace : TreeNode.InPlace f)
    {next : Prog Dev Event Nat}
    (hNext : Within ok R next) :
    Within ok R (do
      let ret ← bufWrite i data pageOfs
      let _ ← bufPut i
      match ret with
      | .fail => pure wrote
      | .succ =>
          setNode fnode f
          next) := by
  apply Within.bind (h.bufWrite _ _ _)
  intro ret
  apply Within.bind (h.bufPut i)
  intro _
  cases ret with
  | fail => exact Within.pure _
  | succ =>
      apply Within.bind (h.setInPlace _ hInPlace)
      intro _
      exact hNext

protected theorem writeInternalFrom
    (h : PageBase ok R)
    (obj : Obj)
    (fnode node : Nat)
    (key : GroupKey)
    (fdn n : Nat) :
    ∀ blockOfs rest wrote,
      Within ok R
        (writeInternalFrom obj fnode node key fdn n blockOfs
          rest wrote) := by
  induction n with
  | zero =>
      intro blockOfs rest wrote
      exact Within.pure _
  | succ n ih =>
      intro blockOfs rest wrote
      have hInPlace : ∀ size, TreeNode.InPlace fun x =>
          if getStartOfDataBlock obj.headPages fdn +
              (blockOfs + size) > x.len then
            x.setLen
              (getStartOfDataBlock obj.headPages fdn +
                (blockOfs + size))
          else
            x := by
        intro size
        exact TreeNode.inPlace_ite (TreeNode.inPlace_setLen _)
      unfold writeInternalFrom
      apply Within.ite (Within.pure _)
      apply Within.bind (Within.gets _)
      intro f
      dsimp only
      apply Within.ite
      · apply Within.bind (h.bufNew _ _ _ _)
        intro o
        cases o with
        | none => exact Within.pure _
        | some i =>
            exact h.writePage i _ _ _ _ (hInPlace _) (ih _ _ _)
      · apply Within.bind (h.bufGetEx _ _ _ _)
        intro o
        cases o with
        | none => exact Within.pure _
        | some i =>
            exact h.writePage i _ _ _ _ (hInPlace _) (ih _ _ _)

/- Read one page, and go on behind what it holds. -/
protected theorem readPage
    (h : PageBase ok R)
    (type : BlockType)
    (dnode pageId : Nat)
    (noEcc : Bool)
    (start remain : Nat)
    (next : Nat →
      Prog Dev Event (List (Option Byte) × Option UErr))
    (hNext : ∀ size, Within ok R (next size)) :
    Within ok R (do
      match ← bufGetEx type dnode pageId noEcc with
      | none => pure ([], some .ioerr)
      | some i =>
          let pageOfs := start % pgDataSize
          let b ← getBuf i
          if pageOfs ≥ b.dataLen then do
            let _ ← bufPut i
            pure ([], none)
          else do
            let size :=
              if remain + pageOfs > b.dataLen then
                b.dataLen - pageOfs
              else remain
            let bytes ← bufRead i pageOfs size
            let _ ← bufPut i
            let (more, err) ← next size
            pure (copied bytes size ++ more, err)) := by
  apply Within.bind (h.bufGetEx _ _ _ _)
  intro o
  cases o with
  | none => exact Within.pure _
  | some i =>
      apply Within.bind (Within.gets _)
      intro b
      apply Within.ite
      · apply Within.bind (h.bufPut i)
        intro _
        exact Within.pure _
      · unfold bufRead
        apply Within.bind
        · apply Within.bind (Within.gets _)
          intro _
          exact Within.pure _
        · intro bytes
          apply Within.bind (h.bufPut i)
          intro _
          apply Within.bind (hNext _)
          intro _
          exact Within.pure _

protected theorem readObjectFrom
    (h : PageBase ok R)
    (obj : Obj)
    (fnode n : Nat) :
    ∀ start remain,
      Within ok R
        (readObjectFrom obj fnode n start remain) := by
  induction n with
  | zero =>
      intro start remain
      exact Within.pure _
  | succ n ih =>
      intro start remain
      unfold readObjectFrom
      apply Within.bind (Within.gets _)
      intro f
      apply Within.ite (Within.pure _)
      have hNext : ∀ size, Within ok R
          (readObjectFrom obj fnode n ((start + size) % 2 ^ 32)
            (remain - size)) := by
        intro size
        exact ih _ _
      dsimp only
      apply Within.ite
      · apply Within.pure_bind
        exact h.readPage _ _ _ _ start remain _ hNext
      · unfold treeFindDataNode
        apply Within.bind (Within.gets _)
        intro o
        cases o with
        | none => exact Within.pure _
        | some dnode =>
            exact h.readPage _ _ _ _ start remain _ hNext

protected theorem treeCompareFileName
    (h : PageBase ok R)
    (name : List Byte)
    (sum node : Nat)
    (type : BlockType) :
    Within ok R
      (treeCompareFileName name sum node type) := by
  unfold treeCompareFileName
  apply Within.bind (h.bufGetEx _ _ _ _)
  intro o
  cases o with
  | none => exact Within.pure _
  | some i =>
      apply Within.bind (Within.gets _)
      intro b
      apply Within.bind (h.bufPut i)
      intro _
      exact Within.pure _

protected theorem loadObjectInfo
    (h : PageBase ok R)
    (node : Nat)
    (type : BlockType) :
    Within ok R (loadObjectInfo node type) := by
  unfold loadObjectInfo
  apply Within.bind (h.bufGetEx _ _ _ _)
  intro o
  cases o with
  | none => exact Within.pure _
  | some i =>
      apply Within.bind (Within.gets _)
      intro b
      apply Within.bind (Within.gets _)
      intro n
      apply Within.bind (h.bufPut i)
      intro _
      exact Within.pure _

protected theorem getCurDateTime (h : PageBase ok R) :
    Within ok R getCurDateTime := by
  unfold getCurDateTime
  apply Within.bind (h.nextAnswer)
  intro _
  exact Within.pure _

protected theorem createNew (h : PageBase ok R) (obj : Obj) :
    Within ok R (createNew obj) := by
  unfold createNew findFreeFsnSerial
  apply Within.bind (Within.gets _)
  intro o
  cases o with
  | none => exact Within.pure _
  | some serial =>
      apply Within.bind Within.get
      intro s
      apply Within.ite (Within.pure _)
      apply Within.bind (h.bufNew _ _ _ _)
      intro o
      cases o with
      | none => exact Within.pure _
      | some i =>
          apply Within.bind h.getCurDateTime
          intro now
          apply Within.bind (h.bufWrite _ _ _)
          intro _
          apply Within.bind (h.bufPut i)
          intro _
          apply Within.bind (h.bufFlushGroupEx _ _ _)
          intro _
          unfold treeFindFsNode treeFindDirNode treeFindFileNode
          apply Within.bind
            (Within.ite (Within.gets _) (Within.gets _))
          intro o
          cases o with
          | none => exact Within.pure _
          | some node =>
              have hEnd : ∀ o : Obj,
                  Within ok R (do
                    recoverIfPending
                    pure o) := by
                intro o
                apply Within.bind h.recover
                intro _
                exact Within.pure _
              apply Within.ite
              · apply Within.bind (h.setInPlace _
                  (TreeNode.inPlace_setLen _))
                intro _
                exact hEnd _
              · exact hEnd _

protected theorem moveObjectEx
    (h : PageBase ok R)
    (obj : Obj)
    (newParent : Nat)
    (newName : List Byte) :
    Within ok R
      (moveObjectEx obj newParent newName) := by
  unfold moveObjectEx
  cases obj.node with
  | none => exact Within.pure _
  | some node =>
      have hMoved : ∀ obj : Obj, Within ok R (do
          setNode node fun n => n.setName obj.sum newParent
          pure (obj.ret, obj)) := by
        intro obj
        apply Within.bind (h.setInPlace _
          (TreeNode.inPlace_setName _ _))
        intro _
        exact Within.pure _
      apply Within.ite (Within.pure _)
      dsimp only
      apply Within.ite
      · apply Within.pure_bind
        exact hMoved _
      · apply Within.bind (h.bufGetEx _ _ _ _)
        intro o
        cases o with
        | none =>
            apply Within.pure_bind
            exact Within.pure _
        | some i =>
            apply Within.bind (Within.gets _)
            intro b
            apply Within.bind h.getCurDateTime
            intro now
            apply Within.bind (PageBase.noteWhen _ _)
            intro _
            refine Within.bind (h.rekey i _ fun _ => id) ?_
            intro _
            apply Within.bind (h.bufWrite _ _ _)
            intro _
            apply Within.bind (h.bufPut i)
            intro _
            apply Within.bind (h.bufFlushGroupEx _ _ _)
            intro _
            apply Within.pure_bind
            exact hMoved _

protected theorem fileBase
    (h : PageBase ok R)
    (hTruncate : ∀ obj key node maxPageId start remain,
      Within ok R
        (truncateInternal obj key node maxPageId start
          remain)) : FileBase ok R where
  setLen n l := h.setInPlace n
    (TreeNode.inPlace_setLen fun _ => l)
  recover := h.recover
  flushSlot := h.flushSlot
  writeNewBlock fnode data parent serial :=
    h.writeNewBlockFrom _ _ _ _ _ _ _
  writeInternalBlock obj fnode node fdn data ofs := by
    unfold doWriteInternalBlock
    apply Within.bind (Within.gets _)
    intro n
    exact h.writeInternalFrom _ _ _ _ _ _ _ _ _
  readFrom := h.readObjectFrom
  compareName := h.treeCompareFileName
  loadInfo := h.loadObjectInfo
  truncateInternal := hTruncate
  truncateBlock := h.truncateBlock
  createNew := h.createNew
  moveObjectEx := h.moveObjectEx

end PageBase

namespace PageLayer

variable {ok : Event → Prop} {R : Dev → Dev → Prop}
  [IsPreorder Dev R]

omit [IsPreorder Dev R] in
theorem pageBase (h : PageLayer ok R) : PageBase ok R where
  rekey i f _ := h.buffers (buffers_setBuf i f)
  setGroup slot f := h.buffers (buffers_setGroup slot f)
  setLists _ _ := h.buffers (Within.modify fun _ => rfl)
  nextAnswer := h.nextAnswer
  setInPlace := h.setInPlace
  recover := h.recover
  flushSlot := h.flushSlot
  load := h.load
  truncateBlock := h.truncateBlock

------------------------------------------------------------
-- Truncating
------------------------------------------------------------

protected theorem truncateInternal
    (h : PageLayer ok R)
    (obj : Obj)
    (key : GroupKey)
    (node maxPageId blockStart remain : Nat) :
    Within ok R
      (truncateInternal obj key node maxPageId blockStart
        remain) := by
  have hBase : PageBase ok R := h.pageBase
  have hTail : ∀ i n pageId last (m : M Obj),
      Within ok R m →
        Within ok R (do
          setBuf i fun b =>
            { b with
              dataLen := truncDataLen remain
              truncTail := true }
          let _ ← bufPut i
          markEmptyFrom key.parent key.serial n pageId
          noteWhen (fun s => !s.buf.linksPage i key.type last)
            .tailNotWritten
          Uffs.watchTruncation (some (blockStart, remain))
          let _ ← bufFlushGroupEx key.parent key.serial true
          Uffs.watchTruncation none
          noteWhen (fun s => s.buf.linked i) .tailNotWritten
          m) := by
    intro i n pageId last m hm
    apply Within.bind (h.buffers (buffers_setBuf i _))
    intro _
    apply Within.bind (hBase.bufPut i)
    intro _
    apply Within.bind (hBase.markEmptyFrom _ _ _ _)
    intro _
    apply Within.bind (PageBase.noteWhen _ _)
    intro _
    apply Within.bind (h.watchTruncation _)
    intro _
    apply Within.bind (hBase.bufFlushGroupEx _ _ _)
    intro _
    apply Within.bind (h.watchTruncation _)
    intro _
    apply Within.bind (PageBase.noteWhen _ _)
    intro _
    exact hm
  unfold truncateInternal
  apply Within.bind (Within.gets _)
  intro n
  dsimp only
  apply Within.ite (Within.pure _)
  apply Within.bind (hBase.bufFlushGroupEx _ _ _)
  intro _
  apply Within.bind (hBase.bufGetEx _ _ _ _)
  intro o
  cases o with
  | none => exact Within.pure _
  | some i =>
      apply Within.bind (hBase.bufWrite _ _ _)
      intro _
      unfold bufFindGroupSlot
      apply Within.bind (Within.gets _)
      intro slot
      cases slot with
      | none => exact hTail _ _ _ _ _ (h.expireBlock _ _)
      | some slot =>
          unfold bufLockGroup bufUnLockGroup
          apply Within.bind (hBase.setGroup slot _)
          intro _
          apply hTail
          apply Within.bind (hBase.setGroup slot _)
          intro _
          exact h.expireBlock _ _

theorem fileBase (h : PageLayer ok R) : FileBase ok R :=
  h.pageBase.fileBase h.truncateInternal

end PageLayer

end Uffs
