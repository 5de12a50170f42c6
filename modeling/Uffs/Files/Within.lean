import Uffs.Model.Fs

/-
  The file layer stays within every relation that the
  functions below it stay within.

  `FileLayer` names what the file layer rests on: the steps
  in which it changes the tree, the buffers or the medium
  itself.  The rest of the file layer only combines them.

  Main declarations:
    * `FileBase`, `FileLayer`
    * `FileBase.writeObject`, `FileBase.readObject`
    * `FileBase.truncateObject`, `FileBase.createObjectEx`
    * `FileLayer.openObject`, `FileLayer.createObject`
    * `FileLayer.renameObject`
-/

namespace Uffs

open Prog

variable [Platform]

/- What the work on an object that is open rests on. -/
structure FileBase
    (ok : Event → Prop)
    (R : Dev → Dev → Prop) : Prop where
  setLen : ∀ n l, Within ok R (setNode n fun x => x.setLen l)
  recover : Within ok R recoverIfPending
  flushSlot : ∀ force slot,
    Within ok R (bufFlushSlot force slot)
  writeNewBlock : ∀ fnode data parent serial,
    Within ok R (doWriteNewBlock fnode data parent serial)
  writeInternalBlock : ∀ obj fnode node fdn data ofs,
    Within ok R
      (doWriteInternalBlock obj fnode node fdn data ofs)
  readFrom : ∀ obj fnode n start remain,
    Within ok R (readObjectFrom obj fnode n start remain)
  compareName : ∀ name sum node type,
    Within ok R (treeCompareFileName name sum node type)
  loadInfo : ∀ node type,
    Within ok R (loadObjectInfo node type)
  truncateInternal : ∀ obj key node maxPageId start remain,
    Within ok R
      (truncateInternal obj key node maxPageId start remain)
  truncateBlock : ∀ obj fnode fdn start run,
    Within ok R (truncateBlock obj fnode fdn start run)
  createNew : ∀ obj, Within ok R (createNew obj)
  moveObjectEx : ∀ obj newParent newName,
    Within ok R (moveObjectEx obj newParent newName)

/- See above. -/
structure FileLayer
    (ok : Event → Prop)
    (R : Dev → Dev → Prop) : Prop
    extends FileBase ok R where
  refCount : ∀ f : Int → Int, Within ok R
    (Prog.modify fun s => { s with refCount := f s.refCount })

namespace FileBase

variable {ok : Event → Prop} {R : Dev → Dev → Prop}
  [IsPreorder Dev R]

------------------------------------------------------------
-- Flushing and Closing
------------------------------------------------------------

/- By induction on the groups that are left. -/
theorem flushMatchParentFrom
    (h : FileBase ok R)
    (parent n : Nat) :
    ∀ slot, Within ok R
      (bufFlushMatchParentFrom parent n slot) := by
  induction n with
  | zero =>
      intro slot
      exact Within.pure _
  | succ n ih =>
      intro slot
      unfold bufFlushMatchParentFrom
      apply Within.bind Within.get
      intro s
      cases (s.buf.group slot).dirty with
      | nil => exact ih _
      | cons i _ =>
          apply Within.ite
          · apply Within.bind (h.flushSlot false slot)
            intro r
            cases r with
            | fail => exact Within.pure _
            | succ => exact ih _
          · exact ih _

/- A key without a group has nothing to flush. -/
theorem flushGroupEx
    (h : FileBase ok R)
    (parent serial : Nat)
    (force : Bool) :
    Within ok R (bufFlushGroupEx parent serial force) := by
  unfold bufFlushGroupEx bufFindGroupSlot
  apply Within.bind (Within.gets _)
  intro o
  cases o with
  | none => exact Within.pure _
  | some slot => exact h.flushSlot force slot

/- The first flush that fails ends the loop. -/
theorem flushAllFrom
    (h : FileBase ok R)
    (n : Nat) :
    ∀ slot, Within ok R (bufFlushAllFrom n slot) := by
  induction n with
  | zero =>
      intro slot
      exact Within.pure _
  | succ n ih =>
      intro slot
      unfold bufFlushAllFrom
      apply Within.bind (h.flushSlot false slot)
      intro r
      cases r with
      | fail => exact Within.pure _
      | succ => exact ih _

theorem flushAll (h : FileBase ok R) :
    Within ok R bufFlushAll :=
  h.flushAllFrom _ _

/-
  A directory has one group, and a file the groups of its
  DATA blocks and its own.
-/
theorem doFlushObject
    (h : FileBase ok R)
    (obj : Obj) :
    Within ok R (doFlushObject obj) := by
  unfold Uffs.doFlushObject bufFlushGroupMatchParent
    bufFlushGroup getNode
  cases obj.node with
  | none => exact Within.pure _
  | some node =>
      apply Within.bind (Within.gets _)
      intro n
      apply Within.ite
      · exact h.flushGroupEx _ _ _
      · apply Within.bind (h.flushMatchParentFrom _ _ _)
        intro r
        cases r with
        | fail => exact Within.pure _
        | succ =>
            apply Within.bind (Within.gets _)
            intro n
            exact h.flushGroupEx _ _ _

theorem flushObject
    (h : FileBase ok R)
    (obj : Obj) :
    Within ok R (flushObject obj) := by
  unfold Uffs.flushObject
  apply Within.ite (Within.pure _)
  apply Within.bind (h.doFlushObject obj)
  intro r
  cases r with
  | fail => exact Within.pure _
  | succ => exact Within.pure _

------------------------------------------------------------
-- Writing and Reading
------------------------------------------------------------

/-
  By induction on the bytes that are left: a new block is
  flushed at once, and a block of the file takes its part.
-/
theorem writeObjectFrom
    (h : FileBase ok R)
    (obj : Obj)
    (fnode n : Nat) :
    ∀ start rest, Within ok R
      (writeObjectFrom obj fnode n start rest) := by
  induction n with
  | zero =>
      intro start rest
      exact Within.pure _
  | succ n ih =>
      intro start rest
      have hFlush : ∀ parent serial,
          Within ok R (bufFlushGroup parent serial) :=
        fun parent serial => h.flushGroupEx parent serial false
      unfold Uffs.writeObjectFrom getNode treeFindDataNode
      apply Within.bind (Within.gets _)
      intro f
      apply Within.ite (Within.pure _)
      apply Within.ite
      · apply Within.bind Within.get
        intro s
        apply Within.ite (Within.pure _)
        apply Within.bind (h.writeNewBlock _ _ _ _)
        intro size
        apply Within.bind (Within.gets _)
        intro f
        have hRest : Within ok R (do
            let f ← Prog.gets fun s : Dev => s.tree.node fnode
            let _ ← bufFlushGroup f.serial
              (getFdnByOfs obj.headPages start)
            if size = 0 then
              pure (rest.length, (none : Option UErr))
            else
              Uffs.writeObjectFrom obj fnode n
                ((start + size) % 2 ^ 32)
                (rest.drop size)) := by
          apply Within.bind (Within.gets _)
          intro f
          apply Within.bind (hFlush _ _)
          intro _
          exact Within.ite (Within.pure _) (ih _ _)
        dsimp only
        apply Within.ite
        · apply Within.bind (hFlush _ _)
          intro _
          exact hRest
        · apply Within.bind (hFlush _ _)
          intro _
          exact hRest
      · have hWrite : ∀ dnode, Within ok R (do
            let size ← doWriteInternalBlock obj fnode dnode
              (getFdnByOfs obj.headPages start) rest
              (start - getStartOfDataBlock obj.headPages
                (getFdnByOfs obj.headPages start))
            if size = 0 then
              pure (rest.length, none)
            else
              Uffs.writeObjectFrom obj fnode n
                ((start + size) % 2 ^ 32)
                (rest.drop size)) := by
          intro dnode
          apply Within.bind (h.writeInternalBlock _ _ _ _ _ _)
          intro size
          exact Within.ite (Within.pure _) (ih _ _)
        dsimp only
        apply Within.ite
        · apply Within.pure_bind
          exact hWrite _
        · apply Within.bind (Within.gets _)
          intro o
          cases o with
          | none => exact Within.pure _
          | some dnode => exact hWrite dnode

theorem doWriteObject
    (h : FileBase ok R)
    (obj : Obj)
    (fnode : Nat)
    (data : List Byte) :
    Within ok R (doWriteObject obj fnode data) := by
  unfold Uffs.doWriteObject
  apply Within.bind (h.writeObjectFrom _ _ _ _ _)
  intro _
  exact Within.pure _

/- The gap between the end of the file and the position. -/
theorem writeZeros
    (h : FileBase ok R)
    (obj : Obj)
    (fnode gap : Nat) :
    Within ok R (doWriteZeros obj fnode gap) := by
  unfold doWriteZeros
  apply Within.ite
  · apply Within.bind (h.doWriteObject _ _ _)
    intro _
    exact Within.pure _
  · exact Within.pure _

/- The gap is filled before the data are written. -/
theorem writeObject
    (h : FileBase ok R)
    (obj : Obj)
    (data : List Byte) :
    Within ok R (writeObject obj data) := by
  unfold Uffs.writeObject
  apply Within.ite (Within.pure _)
  apply Within.ite (Within.pure _)
  apply Within.ite (Within.pure _)
  cases obj.node with
  | none => exact Within.diverge
  | some fnode =>
      apply Within.bind
      · unfold writeObjectSeek getNode
        apply Within.bind (Within.gets _)
        intro f
        apply Within.ite (Within.pure _)
        apply Within.ite
        · apply Within.bind (h.writeZeros _ _ _)
          intro _
          exact Within.pure _
        · exact Within.pure _
      · intro q
        rcases q with ⟨filled, obj⟩
        apply Within.ite
        · apply Within.bind h.recover
          intro _
          exact Within.pure _
        · apply Within.bind (h.doWriteObject _ _ _)
          intro q
          apply Within.bind h.recover
          intro _
          exact Within.pure _

/- An object without a node does not return. -/
theorem readObject
    (h : FileBase ok R)
    (obj : Obj)
    (len : Nat) :
    Within ok R (readObject obj len) := by
  unfold Uffs.readObject getNode
  apply Within.ite (Within.pure _)
  apply Within.ite (Within.pure _)
  cases obj.node with
  | none => exact Within.diverge
  | some fnode =>
      apply Within.bind (Within.gets _)
      intro f
      apply Within.ite (Within.pure _)
      apply Within.ite (Within.pure _)
      apply Within.bind (h.readFrom _ _ _ _ _)
      intro q
      apply Within.bind h.recover
      intro _
      exact Within.pure _

/-
  Nothing is changed; the end of a file without a node is
  not found.
-/
omit [Platform] in
theorem seekObject
    (obj : Obj)
    (offset : Int)
    (origin : Origin) :
    Within ok R (seekObject obj offset origin) := by
  have hBase : Within ok R (seekBase obj origin) := by
    unfold seekBase getNode
    cases origin with
    | cur => exact Within.pure _
    | set => exact Within.pure _
    | «end» =>
        dsimp only
        cases obj.node with
        | none => exact Within.diverge
        | some fnode =>
            apply Within.bind (Within.gets _)
            intro f
            exact Within.pure _
  unfold Uffs.seekObject
  apply Within.ite (Within.pure _)
  apply Within.bind hBase
  intro base
  exact Within.pure _

/- Like a read of the header page. -/
theorem getObjectInfo
    (h : FileBase ok R)
    (obj : Obj) :
    Within ok R (getObjectInfo obj) := by
  unfold Uffs.getObjectInfo
  apply Within.ite (Within.pure _)
  apply Within.ite (Within.pure _)
  cases obj.node with
  | none => exact Within.diverge
  | some node =>
      apply Within.bind (h.loadInfo _ _)
      intro o
      cases o with
      | none => exact Within.pure _
      | some info => exact Within.pure _

------------------------------------------------------------
-- Truncating
------------------------------------------------------------

/- What a truncation does with the node of a block. -/
theorem truncateNode
    (h : FileBase ok R)
    (obj : Obj)
    (fdn remain : Nat)
    (run : RunOption)
    (o : Option Nat) :
    Within ok R
      (match o with
      | none => pure { obj with err := .ioerr }
      | some node => do
          let n ← getNode node
          let key : GroupKey :=
            { type := if fdn = 0 then .file else .data
              parent := n.parent
              serial := n.serial }
          let maxPageId :=
            if fdn = 0 then obj.headPages else pagesPerBlock - 1
          match run with
          | .dryRun =>
              let s ← Prog.get
              if s.buf.heldFrom key.parent key.serial
                  (maxPageId + 1) 0 then
                pure { obj with err := .exist }
              else
                pure obj
          | .realRun =>
              Uffs.truncateInternal obj key node maxPageId
                (getStartOfDataBlock obj.headPages fdn)
                remain) := by
  cases o with
  | none => exact Within.pure _
  | some node =>
      unfold getNode
      apply Within.bind (Within.gets _)
      intro n
      cases run with
      | dryRun =>
          apply Within.bind Within.get
          intro s
          exact Within.ite (Within.pure _) (Within.pure _)
      | realRun => exact h.truncateInternal _ _ _ _ _ _

/- The FILE block itself, or the DATA block of the tree. -/
theorem truncateInternalBlock
    (h : FileBase ok R)
    (obj : Obj)
    (fnode fdn remain : Nat)
    (run : RunOption) :
    Within ok R (doTruncateInternalWithBlockRecover obj fnode
      fdn remain run) := by
  unfold doTruncateInternalWithBlockRecover
  apply Within.bind
  · unfold getNode
    exact Within.gets _
  · intro f
    dsimp only
    apply Within.ite
    · apply Within.bind (Within.pure _)
      exact h.truncateNode _ _ _ _
    · unfold treeFindDataNode
      apply Within.bind (Within.gets _)
      exact h.truncateNode _ _ _ _

/-
  From the last block down; a block is removed as a whole or
  cut.
-/
theorem truncateFrom
    (h : FileBase ok R)
    (fnode remain : Nat)
    (run : RunOption)
    (n : Nat) :
    ∀ flen obj, Within ok R
      (truncateFrom fnode remain run n flen obj) := by
  induction n with
  | zero =>
      intro flen obj
      unfold Uffs.truncateFrom
      exact Within.ite (Within.pure _) Within.diverge
  | succ n ih =>
      intro flen obj
      unfold Uffs.truncateFrom
      apply Within.ite (Within.pure _)
      apply Within.ite
      · apply Within.bind (h.truncateBlock _ _ _ _ _)
        intro q
        rcases q with ⟨more, obj⟩
        exact Within.ite (ih _ _) (Within.pure _)
      · apply Within.bind (h.truncateInternalBlock _ _ _ _ _)
        intro obj
        cases obj.ret with
        | fail => exact ih _ _
        | succ =>
            dsimp only
            apply Within.ite
            · apply Within.bind (h.setLen _ _)
              intro _
              exact ih _ _
            · exact ih _ _

/-
  A file that is shorter is filled with zeros, and a longer
  one is cut.
-/
theorem doTruncateObject
    (h : FileBase ok R)
    (obj : Obj)
    (remain : Nat)
    (run : RunOption) :
    Within ok R (doTruncateObject obj remain run) := by
  unfold Uffs.doTruncateObject getNode
  dsimp only
  cases obj.node with
  | none => exact Within.pure _
  | some fnode =>
      apply Within.ite (Within.pure _)
      apply Within.ite (Within.pure _)
      apply Within.bind (Within.gets _)
      intro f
      apply Within.ite
      · have hEnd : ∀ o : Obj, Within ok R (do
            recoverIfPending
            pure { o with pos := obj.pos }) := by
          intro o
          apply Within.bind h.recover
          intro _
          exact Within.pure _
        cases run with
        | dryRun =>
            apply Within.bind (Within.pure _)
            exact hEnd
        | realRun =>
            apply Within.bind (h.writeZeros _ _ _)
            intro q
            apply Within.bind (Within.pure _)
            exact hEnd
      · apply Within.bind (h.truncateFrom _ _ _ _ _ _)
        intro q
        rcases q with ⟨done, obj'⟩
        dsimp only
        apply Within.ite
        · apply Within.bind h.recover
          intro _
          exact Within.pure _
        · exact Within.pure _

/- The real run only follows a dry run that succeeds. -/
theorem truncateTwice
    (h : FileBase ok R)
    (obj : Obj)
    (remain : Nat) :
    Within ok R (truncateTwice obj remain) := by
  unfold Uffs.truncateTwice
  apply Within.bind (h.doTruncateObject _ _ _)
  intro obj
  cases obj.ret with
  | fail => exact Within.pure _
  | succ => exact h.doTruncateObject _ _ _

theorem truncateObject
    (h : FileBase ok R)
    (obj : Obj)
    (remain : Nat) :
    Within ok R (truncateObject obj remain) := by
  unfold Uffs.truncateObject
  apply Within.bind (h.truncateTwice _ _)
  intro obj
  apply Within.bind (h.flushObject obj)
  intro q
  exact Within.pure _

------------------------------------------------------------
-- Searching by Name
------------------------------------------------------------

/-
  By induction on the nodes; one is read from flash when its
  parent and its sum are those looked for.
-/
theorem findByNameFrom
    (h : FileBase ok R)
    (name : List Byte)
    (sum parent : Nat)
    (type : BlockType)
    (nodes : List Nat) :
    Within ok R
      (findByNameFrom name sum parent type nodes) := by
  induction nodes with
  | nil => exact Within.pure _
  | cons n rest ih =>
      unfold Uffs.findByNameFrom getNode
      apply Within.bind (Within.gets _)
      intro node
      apply Within.ite
      · apply Within.bind (h.compareName _ _ _ _)
        intro matched
        exact Within.ite (Within.pure _) ih
      · exact ih

theorem findFileByName
    (h : FileBase ok R)
    (name : List Byte)
    (sum parent : Nat) :
    Within ok R (treeFindFileNodeByName name sum parent) := by
  unfold treeFindFileNodeByName
  apply Within.bind Within.get
  intro s
  exact h.findByNameFrom _ _ _ _ _

theorem findDirByName
    (h : FileBase ok R)
    (name : List Byte)
    (sum parent : Nat) :
    Within ok R (treeFindDirNodeByName name sum parent) := by
  unfold treeFindDirNodeByName
  apply Within.bind Within.get
  intro s
  exact h.findByNameFrom _ _ _ _ _

------------------------------------------------------------
-- Creating and Opening
------------------------------------------------------------

/-
  A directory or file of the name stands in the way; a file
  is only truncated by the creation of a file.
-/
theorem createObjectEx
    (h : FileBase ok R)
    (obj : Obj)
    (dir : Nat)
    (name : List Byte)
    (oflag : OFlag) :
    Within ok R (createObjectEx obj dir name oflag) := by
  unfold Uffs.createObjectEx
  dsimp only
  apply Within.ite Within.diverge
  apply Within.ite (Within.pure _)
  apply Within.ite (Within.pure _)
  apply Within.ite
  · apply Within.bind (h.findFileByName _ _ _)
    intro o
    cases o with
    | some _ => exact Within.pure _
    | none =>
        apply Within.bind (h.findDirByName _ _ _)
        intro o
        cases o with
        | some _ => exact Within.pure _
        | none =>
            apply Within.bind (h.createNew _)
            intro _
            exact Within.pure _
  · apply Within.bind (h.findDirByName _ _ _)
    intro o
    cases o with
    | some _ => exact Within.pure _
    | none =>
        apply Within.bind (h.findFileByName _ _ _)
        intro o
        cases o with
        | none =>
            apply Within.bind (h.createNew _)
            intro _
            exact Within.pure _
        | some node =>
            unfold getNode
            apply Within.bind (Within.gets _)
            intro n
            apply Within.bind (h.truncateTwice _ _)
            intro _
            exact Within.pure _

/- What an open does with the node that it found. -/
theorem openFound
    (h : FileBase ok R)
    (dir : Nat)
    (oflag : OFlag)
    (obj : Obj)
    (o : Option Nat) :
    Within ok R
      (let done := fun (obj : Obj) =>
          let obj :=
            { obj with
              openSucc := decide (obj.err = UErr.noErr) }
          (obj.ret, obj)
      match o with
      | none =>
          let obj := { obj with node := none }
          if oflag.create then
            if obj.name = [] then
              pure (done { obj with err := .exist })
            else do
              let (_, obj) ← Uffs.createObjectEx obj dir
                obj.name oflag
              pure (done obj)
          else
            pure (done { obj with err := .noent })
      | some node =>
          let obj := { obj with node := some node }
          if oflag.create && oflag.excl then
            pure (done { obj with err := .exist })
          else do
            let n ← getNode node
            let obj :=
              { obj with serial := n.serial, openSucc := true }
            if oflag.trunc then
              let obj ← Uffs.truncateTwice obj 0
              pure (done obj)
            else
              pure (done obj)) := by
  cases o with
  | none =>
      apply Within.ite
      · apply Within.ite (Within.pure _)
        apply Within.bind (h.createObjectEx _ _ _ _)
        intro _
        exact Within.pure _
      · exact Within.pure _
  | some node =>
      apply Within.ite (Within.pure _)
      unfold getNode
      apply Within.bind (Within.gets _)
      intro n
      apply Within.ite
      · apply Within.bind (h.truncateTwice _ _)
        intro _
        exact Within.pure _
      · exact Within.pure _

theorem openObjectEx
    (h : FileBase ok R)
    (obj : Obj)
    (dir : Nat)
    (name : List Byte)
    (oflag : OFlag) :
    Within ok R (openObjectEx obj dir name oflag) := by
  unfold Uffs.openObjectEx
  dsimp only
  apply Within.ite (Within.pure _)
  apply Within.ite
  · exact Within.ite (Within.pure _) (Within.pure _)
  · apply Within.ite
    · apply Within.bind (h.findDirByName _ _ _)
      exact h.openFound _ _ _
    · apply Within.bind (h.findFileByName _ _ _)
      exact h.openFound _ _ _

/- By induction on the directories of the path. -/
theorem parseDirs
    (h : FileBase ok R)
    (dLen n : Nat) :
    ∀ used rest dir, Within ok R
      (parseDirs dLen n used rest dir) := by
  induction n with
  | zero =>
      intro used rest dir
      exact Within.pure _
  | succ n ih =>
      intro used rest dir
      unfold Uffs.parseDirs
      apply Within.ite (Within.pure _)
      apply Within.bind (h.findDirByName _ _ _)
      intro o
      cases o with
      | none => exact Within.pure _
      | some node =>
          unfold getNode
          apply Within.bind (Within.gets _)
          intro d
          exact ih _ _ _

end FileBase

namespace FileLayer

variable {ok : Event → Prop} {R : Dev → Dev → Prop}
  [IsPreorder Dev R]

------------------------------------------------------------
-- Objects
------------------------------------------------------------

omit [IsPreorder Dev R] in
theorem putDevice (h : FileLayer ok R) :
    Within ok R putDevice :=
  h.refCount fun c => c - 1

/- Only an attached object gives up a reference. -/
theorem releaseObject
    (h : FileLayer ok R)
    (obj : Obj) :
    Within ok R (doReleaseObjectResource obj) := by
  unfold doReleaseObjectResource
  apply Within.ite
  · apply Within.bind h.recover
    intro _
    apply Within.bind h.putDevice
    intro _
    exact Within.pure _
  · exact Within.pure _

/-
  The flush of a close may fail, and the object is released
  all the same.
-/
theorem closeObject
    (h : FileLayer ok R)
    (obj : Obj) :
    Within ok R (closeObject obj) := by
  have hRelease : ∀ o, Within ok R (do
      let o ← doReleaseObjectResource o
      pure (o.ret, o)) := by
    intro o
    apply Within.bind (h.releaseObject o)
    intro _
    exact Within.pure _
  unfold Uffs.closeObject
  apply Within.ite (hRelease _)
  dsimp only
  apply Within.ite
  · apply Within.bind (h.doFlushObject obj)
    intro _
    exact hRelease obj
  · exact hRelease obj

/- A path that is refused has taken its reference back. -/
theorem parseObject
    (h : FileLayer ok R)
    (obj : Obj)
    (path : List Byte) :
    Within ok R (parseObject obj path) := by
  unfold Uffs.parseObject
  apply Within.ite (Within.pure _)
  dsimp only
  cases path with
  | nil => exact Within.pure _
  | cons c start =>
      apply Within.ite (Within.pure _)
      apply Within.bind (h.refCount fun c => c + 1)
      intro _
      apply Within.ite (Within.pure _)
      apply Within.bind (h.parseDirs _ _ _ _ _)
      rintro ⟨found, dir⟩
      apply Within.ite (Within.pure _)
      apply Within.bind h.putDevice
      intro _
      exact Within.pure _

theorem openObject
    (h : FileLayer ok R)
    (obj : Obj)
    (path : List Byte)
    (oflag : OFlag) :
    Within ok R (openObject obj path oflag) := by
  have hRelease : ∀ obj, Within ok R (do
      let obj ← doReleaseObjectResource obj
      pure (URet.fail, obj)) := by
    intro obj
    apply Within.bind (h.releaseObject obj)
    intro _
    exact Within.pure _
  unfold Uffs.openObject
  apply Within.bind (h.parseObject obj path)
  intro q
  rcases q with ⟨ret, obj⟩
  cases ret with
  | succ =>
      apply Within.bind (h.openObjectEx _ _ _ _)
      intro q
      rcases q with ⟨ret, obj⟩
      cases ret with
      | succ => exact Within.pure _
      | fail => exact hRelease obj
  | fail =>
      apply Within.pure_bind
      exact hRelease obj

/- A failing creation detaches the object. -/
theorem createObject
    (h : FileLayer ok R)
    (obj : Obj)
    (path : List Byte)
    (oflag : OFlag) :
    Within ok R (createObject obj path oflag) := by
  have hEnd : ∀ obj : Obj, Within ok R
      (if obj.err = .noErr then
        pure (URet.succ, obj)
      else do
        if obj.dev then
          Uffs.putDevice
        pure (.fail, { obj with dev := false })) := by
    intro obj
    apply Within.ite (Within.pure _)
    apply Within.ite
    · apply Within.bind h.putDevice
      intro _
      exact Within.pure _
    · exact Within.pure _
  unfold Uffs.createObject
  apply Within.bind (h.parseObject obj path)
  intro q
  rcases q with ⟨ret, obj⟩
  cases ret with
  | fail =>
      apply Within.bind (Within.pure _)
      exact hEnd
  | succ =>
      apply Within.bind (h.createObjectEx _ _ _ _)
      intro q
      apply Within.bind (Within.pure _)
      exact hEnd

/- The old path is a directory or a file. -/
theorem renameTo
    (h : FileLayer ok R)
    (target : Obj)
    (oldPath : List Byte) :
    Within ok R (renameTo target oldPath) := by
  have hMove : ∀ obj, Within ok R (do
      let r ←
        Uffs.moveObjectEx obj target.parent target.name
      let _ ← Uffs.closeObject r.2
      pure (r.1, r.2.err)) := by
    intro obj
    apply Within.bind (h.moveObjectEx _ _ _)
    intro r
    apply Within.bind (h.closeObject _)
    intro _
    exact Within.pure _
  unfold Uffs.renameTo
  apply Within.bind (h.openObject _ _ _)
  intro q
  rcases q with ⟨ret, obj⟩
  cases ret with
  | succ =>
      apply Within.pure_bind
      exact hMove obj
  | fail =>
      apply Within.bind (h.openObject _ _ _)
      intro q
      rcases q with ⟨ret, obj⟩
      cases ret with
      | succ => exact hMove obj
      | fail => exact Within.pure _

/- The new path may be taken by a directory or by a file. -/
theorem pathTaken
    (h : FileLayer ok R)
    (path : List Byte) :
    Within ok R (pathTaken path) := by
  have hClose : ∀ obj, Within ok R (do
      let r ← Uffs.closeObject obj
      pure (true, r.2)) := by
    intro obj
    apply Within.bind (h.closeObject obj)
    intro _
    exact Within.pure _
  unfold Uffs.pathTaken
  apply Within.bind (h.openObject _ _ _)
  intro q
  rcases q with ⟨ret, obj⟩
  cases ret with
  | succ => exact hClose obj
  | fail =>
      apply Within.bind (h.openObject _ _ _)
      intro q
      rcases q with ⟨ret, obj⟩
      cases ret with
      | succ => exact hClose obj
      | fail => exact Within.pure _

theorem renameObject
    (h : FileLayer ok R)
    (oldPath newPath : List Byte)
    (used : Nat) :
    Within ok R (renameObject oldPath newPath used) := by
  have hRelease : ∀ (obj : Obj) (r : URet × UErr),
      Within ok R (do
        let _ ← doReleaseObjectResource obj
        pure r) := by
    intro obj r
    apply Within.bind (h.releaseObject obj)
    intro _
    exact Within.pure _
  unfold Uffs.renameObject
  apply Within.ite (Within.pure _)
  apply Within.bind (h.pathTaken newPath)
  intro q
  rcases q with ⟨taken, target⟩
  apply Within.ite (hRelease _ _)
  apply Within.bind (h.parseObject _ _)
  intro q
  rcases q with ⟨ret, target⟩
  cases ret with
  | fail => exact hRelease _ _
  | succ =>
      apply Within.ite (hRelease _ _)
      apply Within.bind (h.renameTo _ _)
      exact hRelease _

end FileLayer

end Uffs
