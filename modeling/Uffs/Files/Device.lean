import Uffs.Model.Build

/-
  What is below the files stays within every relation that
  the functions below it stay within.

  `DeviceLayer` names the steps in which the block info
  cache, the medium and the clone buffers change.  The
  searches in a block, the erased list, the recovery of
  pending blocks and the mount only combine them with
  changes of the tree.

  Main declarations:
    * `InfoLayer`, `BlockLayer`, `DeviceLayer`
    * `BlockLayer.treeGetErasedNode`,
      `BlockLayer.treeEraseNode`
    * `DeviceLayer.recoverIfPending`
    * `DeviceLayer.buildTree`
-/

namespace Uffs

open Prog

variable [Platform]

/- What the searches in a block rest on. -/
structure InfoLayer
    (ok : Event → Prop)
    (R : Dev → Dev → Prop) : Prop where
  infoLoad : ∀ i p, Within ok R (blockInfoLoad i p)
  infoLoadAll : ∀ i, Within ok R (blockInfoLoadAll i)

/- What the lists of erased and bad blocks rest on. -/
structure BlockLayer
    (ok : Event → Prop)
    (R : Dev → Dev → Prop) : Prop
    extends InfoLayer ok R where
  modifyTree : ∀ f, Within ok R (modifyTree f)
  nextAnswer : Within ok R nextAnswer
  infoGet : ∀ b, Within ok R (blockInfoGet b)
  infoPut : ∀ i, Within ok R (blockInfoPut i)
  infoExpireAll : ∀ i, Within ok R (blockInfoExpireAll i)
  eraseBlock : ∀ b, Within ok R (flashEraseBlock b)
  markBad : ∀ b, Within ok R (flashMarkBadBlock b)
  checkErased : ∀ b, Within ok R (flashCheckErasedBlock b)
  prepareErased : ∀ n, Within ok R (prepareErased n)

/- See above. -/
structure DeviceLayer
    (ok : Event → Prop)
    (R : Dev → Dev → Prop) : Prop
    extends BlockLayer ok R where
  pending : ∀ f : Pending → Pending, Within ok R
    (Prog.modify fun s => { s with pending := f s.pending })
  pendingOnce : ∀ k bc bad retry, Within ok R retry →
    Within ok R (pendingOnce k bc bad retry)
  loadNameSum : ∀ n bc block,
    Within ok R (loadNameSum n bc block)

------------------------------------------------------------
-- Searching a Block
------------------------------------------------------------

namespace InfoLayer

variable {ok : Event → Prop} {R : Dev → Dev → Prop}
  [IsPreorder Dev R]

/- Reading the state is within every relation. -/
omit [Platform] in
theorem getInfo (i : Nat) : Within ok R (getInfo i) :=
  Within.gets _

omit [Platform] in
theorem getTag (i p : Nat) : Within ok R (getTag i p) :=
  Within.gets _

/- By induction on the pages behind the first one. -/
theorem findBestFrom
    (h : InfoLayer ok R)
    (bc : Nat)
    (old : Tag)
    (page n : Nat) :
    Within ok R (findBestFrom bc old page n) := by
  induction n with
  | zero => exact Within.pure _
  | succ n ih =>
      unfold Uffs.findBestFrom
      apply Within.bind (h.infoLoad _ _)
      intro _
      apply Within.bind (getTag _ _)
      intro tag
      exact Within.ite (Within.pure _) ih

/- No page, the page itself, or the best one behind it. -/
theorem findBestPageInBlock
    (h : InfoLayer ok R)
    (bc page : Nat) :
    Within ok R (findBestPageInBlock bc page) := by
  unfold Uffs.findBestPageInBlock
  apply Within.bind (h.infoLoad _ _)
  intro _
  apply Within.bind (getTag _ _)
  intro old
  apply Within.ite (Within.pure _)
  apply Within.ite (Within.pure _)
  apply Within.bind (h.infoLoad _ _)
  intro _
  apply Within.bind (getTag _ _)
  intro tag
  apply Within.ite (Within.pure _)
  apply Within.bind (h.findBestFrom _ _ _ _)
  intro best
  exact Within.pure _

/- By induction on the pages that are left. -/
theorem findPageFrom
    (h : InfoLayer ok R)
    (bc pageId n : Nat) :
    ∀ page, Within ok R (findPageFrom bc pageId n page) := by
  induction n with
  | zero =>
      intro page
      exact Within.pure _
  | succ n ih =>
      intro page
      unfold Uffs.findPageFrom
      apply Within.bind (h.infoLoad _ _)
      intro _
      apply Within.bind (getTag _ _)
      intro tag
      exact Within.ite (Within.pure _) (ih _)

theorem findPageInBlockWithPageId
    (h : InfoLayer ok R)
    (bc pageId : Nat) :
    Within ok R (findPageInBlockWithPageId bc pageId) :=
  h.findPageFrom _ _ _ _

theorem isThisBlockUsed
    (h : InfoLayer ok R)
    (bc : Nat) :
    Within ok R (isThisBlockUsed bc) := by
  unfold Uffs.isThisBlockUsed
  apply Within.bind (h.infoLoad _ _)
  intro _
  apply Within.bind (getTag _ _)
  intro tag
  exact Within.pure _

theorem getBlockTimeStamp
    (h : InfoLayer ok R)
    (bc : Nat) :
    Within ok R (getBlockTimeStamp bc) := by
  unfold Uffs.getBlockTimeStamp
  apply Within.bind (h.isThisBlockUsed bc)
  intro used
  apply Within.ite (Within.pure _)
  apply Within.bind (h.infoLoad _ _)
  intro _
  apply Within.bind (getTag _ _)
  intro tag
  exact Within.pure _

/- A tag that cannot be loaded is not erased. -/
theorem isPageErased
    (h : InfoLayer ok R)
    (bc page : Nat) :
    Within ok R (isPageErased bc page) := by
  unfold Uffs.isPageErased
  apply Within.bind (h.infoLoad _ _)
  intro r
  cases r with
  | fail => exact Within.pure _
  | succ =>
      apply Within.bind (getTag _ _)
      intro tag
      exact Within.pure _

/- From the last page down, to the first one that is good. -/
theorem getFreePagesFrom
    (h : InfoLayer ok R)
    (bc n : Nat) :
    ∀ count, Within ok R (getFreePagesFrom bc n count) := by
  induction n with
  | zero =>
      intro count
      exact Within.pure _
  | succ n ih =>
      intro count
      unfold Uffs.getFreePagesFrom
      apply Within.bind (h.infoLoad _ _)
      intro _
      apply Within.bind (h.isPageErased _ _)
      intro erased
      apply Within.ite (ih _)
      apply Within.bind (getTag _ _)
      intro tag
      exact Within.ite (Within.pure _) (ih _)

theorem getFreePagesCount
    (h : InfoLayer ok R)
    (bc : Nat) :
    Within ok R (getFreePagesCount bc) :=
  h.getFreePagesFrom _ _ _

/- By induction on the pages that are left. -/
theorem findErasedPageFrom
    (h : InfoLayer ok R)
    (bc n : Nat) :
    ∀ page, Within ok R (findErasedPageFrom bc n page) := by
  induction n with
  | zero =>
      intro page
      exact Within.pure _
  | succ n ih =>
      intro page
      unfold Uffs.findErasedPageFrom
      apply Within.bind (h.isPageErased _ _)
      intro erased
      exact Within.ite (Within.pure _) (ih _)

/- A page counts once, with the length of its best copy. -/
theorem blockLengthFrom
    (h : InfoLayer ok R)
    (bc n : Nat) :
    ∀ i pageId size,
      Within ok R (blockLengthFrom bc n i pageId size) := by
  induction n with
  | zero =>
      intro i pageId size
      exact Within.pure _
  | succ n ih =>
      intro i pageId size
      unfold Uffs.blockLengthFrom
      apply Within.bind (getTag _ _)
      intro tag
      apply Within.ite
      · apply Within.bind (h.findBestPageInBlock _ _)
        intro o
        cases o with
        | none => exact ih _ _ _
        | some page =>
            apply Within.bind (getTag _ _)
            intro tag
            exact ih _ _ _
      · exact ih _ _ _

/-
  The length of a full block is read off its last page; for
  another one all tags are loaded.
-/
theorem getBlockFileDataLength
    (h : InfoLayer ok R)
    (bc : Nat)
    (type : BlockType) :
    Within ok R (getBlockFileDataLength bc type) := by
  unfold Uffs.getBlockFileDataLength
  apply Within.bind (h.infoLoad _ _)
  intro _
  apply Within.bind (getTag _ _)
  intro last
  apply Within.ite (Within.pure _)
  apply Within.ite (Within.pure _)
  apply Within.bind (h.infoLoadAll _)
  intro _
  apply Within.bind (getTag _ _)
  intro tag
  apply Within.ite (Within.pure _)
  exact Within.ite (h.blockLengthFrom _ _ _ _ _)
    (h.blockLengthFrom _ _ _ _ _)

end InfoLayer

namespace BlockLayer

variable {ok : Event → Prop} {R : Dev → Dev → Prop}
  [IsPreorder Dev R]

------------------------------------------------------------
-- Reading the State
------------------------------------------------------------

omit [Platform] in
theorem getNode (n : Nat) : Within ok R (getNode n) :=
  Within.gets _

omit [Platform] in
theorem note (n : Note) : Within ok R (note n) :=
  Within.emit _

/- Notes are events, and change no state. -/
omit [Platform] in
theorem noteWhen
    (c : Dev → Bool)
    (n : Note) : Within ok R (noteWhen c n) := by
  unfold Uffs.noteWhen
  apply Within.bind Within.get
  intro s
  exact Within.ite (Within.emit _) (Within.pure _)

theorem noteNotBlank
    (b : Nat)
    (n : Note) : Within ok R (noteNotBlank b n) := by
  unfold Uffs.noteNotBlank
  apply Within.bind Within.get
  intro s
  exact Within.ite (Within.emit _) (Within.pure _)

/- The nodes belong to the tree. -/
omit [IsPreorder Dev R] in
theorem setNode
    (h : BlockLayer ok R)
    (n : Nat)
    (f : TreeNode → TreeNode) :
    Within ok R (setNode n f) :=
  h.modifyTree _

omit [IsPreorder Dev R] in
theorem breakFromEntry
    (h : BlockLayer ok R)
    (type : BlockType)
    (n : Nat) :
    Within ok R (breakFromEntry type n) :=
  h.modifyTree _

/- The header that the driver gave, or none. -/
theorem loadMiniHeader
    (h : BlockLayer ok R)
    (b p : Nat) :
    Within ok R (loadMiniHeader b p) := by
  unfold Uffs.loadMiniHeader
  apply Within.bind h.nextAnswer
  intro a
  apply Within.bind Within.get
  intro s
  exact Within.ite (Within.pure _) (Within.pure _)

/-
  The mark of a block is read from its first page, and then
  from its second one.
-/
theorem flashIsBadBlock
    (h : BlockLayer ok R)
    (b : Nat) :
    Within ok R (flashIsBadBlock b) := by
  have hMark : Within ok R (readBadMark b) := by
    unfold readBadMark
    apply Within.bind h.nextAnswer
    intro a
    apply Within.bind Within.get
    intro s
    exact Within.pure _
  unfold Uffs.flashIsBadBlock
  apply Within.bind hMark
  intro bad
  exact Within.ite (Within.pure _) hMark

------------------------------------------------------------
-- Erased and Bad Blocks
------------------------------------------------------------

/-
  The block is marked bad, and its node goes into the bad
  list.
-/
theorem badBlockProcessNode
    (h : BlockLayer ok R)
    (n : Nat) :
    Within ok R (badBlockProcessNode n) := by
  unfold Uffs.badBlockProcessNode
  apply Within.bind (getNode n)
  intro node
  apply Within.bind (h.markBad _)
  intro _
  exact h.modifyTree _

/- A list of a single node is noted first. -/
theorem insertToErasedListHead
    (h : BlockLayer ok R)
    (n : Nat) :
    Within ok R (insertToErasedListHead n) := by
  unfold Uffs.insertToErasedListHead
  apply Within.bind Within.get
  intro s
  apply Within.ite
  · apply Within.bind (note _)
    intro _
    exact h.modifyTree _
  · exact h.modifyTree _

omit [IsPreorder Dev R] in
theorem treeInsertToErasedListTail
    (h : BlockLayer ok R)
    (n : Nat) :
    Within ok R (treeInsertToErasedListTail n) := by
  unfold Uffs.treeInsertToErasedListTail
    treeInsertToErasedListTailEx
  exact h.modifyTree _

/- The first node of the erased list, if there is one. -/
theorem treeGetErasedNodeNoCheck
    (h : BlockLayer ok R) :
    Within ok R treeGetErasedNodeNoCheck := by
  unfold Uffs.treeGetErasedNodeNoCheck
  apply Within.bind Within.get
  intro s
  cases s.tree.popErased with
  | none => exact Within.pure _
  | some q =>
      apply Within.bind (h.modifyTree _)
      intro _
      exact Within.pure _

/- The two functions that call each other. -/
theorem erasedFuel
    (h : BlockLayer ok R)
    (fuel : Nat) :
    Within ok R (getErasedNodeFuel fuel) ∧
      ∀ n, Within ok R (eraseNodeFuel fuel n) := by
  induction fuel with
  | zero =>
      constructor
      · unfold getErasedNodeFuel
        exact Within.diverge
      · intro n
        unfold eraseNodeFuel
        exact Within.diverge
  | succ fuel ih =>
      constructor
      · unfold getErasedNodeFuel
        apply Within.bind h.treeGetErasedNodeNoCheck
        intro o
        cases o with
        | none => exact Within.pure _
        | some n =>
            apply Within.bind (getNode n)
            intro node
            apply Within.ite _ (h.prepareErased n)
            apply Within.bind (h.checkErased _)
            intro r
            cases r with
            | succ => exact h.prepareErased n
            | fail =>
                apply Within.bind (ih.2 n)
                intro r
                cases r with
                | fail =>
                    apply Within.bind (note _)
                    intro _
                    exact Within.pure _
                | succ =>
                    apply Within.bind (h.setNode _ _)
                    intro _
                    exact h.prepareErased n
      · intro n
        unfold eraseNodeFuel
        apply Within.bind (getNode n)
        intro node
        apply Within.bind (h.setNode _ _)
        intro _
        apply Within.bind (h.eraseBlock _)
        intro ret
        apply Within.ite _ (Within.pure _)
        apply Within.bind ih.1
        intro o
        cases o with
        | none => exact Within.pure _
        | some new =>
            apply Within.bind (getNode new)
            intro good
            apply Within.bind (getNode n)
            intro bad
            apply Within.bind (noteNotBlank _ _)
            intro _
            apply Within.bind (h.setNode _ _)
            intro _
            apply Within.bind (h.setNode _ _)
            intro _
            apply Within.bind (h.setNode _ _)
            intro _
            apply Within.bind (h.badBlockProcessNode new)
            intro _
            exact Within.pure _

/- With the fuel of the platform. -/
theorem treeGetErasedNode (h : BlockLayer ok R) :
    Within ok R treeGetErasedNode :=
  (h.erasedFuel _).1

theorem treeEraseNode
    (h : BlockLayer ok R)
    (n : Nat) :
    Within ok R (treeEraseNode n) :=
  (h.erasedFuel _).2 n

/- A failing erase is noted, and forgotten. -/
theorem treeEraseIgnored
    (h : BlockLayer ok R)
    (n : Nat) :
    Within ok R (treeEraseIgnored n) := by
  unfold Uffs.treeEraseIgnored
  apply Within.bind (h.treeEraseNode n)
  intro r
  cases r with
  | succ => exact Within.pure _
  | fail => exact note _

/- The block goes to the bad list, or to the erased one. -/
theorem eraseAndFile
    (h : BlockLayer ok R)
    (n block : Nat) :
    Within ok R (eraseAndFile n block) := by
  unfold Uffs.eraseAndFile
  apply Within.bind (h.setNode _ _)
  intro _
  apply Within.bind (h.eraseBlock _)
  intro ret
  apply Within.ite (h.badBlockProcessNode n)
  apply Within.ite
  · apply Within.bind (note _)
    intro _
    exact h.treeInsertToErasedListTail n
  · exact h.treeInsertToErasedListTail n

/- Only blocks to be erased or marked bad are processed here. -/
theorem treeProcessPendingBadBlock
    (h : BlockLayer ok R)
    (n block : Nat) :
    Within ok R (treeProcessPendingBadBlock n block) := by
  unfold Uffs.treeProcessPendingBadBlock badBlockPendingNodeGet
  apply Within.bind (Within.gets _)
  intro o
  cases o with
  | none => exact Within.pure _
  | some p =>
      dsimp only
      cases p.mark with
      | cleanup =>
          apply Within.bind (h.eraseAndFile n block)
          intro _
          exact Within.pure _
      | markBad =>
          apply Within.bind (h.setNode _ _)
          intro _
          apply Within.bind (h.badBlockProcessNode n)
          intro _
          exact Within.pure _
      | refresh => exact Within.pure _
      | recover => exact Within.pure _

/-
  The bad block is marked bad or erased, by the mark that it
  had in the pending list.
-/
theorem pendingSucc
    (h : BlockLayer ok R)
    (k bc bad good : Nat) :
    Within ok R (pendingSucc k bc bad good) := by
  have hErase : Within ok R (do
      Uffs.treeEraseIgnored good
      Uffs.treeInsertToErasedListTail good) := by
    apply Within.bind (h.treeEraseIgnored _)
    intro _
    exact h.treeInsertToErasedListTail _
  unfold Uffs.pendingSucc
  apply Within.bind (Within.gets _)
  intro n
  apply Within.bind (h.setNode _ _)
  intro _
  apply Within.bind (h.infoExpireAll _)
  intro _
  apply Within.bind Within.get
  intro s
  apply Within.bind (h.setNode _ _)
  intro _
  cases (s.pending.slot k).mark with
  | recover => exact h.badBlockProcessNode _
  | markBad => exact h.badBlockProcessNode _
  | refresh => exact hErase
  | cleanup => exact hErase

/- The copy loop decides what becomes of the good block. -/
theorem pendingOnce
    (h : BlockLayer ok R)
    {k bc bad : Nat}
    {retry : M Unit}
    (hFind : ∀ b, Within ok R (blockInfoFindInCache b))
    (hCopy : ∀ newBc goodBlock, Within ok R
      (copyFrom bc newBc goodBlock pagesPerBlock 0 false))
    (hRetry : Within ok R retry) :
    Within ok R (pendingOnce k bc bad retry) := by
  have hPut : ∀ o, Within ok R (putIfCached o) := by
    intro o
    cases o with
    | none => exact Within.pure _
    | some c => exact h.infoPut c
  unfold Uffs.pendingOnce
  apply Within.bind h.treeGetErasedNode
  intro o
  cases o with
  | none => exact h.infoPut bc
  | some good =>
  have hTail : Within ok R (do
      Uffs.treeInsertToErasedListTail good
      blockInfoPut bc) := by
    apply Within.bind (h.treeInsertToErasedListTail _)
    intro _
    exact h.infoPut bc
  apply Within.bind (Within.gets _)
  intro n
  dsimp only
  apply Within.bind (hFind _)
  intro newBc
  apply Within.bind (h.infoLoadAll bc)
  intro _
  apply Within.bind (hCopy _ _)
  intro e
  cases e with
  | newBad =>
      apply Within.bind (hPut newBc)
      intro _
      apply Within.bind (h.badBlockProcessNode _)
      intro _
      exact hRetry
  | finished succ dirty =>
      apply Within.bind (hPut newBc)
      intro _
      apply Within.ite
      · apply Within.bind (h.pendingSucc _ _ _ _)
        intro _
        exact h.infoPut bc
      apply Within.ite
      · apply Within.bind (h.treeEraseIgnored _)
        intro _
        exact hTail
      · apply Within.bind (noteNotBlank _ _)
        intro _
        exact hTail

/- A layer of a smaller relation. -/
omit [IsPreorder Dev R] in
theorem mono
    {R' : Dev → Dev → Prop}
    (h : BlockLayer ok R)
    (hR : ∀ s t, R s t → R' s t) : BlockLayer ok R' where
  infoLoad i p := (h.infoLoad i p).mono hR
  infoLoadAll i := (h.infoLoadAll i).mono hR
  modifyTree f := (h.modifyTree f).mono hR
  nextAnswer := h.nextAnswer.mono hR
  infoGet b := (h.infoGet b).mono hR
  infoPut i := (h.infoPut i).mono hR
  infoExpireAll i := (h.infoExpireAll i).mono hR
  eraseBlock b := (h.eraseBlock b).mono hR
  markBad b := (h.markBad b).mono hR
  checkErased b := (h.checkErased b).mono hR
  prepareErased n := (h.prepareErased n).mono hR

end BlockLayer

namespace DeviceLayer

variable {ok : Event → Prop} {R : Dev → Dev → Prop}
  [IsPreorder Dev R]

------------------------------------------------------------
-- Pending Blocks
------------------------------------------------------------

/- By induction on the fuel for new blocks that are bad. -/
omit [IsPreorder Dev R] in
theorem pendingFuel
    (h : DeviceLayer ok R)
    (k bc bad fuel : Nat) :
    Within ok R (pendingFuel k bc bad fuel) := by
  induction fuel with
  | zero =>
      unfold Uffs.pendingFuel
      exact h.pendingOnce _ _ _ _ Within.diverge
  | succ fuel ih =>
      unfold Uffs.pendingFuel
      exact h.pendingOnce _ _ _ _ ih

/- The block may be in no hash entry, and is then left. -/
theorem processPendingRecover
    (h : DeviceLayer ok R)
    (k : Nat) :
    Within ok R (processPendingRecover k) := by
  unfold Uffs.processPendingRecover treeFindNodeByBlock
  apply Within.bind Within.get
  intro s
  apply Within.bind (h.infoGet _)
  intro o
  cases o with
  | none => exact Within.pure _
  | some bc =>
      apply Within.bind (Within.gets _)
      intro o
      cases o with
      | none => exact h.infoPut bc
      | some q => exact h.pendingFuel _ _ _ _

/-
  The pending blocks are taken from the end of the list
  until it is empty.
-/
theorem badBlockRecoverFuel
    (h : DeviceLayer ok R)
    (fuel : Nat) :
    Within ok R (badBlockRecoverFuel fuel) := by
  have hStop : Within ok R (Prog.modify fun s : Dev =>
      { s with pending := { s.pending with
          blockInRecovery := invalidBlock } }) :=
    h.pending fun p => { p with blockInRecovery := invalidBlock }
  induction fuel with
  | zero =>
      unfold Uffs.badBlockRecoverFuel haveBadBlock
      apply Within.bind (Within.gets _)
      intro more
      exact Within.ite Within.diverge hStop
  | succ fuel ih =>
      unfold Uffs.badBlockRecoverFuel haveBadBlock
      apply Within.bind (Within.gets _)
      intro more
      apply Within.ite _ hStop
      apply Within.bind
      · exact h.pending fun p =>
          { p with
            count := p.count - 1
            blockInRecovery := (p.slot (p.count - 1)).block }
      · intro _
        apply Within.bind Within.get
        intro s
        apply Within.bind (h.processPendingRecover _)
        intro _
        exact ih

theorem recoverIfPending (h : DeviceLayer ok R) :
    Within ok R recoverIfPending := by
  unfold Uffs.recoverIfPending haveBadBlock
  apply Within.bind (Within.gets _)
  intro more
  exact Within.ite (h.badBlockRecoverFuel _) (Within.pure _)

------------------------------------------------------------
-- Valid Blocks
------------------------------------------------------------

/- The length of a FILE or DATA block is read first. -/
theorem registerNode
    (h : DeviceLayer ok R)
    (n bc block : Nat)
    (tag : Tag)
    (sum : Nat) :
    Within ok R (registerNode n bc block tag sum) := by
  have hEnd : Within ok R (do
      insertNodeToTree tag.type n
      pure URet.succ) := by
    apply Within.bind (h.modifyTree _)
    intro _
    exact Within.pure _
  unfold Uffs.registerNode
  cases hType : tag.type with
  | dir =>
      apply Within.bind (h.setNode _ _)
      intro _
      rw [hType] at hEnd
      exact hEnd
  | file =>
      apply Within.bind (h.getBlockFileDataLength _ _)
      intro len
      apply Within.bind (h.setNode _ _)
      intro _
      rw [hType] at hEnd
      exact hEnd
  | data =>
      apply Within.bind (h.getBlockFileDataLength _ _)
      intro len
      apply Within.bind (h.setNode _ _)
      intro _
      rw [hType] at hEnd
      exact hEnd
  | resv =>
      apply Within.bind (BlockLayer.note _)
      intro _
      rw [hType] at hEnd
      exact hEnd

/-
  A DIR or FILE block also has its name read; that may show
  the block to be bad or without a header.
-/
theorem loadValidNode
    (h : DeviceLayer ok R)
    (n bc block : Nat)
    (tag : Tag) :
    Within ok R (loadValidNode n bc block tag) := by
  unfold Uffs.loadValidNode
  apply Within.ite _ (h.registerNode _ _ _ _ _)
  apply Within.bind (h.loadNameSum _ _ _)
  intro r
  cases r with
  | failed => exact Within.pure _
  | processed => exact Within.pure _
  | invalid =>
      apply Within.bind (h.eraseAndFile n block)
      intro _
      exact Within.pure _
  | sum s =>
      apply Within.bind (InfoLayer.getTag _ _)
      intro tag
      exact h.registerNode _ _ _ _ _

omit [Platform] in
theorem findFromTree
    (type : BlockType)
    (parent serial : Nat) :
    Within ok R (findFromTree type parent serial) := by
  unfold Uffs.findFromTree
  cases type with
  | dir => exact Within.gets _
  | file => exact Within.gets _
  | data => exact Within.gets _
  | resv => exact Within.pure _

/-
  A block with the key of a node in the tree: the older one
  of the two is erased.
-/
theorem buildValidTreeNode
    (h : DeviceLayer ok R)
    (n bc : Nat) :
    Within ok R (buildValidTreeNode n bc) := by
  unfold Uffs.buildValidTreeNode
  apply Within.bind (InfoLayer.getInfo bc)
  intro w
  apply Within.bind (h.infoLoad bc 0)
  intro r
  cases r with
  | fail =>
      apply Within.bind (h.treeProcessPendingBadBlock _ _)
      intro done
      exact Within.ite (Within.pure _) (Within.pure _)
  | succ =>
      apply Within.bind (InfoLayer.getTag _ _)
      intro tag
      apply Within.ite (Within.pure _)
      apply Within.ite
      · apply Within.bind (h.eraseAndFile _ _)
        intro _
        exact Within.pure _
      apply Within.bind (findFromTree _ _ _)
      intro o
      cases o with
      | none => exact h.loadValidNode _ _ _ _
      | some alt =>
          apply Within.bind (BlockLayer.getNode alt)
          intro x
          apply Within.ite (Within.pure _)
          apply Within.bind (h.infoGet _)
          intro o
          cases o with
          | none => exact Within.pure _
          | some bcAlt =>
              apply Within.bind (h.infoLoad _ _)
              intro _
              apply Within.bind (InfoLayer.getTag _ _)
              intro tagAlt
              apply Within.ite
              · apply Within.bind (h.eraseAndFile _ _)
                intro _
                apply Within.bind (h.infoPut _)
                intro _
                exact Within.pure _
              · apply Within.bind (h.eraseAndFile _ _)
                intro _
                apply Within.bind (h.infoPut _)
                intro _
                apply Within.bind (h.breakFromEntry _ _)
                intro _
                exact h.loadValidNode _ _ _ _

------------------------------------------------------------
-- Building the Tree
------------------------------------------------------------

omit [IsPreorder Dev R] in
theorem badBlockAdd
    (h : DeviceLayer ok R)
    (block : Nat)
    (mark : PendingMark) :
    Within ok R (badBlockAdd block mark) :=
  h.pending fun p => p.add block mark

/-
  From the last page down, to the first one that is sealed
  or not clean.
-/
theorem scanFrom
    (h : DeviceLayer ok R)
    (bc block page : Nat) :
    Within ok R (scanFrom bc block page) := by
  induction page with
  | zero => exact Within.pure _
  | succ page ih =>
      unfold Uffs.scanFrom
      apply Within.bind (h.infoLoad _ _)
      intro r
      apply Within.bind (InfoLayer.getTag _ _)
      intro tag
      apply Within.ite (Within.pure _)
      apply Within.ite (Within.pure _)
      apply Within.bind (h.loadMiniHeader _ _)
      intro o
      cases o with
      | none => exact Within.pure _
      | some status => exact Within.ite (Within.pure _) ih

/- A block with an unclean page is put on the pending list. -/
theorem scanAndFixUnCleanPage
    (h : DeviceLayer ok R)
    (bc : Nat) :
    Within ok R (scanAndFixUnCleanPage bc) := by
  unfold Uffs.scanAndFixUnCleanPage
  apply Within.bind (InfoLayer.getInfo bc)
  intro w
  apply Within.bind (h.scanFrom _ _ _)
  intro r
  cases r with
  | failed => exact Within.pure _
  | clean => exact Within.pure _
  | needCleanup =>
      apply Within.bind (h.badBlockAdd _ _)
      intro _
      exact Within.pure _
  | needRecovery =>
      apply Within.bind (h.badBlockAdd _ _)
      intro _
      exact Within.pure _

/- A block without a tag but with a header is erased. -/
theorem stepOneErased
    (h : DeviceLayer ok R)
    (n block : Nat) :
    Within ok R (stepOneErased n block) := by
  have hEnd : ∀ ret : FlashRet, Within ok R (do
      Uffs.setNode n fun x => x.setListBlock block
      if ret.isBadBlock then
        Uffs.badBlockProcessNode n
      else
        treeInsertToErasedListTailEx n (some 1)
      pure URet.succ) := by
    intro ret
    apply Within.bind (h.setNode _ _)
    intro _
    apply Within.ite
    · apply Within.bind (h.badBlockProcessNode n)
      intro _
      exact Within.pure _
    · apply Within.bind (h.modifyTree _)
      intro _
      exact Within.pure _
  unfold Uffs.stepOneErased
  apply Within.bind (h.loadMiniHeader _ _)
  intro o
  cases o with
  | none => exact Within.pure _
  | some status =>
      dsimp only
      apply Within.ite
      · apply Within.bind (h.eraseBlock _)
        exact hEnd
      · apply Within.bind (Within.pure _)
        exact hEnd

/-
  A block on the pending list is processed before it is
  scanned and after that.
-/
theorem stepOneUsed
    (h : DeviceLayer ok R)
    (n bc block : Nat) :
    Within ok R (stepOneUsed n bc block) := by
  unfold Uffs.stepOneUsed
  apply Within.bind (h.treeProcessPendingBadBlock _ _)
  intro done
  apply Within.ite (Within.pure _)
  apply Within.bind (h.scanAndFixUnCleanPage bc)
  intro r
  cases r with
  | fail => exact Within.pure _
  | succ =>
      apply Within.bind (h.treeProcessPendingBadBlock _ _)
      intro done
      exact Within.ite (Within.pure _)
        (h.buildValidTreeNode _ _)

/- A block is bad, erased, or in use. -/
theorem stepOneNode
    (h : DeviceLayer ok R)
    (bc block : Nat) :
    Within ok R (stepOneNode bc block) := by
  have hGet : Within ok R treeNodeGet := by
    unfold treeNodeGet
    apply Within.bind Within.get
    intro s
    apply Within.ite _ (Within.pure _)
    apply Within.bind (h.modifyTree _)
    intro _
    exact Within.pure _
  unfold Uffs.stepOneNode
  apply Within.bind hGet
  intro o
  cases o with
  | none => exact Within.pure _
  | some n =>
      apply Within.bind (h.flashIsBadBlock block)
      intro bad
      apply Within.ite
      · apply Within.bind (h.setNode _ _)
        intro _
        apply Within.bind (h.modifyTree _)
        intro _
        exact Within.pure _
      · apply Within.bind (h.isPageErased bc 0)
        intro erased
        exact Within.ite (h.stepOneErased _ _)
          (h.stepOneUsed _ _ _)

/- By induction on the blocks; one that fails ends the mount. -/
theorem stepOneFrom
    (h : DeviceLayer ok R)
    (n : Nat) :
    ∀ block, Within ok R (stepOneFrom n block) := by
  induction n with
  | zero =>
      intro block
      exact Within.pure _
  | succ n ih =>
      intro block
      have hBlock : Within ok R (stepOneBlock block) := by
        unfold stepOneBlock
        apply Within.bind (h.infoGet _)
        intro o
        cases o with
        | none => exact Within.pure _
        | some bc =>
            apply Within.bind (h.stepOneNode _ _)
            intro ret
            apply Within.bind (h.infoPut _)
            intro _
            exact Within.pure _
      unfold Uffs.stepOneFrom
      apply Within.bind hBlock
      intro r
      cases r with
      | fail => exact Within.pure _
      | succ => exact ih _

/- The erased nodes go round, as often as the clock says. -/
theorem stepTwoFrom
    (h : DeviceLayer ok R)
    (n : Nat) :
    Within ok R (stepTwoFrom n) := by
  induction n with
  | zero => exact Within.pure _
  | succ n ih =>
      unfold Uffs.stepTwoFrom
      apply Within.bind h.treeGetErasedNodeNoCheck
      intro o
      cases o with
      | none => exact Within.pure _
      | some x =>
          apply Within.bind (h.modifyTree _)
          intro _
          exact ih

/-
  A DATA block without a file is erased; the others add to
  the length of their file.
-/
theorem stepThreeChain
    (h : DeviceLayer ok R)
    (l : List Nat) :
    Within ok R (stepThreeChain l) := by
  induction l with
  | nil => exact Within.pure _
  | cons work rest ih =>
      unfold Uffs.stepThreeChain
      apply Within.bind _ (fun _ => ih)
      unfold stepThreeNode treeFindFileNode
      apply Within.bind (BlockLayer.getNode work)
      intro w
      apply Within.bind (Within.gets _)
      intro o
      cases o with
      | none =>
          apply Within.bind (h.breakFromEntry _ _)
          intro _
          apply Within.bind (h.setNode _ _)
          intro _
          exact h.eraseAndFile _ _
      | some n => exact h.setNode _ _

theorem stepThreeFrom
    (h : DeviceLayer ok R)
    (n : Nat) :
    ∀ i, Within ok R (stepThreeFrom n i) := by
  induction n with
  | zero =>
      intro i
      exact Within.pure _
  | succ n ih =>
      intro i
      unfold Uffs.stepThreeFrom
      apply Within.bind Within.get
      intro s
      apply Within.bind (h.stepThreeChain _)
      intro _
      exact ih _

/-
  The three steps, with the recovery of pending blocks after
  the first one.
-/
theorem buildTree (h : DeviceLayer ok R) :
    Within ok R buildTree := by
  unfold Uffs.buildTree
  apply Within.bind
  · unfold buildTreeStepOne
    apply Within.bind (h.modifyTree _)
    intro _
    exact h.stepOneFrom _ _
  intro r
  cases r with
  | fail => exact Within.pure _
  | succ =>
      apply Within.bind h.recoverIfPending
      intro _
      apply Within.bind
      · unfold buildTreeStepTwo
        apply Within.bind
        · unfold getCurDateTime
          apply Within.bind h.nextAnswer
          intro a
          exact Within.pure _
        · intro now
          apply Within.bind Within.get
          intro s
          exact h.stepTwoFrom _
      · intro r
        cases r with
        | fail => exact Within.pure _
        | succ =>
            apply Within.bind (h.stepThreeFrom _ _)
            intro _
            apply Within.bind h.recoverIfPending
            intro _
            exact Within.pure _

end DeviceLayer

end Uffs
