import Uffs.Model.Buf

/-
  Recovery of pending blocks (`uffs_badblock.c`).

  A pending block is taken off the list by lowering `count`;
  `process_pending_recover` keeps a pointer to its slot, so
  a block reported in the meantime may overwrite it.

  Main declarations:
    * `processPendingRecover`
    * `badBlockRecover`
-/

namespace Uffs

variable [Platform]

/-
  How the copy loop of `process_pending_recover` ended:
  done (`succRecov`, `goodBlockIsDirty`) or with a new bad
  block.
-/
inductive CopyEnd where
| finished (succ dirty : Bool)
| newBad
deriving DecidableEq, Repr

/-
  The loop of `process_pending_recover` over the pages from
  `i` on; `newBc` is the block info of the good block, when
  it is cached.
-/
def copyFrom
    (bc : Nat)
    (newBc : Option Nat)
    (goodBlock : Nat) :
    Nat → Nat → Bool → M CopyEnd
| 0, _, dirty => pure (.finished true dirty)
| n + 1, i, dirty => do
    match ← findPageInBlockWithPageId bc i with
    | none =>
        -- end of last valid page, normal break
        pure (.finished true dirty)
    | some page =>
        match ← findBestPageInBlock bc page with
        | none => pure (.finished true dirty)
        | some page =>
            let tag ← getTag bc page
            match ← bufClone with
            | none => pure (.finished false dirty)
            | some b =>
                let w ← getInfo bc
                let ret ← flashReadPage w.block page b false
                if ret = .ioErr then do
                  let _ ← bufFreeClone b
                  pure (.finished false dirty)
                else do
                  setBuf b fun x =>
                    { x with
                      mark := .valid
                      dataLen := min tag.dataLen pgDataSize
                      parent := tag.parent
                      serial := tag.serial
                      type := tag.type
                      pageId := tag.pageId }
                  let newTag :=
                    { tag with
                      blockTs := getNextBlockTimeStamp tag.blockTs }
                  match newBc with
                  | none => pure ()
                  | some c => setTag c i newTag
                  let ret ←
                    flashWritePageCombine goodBlock i b newTag
                  let _ ← bufFreeClone b
                  if ret.isBadBlock then
                    pure .newBad
                  else if ret = .ioErr then
                    pure (.finished false true)
                  else do
                    noteNotStored goodBlock i newTag
                    copyFrom bc newBc goodBlock n (i + 1) true

/- Put back the block info of the good block. -/
def putIfCached (newBc : Option Nat) : M Unit :=
  match newBc with
  | none => pure ()
  | some c => blockInfoPut c

/-
  The end of `process_pending_recover` when all pages are
  copied: the node of the tree takes over the good block and
  the other node the pending block, found in the slot `k`.
-/
def pendingSucc
    (k bc bad good : Nat) : M Unit := do
  let goodBlock := (← getNode good).listBlock
  setNode bad fun n => n.setBlock goodBlock
  blockInfoExpireAll bc
  let s ← Prog.get
  setNode good fun n => n.setListBlock (s.pending.slot k).block
  match (s.pending.slot k).mark with
  | .recover => badBlockProcessNode good
  | .markBad => badBlockProcessNode good
  | .refresh =>
      treeEraseIgnored good
      treeInsertToErasedListTail good
  | .cleanup =>
      treeEraseIgnored good
      treeInsertToErasedListTail good

/-
  `process_pending_recover` from the label `retry` on;
  `retry` is the jump back to the label.
-/
def pendingOnce
    (k bc bad : Nat)
    (retry : M Unit) : M Unit := do
  match ← treeGetErasedNode with
  | none => blockInfoPut bc
  | some good =>
      let goodBlock := (← getNode good).listBlock
      let newBc ← blockInfoFindInCache goodBlock
      let _ ← blockInfoLoadAll bc
      match ← copyFrom bc newBc goodBlock pagesPerBlock 0
          false with
      | .newBad =>
          putIfCached newBc
          badBlockProcessNode good
          retry
      | .finished succ dirty =>
          putIfCached newBc
          if succ then
            pendingSucc k bc bad good
          else do
            if dirty then
              treeEraseIgnored good
            else
              noteNotBlank goodBlock .usedTakenForClean
            treeInsertToErasedListTail good
          blockInfoPut bc

/- `process_pending_recover`, retries bounded -/
def pendingFuel (k bc bad : Nat) : Nat → M Unit
| 0 => pendingOnce k bc bad Prog.diverge
| fuel + 1 => pendingOnce k bc bad (pendingFuel k bc bad fuel)

/- `process_pending_recover` of the slot `k` -/
def processPendingRecover (k : Nat) : M Unit := do
  let s ← Prog.get
  match ← blockInfoGet (s.pending.slot k).block with
  | none => pure ()
  | some bc =>
      match ← treeFindNodeByBlock (s.pending.slot k).block with
      | none => blockInfoPut bc
      | some (bad, _) => pendingFuel k bc bad Platform.fuel

/-
  The loop of `uffs_BadBlockRecover`.  A recovery may report
  new blocks, so the number of rounds is bounded by `fuel`.
-/
def badBlockRecoverFuel : Nat → M Unit
| 0 => do
    if ← haveBadBlock then
      Prog.diverge
    else
      Prog.modify fun s =>
        { s with pending := { s.pending with
            blockInRecovery := invalidBlock } }
| fuel + 1 => do
    if ← haveBadBlock then do
      Prog.modify fun s =>
        let k := s.pending.count - 1
        { s with pending := { s.pending with
            count := k
            blockInRecovery := (s.pending.slot k).block } }
      let s ← Prog.get
      processPendingRecover s.pending.count
      badBlockRecoverFuel fuel
    else
      Prog.modify fun s =>
        { s with pending := { s.pending with
            blockInRecovery := invalidBlock } }

/- `uffs_BadBlockRecover` -/
def badBlockRecover : M Unit :=
  badBlockRecoverFuel (maxPendingBlocks + Platform.fuel)

/- Process the pending blocks, if there are any. -/
def recoverIfPending : M Unit := do
  if ← haveBadBlock then
    badBlockRecover

end Uffs
