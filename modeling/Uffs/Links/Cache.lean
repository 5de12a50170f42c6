import Uffs.Links.Buffers
import Uffs.Model.BcLinks

/-
  The links of the block info cache and the list that they
  make, over any functions of the cache.

  An entry that is used is put behind the last one; this
  needs a last one, which there is since the cache has two
  entries or more.

  Main declarations:
    * `LinkedCache.Refines`
    * `LinkedCache.Models`
    * `LinkedCache.Models.run_moveBcToTail`
    * `bcCalls_refine`
-/

namespace Uffs

open Prog

section Cache

variable [Platform]

------------------------------------------------------------
-- The List
------------------------------------------------------------

namespace LinkedCache

/- The list from `head` to `tail`. -/
def lru (c : LinkedCache) : DList Nat where
  next := c.next
  prev := c.prev
  head := c.head
  tail := c.tail

/- A walk along the links meets the entries of the list. -/
structure Refines (c : LinkedCache) (b : BcCache) : Prop where
  info : c.info = b.info
  list : c.lru.Holds b.list

/- The links are those of the cache of a device. -/
structure Models (c : LinkedCache) (s : Dev) : Prop where
  refines : c.Refines s.bc
  perm : s.bc.list.Perm (List.range bcCaches)

namespace Models

variable {c : LinkedCache} {s : Dev} {i : Nat}

theorem length_eq
    (h : c.Models s) : s.bc.list.length = bcCaches := by
  rw [h.perm.length_eq, List.length_range]

theorem steps
    (h : c.Models s) : s.bc.list.length < bcSteps := by
  unfold bcSteps
  rw [h.length_eq]
  exact Nat.lt_succ_self _

/- A search of the cache. -/
theorem walk_eq
    (h : c.Models s)
    (test : Nat → Bool) :
    walkFind c.next test bcSteps c.head =
      some (s.bc.list.find? test) :=
  h.refines.list.forth.walkFind_eq test h.steps

theorem run_walk
    (h : c.Models s)
    (test : LinkedCache → Nat → Bool) :
    ofWalk
        (fun c => walkFind c.next (test c) bcSteps c.head) c =
      some (s.bc.list.find? (test c), [], c) :=
  run_ofWalk (h.walk_eq (test c))

theorem setInfo
    {f : BlockInfo → BlockInfo}
    (h : c.Models s) :
    Models { c with info := upd c.info i (f (c.info i)) }
      { s with
        bc :=
          { s.bc with
            info := upd s.bc.info i (f (s.bc.info i)) } } where
  refines :=
    { info := by
        dsimp only
        rw [h.refines.info]
      list := h.refines.list }
  perm := h.perm

/- `_BreakBcFromList` -/
theorem breakBcFromList_holds
    (h : c.Models s)
    (hi : i ∈ s.bc.list) :
    (c.breakBcFromList i).lru.Holds (s.bc.list.erase i) := by
  have hHolds := h.refines.list
  have hNextNe : c.next i ≠ some i :=
    hHolds.linked.next_ne hHolds.nodup hi
  have hPrevNe : c.prev i ≠ some i :=
    hHolds.linked.prev_ne hHolds.nodup hi
  have hNextI : updLink c.next (c.prev i) (c.next i) i =
      c.next i := by
    rw [updLink_apply, if_neg hPrevNe]
  have hPrevI : updLink c.prev (c.next i) (c.prev i) i =
      c.prev i := by
    rw [updLink_apply, if_neg hNextNe]
  apply hHolds.remove hi
  · intro b _
    unfold lru breakBcFromList
    dsimp only
    rw [updLink_apply]
  · intro b _
    unfold lru breakBcFromList
    dsimp only
    rw [hNextI, updLink_apply]
  · unfold lru breakBcFromList
    dsimp only
    rw [hNextI]
  · unfold lru breakBcFromList
    dsimp only
    rw [hNextI, hPrevI]

/- `_MoveBcToTail` does not step through a null pointer. -/
theorem run_moveBcToTail
    (h : c.Models s)
    (hi : i ∈ s.bc.list) :
    ∃ d, LinkedCache.moveBcToTail i c = some ((), [], d) ∧
      d.Models
        { s with
          bc :=
            { s.bc with list := s.bc.list.erase i ++ [i] } } := by
  have hBroken := h.breakBcFromList_holds hi
  have hNotIn : i ∉ s.bc.list.erase i :=
    h.refines.list.nodup.not_mem_erase
  have hTwo := Platform.two_le_bcCaches
  have hNe : s.bc.list.erase i ≠ [] := by
    intro hNil
    have hLength := List.length_erase_of_mem hi
    rw [hNil, List.length_nil, h.length_eq] at hLength
    omega
  cases hTail : (c.breakBcFromList i).tail with
  | none =>
      have hLast := hBroken.tail
      unfold lru at hLast
      dsimp only at hLast
      rw [hTail] at hLast
      exact absurd (List.getLast?_eq_none_iff.mp hLast.symm) hNe
  | some j =>
      refine ⟨
        { c.breakBcFromList i with
          next := upd (upd (c.breakBcFromList i).next i none) j
            (some i)
          prev := upd (c.breakBcFromList i).prev i (some j)
          tail := some i }, ?_, ?_⟩
      · unfold LinkedCache.moveBcToTail
          LinkedCache.insertToBcListTail
        rw [run_modify_bind, run_bind, run_get]
        dsimp only
        rw [hTail]
        rfl
      · have hLast := hBroken.tail
        unfold lru at hLast
        dsimp only at hLast
        rw [hTail] at hLast
        have hji : j ≠ i := by
          intro hEq
          have hIn := List.mem_of_getLast? hLast.symm
          rw [hEq] at hIn
          exact hNotIn hIn
        constructor
        · constructor
          · exact h.refines.info
          · apply hBroken.pushBack hNe hNotIn
            · unfold lru
              dsimp only
              rw [upd_other _ _ (Ne.symm hji), upd_same]
            · unfold lru
              dsimp only
              rw [upd_same, hTail]
            · intro b hb
              unfold lru
              dsimp only
              rw [hTail]
              by_cases hbj : b = j
              · rw [hbj, upd_same, if_pos rfl]
              · rw [upd_other _ _ hbj, upd_other _ _ hb, if_neg]
                intro hEq
                exact hbj (Option.some.inj hEq).symm
            · intro b hb
              exact upd_other _ _ hb
            · rfl
            · rfl
        · dsimp only
          have hCons := List.perm_append_singleton i
            (s.bc.list.erase i)
          exact hCons.trans
            ((List.perm_cons_erase hi).symm.trans h.perm)

------------------------------------------------------------
-- Functions of the Cache
------------------------------------------------------------

/- Both sides keep to each other. -/
def Pairs
    {α : Type}
    (m : CM α)
    (m' : M α)
    (c : LinkedCache)
    (s : Dev) : Prop :=
  sim m m' (fun _ d t => d.Models t) c s

theorem sim_blockInfoFindInCache
    (h : c.Models s)
    (block : Nat) :
    sim (LinkedCache.blockInfoFindInCache block)
      (Uffs.blockInfoFindInCache block)
      (fun o d t => d.Models t ∧ ∀ i ∈ o, i ∈ t.bc.list)
      c s := by
  unfold LinkedCache.blockInfoFindInCache
    Uffs.blockInfoFindInCache
  apply sim_left
    (h.run_walk fun c i => (c.info i).block == block)
  apply sim_right rfl
  rw [h.refines.info]
  cases hFind : s.bc.list.find?
      fun i => (s.bc.info i).block == block with
  | none =>
      apply sim_pure
      exact ⟨h, fun i hi => by cases hi⟩
  | some i =>
      have hi := List.mem_of_find?_eq_some hFind
      have hHeld := h.setInfo (i := i)
        (f := fun w => { w with refCount := w.refCount + 1 })
      apply sim_bind
      apply sim_modify
      apply sim_pure
      refine ⟨hHeld, ?_⟩
      intro j hj
      rw [Option.mem_some_iff] at hj
      rw [← hj]
      exact hi

theorem pairs_blockInfoGet
    (h : c.Models s)
    (block : Nat) :
    Pairs (LinkedCache.blockInfoGet block)
      (Uffs.blockInfoGet block) c s := by
  unfold LinkedCache.blockInfoGet Uffs.blockInfoGet
  apply sim_bind
  apply sim_mono (h.sim_blockInfoFindInCache block)
  intro o d t hFound
  rcases hFound with ⟨hModels, hIn⟩
  cases o with
  | some i =>
      rcases hModels.run_moveBcToTail (hIn i rfl) with
        ⟨e, hRun, hMoved⟩
      apply sim_bind
      apply sim_of_run hRun rfl
      exact sim_pure hMoved
  | none =>
      apply sim_left
        (hModels.run_walk fun c i => (c.info i).refCount == 0)
      apply sim_right rfl
      rw [hModels.refines.info]
      cases hFree : t.bc.list.find?
          fun i => (t.bc.info i).refCount == 0 with
      | none => exact sim_pure hModels
      | some i =>
          have hi := List.mem_of_find?_eq_some hFree
          have hTaken := hModels.setInfo (i := i)
            (f := fun w =>
              { block := block
                spares := fun p =>
                  { w.spares p with expired := true }
                expiredCount := pagesPerBlock
                refCount := 1 })
          rcases hTaken.run_moveBcToTail hi with
            ⟨e, hRun, hMoved⟩
          apply sim_bind
          apply sim_modify
          apply sim_bind
          apply sim_of_run hRun rfl
          exact sim_pure hMoved

/- The walk that expires all entries. -/
theorem pairs_expireFrom
    (l : List Nat) :
    ∀ {c : LinkedCache} {s : Dev} {o : Option Nat} {n : Nat},
      c.Models s → Linked c.next o l → l.length < n →
        Pairs (LinkedCache.expireFrom n o) (expireAllFrom l)
          c s := by
  induction l with
  | nil =>
      intro c s o n h hLinked hLt
      rw [Linked.nil_iff.mp hLinked]
      cases n with
      | zero => exact absurd hLt (Nat.not_lt_zero _)
      | succ n => exact sim_pure h
  | cons i l ih =>
      intro c s o n h hLinked hLt
      rcases Linked.cons_iff.mp hLinked with ⟨rfl, hRest⟩
      cases n with
      | zero => exact absurd hLt (Nat.not_lt_zero _)
      | succ n =>
          rw [List.length_cons] at hLt
          have hExpired := h.setInfo (i := i)
            (f := fun w =>
              { w with
                spares := fun p =>
                  { w.spares p with expired := true }
                expiredCount :=
                  w.expiredCount + w.freshCount })
          unfold LinkedCache.expireFrom expireAllFrom
          apply sim_bind
          apply sim_modify
          apply sim_left rfl
          exact ih hExpired hRest (by omega)

theorem pairs_bcExpireAll (h : c.Models s) :
    Pairs LinkedCache.bcExpireAll Uffs.bcExpireAll c s := by
  unfold LinkedCache.bcExpireAll Uffs.bcExpireAll
  apply sim_left rfl
  apply sim_right rfl
  exact pairs_expireFrom _ h h.refines.list.forth h.steps

theorem run_isAllFree (h : c.Models s) :
    LinkedCache.blockInfoIsAllFree c =
      some (s.bc.isAllFree, [], c) := by
  apply run_ofWalk
  have hTest : (fun i => (c.info i).refCount != 0) =
      fun i => !decide ((c.info i).refCount = 0) := by
    funext i
    rw [Bool.eq_iff_iff]
    simp
  rw [hTest, h.walk_eq, Option.map_some, isNone_find_not,
    h.refines.info]
  rfl

/- One call. -/
theorem pairs_exec
    (h : c.Models s)
    (call : BcCall) :
    Pairs call.execLinks call.exec c s := by
  cases call with
  | find block =>
      apply sim_bind
      apply sim_mono (h.sim_blockInfoFindInCache block)
      intro o d t hFound
      exact sim_pure hFound.1
  | get block =>
      apply sim_bind
      apply sim_mono (h.pairs_blockInfoGet block)
      intro o d t hModels
      exact sim_pure hModels
  | put i =>
      apply sim_bind
      apply sim_modify
      exact sim_pure (h.setInfo
        (f := fun w => { w with refCount := w.refCount - 1 }))
  | edit i w =>
      apply sim_bind
      apply sim_modify
      exact sim_pure (h.setInfo (f := fun _ => w))
  | isAllFree =>
      apply sim_left h.run_isAllFree
      apply sim_right rfl
      exact sim_pure h
  | expireAll =>
      apply sim_bind
      apply sim_mono h.pairs_bcExpireAll
      intro o d t hModels
      exact sim_pure hModels

end Models

/- `uffs_BlockInfoInitCache` -/
theorem models_init
    {s : Dev}
    (h : s.bc = BcCache.init) :
    LinkedCache.init.Models s := by
  have hTwo := Platform.two_le_bcCaches
  have hHolds := LinkedPool.chain_holds bcCaches
  constructor
  · rw [h]
    constructor
    · rfl
    · apply hHolds.congr
      · intro b _
        rfl
      · intro b _
        rfl
      · unfold lru LinkedCache.init LinkedPool.lru
          LinkedPool.chain
        dsimp only
        rw [if_neg (by omega)]
      · unfold lru LinkedCache.init LinkedPool.lru
          LinkedPool.chain
        dsimp only
        rw [if_neg (by omega)]
  · rw [h]
    exact List.Perm.refl _

end LinkedCache

/-
  From `uffs_BlockInfoInitCache` on, any calls return on the
  links what they return on the list, and the links make the
  list, which has each entry once.
-/
theorem bcCalls_refine
    (calls : List BcCall)
    (s : Dev)
    (hInit : s.bc = BcCache.init) :
    ∃ answers es c t,
      runAll BcCall.execLinks calls LinkedCache.init =
          some (answers, es, c) ∧
        runAll BcCall.exec calls s = some (answers, es, t) ∧
        c.Refines t.bc ∧
        t.bc.list.Perm (List.range bcCaches) := by
  have hStart := LinkedCache.models_init hInit
  rcases sim_runAll
      (R := fun _ (c : LinkedCache) (s : Dev) => c.Models s)
      (fun call _ _ _ h => h.pairs_exec call) calls hStart with
    ⟨answers, es, c, t, hRun, hRun', hEnd⟩
  exact ⟨answers, es, c, t, hRun, hRun', hEnd.refines,
    hEnd.perm⟩

end Cache

/- More blocks are looked at than the cache has entries. -/
def crowdCache : List BcCall :=
  [.get 3, .put 0, .get 4, .get 3, .get 5, .get 6, .get 7,
    .get 8, .get 9, .isAllFree, .expireAll, .find 5]

theorem bcCalls_refine_crowdCache :
    letI := emulator alwaysOk
    ∃ answers es c t,
      runAll BcCall.execLinks crowdCache LinkedCache.init =
          some (answers, es, c) ∧
        runAll BcCall.exec crowdCache
            (Dev.init Flash.blank 0) =
          some (answers, es, t) ∧
        c.Refines t.bc ∧
        t.bc.list.Perm (List.range bcCaches) := by
  let _ := emulator alwaysOk
  exact bcCalls_refine crowdCache (Dev.init Flash.blank 0) rfl

end Uffs
