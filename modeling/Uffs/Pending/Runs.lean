import Uffs.Model.Emulator
import Uffs.Pending.Entry

/-
  The list of pending blocks over runs.

  A run reports blocks, takes blocks off the list and
  recovers, with any answers of the driver; the rest of the
  device may change in between.  A recovery is a sequence of
  rounds: each takes the last entry off the list, which then
  lies just behind it, and processes that entry.

  Main declarations:
    * `Round`, `Rounds`
    * `PendingRecovery`
    * `PendingRun`
    * `PendingRun.correct`
-/

namespace Uffs

open Prog

section Theory

variable [Platform]

------------------------------------------------------------
-- Rounds
------------------------------------------------------------

/- The last entry is taken off the list, to be recovered. -/
def Dev.takeLast (s : Dev) : Dev :=
  { s with pending := { s.pending with
      count := s.pending.count - 1
      blockInRecovery :=
        (s.pending.slot (s.pending.count - 1)).block } }

/- No block is in recovery any more. -/
def Dev.endRecovery (s : Dev) : Dev :=
  { s with pending := { s.pending with
      blockInRecovery := invalidBlock } }

/-
  A round of `uffs_BadBlockRecover`: the entry and its slot,
  the device when its processing begins and ends, and the
  events in between.
-/
structure Round where
  slot : Nat
  entry : PendingBlock
  start : Dev
  events : List Event
  stop : Dev

/- The round for the entry in slot `k` of the list. -/
def Dev.round
    (s : Dev)
    (k : Nat)
    (es : List Event)
    (t : Dev) : Round where
  slot := k
  entry := s.pending.slot k
  start := s.takeLast
  events := es
  stop := t

/- The rounds of `uffs_BadBlockRecover`, one by one. -/
inductive Rounds : Dev → List Round → Dev → Prop where
| done {s : Dev}
    (hCount : s.pending.count = 0) :
    Rounds s [] s.endRecovery
| next {s t u : Dev} {k : Nat} {es : List Event}
    {rs : List Round}
    (hCount : s.pending.count = k + 1)
    (hRun : processPendingRecover k s.takeLast =
      some ((), es, t))
    (hRest : Rounds t rs u) :
    Rounds s (s.round k es t :: rs) u

namespace Round

/- The events of several rounds. -/
def eventsOf (rs : List Round) : List Event :=
  rs.flatMap Round.events

/- The blocks that were processed. -/
def blocksOf (rs : List Round) : List Nat :=
  rs.map fun r => r.entry.block

/-
  The entry lies just behind the list and is not overwritten:
  the round does what it would do with the entry by value,
  and the slot still holds it in the end.  In the meantime
  the list only gets shorter.
-/
structure Guarded (r : Round) : Prop where
  behind : r.start.pending.count = r.slot
  current : r.start.pending.blockInRecovery = r.entry.block
  slot : r.start.pending.slot r.slot = r.entry
  value : processPendingEntry r.entry r.start =
    some ((), r.events, r.stop)
  kept : r.stop.pending.slot r.slot = r.entry
  list : r.stop.pending.list.Sublist r.start.pending.list

/- An entry leaves the list since its block is erased. -/
structure Removes (r : Round) (e : PendingBlock) : Prop where
  listed : e ∈ r.start.pending.list
  gone : e ∉ r.stop.pending.list
  erased : Scrubs e.block r.events

end Round

/- What the rounds from `s` to `t` have to do with the list. -/
structure PendingRecovery
    (s : Dev)
    (rs : List Round)
    (t : Dev) : Prop where
  rounds : Rounds s rs t
  list : t.pending.list = []
  idle : t.pending.blockInRecovery = invalidBlock
  guarded : ∀ r ∈ rs, r.Guarded
  listed : ∀ r ∈ rs, r.entry ∈ s.pending.list ∧
    r.start.pending.list.Sublist s.pending.list
  once : ∀ e ∈ s.pending.list,
    (Round.blocksOf rs).count e.block = 1 ∧
        (∀ r ∈ rs, ¬ r.Removes e) ∨
      e.block ∉ Round.blocksOf rs ∧ ∃ r ∈ rs, r.Removes e

section Recovering

variable {s t u : Dev} {k : Nat} {e e' : PendingBlock}
  {es : List Event} {rs : List Round}

/- Entries of one block are the same. -/
omit [Platform] in
theorem Pending.Proper.eq_of_block
    {p : Pending}
    (h : p.Proper)
    (he : e ∈ p.list)
    (he' : e' ∈ p.list)
    (hBlock : e.block = e'.block) : e = e' :=
  List.inj_on_of_nodup_map h.nodup he he' hBlock

omit [Platform] in
theorem Dev.takeLast_list
    (hCount : s.pending.count = k + 1) :
    s.pending.list =
      s.takeLast.pending.list ++ [s.pending.slot k] := by
  unfold Dev.takeLast Pending.list
  dsimp only
  rw [hCount, Nat.add_sub_cancel, List.range_succ,
    List.map_append, List.map_singleton]

omit [Platform] in
theorem Dev.takeLast_proper
    (h : s.pending.Proper)
    (hCount : s.pending.count = k + 1) :
    s.takeLast.pending.Proper := by
  have hList := Dev.takeLast_list hCount
  have hNodup := h.nodup
  unfold Pending.blocks at hNodup
  rw [hList, List.map_append, List.map_singleton] at hNodup
  have hParts := List.nodup_append.mp hNodup
  constructor
  · exact Nat.le_trans (Nat.sub_le _ _) h.count
  · exact hParts.1
  · intro hIn
    apply hParts.2.2 _ hIn _ (List.mem_singleton_self _)
    unfold Dev.takeLast
    dsimp only
    rw [hCount, Nat.add_sub_cancel]

theorem pendingRecovery_done
    (hCount : s.pending.count = 0) :
    PendingRecovery s [] s.endRecovery := by
  have hNil : s.pending.list = [] := by
    rw [← List.length_eq_zero_iff, Pending.length_list]
    exact hCount
  have hEnd : s.endRecovery.pending.list = s.pending.list := by
    unfold Dev.endRecovery Pending.list
    dsimp only
  constructor
  · exact .done hCount
  · rw [hEnd]
    exact hNil
  · rfl
  · intro r hr
    exact absurd hr List.not_mem_nil
  · intro r hr
    exact absurd hr List.not_mem_nil
  · rw [hNil]
    intro e he
    exact absurd he List.not_mem_nil

/- The first round, and what the others do. -/
theorem PendingRecovery.next
    (hCount : s.pending.count = k + 1)
    (hProper : s.pending.Proper)
    (hRun : processPendingRecover k s.takeLast =
      some ((), es, t))
    (hValue : processPendingEntry (s.pending.slot k) s.takeLast =
      some ((), es, t))
    (hSheds : s.takeLast.pending.Sheds es t.pending)
    (h : PendingRecovery t rs u) :
    PendingRecovery s (s.round k es t :: rs) u := by
  have hList := Dev.takeLast_list hCount
  have hTaken := Dev.takeLast_proper hProper hCount
  have hBehind : s.takeLast.pending.count = k := by
    unfold Dev.takeLast
    dsimp only
    omega
  have hCurrent : s.takeLast.pending.blockInRecovery =
      (s.pending.slot k).block := by
    unfold Dev.takeLast
    dsimp only
    rw [hCount, Nat.add_sub_cancel]
  have hStart : s.takeLast.pending.list.Sublist
      s.pending.list := by
    rw [hList]
    exact List.sublist_append_left _ _
  -- the last entry is not listed any more
  have hLast : ∀ e ∈ s.takeLast.pending.list,
      e.block ≠ (s.pending.slot k).block := by
    intro e he hEq
    apply hTaken.current
    rw [hCurrent, ← hEq]
    exact Pending.block_mem he
  -- what is processed later is still listed after the round
  have hLater : ∀ b ∈ Round.blocksOf rs, ∃ e ∈ t.pending.list,
      e.block = b := by
    intro b hb
    rcases List.mem_map.mp hb with ⟨r, hr, hBlock⟩
    exact ⟨r.entry, (h.listed r hr).1, hBlock⟩
  constructor
  · exact .next hCount hRun h.rounds
  · exact h.list
  · exact h.idle
  · intro r hr
    rcases List.mem_cons.mp hr with hr | hr
    · rw [hr]
      constructor
      · exact hBehind
      · exact hCurrent
      · rfl
      · exact hValue
      · exact hSheds.slot k (Nat.le_of_eq hBehind)
      · exact hSheds.list
    · exact h.guarded r hr
  · intro r hr
    rcases List.mem_cons.mp hr with hr | hr
    · rw [hr]
      refine ⟨?_, hStart⟩
      rw [hList]
      exact List.mem_append_right _ (List.mem_singleton_self _)
    · have hListed := h.listed r hr
      have hRest := hSheds.list.trans hStart
      exact ⟨hRest.subset hListed.1, hListed.2.trans hRest⟩
  · intro e he
    rw [hList] at he
    rcases List.mem_append.mp he with he | he
    · have hNe := hLast e he
      have hBlocks : ∀ {r : Round}, r.entry = s.pending.slot k →
          (Round.blocksOf (r :: rs)).count e.block =
              (Round.blocksOf rs).count e.block ∧
            (e.block ∉ Round.blocksOf rs →
              e.block ∉ Round.blocksOf (r :: rs)) := by
        intro r hr
        unfold Round.blocksOf
        rw [List.map_cons, hr]
        refine ⟨List.count_cons_of_ne hNe.symm, ?_⟩
        intro hNot hIn
        rcases List.mem_cons.mp hIn with hIn | hIn
        · exact hNe hIn
        · exact hNot hIn
      by_cases hStay : e ∈ t.pending.list
      · rcases h.once e hStay with ⟨hOnce, hNone⟩ | hRemoved
        · left
          rw [(hBlocks rfl).1]
          refine ⟨hOnce, ?_⟩
          intro r hr hRemoves
          rcases List.mem_cons.mp hr with hr | hr
          · rw [hr] at hRemoves
            exact hRemoves.gone hStay
          · exact hNone r hr hRemoves
        · rcases hRemoved with ⟨hNot, r, hr, hRemoves⟩
          exact Or.inr ⟨(hBlocks rfl).2 hNot, r,
            List.mem_cons_of_mem _ hr, hRemoves⟩
      · right
        refine ⟨(hBlocks rfl).2 ?_, _, List.mem_cons_self,
          he, hStay, ?_⟩
        · intro hIn
          rcases hLater _ hIn with ⟨e', he', hBlock⟩
          have hSame := hTaken.eq_of_block
            (hSheds.list.subset he') he hBlock
          exact hStay (hSame ▸ he')
        · exact (hSheds.kept e he).resolve_left hStay
    · left
      rw [List.mem_singleton.mp he]
      have hOther : (s.pending.slot k).block ∉
          Round.blocksOf rs := by
        intro hIn
        rcases hLater _ hIn with ⟨e', he', hBlock⟩
        exact hLast e' (hSheds.list.subset he') hBlock
      have hNot : s.pending.slot k ∉
          s.takeLast.pending.list :=
        fun hIn => hLast _ hIn rfl
      constructor
      · unfold Round.blocksOf at hOther ⊢
        rw [List.map_cons]
        dsimp only [Dev.round]
        rw [List.count_cons_self,
          List.count_eq_zero.mpr hOther]
      · intro r hr hRemoves
        rcases List.mem_cons.mp hr with hr | hr
        · rw [hr] at hRemoves
          exact hNot hRemoves.listed
        · exact hNot (hSheds.list.subset
            ((h.listed r hr).2.subset hRemoves.listed))

------------------------------------------------------------
-- The Loop
------------------------------------------------------------

/- The erased list can be followed to its end. -/
def Tree.Queued (t : Tree) : Prop :=
  ∃ E, t.Queue E

theorem badBlockRecoverFuel_done
    (fuel : Nat)
    (hCount : s.pending.count = 0) :
    badBlockRecoverFuel fuel s =
      some ((), [], s.endRecovery) := by
  cases fuel with
  | zero =>
      unfold badBlockRecoverFuel haveBadBlock
      rw [run_gets_bind, hCount]
      rfl
  | succ fuel =>
      unfold badBlockRecoverFuel haveBadBlock
      rw [run_gets_bind, hCount]
      rfl

theorem badBlockRecoverFuel_next
    (fuel : Nat)
    (hCount : s.pending.count = k + 1)
    (hRun : processPendingRecover k s.takeLast =
      some ((), es, t)) :
    badBlockRecoverFuel (fuel + 1) s =
      (badBlockRecoverFuel fuel t).map
        fun q => (q.1, es ++ q.2.1, q.2.2) := by
  have hBehind : s.takeLast.pending.count = k := by
    unfold Dev.takeLast
    dsimp only
    omega
  have hSome : decide (0 < s.pending.count) = true := by
    rw [hCount]
    exact decide_eq_true (Nat.succ_pos k)
  conv_lhs => unfold badBlockRecoverFuel haveBadBlock
  rw [run_gets_bind, hSome, if_pos rfl, run_modify_bind]
  change (Prog.get >>= fun u => processPendingRecover
      u.pending.count >>= fun _ => badBlockRecoverFuel fuel)
    s.takeLast = _
  rw [run_bind, run_get]
  dsimp only
  rw [hBehind, run_bind, hRun]
  dsimp only
  cases badBlockRecoverFuel fuel t with
  | none => rfl
  | some q => rfl

/-
  The loop ends, since each round leaves the list shorter:
  the block in recovery is not put into it again.
-/
theorem recoverFuel_recovery
    (hFuel : nodeCount ≤ Platform.fuel)
    (fuel : Nat) :
    ∀ s : Dev, s.pending.count ≤ fuel → s.pending.Proper →
      s.tree.Queued →
        ∃ rs t, badBlockRecoverFuel fuel s =
            some ((), Round.eventsOf rs, t) ∧
          PendingRecovery s rs t ∧ t.tree.Queued := by
  induction fuel with
  | zero =>
      intro s hCount hProper hQueue
      have hZero := Nat.le_zero.mp hCount
      exact ⟨[], _, badBlockRecoverFuel_done 0 hZero,
        pendingRecovery_done hZero, hQueue⟩
  | succ fuel ih =>
      intro s hCount hProper hQueue
      cases hk : s.pending.count with
      | zero =>
          exact ⟨[], _, badBlockRecoverFuel_done _ hk,
            pendingRecovery_done hk, hQueue⟩
      | succ k =>
          rcases hQueue with ⟨E, hQueue⟩
          have hTaken := Dev.takeLast_proper hProper hk
          have hBehind : s.takeLast.pending.count = k := by
            unfold Dev.takeLast
            dsimp only
            omega
          have hCurrent : s.takeLast.pending.blockInRecovery =
              (s.pending.slot k).block := by
            unfold Dev.takeLast
            dsimp only
            rw [hk, Nat.add_sub_cancel]
          have hProcess := alike_processPendingRecover
            (s := s.takeLast) hFuel hQueue hCurrent
            (Nat.le_of_eq hBehind) rfl
          rcases hProcess with
            ⟨hSame, _, es, t, hRun, hUnlists⟩
          have hList := hUnlists.pending.list
          have hProperT := hTaken.sublist hList
            hUnlists.pending.current
          have hCountT : t.pending.count ≤ fuel := by
            have hLess := hUnlists.pending.count_le
            omega
          rcases ih t hCountT hProperT hUnlists.queue with
            ⟨rs, u, hRest, hRecovery, hQueueU⟩
          refine ⟨s.round k es t :: rs, u, ?_, ?_, hQueueU⟩
          · rw [badBlockRecoverFuel_next fuel hk hRun, hRest]
            rfl
          · exact hRecovery.next hk hProper hRun
              (hSame.trans hRun) hUnlists.pending

end Recovering

------------------------------------------------------------
-- Runs
------------------------------------------------------------

/- The operations on the list. -/
inductive PendingOp where
| add (block : Nat) (mark : PendingMark)
| addByFlashResult (block : Nat) (ret : FlashRet)
| pendingRemove (block : Nat)
| recover

namespace PendingOp

def run : PendingOp → M Unit
| .add block mark => badBlockAdd block mark
| .addByFlashResult block ret => do
    let _ ← badBlockAddByFlashResult block ret
| .pendingRemove block => badBlockPendingRemove block
| .recover => badBlockRecover

/- The reports after an operation. -/
def reports (R : Reports) (p : Pending) : PendingOp → Reports
| .add block mark => R.report p block mark
| .addByFlashResult block ret =>
    match pendingType ret with
    | some mark => R.report p block mark
    | none => R
| .pendingRemove _ => R
| .recover => R

end PendingOp

/-
  The devices that a run from an empty list reaches, with the
  marks reported for the blocks of the list.
-/
inductive PendingRun : Dev → Reports → Prop where
| init {s : Dev} {R : Reports}
    (hCount : s.pending.count = 0)
    (hIdle : s.pending.blockInRecovery = invalidBlock)
    (hQueue : s.tree.Queued) :
    PendingRun s R
| op {s t : Dev} {R : Reports} {es : List Event}
    (o : PendingOp)
    (h : PendingRun s R)
    (hRun : o.run s = some ((), es, t)) :
    PendingRun t (o.reports R s.pending)
| other {s t : Dev} {R : Reports}
    (h : PendingRun s R)
    (hPending : t.pending = s.pending)
    (hQueue : t.tree.Queued) :
    PendingRun t R

/- What holds of the list after each step. -/
structure PendingRun.Kept (s : Dev) (R : Reports) : Prop where
  proper : s.pending.Proper
  highest : s.pending.Highest R
  queue : s.tree.Queued

namespace PendingRun

variable {s t : Dev} {R : Reports} {es : List Event}

theorem Kept.add
    (h : Kept s R)
    (block : Nat)
    (mark : PendingMark) :
    Kept { s with pending := s.pending.add block mark }
      (R.report s.pending block mark) :=
  ⟨h.proper.add block mark,
    h.highest.add h.proper block mark, h.queue⟩

/- One operation keeps what holds of the list. -/
theorem Kept.step
    (hFuel : nodeCount ≤ Platform.fuel)
    (h : Kept s R)
    (o : PendingOp)
    (hRun : o.run s = some ((), es, t)) :
    Kept t (o.reports R s.pending) := by
  cases o with
  | add block mark =>
      cases hRun
      exact h.add block mark
  | addByFlashResult block ret =>
      dsimp only [PendingOp.run] at hRun
      unfold badBlockAddByFlashResult at hRun
      dsimp only [PendingOp.reports]
      cases hType : pendingType ret with
      | none =>
          rw [hType] at hRun
          cases hRun
          exact h
      | some mark =>
          rw [hType] at hRun
          cases hRun
          exact h.add block mark
  | pendingRemove block =>
      cases hRun
      have hList := s.pending.remove_sublist block
      exact ⟨h.proper.sublist hList
        (s.pending.remove_current block),
        h.highest.sublist hList, h.queue⟩
  | recover =>
      have hCount : s.pending.count ≤
          maxPendingBlocks + Platform.fuel :=
        Nat.le_trans h.proper.count (Nat.le_add_right _ _)
      rcases recoverFuel_recovery hFuel _ s hCount h.proper
        h.queue with ⟨rs, u, hRun', hRecovery, hQueue⟩
      have hSame := hRun'.symm.trans hRun
      cases hSame
      have hCountU : t.pending.count = 0 := by
        rw [← Pending.length_list, hRecovery.list]
        rfl
      have hBlocks : t.pending.blocks = [] := by
        unfold Pending.blocks
        rw [hRecovery.list]
        rfl
      refine ⟨⟨?_, ?_, ?_⟩, ?_, hQueue⟩
      · rw [hCountU]
        exact Nat.zero_le _
      · rw [hBlocks]
        exact List.nodup_nil
      · rw [hBlocks]
        exact List.not_mem_nil
      · intro e he
        rw [hRecovery.list] at he
        exact absurd he List.not_mem_nil

theorem kept
    (hFuel : nodeCount ≤ Platform.fuel)
    (h : PendingRun s R) : Kept s R := by
  induction h with
  | init hCount hIdle hQueue =>
      rename_i s R
      have hNil : s.pending.list = [] := by
        rw [← List.length_eq_zero_iff, Pending.length_list]
        exact hCount
      have hBlocks : s.pending.blocks = [] := by
        unfold Pending.blocks
        rw [hNil]
        rfl
      refine ⟨⟨?_, ?_, ?_⟩, ?_, hQueue⟩
      · rw [hCount]
        exact Nat.zero_le _
      · rw [hBlocks]
        exact List.nodup_nil
      · rw [hBlocks]
        exact List.not_mem_nil
      · intro e he
        rw [hNil] at he
        exact absurd he List.not_mem_nil
  | op o _ hRun ih => exact ih.step hFuel o hRun
  | other _ hPending hQueue ih =>
      refine ⟨?_, ?_, hQueue⟩
      · rw [hPending]
        exact ih.proper
      · rw [hPending]
        exact ih.highest

/-
  In every run the list is no longer than its array, its
  blocks are distinct, and each mark is the highest one that
  was reported since the block was put into the list.

  From every device that is reached, `uffs_BadBlockRecover`
  returns with an empty list.  Each block of the list is
  processed once, or it leaves the list since it is erased,
  and the entry in process is not overwritten.
-/
theorem correct
    (hFuel : nodeCount ≤ Platform.fuel)
    (h : PendingRun s R) :
    s.pending.list.length ≤ maxPendingBlocks ∧
      s.pending.blocks.Nodup ∧ s.pending.Highest R ∧
      ∃ rs t, badBlockRecover s =
          some ((), Round.eventsOf rs, t) ∧
        PendingRecovery s rs t := by
  have hKept := kept hFuel h
  have hCount : s.pending.count ≤
      maxPendingBlocks + Platform.fuel :=
    Nat.le_trans hKept.proper.count (Nat.le_add_right _ _)
  rcases recoverFuel_recovery hFuel _ s hCount hKept.proper
    hKept.queue with ⟨rs, t, hRun, hRecovery, _⟩
  refine ⟨?_, hKept.proper.nodup, hKept.highest, rs, t, hRun,
    hRecovery⟩
  rw [Pending.length_list]
  exact hKept.proper.count

end PendingRun

end Theory

section Example

/- The emulator, with as many retries as nodes. -/
local instance roomyEmulator : Platform :=
  { emulator alwaysOk with fuel := 10 }

/- Node 0 is erased, and node 1 is filed with block 6. -/
def oneErased : Dev :=
  let d := Dev.init Flash.blank 0
  { d with
    tree := { d.tree with
      node := upd (upd d.tree.node 0 (.list none none 5 0)) 1
        (.data 6 1 10 1)
      dataEntry := upd d.tree.dataEntry (getDataHash 1 1) [1]
      allocated := 2
      erased := some 0
      erasedTail := some 0
      erasedCount := 1 } }

/- Block 6 was reported twice, and block 7 in between. -/
def reportedTwice : Dev :=
  { oneErased with
    pending := ((oneErased.pending.add 6 .refresh).add 7
      .recover).add 6 .markBad }

theorem pendingRun_reportedTwice :
    reportedTwice.pending.list =
        [{ block := 6, mark := .markBad },
          { block := 7, mark := .recover }] ∧
      ∃ rs t, badBlockRecover reportedTwice =
          some ((), Round.eventsOf rs, t) ∧
        PendingRecovery reportedTwice rs t := by
  have hQueue : oneErased.tree.Queue [0] := by
    constructor
    · rw [Linked.cons_iff, Linked.nil_iff]
      exact ⟨rfl, rfl⟩
    · exact List.nodup_singleton 0
    · decide
    · exact nofun
  have hInit : PendingRun oneErased (fun _ => []) :=
    .init rfl rfl ⟨_, hQueue⟩
  have hFirst := hInit.op (.add 6 .refresh) rfl
  have hSecond := hFirst.op (.add 7 .recover) rfl
  have hThird : PendingRun reportedTwice _ :=
    hSecond.op (.addByFlashResult 6 .eccFail) rfl
  exact ⟨by decide, (PendingRun.correct (by decide) hThird).2.2.2⟩

end Example

end Uffs
