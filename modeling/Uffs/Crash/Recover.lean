import Uffs.Crash.Copy
import Uffs.Pool.Sessions

/-
  Power cuts while a block is recovered.

  Main declarations:
    * `Dev.Serves`
    * `RecoverCut`
    * `recoverCut_atomic`
-/

namespace Uffs

open Prog

section Recover

variable [Platform]

------------------------------------------------------------
-- Crash Atomicity
------------------------------------------------------------

/-
  The device has one node with the key of `tag`, and the page
  ids of its block are read as `content`.
-/
def Dev.Serves
    (v : Dev)
    (tag : Tag)
    (content : Nat → Option (List Byte × Nat)) : Prop :=
  ∃ n ∈ v.tree.entryNodes, v.tree.findTag tag = some n ∧
    (∀ m ∈ v.tree.entryNodes,
      (v.tree.node m).key = tag.key → m = n) ∧
    ∀ id, v.flash.content (v.tree.node n).block id = content id

theorem Dev.Enters.serves
    {v : Dev}
    {G : Flash}
    {x : Nat}
    {tag : Tag}
    {content : Nat → Option (List Byte × Nat)}
    (h : v.Enters G x)
    (hKey : (G.tags x 0).key = tag.key)
    (hContent : ∀ id, G.content x id = content id) :
    v.Serves tag content := by
  rcases h.node with ⟨n, hMem, hFind, hBlock, hOnly⟩
  refine ⟨n, hMem, ?_, ?_, ?_⟩
  · rw [← v.tree.findTag_congr hKey]
    exact hFind
  · intro m hm hEq
    apply hOnly m hm
    rw [hKey]
    exact hEq
  · intro id
    rw [hBlock, Flash.content_congr h.page]
    exact hContent id

/-
  A recover of block `b` on a tidy flash that is cut: `s` is
  the device before it, `G` the flash after the cut and `u`
  the device that mounts it.  Block `y` of the first erased
  node is the new block.
-/
structure RecoverCut
    (s u : Dev)
    (slot node i e b y : Nat)
    (G : Flash) : Prop where
  calm : ∃ H, Calm s H ∧ 0 < H i ∧ ∃ j ∈ s.bc.list, H j = 0
  mem : i ∈ s.bc.list
  block : (s.bc.info i).block = b
  pop : ∃ T, s.tree.popErased = some (e, T) ∧
    (T.node e).listBlock = y
  places : InPartition y ∧ b ≠ invalidBlock ∧ y ≠ invalidBlock
  erased : s.flash.ErasedBlock y
  tidy : s.flash.Tidy
  old : s.flash.Whole b
  key : (s.headKey slot).Of (s.flash.tags b 0)
  fits : (s.headKey slot).Fits
  type : (s.tree.node node).mismatch (s.headKey slot).type =
    false
  sound : s.buf.Sound
  few : s.buf.Few
  clones : 2 ≤ s.buf.clone.length
  dirty : ∀ d ∈ (s.buf.group slot).dirty,
    (s.buf.entry d).dataLen ≤ pgDataSize
  clean : ∀ id data len, s.flash.content b id = some (data, len) →
    len ≤ pgDataSize
  cached : ∀ j ∈ s.buf.list, (s.buf.entry j).mark ≠ .empty →
    j ∉ (s.buf.group slot).dirty →
    (s.buf.entry j).groupKey =
      ((s.headKey slot).parent, (s.headKey slot).serial) →
      s.flash.content b (s.buf.entry j).pageId =
        some ((s.buf.entry j).data, (s.buf.entry j).dataLen)
  first : newestPage (s.flash.tags b) 0 ≠ none ∧
    ∀ d ∈ (s.buf.group slot).dirty,
      (s.buf.entry d).pageId = 0 → 0 < (s.buf.entry d).dataLen
  cut : ∃ r es t,
    bufFlushExistWithBlockRecover slot node i false s =
      some (r, es, t) ∧ PowerCut es s.flash G
  flash : u.flash = G
  good : GoodFrom u.clock

namespace RecoverCut

variable {s u : Dev} {slot node i e b y : Nat} {G : Flash}

/- A dirty page is the content of its page id. -/
theorem overlay_dirty
    (h : RecoverCut s u slot node i e b y G)
    {d : Nat}
    (hd : d ∈ (s.buf.group slot).dirty) :
    s.overlay slot b (s.buf.entry d).pageId =
      some ((s.buf.entry d).data, (s.buf.entry d).dataLen) := by
  unfold Dev.overlay BufPool.content
  rw [h.sound.content_of_mem hd, Option.map_some]
  rfl

/- Another cached page of the object is not dirty. -/
theorem noDirty
    (h : RecoverCut s u slot node i e b y G)
    {j : Nat}
    (hMem : j ∈ s.buf.list)
    (hMark : (s.buf.entry j).mark ≠ .empty)
    (hNot : j ∉ (s.buf.group slot).dirty)
    (hKey : (s.buf.entry j).groupKey =
      ((s.headKey slot).parent, (s.headKey slot).serial)) :
    s.buf.NoDirty slot (s.buf.entry j).pageId := by
  unfold BufPool.NoDirty
  rw [List.find?_eq_none]
  intro d hd hId
  rw [beq_iff_eq] at hId
  have hLinked := h.sound.linked slot d hd
  have hHead : (s.buf.entry d).groupKey =
      ((s.headKey slot).parent, (s.headKey slot).serial) := by
    rcases List.exists_cons_of_ne_nil
      (List.ne_nil_of_mem hd) with ⟨a, rest, hEq⟩
    have hFirst : a ∈ (s.buf.group slot).dirty := by
      rw [hEq]
      exact List.mem_cons_self
    rw [h.sound.sameKey slot d hd a hFirst]
    unfold Dev.headKey
    rw [hEq]
    rfl
  have hSame : d = j := by
    apply h.sound.pages d hLinked.1 j hMem _ hMark
    · unfold Buf.groupKey at hHead hKey
      rw [← hKey, Prod.mk.injEq] at hHead
      unfold Buf.pageKey
      rw [hHead.1, hHead.2, hId]
    · rw [hLinked.2]
      exact BufMark.noConfusion
  rw [hSame] at hd
  exact hNot hd

/- What is copied is the overlay of the block. -/
theorem mayCopy
    (h : RecoverCut s u slot node i e b y G) :
    MayCopy s slot b (s.headKey slot)
      (Wanted (s.overlay slot b)) where
  sound := h.sound
  few := h.few
  two := h.clones
  dirty := by
    intro d hd
    exact ⟨h.overlay_dirty hd, h.dirty d hd⟩
  cached := by
    intro j hj hMark hNot hKey
    have hContent := h.cached j hj hMark hNot hKey
    have hLen := h.clean _ _ _ hContent
    refine ⟨hLen, ?_, hLen⟩
    rw [Recoverable.overlay_clean (h.noDirty hj hMark hNot hKey)]
    exact hContent
  read := by
    intro n p hClean hNewest
    have hContent : s.flash.content b n =
        some ((s.flash.page b p).data,
          (s.flash.tags b p).dataLen) := by
      unfold Flash.content
      rw [hNewest]
      rfl
    have hLen := h.clean _ _ _ hContent
    rw [Nat.min_eq_left hLen]
    refine ⟨?_, hLen⟩
    rw [Recoverable.overlay_clean hClean]
    exact hContent

theorem replaceable
    (h : RecoverCut s u slot node i e b y G) :
    ∃ H T, Replaceable s H slot i b e y (s.headKey slot)
      (Wanted (s.overlay slot b)) T := by
  rcases h.calm with ⟨H, hCalm, hHeld, hFree⟩
  rcases h.pop with ⟨T, hPop, hList⟩
  refine ⟨H, T, ?_⟩
  constructor
  · exact h.mayCopy
  · exact hCalm
  · exact h.mem
  · exact h.block
  · exact hHeld
  · exact hFree
  · exact h.old.rival.good
  · exact hPop
  · exact hList
  · exact h.erased
  · exact h.places.2.1
  · exact h.places.2.2
  · intro hEq
    subst hEq
    apply h.old.rival.not_erased
    rw [h.erased.2 0 (Nat.lt_of_lt_of_le (by decide)
      Platform.two_le_pagesPerBlock)]
    rfl

/- At least the first page is copied. -/
theorem pos
    (h : RecoverCut s u slot node i e b y G)
    {page m : Nat}
    (hEnds : Ends s slot b page m) : 0 < m := by
  have hTwo := Platform.two_le_pagesPerBlock
  cases hEnds with
  | full hAll => omega
  | last _ hNone =>
      apply Nat.pos_of_ne_zero
      intro hZero
      subst hZero
      exact h.first.1 hNone
  | empty d hMem hPage hLen =>
      apply Nat.pos_of_ne_zero
      intro hZero
      subst hZero
      have hData := h.first.2 d hMem hPage
      omega
  | tail d _ _ _ _ => omega

theorem recopied
    (h : RecoverCut s u slot node i e b y G)
    {F : Flash}
    {m : Nat}
    (hPos : 0 < m)
    (hCopied : F.Copied y (s.headKey slot)
      (getNextBlockTimeStamp (blockStamp (s.flash.tags b)))
      (Wanted (s.overlay slot b)) m) :
    s.flash.Recopied F b y (s.headKey slot) (s.overlay slot b)
      m where
  tidy := h.tidy
  old := h.old
  place := h.places.1
  blank := h.erased
  copied := by
    have hStamp : blockStamp (s.flash.tags b) =
        (s.flash.tags b 0).blockTs := by
      unfold blockStamp
      rw [Tag.isDirty_of_isGood h.old.rival.good]
      rfl
    rw [← hStamp]
    exact hCopied
  fits := h.fits
  key := h.key
  pos := hPos

end RecoverCut

/-
  Block `b` after a cut recover has its old content or, up to
  where the recover ends, the content overlaid with the group.
-/
inductive Dev.OldOrNew (s : Dev) (slot b : Nat) (v : Dev) : Prop
| old
    (serves : v.Serves (s.flash.tags b 0) (s.flash.content b))
| new
    (page m : Nat)
    (ends : Ends s slot b page m)
    (serves : v.Serves (s.flash.tags b 0)
      fun id => if id < m then s.overlay slot b id else none)

/-
  A recover that is cut is atomic: the next mount succeeds
  with a tree that is an image of the flash, the object has
  its old content or all of the new one, and no other object
  is touched.
-/
theorem recoverCut_atomic
    {s u : Dev}
    {slot node i e b y : Nat}
    {G : Flash}
    (h : RecoverCut s u slot node i e b y G) :
    wp mount
      (fun r _ v => r = .succ ∧ v.Mirrors ∧
        Dev.OldOrNew s slot b v ∧
        ∀ x, s.flash.Whole x → x ≠ b →
          v.Serves (s.flash.tags x 0) (s.flash.content x)) u := by
  rcases h.replaceable with ⟨H, T, hReplace⟩
  rcases h.cut with ⟨r, es, t, hRun, hCut⟩
  rcases (wp_of_run hRun).mp
    (wp_bufFlushExistWithBlockRecover hReplace h.type) with
    ⟨_, F, page, m, hst⟩
  have hCopy := h.recopied (h.pos hst.ends) hst.copied
  rcases hst.events with ⟨notes, hEvents⟩
  rw [hEvents] at hCut
  have hMount : G.Mountable → G.Typed →
      wp mount (fun r _ v => r = .succ ∧ v.Mirrors ∧ ∀ x,
        G.Prevails x → G.Owned x → v.Enters G x) u := by
    intro hMountable hTyped
    rw [← h.flash] at hMountable hTyped ⊢
    refine wp_mono (wp_conj
      (wp_mount_swept h.good hMountable hTyped)
      (wp_mount_enters h.good hMountable)) ?_
    intro r _ v hv
    rcases hv with ⟨⟨hr, d₀, d, hRests, hFinished⟩, _, hEnters⟩
    exact ⟨hr, hFinished.mirrors hRests, hEnters⟩
  rcases powerCut_recover hCut with ⟨j, _, hHalf⟩ | hErased
  · refine wp_mono (hMount (hCopy.mountable_halfway hHalf)
      (hCopy.typed_halfway hHalf)) ?_
    intro r _ v hv
    have hServes : ∀ x, s.flash.Whole x →
        v.Serves (s.flash.tags x 0) (s.flash.content x) := by
      intro x hx
      have hPage := hHalf.other x (hCopy.ne_of_whole hx)
      apply (hv.2.2 x (hCopy.prevails_halfway hHalf hx)
        (hCopy.owned_halfway hHalf hx)).serves
      · rw [Flash.tags_congr hPage]
      · exact Flash.content_congr hPage
    exact ⟨hv.1, hv.2.1, .old (hServes b h.old),
      fun x hx _ => hServes x hx⟩
  · have hDone := hCopy.done_of_replay hErased
    refine wp_mono (hMount (hCopy.mountable_done hDone)
      (hCopy.typed_done hDone)) ?_
    intro r _ v hv
    refine ⟨hv.1, hv.2.1, .new page m hst.ends ?_, ?_⟩
    · apply (hv.2.2 y (hCopy.prevails_new hDone)
        (hCopy.owned_new hDone)).serves
      · exact (hCopy.first (hCopy.done_first hDone)).2.1
      · exact hCopy.content_new hDone
    · intro x hx hxb
      have hPage := hDone.other x (hCopy.ne_of_whole hx) hxb
      apply (hv.2.2 x (hCopy.prevails_done hDone hx hxb)
        (hCopy.owned_done hDone hx hxb)).serves
      · rw [Flash.tags_congr hPage]
      · exact Flash.content_congr hPage

/- A flash with one block in use, of a file, is tidy. -/
theorem Flash.tidy_of_single
    {F : Flash}
    {b : Nat}
    (hWhole : F.Whole b)
    (hFile : (F.tags b 0).type = .file)
    (hOther : ∀ x, InPartition x → x ≠ b →
      (F.tags x 0).isErased) : F.Tidy := by
  have hOnly : ∀ x, F.Whole x → x = b := by
    intro x hx
    by_contra hNe
    have hErased := hOther x hx.place hNe
    rw [hx.rival.used] at hErased
    cases hErased
  constructor
  · intro x hPlace
    by_cases hEq : x = b
    · subst hEq
      exact Or.inr (Or.inr hWhole)
    · exact Or.inr (Or.inl (hOther x hPlace hEq))
  · intro x z hx hz _
    rw [hOnly x hx, hOnly z hz]
  · intro x hx hData
    rw [hOnly x hx, hFile] at hData
    cases hData

/-
  Create the file "/a" on an erased flash, open and write it,
  and hold the info of its block, block 1.
-/
def recoverSetup : M (Option Nat) := do
  let _ ← session (createA ++
    [.openObject 0 pathA { rdwr := true },
      .writeObject 0 [1, 2, 3]])
  blockInfoGet 1

/-
  What a run on a concrete device must be checked for: block
  1 is whole, held and the only one in use, and block 2 is
  the first erased one.
-/
def BlockReady (s : Dev) (i : Nat) : Prop :=
  (s.bc.info i).refCount = 1 ∧
    (∃ j ∈ s.bc.list, (s.bc.info j).refCount = 0) ∧
    (s.tree.popErased.any fun x =>
      decide (x.1 = 2 ∧ (x.2.node 2).listBlock = 2)) = true ∧
    s.flash.ErasedBlock 2 ∧
    (s.flash.tags 1 0).isErased = false ∧
    s.flash.unclean 1 (pagesPerBlock - 1) = false ∧
    s.flash.nameSum 1 ≠ none ∧
    (s.flash.tags 1 0).blockTs < 3 ∧
    ∀ x ∈ List.range' parStart nodeCount, x ≠ 1 →
      (s.flash.tags x 0).isErased = true

instance (s : Dev) (i : Nat) : Decidable (BlockReady s i) :=
  inferInstanceAs (Decidable (_ ∧ _))

/- The group of the file has pages, but not the first one. -/
def GroupReady (s : Dev) : Prop :=
  (s.headKey 0).type = .file ∧
    (s.headKey 0).serial = (s.flash.tags 1 0).serial ∧
    (s.headKey 0).parent < 1024 ∧
    (s.headKey 0).serial < 16384 ∧
    (s.tree.node 0).mismatch (s.headKey 0).type = false ∧
    (∀ j ∈ s.buf.list,
      (s.buf.entry j).refCount + 1 < cloneBufMark) ∧
    2 ≤ s.buf.clone.length ∧
    (∀ d ∈ (s.buf.group 0).dirty,
      (s.buf.entry d).dataLen ≤ pgDataSize ∧
        (s.buf.entry d).pageId ≠ 0) ∧
    newestPage (s.flash.tags 1) 0 ≠ none

instance (s : Dev) : Decidable (GroupReady s) :=
  inferInstanceAs (Decidable (_ ∧ _))

/- The cached pages of the file are those of block 1. -/
def CachedReady (s : Dev) : Prop :=
  (∀ id < pagesPerBlock, ∀ x ∈ s.flash.content 1 id,
    x.2 ≤ pgDataSize) ∧
    ∀ j ∈ s.buf.list, (s.buf.entry j).mark ≠ .empty →
      j ∉ (s.buf.group 0).dirty →
      (s.buf.entry j).groupKey =
        ((s.headKey 0).parent, (s.headKey 0).serial) →
        s.flash.content 1 (s.buf.entry j).pageId =
          some ((s.buf.entry j).data, (s.buf.entry j).dataLen)

instance (s : Dev) : Decidable (CachedReady s) :=
  inferInstanceAs (Decidable (_ ∧ _))

/- The page that the recover of block 1 programs first. -/
def recoverFirst (s : Dev) (i : Nat) : Option (Nat × Nat) :=
  (bufFlushExistWithBlockRecover 0 0 i false s).bind
    fun x => firstProgram x.2.1

/- A page id that a block holds is one of its pages. -/
theorem Flash.content_lt
    {F : Flash}
    {b id : Nat}
    {x : List Byte × Nat}
    (h : F.content b id = some x) : id < pagesPerBlock := by
  unfold Flash.content newestPage at h
  cases hFind : pageWithId (F.tags b) id with
  | none =>
      rw [hFind] at h
      cases h
  | some p =>
      have hLt := pageWithId_lt hFind
      omega

/- A device that passes the checks, with a torn first page. -/
theorem recoverCut_of_ready
    {s : Dev}
    {i : Nat}
    (hAppend : AppendReady s i)
    (hBlock : BlockReady s i)
    (hGroup : GroupReady s)
    (hCached : CachedReady s)
    (hSound : s.buf.Sound)
    (hPlaces : InPartition 1 ∧ InPartition 2)
    (hValid : 2 < invalidBlock)
    (hFirst : recoverFirst s i = some (2, 0))
    (hGood : GoodFrom s.clock) :
    RecoverCut s { s with flash := s.flash.tear 2 0 [] } 0 0 i 2 1
      2 (s.flash.tear 2 0 []) := by
  rcases hAppend with
    ⟨⟨hSpare, hClone, hTwo, hNodup, hFresh, hUnique⟩, hMem,
      hInfo, hType, hBad, hGoodTag, hErased, hSole⟩
  rcases hBlock with
    ⟨hCount, ⟨j, hj, hFree⟩, hPop, hBlank, hUsed, hClean, hName,
      hStamp, hOther⟩
  rcases hGroup with
    ⟨hFile, hSerial, hParentLt, hSerialLt, hMatch, hFew,
      hClones, hDirty, hHead⟩
  rcases hCached with ⟨hLen, hSame⟩
  have hWhole : s.flash.Whole 1 :=
    ⟨hPlaces.1, ⟨hBad, hUsed, hClean, hGoodTag⟩,
      Or.inr ⟨Or.inr hType, hName⟩, hStamp⟩
  constructor
  · refine ⟨fun k => (s.bc.info k).refCount, ?_, ?_, j, hj,
      hFree⟩
    · exact ⟨hGood, hSpare, hClone, hTwo, hNodup, hFresh,
        hUnique, fun _ _ => rfl⟩
    · dsimp only
      rw [hCount]
      exact Nat.one_pos
  · exact hMem
  · exact hInfo
  · rw [Option.any_eq_true] at hPop
    rcases hPop with ⟨⟨e, T⟩, hEq, hTest⟩
    rw [decide_eq_true_eq] at hTest
    rcases hTest with ⟨he, hList⟩
    refine ⟨T, ?_, hList⟩
    rw [hEq, ← he]
  · exact ⟨hPlaces.2, by omega, by omega⟩
  · exact hBlank
  · apply Flash.tidy_of_single hWhole hType
    intro x hx hNe
    apply hOther x _ hNe
    rw [List.mem_range'_1]
    exact hx
  · exact hWhole
  · refine ⟨hFile.trans hType.symm, hSerial, ?_⟩
    intro hData
    have hNot : BlockType.file = .data := hType.symm.trans hData
    cases hNot
  · exact ⟨hParentLt, hSerialLt⟩
  · exact hMatch
  · exact hSound
  · exact hFew
  · exact hClones
  · exact fun d hd => (hDirty d hd).1
  · intro id data len hContent
    exact hLen id (Flash.content_lt hContent) _
      (Option.mem_def.mpr hContent)
  · exact hSame
  · exact ⟨hHead, fun d hd hZero =>
      absurd hZero (hDirty d hd).2⟩
  · unfold recoverFirst at hFirst
    rw [Option.bind_eq_some_iff] at hFirst
    rcases hFirst with ⟨⟨r, es, t⟩, hRun, hEvent⟩
    refine ⟨r, es, t, hRun, Or.inr ⟨2, 0, ?_⟩⟩
    exact cut_of_firstProgram _ _ hEvent
  · rfl
  · exact hGood

end Recover

theorem recoverSetup_run :
    letI := emulator alwaysOk
    ∃ i es s,
      recoverSetup (Dev.init Flash.blank 0) =
          some (some i, es, s) ∧
        noNotes es ∧ AppendReady s i ∧ BlockReady s i ∧
        GroupReady s ∧ CachedReady s ∧
        recoverFirst s i = some (2, 0) := by
  let _ := emulator alwaysOk
  have hCheck :
      recoverSetup.check
        (fun o es s => o.any fun i =>
          noNotes es && decide (AppendReady s i) &&
            decide (BlockReady s i) && decide (GroupReady s) &&
            decide (CachedReady s) &&
            decide (recoverFirst s i = some (2, 0)))
        (Dev.init Flash.blank 0) = true := by
    decide +kernel
  rcases Prog.wp_of_check hCheck with ⟨o, es, s, hRun, hTest⟩
  cases o with
  | none => cases hTest
  | some i =>
      simp only [Option.any_some, Bool.and_eq_true,
        decide_eq_true_eq] at hTest
      rcases hTest with
        ⟨⟨⟨⟨⟨hNotes, hAppend⟩, hBlock⟩, hGroup⟩, hCached⟩, hFirst⟩
      exact ⟨i, es, s, hRun, hNotes, hAppend, hBlock, hGroup,
        hCached, hFirst⟩

/- The first page of the recovered block is torn. -/
theorem recoverCut_atomic_torn_first :
    letI := emulator alwaysOk
    ∃ s u i, RecoverCut s u 0 0 i 2 1 2
        (s.flash.tear 2 0 []) ∧
      wp mount
        (fun r _ v => r = .succ ∧ v.Mirrors ∧
          Dev.OldOrNew s 0 1 v ∧
          ∀ x, s.flash.Whole x → x ≠ 1 →
            v.Serves (s.flash.tags x 0) (s.flash.content x))
        u := by
  let _ := emulator alwaysOk
  rcases recoverSetup_run with
    ⟨i, es, s, hRun, hNotes, hAppend, hBlock, hGroup, hCached,
      hFirst⟩
  have hIdle : wlp
      (fun e => e ≠ .note .movedOnto ∧
        e ≠ .note .dirtyEmptied)
      recoverSetup (fun _ t => t.buf.Sound)
      (Dev.init Flash.blank 0) := by
    unfold recoverSetup
    refine wlp_seq (idle_session (fun h => h.1 rfl)
      (fun h => h.2 rfl) _ _) ?_
    intro q t ht
    refine wlp_mono (shuffles_blockInfoGet 1 t) ?_
    intro o v hv
    exact (hv ht.sound.apart).sound ht.sound
  have hNone : ∀ n, .note n ∉ es := by
    intro n hNote
    have hTestNote := List.all_eq_true.mp hNotes _ hNote
    cases hTestNote
  have hSound := hIdle _ _ _ hRun fun e he =>
    ⟨fun hEq => hNone _ (hEq ▸ he),
      fun hEq => hNone _ (hEq ▸ he)⟩
  have hCut := recoverCut_of_ready hAppend hBlock hGroup hCached
    hSound ⟨⟨by decide, by decide⟩, ⟨by decide, by decide⟩⟩
    (by decide) hFirst
    fun _ _ => rfl
  exact ⟨s, _, i, hCut, recoverCut_atomic hCut⟩

end Uffs
