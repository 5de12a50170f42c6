import Uffs.Crash.Append
import Uffs.Good.Agree
import Uffs.Good.Remount

/-
  The flash while a block is recovered.

  The recover writes the new block from below and erases the
  old one at the end.  As long as the old block is there it
  is the older of the two and prevails in the next mount; a
  torn page makes that mount erase the new block.  Once the
  old block is erased the new one is complete.

  Main declarations:
    * `PowerCut`, `powerCut_recover`
    * `Flash.Halfway`
    * `Flash.Recopied`
-/

namespace Uffs

open Prog

variable [Platform]

------------------------------------------------------------
-- The Flash after a Cut
------------------------------------------------------------

/-
  Power is cut in a run with the events `es`, started on the
  flash `F`: between two calls of the driver, or while a page
  is programmed; `G` is what is left.
-/
def PowerCut (es : List Event) (F G : Flash) : Prop :=
  (∃ before after, es = before ++ after ∧
      G = Event.replay before F) ∨
    ∃ b p, Cut es F b p G

/-
  `G` is the flash `A` with the pages below `j` of block `y`
  programmed as on `F`; page `j` may be torn.
-/
structure Flash.Halfway (A F : Flash) (y j : Nat) (G : Flash) :
    Prop where
  other : ∀ x, x ≠ y → G.page x = A.page x
  bad : G.bad = A.bad
  wrote : ∀ p < j, G.page y p = F.page y p
  next : G.page y j = A.page y j ∨
    ∃ data, G.page y j = Page.torn data
  above : ∀ p, j < p → G.page y p = A.page y p

/- The events of the first `j` pages of a block. -/
def wrotePages (F : Flash) (y j : Nat) : List Event :=
  (List.range j).map fun p => .wrote y p (F.page y p)

omit [Platform] in
theorem wrotePages_length (F : Flash) (y j : Nat) :
    (wrotePages F y j).length = j := by
  unfold wrotePages
  rw [List.length_map, List.length_range]

omit [Platform] in
theorem wrotePages_take
    (F : Flash)
    (y : Nat)
    {j m : Nat}
    (hLe : j ≤ m) :
    (wrotePages F y m).take j = wrotePages F y j := by
  unfold wrotePages
  rw [← List.map_take, List.take_range, Nat.min_eq_left hLe]

/- The first `j` pages are programmed. -/
omit [Platform] in
theorem replay_wrotePages
    (A F : Flash)
    (y j : Nat) :
    (∀ x, x ≠ y →
      (Event.replay (wrotePages F y j) A).page x = A.page x) ∧
      (Event.replay (wrotePages F y j) A).bad = A.bad ∧
      (∀ p < j,
        (Event.replay (wrotePages F y j) A).page y p =
          F.page y p) ∧
      ∀ p, j ≤ p →
        (Event.replay (wrotePages F y j) A).page y p =
          A.page y p := by
  induction j with
  | zero =>
      refine ⟨fun _ _ => rfl, rfl, ?_, fun _ _ => rfl⟩
      intro p hp
      omega
  | succ j ih =>
      rcases ih with ⟨hOther, hBad, hWrote, hAbove⟩
      have hStep : Event.replay (wrotePages F y (j + 1)) A =
          (Event.replay (wrotePages F y j) A).write y j
            (F.page y j) := by
        unfold wrotePages Event.replay
        rw [List.range_succ, List.map_append,
          List.foldl_append]
        rfl
      rw [hStep]
      refine ⟨?_, hBad, ?_, ?_⟩
      · intro x hx
        rw [← hOther x hx]
        exact upd_other _ _ hx
      · intro p hp
        by_cases hEq : p = j
        · subst hEq
          exact Flash.write_same _ _ _ _
        · rw [← hWrote p (by omega)]
          simp [Flash.write, upd_other _ _ hEq]
      · intro p hp
        have hNe : p ≠ j := by omega
        rw [← hAbove p (by omega)]
        simp [Flash.write, upd_other _ _ hNe]

omit [Platform] in
theorem Flash.halfway_replay
    (A F : Flash)
    (y j : Nat) :
    A.Halfway F y j (Event.replay (wrotePages F y j) A) := by
  rcases replay_wrotePages A F y j with
    ⟨hOther, hBad, hWrote, hAbove⟩
  constructor
  · exact hOther
  · exact hBad
  · exact hWrote
  · exact Or.inl (hAbove j (Nat.le_refl j))
  · intro p hp
    exact hAbove p (Nat.le_of_lt hp)

/- The next page is torn. -/
omit [Platform] in
theorem Flash.Halfway.tear
    {A F G : Flash}
    {y j : Nat}
    (h : A.Halfway F y j G)
    (data : List Byte) :
    A.Halfway F y j (G.tear y j data) where
  other := by
    intro x hx
    rw [← h.other x hx]
    exact upd_other _ _ hx
  bad := h.bad
  wrote := by
    intro p hp
    have hNe : p ≠ j := by omega
    rw [← h.wrote p hp]
    simp [Flash.tear, Flash.write, upd_other _ _ hNe]
  next := Or.inr ⟨data, Flash.write_same _ _ _ _⟩
  above := by
    intro p hp
    have hNe : p ≠ j := by omega
    rw [← h.above p hp]
    simp [Flash.tear, Flash.write, upd_other _ _ hNe]

/- Notes do not change the flash. -/
omit [Platform] in
theorem Event.replay_notes
    (notes : List Note)
    (F : Flash) :
    Event.replay (notes.map .note) F = F := by
  induction notes with
  | nil => rfl
  | cons n notes ih => exact ih

omit [Platform] in
theorem Event.replay_append
    (es fs : List Event)
    (F : Flash) :
    Event.replay (es ++ fs) F =
      Event.replay fs (Event.replay es F) :=
  List.foldl_append

/- The last events of a recover program no page. -/
theorem notes_not_program
    {notes : List Note}
    {b b' p : Nat}
    {r : FlashRet}
    {c : Option Page}
    {after : List Event} :
    .program b' p r c :: after ≠
      notes.map .note ++ [.erased b] := by
  intro hEq
  cases notes with
  | nil =>
      rw [List.map_nil, List.nil_append, List.cons.injEq] at hEq
      cases hEq.1
  | cons n notes =>
      rw [List.map_cons, List.cons_append,
        List.cons.injEq] at hEq
      cases hEq.1

/-
  The flash that a cut leaves of a recover of block `b` into
  block `y`.
-/
theorem powerCut_recover
    {A F G : Flash}
    {b y m : Nat}
    {notes : List Note}
    (h : PowerCut
      (wrotePages F y m ++ notes.map .note ++ [.erased b]) A G) :
    (∃ j ≤ m, A.Halfway F y j G) ∨
      G = (Event.replay (wrotePages F y m) A).eraseBlock b := by
  have hPrefix : ∀ before after,
      wrotePages F y m ++ notes.map .note ++ [.erased b] =
          before ++ after →
        (∃ j ≤ m, before = wrotePages F y j ∧
          after = (wrotePages F y m).drop j ++
            (notes.map .note ++ [.erased b])) ∨
        (∃ k, before = wrotePages F y m ++
            (notes.take k).map .note ∧
          after = (notes.drop k).map .note ++ [.erased b]) ∨
        (before = wrotePages F y m ++ notes.map .note ++
          [.erased b] ∧ after = []) := by
    intro before after hEq
    rw [List.append_assoc] at hEq
    rcases List.append_eq_append_iff.mp hEq with
      ⟨rest, hBefore, hRest⟩ | ⟨rest, hWrote, hAfter⟩
    · right
      rcases List.append_eq_append_iff.mp hRest with
        ⟨last, hRest', hLast⟩ | ⟨left, hNotes, hAfter⟩
      · cases last with
        | nil =>
            left
            refine ⟨notes.length, ?_, ?_⟩
            · rw [hBefore, hRest', List.take_length,
                List.append_nil]
            · rw [List.drop_length]
              exact hLast.symm
        | cons e last =>
            right
            rw [List.cons_append, List.cons.injEq] at hLast
            have hNil := List.append_eq_nil_iff.mp hLast.2.symm
            rw [hBefore, hRest', ← hLast.1, hNil.1,
              List.append_assoc]
            exact ⟨rfl, hNil.2⟩
      · left
        rcases List.map_eq_append_iff.mp hNotes with
          ⟨n₁, n₂, hSplit, h₁, h₂⟩
        refine ⟨n₁.length, ?_, ?_⟩
        · rw [hBefore, hSplit, List.take_left, h₁]
        · rw [hAfter, hSplit, List.drop_left, h₂]
    · left
      have hLen := congrArg List.length hWrote
      rw [wrotePages_length, List.length_append] at hLen
      have hLe : before.length ≤ m := by omega
      refine ⟨before.length, hLe, ?_, ?_⟩
      · rw [← wrotePages_take F y hLe, hWrote, List.take_left]
      · rw [hAfter, hWrote, List.drop_left]
  rcases h with ⟨before, after, hEq, rfl⟩ |
    ⟨b', p, before, after, r, c, data, hEq, rfl⟩
  · rcases hPrefix before after hEq with
      ⟨j, hj, rfl, _⟩ | ⟨k, rfl, _⟩ | ⟨rfl, _⟩
    · left
      exact ⟨j, hj, A.halfway_replay F y j⟩
    · left
      rw [Event.replay_append, Event.replay_notes]
      exact ⟨m, Nat.le_refl m, A.halfway_replay F y m⟩
    · right
      rw [Event.replay_append, Event.replay_append,
        Event.replay_notes]
      rfl
  · left
    rcases hPrefix before _ hEq with
      ⟨j, hj, rfl, hAfter⟩ | ⟨k, _, hAfter⟩ | ⟨_, hAfter⟩
    · rcases Nat.lt_or_ge j m with hLt | hGe
      · have hGet : (wrotePages F y m)[j]? =
            some (.wrote y j (F.page y j)) := by
          unfold wrotePages
          rw [List.getElem?_map, List.getElem?_range hLt]
          rfl
        rw [List.drop_eq_getElem_cons
          (by rw [wrotePages_length]; exact hLt)] at hAfter
        rw [List.cons_append, List.cons.injEq] at hAfter
        rw [List.getElem?_eq_getElem
          (by rw [wrotePages_length]; exact hLt)] at hGet
        rw [Option.some.injEq, ← hAfter.1] at hGet
        cases hGet
        exact ⟨p, hj, (A.halfway_replay F y p).tear data⟩
      · have hNil : (wrotePages F y m).drop j = [] := by
          apply List.drop_eq_nil_of_le
          rw [wrotePages_length]
          exact hGe
        rw [hNil, List.nil_append] at hAfter
        exact absurd hAfter notes_not_program
    · exact absurd hAfter notes_not_program
    · cases hAfter

------------------------------------------------------------
-- The Two Blocks
------------------------------------------------------------

/-
  On the tidy flash `A` block `b` is in use and block `y`
  erased; `F` has `m` pages of a newer copy of `b` on `y`.
-/
structure Flash.Recopied
    (A F : Flash)
    (b y : Nat)
    (key : GroupKey)
    (want : Nat → Option (List Byte × Nat))
    (m : Nat) : Prop where
  tidy : A.Tidy
  old : A.Whole b
  place : InPartition y
  blank : A.ErasedBlock y
  copied : F.Copied y key
    (getNextBlockTimeStamp (A.tags b 0).blockTs) (Wanted want) m
  fits : key.Fits
  key : key.Of (A.tags b 0)
  pos : 0 < m

namespace Flash.Recopied

variable {A F G : Flash} {b y x z j m : Nat} {key : GroupKey}
  {want : Nat → Option (List Byte × Nat)}

theorem ne_of_whole
    (h : A.Recopied F b y key want m)
    (hx : A.Whole x) : x ≠ y := by
  intro hEq
  subst hEq
  apply hx.rival.not_erased
  rw [h.blank.2 0 (Nat.lt_of_lt_of_le (by decide)
    Platform.two_le_pagesPerBlock)]
  rfl

/- The first page of the copy is newer and has the key. -/
theorem first
    (h : A.Recopied F b y key want m)
    (hPage : G.page y 0 = F.page y 0) :
    (G.tags y 0).isGood ∧
      (G.tags y 0).key = (A.tags b 0).key ∧
      (G.tags y 0).type = (A.tags b 0).type ∧
      (G.tags y 0).serial = (A.tags b 0).serial ∧
      isSrcNewerThanObj (G.tags y 0).blockTs
        (A.tags b 0).blockTs = true := by
  have hTags : G.tags y 0 = F.tags y 0 := by
    unfold Flash.tags
    rw [hPage]
  rw [hTags]
  rcases h.copied.tags h.fits h.pos with
    ⟨_, _, _, _, _, hGood, _, hType, hParent, hSerial⟩
  refine ⟨hGood, h.key.tag_key hType hSerial hParent, ?_, ?_, ?_⟩
  · rw [hType, h.key.1]
  · rw [hSerial, h.key.2.1]
  · rcases h.copied.page 0 h.pos with ⟨data, len, _, hFirst⟩
    have hStamp : (F.tags y 0).blockTs =
        getNextBlockTimeStamp (A.tags b 0).blockTs % 4 := by
      unfold Flash.tags
      rw [hFirst]
      rfl
    have hLt := h.old.stamp
    rw [hStamp]
    unfold getNextBlockTimeStamp isSrcNewerThanObj
    generalize (A.tags b 0).blockTs = ts at hLt
    have hCases : ts = 0 ∨ ts = 1 ∨ ts = 2 := by omega
    rcases hCases with rfl | rfl | rfl
    · decide
    · decide
    · decide

/- The new block has a type and a stamp that are given. -/
theorem first_typed
    (h : A.Recopied F b y key want m)
    (hPage : G.page y 0 = F.page y 0) :
    (G.tags y 0).type ≠ .resv ∧ (G.tags y 0).blockTs < 3 := by
  have hOld := h.tidy.typed b h.old.place h.old.rival
  constructor
  · rw [(h.first hPage).2.2.1]
    exact hOld.1
  · rcases h.copied.page 0 h.pos with ⟨data, len, _, hFirst⟩
    have hStamp : (G.tags y 0).blockTs =
        getNextBlockTimeStamp (A.tags b 0).blockTs % 4 := by
      unfold Flash.tags
      rw [hPage, hFirst]
      rfl
    have hLt := h.old.stamp
    rw [hStamp]
    unfold getNextBlockTimeStamp
    omega

/- A block that is as on the tidy flash has them, too. -/
theorem typed_other
    (h : A.Recopied F b y key want m)
    (hPlace : InPartition x)
    (hRival : G.Rival x)
    (hPage : G.page x = A.page x)
    (hBad : G.bad x = A.bad x) :
    (G.tags x 0).type ≠ .resv ∧ (G.tags x 0).blockTs < 3 := by
  rw [Flash.tags_congr hPage]
  exact h.tidy.typed x hPlace
    (hRival.congr hPage.symm hBad.symm)

/- The blocks of a tidy flash let the scan pass. -/
theorem mountable_other
    (h : A.Recopied F b y key want m)
    (hPlace : InPartition x)
    (hPage : G.page x = A.page x)
    (hBad : G.bad x = A.bad x) :
    G.bad x = true ∨ (G.tags x 0).isErased ∨
      (G.tags x 0).isDirty := by
  rw [hBad, Flash.tags_congr hPage]
  rcases h.tidy.blocks x hPlace with hIs | hIs | hIs
  · exact Or.inl hIs
  · exact Or.inr (Or.inl hIs)
  · exact Or.inr (Or.inr (Tag.isDirty_of_isGood hIs.rival.good))

section Halfway

/- The new block is entered only with its first page. -/
theorem halfway_first
    (h : A.Recopied F b y key want m)
    (hHalf : A.Halfway F y j G)
    (hTag : (G.page y 0).tag ≠ Tag.erased) :
    G.page y 0 = F.page y 0 := by
  apply hHalf.wrote
  by_contra hNot
  have hZero : j = 0 := by omega
  subst hZero
  apply hTag
  rcases hHalf.next with hPage | ⟨data, hPage⟩
  · rw [hPage, h.blank.2 0 (Nat.lt_of_lt_of_le (by decide)
      Platform.two_le_pagesPerBlock)]
    rfl
  · rw [hPage]
    rfl

theorem mountable_halfway
    (h : A.Recopied F b y key want m)
    (hHalf : A.Halfway F y j G) : G.Mountable := by
  intro x hPlace
  by_cases hxy : x = y
  · subst hxy
    right
    by_cases hTag : (G.page x 0).tag = Tag.erased
    · left
      unfold Flash.tags
      rw [hTag]
      rfl
    · right
      have hFirst := h.first (h.halfway_first hHalf hTag)
      exact Tag.isDirty_of_isGood hFirst.1
  · apply h.mountable_other hPlace (hHalf.other x hxy)
    rw [hHalf.bad]

theorem typed_halfway
    (h : A.Recopied F b y key want m)
    (hHalf : A.Halfway F y j G) : G.Typed := by
  intro x hPlace hRival
  by_cases hxy : x = y
  · subst hxy
    apply h.first_typed
    exact h.halfway_first hHalf fun hTag =>
      hRival.not_erased hTag
  · apply h.typed_other hPlace hRival (hHalf.other x hxy)
    rw [hHalf.bad]

/- While the old block is there, all blocks prevail. -/
theorem prevails_halfway
    (h : A.Recopied F b y key want m)
    (hHalf : A.Halfway F y j G)
    (hx : A.Whole x) : G.Prevails x := by
  have hxy := h.ne_of_whole hx
  have hPage := hHalf.other x hxy
  have hTags := Flash.tags_congr hPage
  constructor
  · exact hx.place
  · apply hx.rival.congr hPage
    rw [hHalf.bad]
  · exact hx.named.congr hPage
  · intro z hPlace hzx hRival hKey
    rw [hTags] at hKey ⊢
    by_cases hzy : z = y
    · subst hzy
      have hFirst := h.first (h.halfway_first hHalf
        fun hTag => hRival.not_erased hTag)
      rw [hFirst.2.1] at hKey
      rw [← h.tidy.unique b x h.old hx hKey]
      exact hFirst.2.2.2.2
    · exfalso
      have hSame := hHalf.other z hzy
      have hOld : A.Rival z := by
        apply hRival.congr hSame.symm
        rw [hHalf.bad]
      have hWhole := h.tidy.whole hPlace hOld
      rw [Flash.tags_congr hSame] at hKey
      exact hzx (h.tidy.unique z x hWhole hx hKey)

theorem owned_halfway
    (h : A.Recopied F b y key want m)
    (hHalf : A.Halfway F y j G)
    (hx : A.Whole x) : G.Owned x := by
  intro hData
  rw [Flash.tags_congr (hHalf.other x (h.ne_of_whole hx))]
    at hData ⊢
  rcases h.tidy.owned x hx hData with
    ⟨f, hf, hFile, hSerial⟩
  refine ⟨f, h.prevails_halfway hHalf hf, ?_, ?_⟩
  · rw [Flash.tags_congr (hHalf.other f (h.ne_of_whole hf))]
    exact hFile
  · rw [Flash.tags_congr (hHalf.other f (h.ne_of_whole hf))]
    exact hSerial

end Halfway

section Done

/- The new block is complete, and the old one erased. -/
structure Done (A F : Flash) (b y m : Nat) (G : Flash) : Prop
    where
  other : ∀ x, x ≠ y → x ≠ b → G.page x = A.page x
  bad : ∀ x, x ≠ b → G.bad x = A.bad x
  wrote : ∀ p < m, G.page y p = F.page y p
  above : ∀ p, m ≤ p → G.page y p = A.page y p
  erased : (G.page b 0).tag = Tag.erased

/- The pages are written, and the old block is erased. -/
theorem done_of_replay
    (h : A.Recopied F b y key want m)
    (hEq : G =
      (Event.replay (wrotePages F y m) A).eraseBlock b) :
    Done A F b y m G := by
  subst hEq
  rcases replay_wrotePages A F y m with
    ⟨hOther, hBad, hWrote, hAbove⟩
  have hNe := h.ne_of_whole h.old
  have hNew : ((Event.replay (wrotePages F y m) A).eraseBlock
      b).page y = (Event.replay (wrotePages F y m) A).page y :=
    upd_other _ _ hNe.symm
  constructor
  · intro x hxy hxb
    rw [← hOther x hxy]
    exact upd_other _ _ hxb
  · intro x hxb
    rw [← hBad]
    exact upd_other _ _ hxb
  · intro p hp
    rw [hNew]
    exact hWrote p hp
  · intro p hp
    rw [hNew]
    exact hAbove p hp
  · unfold Flash.eraseBlock
    dsimp only
    rw [upd_same]
    rfl

theorem done_copied
    (h : A.Recopied F b y key want m)
    (hDone : Done A F b y m G) :
    G.Copied y key
      (getNextBlockTimeStamp (A.tags b 0).blockTs)
      (Wanted want) m where
  le := h.copied.le
  page := by
    intro p hp
    rw [hDone.wrote p hp]
    exact h.copied.page p hp
  erased := by
    intro p hp hLt
    rw [hDone.above p hp]
    exact h.blank.2 p hLt

theorem done_first
    (h : A.Recopied F b y key want m)
    (hDone : Done A F b y m G) : G.page y 0 = F.page y 0 :=
  hDone.wrote 0 h.pos

/- Neither torn nor half-written pages are in the new block. -/
theorem done_clean
    (h : A.Recopied F b y key want m)
    (hDone : Done A F b y m G)
    (n : Nat)
    (hLt : n < pagesPerBlock) : G.unclean y n = false := by
  induction n with
  | zero => rfl
  | succ n ih =>
      have hLower := ih (by omega)
      unfold Flash.unclean Flash.tags
      by_cases hn : n + 1 < m
      · rcases h.copied.page (n + 1) hn with
          ⟨data, len, _, hPage⟩
        rw [hDone.wrote (n + 1) hn, hPage]
        rfl
      · rw [hDone.above (n + 1) (by omega),
          h.blank.2 (n + 1) hLt, hLower]
        rfl

/- The new block can be entered. -/
theorem done_rival
    (h : A.Recopied F b y key want m)
    (hDone : Done A F b y m G) : G.Rival y := by
  have hFirst := h.first (h.done_first hDone)
  have hNe := h.ne_of_whole h.old
  constructor
  · rw [hDone.bad y hNe.symm]
    exact h.blank.1
  · exact Tag.not_isErased hFirst.1
  · apply h.done_clean hDone
    have hTwo := Platform.two_le_pagesPerBlock
    omega
  · exact hFirst.1

theorem done_named
    (h : A.Recopied F b y key want m)
    (hDone : Done A F b y m G) : G.Named y := by
  have hFirst := h.first (h.done_first hDone)
  unfold Flash.Named
  rw [hFirst.2.2.1]
  rcases h.old.named with hData | ⟨hType, _⟩
  · exact Or.inl hData
  right
  refine ⟨hType, ?_⟩
  rcases (h.done_copied hDone).tags h.fits h.pos with
    ⟨_, _, _, _, _, _, hId, _⟩
  have hPage : pageWithId (G.tags y) 0 = some 0 := by
    unfold pageWithId
    have hTwo := Platform.two_le_pagesPerBlock
    rw [show pagesPerBlock - 0 = pagesPerBlock - 1 + 1 by omega]
    unfold pageWithIdFrom
    rw [hFirst.1, hId]
    rfl
  unfold Flash.nameSum
  rw [hPage]
  exact Option.some_ne_none _

/- No other block is in use with the key of the old one. -/
theorem done_other
    (h : A.Recopied F b y key want m)
    (hDone : Done A F b y m G)
    (hzy : z ≠ y)
    (hPlace : InPartition z)
    (hRival : G.Rival z) :
    z ≠ b ∧ A.Whole z ∧ G.tags z 0 = A.tags z 0 := by
  by_cases hzb : z = b
  · subst hzb
    exact absurd hDone.erased fun hTag =>
      hRival.not_erased hTag
  · have hPage := hDone.other z hzy hzb
    refine ⟨hzb, ?_, ?_⟩
    · apply h.tidy.whole hPlace
      exact hRival.congr hPage.symm (hDone.bad z hzb).symm
    · rw [Flash.tags_congr hPage]

theorem prevails_new
    (h : A.Recopied F b y key want m)
    (hDone : Done A F b y m G) : G.Prevails y where
  place := h.place
  rival := h.done_rival hDone
  named := h.done_named hDone
  oldest := by
    intro z hPlace hzy hRival hKey
    rcases h.done_other hDone hzy hPlace hRival with
      ⟨hzb, hWhole, hTag⟩
    rw [hTag, (h.first (h.done_first hDone)).2.1] at hKey
    exact absurd (h.tidy.unique z b hWhole h.old hKey) hzb

theorem prevails_done
    (h : A.Recopied F b y key want m)
    (hDone : Done A F b y m G)
    (hx : A.Whole x)
    (hxb : x ≠ b) : G.Prevails x := by
  have hPage := hDone.other x (h.ne_of_whole hx) hxb
  have hTags := Flash.tags_congr hPage
  constructor
  · exact hx.place
  · exact hx.rival.congr hPage (hDone.bad x hxb)
  · exact hx.named.congr hPage
  · intro z hPlace hzx hRival hKey
    rw [hTags] at hKey
    by_cases hzy : z = y
    · subst hzy
      rw [(h.first (h.done_first hDone)).2.1] at hKey
      exact absurd (h.tidy.unique b x h.old hx hKey).symm hxb
    · rcases h.done_other hDone hzy hPlace hRival with
        ⟨_, hWhole, hTag⟩
      rw [hTag] at hKey
      exact absurd (h.tidy.unique z x hWhole hx hKey) hzx

theorem mountable_done
    (h : A.Recopied F b y key want m)
    (hDone : Done A F b y m G) : G.Mountable := by
  intro x hPlace
  by_cases hxy : x = y
  · subst hxy
    right
    right
    exact Tag.isDirty_of_isGood
      (h.first (h.done_first hDone)).1
  · by_cases hxb : x = b
    · subst hxb
      right
      left
      unfold Flash.tags
      rw [hDone.erased]
      rfl
    · exact h.mountable_other hPlace (hDone.other x hxy hxb)
        (hDone.bad x hxb)

theorem typed_done
    (h : A.Recopied F b y key want m)
    (hDone : Done A F b y m G) : G.Typed := by
  intro x hPlace hRival
  by_cases hxy : x = y
  · subst hxy
    exact h.first_typed (h.done_first hDone)
  · have hxb := (h.done_other hDone hxy hPlace hRival).1
    exact h.typed_other hPlace hRival (hDone.other x hxy hxb)
      (hDone.bad x hxb)

/- The file of a data block prevails, if it was copied too. -/
theorem done_file
    (h : A.Recopied F b y key want m)
    (hDone : Done A F b y m G)
    (hx : A.Whole x)
    (hData : (A.tags x 0).type = .data) :
    ∃ f, G.Prevails f ∧ (G.tags f 0).type = .file ∧
      (G.tags f 0).serial = (A.tags x 0).parent := by
  rcases h.tidy.owned x hx hData with
    ⟨f, hf, hFile, hSerial⟩
  by_cases hfb : f = b
  · subst hfb
    have hFirst := h.first (h.done_first hDone)
    refine ⟨y, h.prevails_new hDone, ?_, ?_⟩
    · rw [hFirst.2.2.1, hFile]
    · rw [hFirst.2.2.2.1, hSerial]
  · have hTags := Flash.tags_congr
      (hDone.other f (h.ne_of_whole hf) hfb)
    refine ⟨f, h.prevails_done hDone hf hfb, ?_, ?_⟩
    · rw [hTags, hFile]
    · rw [hTags, hSerial]

theorem owned_done
    (h : A.Recopied F b y key want m)
    (hDone : Done A F b y m G)
    (hx : A.Whole x)
    (hxb : x ≠ b) : G.Owned x := by
  intro hData
  rw [Flash.tags_congr
    (hDone.other x (h.ne_of_whole hx) hxb)] at hData ⊢
  exact h.done_file hDone hx hData

theorem owned_new
    (h : A.Recopied F b y key want m)
    (hDone : Done A F b y m G) : G.Owned y := by
  intro hData
  have hFirst := h.first (h.done_first hDone)
  have hOld : (A.tags b 0).type = .data := by
    rw [← hFirst.2.2.1]
    exact hData
  have hParent : (G.tags y 0).parent = (A.tags b 0).parent := by
    rcases (h.done_copied hDone).tags h.fits h.pos with
      ⟨_, _, _, _, _, _, _, _, hEq, _⟩
    rw [hEq, h.key.2.2 hOld]
  rw [hParent]
  exact h.done_file hDone h.old hOld

/- The new block holds what is wanted of the copied pages. -/
theorem content_new
    (h : A.Recopied F b y key want m)
    (hDone : Done A F b y m G)
    (id : Nat) :
    G.content y id = if id < m then want id else none := by
  have hCut : G.Copied y key
      (getNextBlockTimeStamp (A.tags b 0).blockTs)
      (Wanted fun id => if id < m then want id else none) m := by
    have hCopied := h.done_copied hDone
    constructor
    · exact hCopied.le
    · intro p hp
      rcases hCopied.page p hp with ⟨data, len, hWant, hPage⟩
      refine ⟨data, len, ⟨?_, hWant.2⟩, hPage⟩
      dsimp only
      rw [if_pos hp]
      exact hWant.1
    · exact hCopied.erased
  apply hCut.content h.fits h.pos
  intro id hid
  exact if_neg (Nat.not_lt.mpr hid)

end Done

end Flash.Recopied

end Uffs
