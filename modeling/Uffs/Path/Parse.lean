import Uffs.Model.Emulator
import Uffs.Model.Path

/-
  What `uffs_ParseObject` makes of a path.

  The number that `GetDirLengthFromPath` returns is the place
  of the last '/', and 0 also stands for a path without one.
  So a '/' that directly follows the mount point becomes a
  part of the name when no other '/' follows.

  Main declarations:
    * `LongestMount`
    * `getMatchedMountPointSize_eq`
    * `resolveDirs`
    * `Parses`
    * `parses_iff`
    * `parseObjectAt_rootMounted`
-/

namespace Uffs

open Prog

section Paths

variable [Platform]

------------------------------------------------------------
-- Mount Points
------------------------------------------------------------

section Mounts

variable {mtb : List MountedAt} {path : List Byte}
variable {w : MountedAt} {len pos q : Nat}

omit [Platform]

/-
  The entry of the longest mount point that an absolute path
  begins with.
-/
structure LongestMount
    (mtb : List MountedAt)
    (path : List Byte)
    (w : MountedAt) : Prop where
  absolute : path.head? = some slash
  first : mtb.find? (fun v => v.mount == w.mount) = some w
  begins : w.mount <+: path
  longest : ∀ v ∈ mtb, v.mount <+: path →
    v.mount.length ≤ w.mount.length

theorem findMounted_some
    (h : findMounted mtb path len = some w) :
    w ∈ mtb ∧ w.mount <+: path ∧ w.mount.length = len := by
  have hMem := List.mem_of_find?_eq_some h
  have hTest := List.find?_some h
  rw [Bool.and_eq_true, beq_iff_eq, beq_iff_eq] at hTest
  refine ⟨hMem, ?_, hTest.1⟩
  rw [← hTest.2]
  exact List.take_prefix len path

theorem findMounted_none
    (h : findMounted mtb path len = none)
    (hw : w ∈ mtb)
    (hBegins : w.mount <+: path) : w.mount.length ≠ len := by
  intro hLen
  have hNot := List.find?_eq_none.mp h w hw
  apply hNot
  rw [Bool.and_eq_true, beq_iff_eq, beq_iff_eq]
  refine ⟨hLen, ?_⟩
  rw [← hLen]
  exact (List.prefix_iff_eq_take.mp hBegins).symm

theorem backToSlash_le (path : List Byte) (pos : Nat) :
    backToSlash path pos ≤ pos := by
  induction pos with
  | zero => exact Nat.le_refl 0
  | succ pos ih =>
      unfold backToSlash
      split
      · exact Nat.le_refl _
      · exact Nat.le_succ_of_le ih

/- No '/' is passed over. -/
theorem le_backToSlash
    (hLe : q ≤ pos)
    (hSlash : q = 0 ∨ path[q - 1]? = some slash) :
    q ≤ backToSlash path pos := by
  induction pos with
  | zero => exact hLe
  | succ pos ih =>
      unfold backToSlash
      split
      · exact hLe
      · rename_i hHere
        apply ih
        rcases Nat.lt_or_eq_of_le hLe with hLt | hEq
        · exact Nat.le_of_lt_succ hLt
        · rcases hSlash with hZero | hSlash
          · omega
          · rw [hEq, Nat.add_sub_cancel] at hSlash
            exact absurd hSlash hHere

/- One round goes to the end of an earlier '/'. -/
theorem backToSlash_round
    (path : List Byte)
    (hPos : 0 < pos) :
    backToSlash path
        (if path[pos - 1]? = some slash then pos - 1
          else pos) =
      backToSlash path (pos - 1) := by
  split
  · rfl
  · rename_i hHere
    obtain ⟨p, rfl⟩ := Nat.exists_eq_succ_of_ne_zero
      (Nat.ne_of_gt hPos)
    conv_lhs => unfold backToSlash
    exact if_neg hHere

/- A mount point that ends in '/' has one at its end. -/
theorem ends_slash
    (hEnd : w.mount.getLast? = some slash)
    (hBegins : w.mount <+: path) :
    path[w.mount.length - 1]? = some slash := by
  rcases hBegins with ⟨rest, hPath⟩
  rw [List.getLast?_eq_getElem?] at hEnd
  rw [← hPath, List.getElem?_append_left, hEnd]
  have hSome := List.getElem?_eq_some_iff.mp hEnd
  exact hSome.1

theorem upd_upd
    {α : Type}
    (f : Nat → α)
    (i : Nat)
    (v u : α) : upd (upd f i v) i u = upd f i u := by
  funext j
  by_cases hj : j = i
  · rw [hj, upd_same, upd_same]
  · rw [upd_other _ _ hj, upd_other _ _ hj, upd_other _ _ hj]

/- A device with one more reference. -/
def Devs.take (S : Devs) (i : Nat) : Devs :=
  upd S i { S i with refCount := (S i).refCount + 1 }

/- A device with one reference less. -/
def Devs.put (S : Devs) (i : Nat) : Devs :=
  upd S i { S i with refCount := (S i).refCount - 1 }

/- A reference that was taken is given back. -/
theorem run_put_take (i : Nat) (S : Devs) :
    onDev i putDevice (S.take i) = some ((), [], S) := by
  have hSame : upd (S.take i) i
      { (S.take i) i with
        refCount := ((S.take i) i).refCount - 1 } = S := by
    unfold Devs.take
    funext j
    by_cases hj : j = i
    · rw [hj, upd_same, upd_same, Int.add_sub_cancel]
    · rw [upd_other _ _ hj, upd_other _ _ hj]
  exact congrArg (fun T => some ((), [], T)) hSame

theorem run_getDevice_none
    (S : Devs)
    (h : findMounted mtb path len = none) :
    getDeviceFromMountPointEx mtb path len S =
      some (none, [], S) := by
  unfold getDeviceFromMountPointEx
  rw [h]
  rfl

theorem run_getDevice_some
    (S : Devs)
    (h : findMounted mtb path len = some w) :
    getDeviceFromMountPointEx mtb path len S =
      some (some w.dev, [], S.take w.dev) := by
  unfold getDeviceFromMountPointEx
  rw [h]
  rfl

/- What the search for the mount point comes to. -/
structure Matched
    (mtb : List MountedAt)
    (path : List Byte)
    (len : Nat) : Prop where
  found : len ≠ 0 → ∃ w, findMounted mtb path len = some w
  longest : ∀ w ∈ mtb, w.mount <+: path →
    w.mount.length ≤ len

theorem matchedFrom_eq
    (hEnd : ∀ w ∈ mtb, w.mount.getLast? = some slash)
    (S : Devs)
    (n : Nat) :
    ∀ pos, pos ≤ n →
      (∀ w ∈ mtb, w.mount <+: path →
        w.mount.length ≤ pos) →
      ∃ len, matchedFrom mtb path n pos S =
          some (len, [], S) ∧ Matched mtb path len := by
  induction n with
  | zero =>
      intro pos hPos hLongest
      have hZero := Nat.le_zero.mp hPos
      exact ⟨pos, rfl, fun hNe => absurd hZero hNe, hLongest⟩
  | succ n ih =>
      intro pos hPos hLongest
      unfold matchedFrom
      by_cases hZero : pos = 0
      · rw [if_pos hZero]
        exact ⟨pos, rfl, fun hNe => absurd hZero hNe, hLongest⟩
      · rw [if_neg hZero]
        cases hFind : findMounted mtb path pos with
        | some w =>
            refine ⟨pos, ?_, fun _ => ⟨w, hFind⟩, hLongest⟩
            rw [run_bind, run_getDevice_some S hFind]
            dsimp only
            rw [run_bind, run_put_take]
            rfl
        | none =>
            have hPositive := Nat.pos_of_ne_zero hZero
            rw [run_bind, run_getDevice_none S hFind]
            dsimp only
            rw [backToSlash_round path hPositive]
            have hBack := backToSlash_le path (pos - 1)
            have hNext : ∀ w ∈ mtb, w.mount <+: path →
                w.mount.length ≤
                  backToSlash path (pos - 1) := by
              intro w hw hBegins
              apply le_backToSlash
              · have hNe := findMounted_none hFind hw hBegins
                have hLe := hLongest w hw hBegins
                omega
              · exact Or.inr (ends_slash (hEnd w hw) hBegins)
            rcases ih _ (by omega) hNext with
              ⟨len, hRun, hMatched⟩
            rw [hRun]
            exact ⟨len, rfl, hMatched⟩

/-
  The search for the mount point takes no reference, and
  finds the longest one.
-/
theorem getMatchedMountPointSize_eq
    (hEnd : ∀ w ∈ mtb, w.mount.getLast? = some slash)
    (hAbsolute : path.head? = some slash)
    (S : Devs) :
    ∃ len, getMatchedMountPointSize mtb path S =
        some (len, [], S) ∧ Matched mtb path len := by
  unfold getMatchedMountPointSize
  rw [if_neg (not_not.mpr hAbsolute)]
  apply matchedFrom_eq hEnd S _ _ (Nat.le_refl _)
  intro w _ hBegins
  exact hBegins.length_le

/- The longest mount point is the one that is found. -/
theorem LongestMount.matched
    (hEnd : ∀ v ∈ mtb, v.mount.getLast? = some slash)
    (h : LongestMount mtb path w)
    (hMatched : Matched mtb path len) :
    len = w.mount.length ∧
      findMounted mtb path w.mount.length = some w := by
  have hMem := List.mem_of_find?_eq_some h.first
  have hLe := hMatched.longest w hMem h.begins
  have hNe : w.mount ≠ [] := by
    intro hNil
    have hLast := hEnd w hMem
    rw [hNil] at hLast
    cases hLast
  have hPos := List.length_pos_iff.mpr hNe
  rcases hMatched.found (by omega) with ⟨v, hFind⟩
  rcases findMounted_some hFind with ⟨hv, hBegins, hLen⟩
  have hLongest := h.longest v hv hBegins
  refine ⟨by omega, ?_⟩
  have hTake := List.prefix_iff_eq_take.mp h.begins
  rw [← h.first]
  unfold findMounted
  apply congrFun
  apply congrArg
  funext v
  rw [← hTake, Bool.eq_iff_iff, Bool.and_eq_true, beq_iff_eq,
    beq_iff_eq, beq_iff_eq]
  constructor
  · exact fun hv => hv.2.symm
  · intro hv
    rw [hv]
    exact ⟨rfl, rfl⟩

/- A mount point that was found is the longest one. -/
theorem Matched.longestMount
    (hAbsolute : path.head? = some slash)
    (hMatched : Matched mtb path len)
    (hFind : findMounted mtb path len = some w) :
    LongestMount mtb path w := by
  rcases findMounted_some hFind with ⟨_, hBegins, hLen⟩
  refine ⟨hAbsolute, ?_, hBegins, ?_⟩
  · have hTake := List.prefix_iff_eq_take.mp hBegins
    rw [← hFind]
    unfold findMounted
    apply congrFun
    apply congrArg
    funext v
    rw [← hLen, ← hTake, Bool.eq_iff_iff, Bool.and_eq_true,
      beq_iff_eq, beq_iff_eq, beq_iff_eq]
    constructor
    · intro hv
      rw [hv]
      exact ⟨rfl, rfl⟩
    · exact fun hv => hv.2.symm
  · intro v hv hBeginsV
    rw [hLen]
    exact hMatched.longest v hv hBeginsV

end Mounts

------------------------------------------------------------
-- The Last Directory
------------------------------------------------------------

/- A part of a path between two '/'. -/
structure IsComponent (c : List Byte) : Prop where
  ne_nil : c ≠ []
  no_slash : slash ∉ c

/- The components of a path, each with its '/'. -/
def joinDirs (dirs : List (List Byte)) : List Byte :=
  dirs.flatMap fun c => c ++ [slash]

section Dirs

variable {path u v last : List Byte}
variable {dirs : List (List Byte)}

omit [Platform]

theorem joinDirs_cons
    (c : List Byte)
    (dirs : List (List Byte)) :
    joinDirs (c :: dirs) = c ++ slash :: joinDirs dirs := by
  unfold joinDirs
  rw [List.flatMap_cons, List.append_assoc]
  rfl

/- The directories end in the last '/'. -/
theorem joinDirs_eq
    (hDirs : dirs ≠ []) :
    ∃ u, joinDirs dirs = u ++ [slash] := by
  induction dirs with
  | nil => exact absurd rfl hDirs
  | cons c dirs ih =>
      rw [joinDirs_cons]
      by_cases hNil : dirs = []
      · rw [hNil]
        exact ⟨c, rfl⟩
      · rcases ih hNil with ⟨u, hu⟩
        refine ⟨c ++ slash :: u, ?_⟩
        rw [hu, List.append_assoc]
        rfl

theorem length_le_joinDirs (dirs : List (List Byte)) :
    dirs.length ≤ (joinDirs dirs).length := by
  induction dirs with
  | nil => exact Nat.le_refl 0
  | cons c dirs ih =>
      rw [joinDirs_cons, List.length_append, List.length_cons,
        List.length_cons]
      omega

/- A component and its '/'. -/
theorem two_le_joinDirs
    (hNil : dirs ≠ [])
    (hDirs : ∀ c ∈ dirs, IsComponent c) :
    2 ≤ (joinDirs dirs).length := by
  cases dirs with
  | nil => exact absurd rfl hNil
  | cons c dirs =>
      have hc := hDirs c List.mem_cons_self
      have hPos := List.length_pos_iff.mpr hc.ne_nil
      rw [joinDirs_cons, List.length_append, List.length_cons]
      omega

theorem dropEndingSlash_snoc (u : List Byte) :
    dropEndingSlash (u ++ [slash]) = u := by
  unfold dropEndingSlash
  rw [List.getLast?_concat, if_pos rfl, List.dropLast_concat]

theorem dropEndingSlash_of_last
    (h : path.getLast? ≠ some slash) :
    dropEndingSlash path = path :=
  if_neg h

/- The last number below `n` with a property. -/
theorem find_reverse_range
    {p : Nat → Bool}
    {n k : Nat}
    (hLt : k < n)
    (hHere : p k = true)
    (hAfter : ∀ j, k < j → j < n → p j = false) :
    (List.range n).reverse.find? p = some k := by
  induction n with
  | zero => cases hLt
  | succ n ih =>
      rw [List.range_succ, List.reverse_append]
      by_cases hEq : k = n
      · rw [← hEq]
        exact List.find?_cons_of_pos hHere
      · have hLater : k < n := by omega
        have hNot := hAfter n hLater (Nat.lt_succ_self n)
        have hRest := ih hLater fun j hkj hj =>
          hAfter j hkj (Nat.lt_succ_of_lt hj)
        rw [← hRest]
        apply List.find?_cons_of_neg
        rw [hNot]
        exact Bool.false_ne_true

/- The place of a '/' with none behind it. -/
theorem find_last_slash
    (hv : slash ∉ v) :
    (List.range (u ++ slash :: v).length).reverse.find?
        (fun i => (u ++ slash :: v)[i]? == some slash) =
      some u.length := by
  apply find_reverse_range
  · rw [List.length_append, List.length_cons]
    omega
  · rw [List.getElem?_append_right (Nat.le_refl _),
      Nat.sub_self]
    rfl
  · intro j hLt _
    rw [List.getElem?_append_right (Nat.le_of_lt hLt)]
    obtain ⟨k, hk⟩ := Nat.exists_eq_add_of_lt hLt
    have hSub : j - u.length = k + 1 := by omega
    rw [hSub, List.getElem?_cons_succ, beq_eq_false_iff_ne]
    intro hSlash
    exact hv (List.mem_of_getElem? hSlash)

theorem getDirLength_of_none
    (h : slash ∉ dropEndingSlash path) :
    getDirLengthFromPath path = 0 := by
  unfold getDirLengthFromPath
  dsimp only
  rw [List.find?_eq_none.mpr]
  · rfl
  · intro i _ hSlash
    exact h (List.mem_of_getElem? (eq_of_beq hSlash))

theorem getDirLength_of_last
    (h : dropEndingSlash path = u ++ slash :: v)
    (hv : slash ∉ v) :
    getDirLengthFromPath path = u.length := by
  unfold getDirLengthFromPath
  dsimp only
  rw [h, find_last_slash hv]
  rfl

/- A list with a '/' has a last one. -/
theorem exists_last_slash
    (h : slash ∈ path) :
    ∃ u v, path = u ++ slash :: v ∧ slash ∉ v := by
  induction path with
  | nil => cases h
  | cons a path ih =>
      by_cases hRest : slash ∈ path
      · rcases ih hRest with ⟨u, v, hSplit, hv⟩
        refine ⟨a :: u, v, ?_, hv⟩
        rw [hSplit]
        rfl
      · have ha := (List.mem_cons.mp h).resolve_right hRest
        refine ⟨[], path, ?_, hRest⟩
        rw [ha]
        rfl

/- The directories of a path made of components. -/
theorem getDirLength_join
    (tail : Bool)
    (hLast : IsComponent last) :
    getDirLengthFromPath (joinDirs dirs ++ last ++
        if tail then [slash] else []) =
      (joinDirs dirs).length - 1 := by
  have hDrop : dropEndingSlash (joinDirs dirs ++ last ++
      if tail then [slash] else []) = joinDirs dirs ++ last := by
    cases tail with
    | true => exact dropEndingSlash_snoc _
    | false =>
        have hNil : joinDirs dirs ++ last ++
            (if false = true then [slash] else []) =
              joinDirs dirs ++ last := List.append_nil _
        rw [hNil]
        apply dropEndingSlash_of_last
        rw [List.getLast?_append]
        cases hEnd : last.getLast? with
        | none =>
            exact absurd (List.getLast?_eq_none_iff.mp hEnd)
              hLast.ne_nil
        | some a =>
            intro hEq
            apply hLast.no_slash
            cases hEq
            exact List.mem_of_getLast? hEnd
  by_cases hDirs : dirs = []
  · rw [getDirLength_of_none]
    · rw [hDirs]
      rfl
    · rw [hDrop, hDirs]
      exact hLast.no_slash
  · rcases joinDirs_eq hDirs with ⟨u, hu⟩
    rw [getDirLength_of_last (u := u) (v := last)]
    · rw [hu, List.length_append, List.length_singleton,
        Nat.add_sub_cancel]
    · rw [hDrop, hu, List.append_assoc]
      rfl
    · exact hLast.no_slash

end Dirs

------------------------------------------------------------
-- The Name
------------------------------------------------------------

/- A name with no '/' but as its last byte. -/
def NameOk (name : List Byte) : Prop :=
  ∀ i, name[i]? = some slash → i + 1 = name.length

/-
  Does the path go on with a '/' and one name behind its
  mount point?
-/
def SlashFirst
    (mtb : List MountedAt)
    (path : List Byte) : Prop :=
  ∃ w c, LongestMount mtb path w ∧ slash ∉ c ∧
    dropEndingSlash (path.drop w.mount.length) = slash :: c

section Names

variable {start v : List Byte}

omit [Platform]

theorem nameOk_component
    (tail : Bool)
    (hv : slash ∉ v) :
    NameOk (v ++ if tail then [slash] else []) := by
  intro i hi
  rcases Nat.lt_or_ge i v.length with hLt | hGe
  · rw [List.getElem?_append_left hLt] at hi
    exact absurd (List.mem_of_getElem? hi) hv
  · rw [List.getElem?_append_right hGe] at hi
    cases tail with
    | false => cases hi
    | true =>
        have hLt := (List.getElem?_eq_some_iff.mp hi).1
        simp only [if_true, List.length_singleton] at hLt
        simp only [if_true, List.length_append,
          List.length_singleton]
        omega

theorem dropEndingSlash_append (start : List Byte) :
    ∃ tail : Bool, start = dropEndingSlash start ++
      if tail then [slash] else [] := by
  by_cases hEnd : start.getLast? = some slash
  · rcases List.getLast?_eq_some_iff.mp hEnd with ⟨u, hu⟩
    refine ⟨true, ?_⟩
    rw [hu, dropEndingSlash_snoc]
    rfl
  · refine ⟨false, ?_⟩
    rw [dropEndingSlash_of_last hEnd]
    exact (List.append_nil start).symm

/- The name behind the directories. -/
theorem nameOk_drop
    (h : ¬ ∃ c, slash ∉ c ∧ dropEndingSlash start = slash :: c) :
    NameOk (nameOfPath start) := by
  unfold nameOfPath
  dsimp only
  rcases dropEndingSlash_append start with ⟨tail, hStart⟩
  by_cases hSlash : slash ∈ dropEndingSlash start
  · rcases exists_last_slash hSlash with ⟨u, v, hSplit, hv⟩
    have hLen := getDirLength_of_last hSplit hv
    have hPos : 0 < u.length := by
      apply List.length_pos_iff.mpr
      intro hNil
      rw [hNil] at hSplit
      exact h ⟨v, hv, hSplit⟩
    rw [hLen, if_pos hPos, hStart, hSplit, List.append_assoc]
    have hDrop : (u ++ (slash :: v ++
        if tail = true then [slash] else [])).drop
          (u.length + 1) =
        v ++ if tail = true then [slash] else [] := by
      rw [← List.drop_drop, List.drop_left]
      rfl
    rw [hDrop]
    exact nameOk_component tail hv
  · rw [getDirLength_of_none hSlash]
    have hName := nameOk_component tail hSlash
    rw [← hStart] at hName
    exact hName

/- The whole rest of the path is the name. -/
theorem not_nameOk_slashFirst
    {c : List Byte}
    (hc : slash ∉ c)
    (h : dropEndingSlash start = slash :: c) :
    getDirLengthFromPath start = 0 ∧ start ≠ [] ∧
      ¬ NameOk start := by
  have hLen := getDirLength_of_last (u := []) h hc
  rcases dropEndingSlash_append start with ⟨tail, hStart⟩
  rw [h] at hStart
  have hNe : start ≠ [] := by
    rw [hStart]
    exact nofun
  refine ⟨hLen, hNe, ?_⟩
  intro hOk
  have hFirst : start[0]? = some slash := by
    rw [hStart]
    rfl
  have hOne := hOk 0 hFirst
  rcases List.length_eq_one_iff.mp hOne.symm with ⟨a, ha⟩
  rw [ha] at hFirst
  cases hFirst
  rw [ha] at h
  cases h

end Names

------------------------------------------------------------
-- Parsing
------------------------------------------------------------

/-
  The directories that names lead to, one after the other:
  are they all there, and what is the serial number of the
  last one that is?
-/
def resolveDirs : List (List Byte) → Nat → M (Bool × Nat)
| [], dir => pure (true, dir)
| c :: dirs, dir => do
    match ← treeFindDirNodeByName c (makeSum16 c) dir with
    | none => pure (false, dir)
    | some node =>
        let d ← getNode node
        resolveDirs dirs d.serial

section Parsing

variable {mtb : List MountedAt} {path : List Byte}
variable {w : MountedAt} {obj : Obj} {S : Devs}

omit [Platform] in
theorem takeWhile_component
    {c : List Byte}
    (rest : List Byte)
    (hc : slash ∉ c) :
    (c ++ slash :: rest).takeWhile (fun a => a != slash) =
      c := by
  rw [List.takeWhile_append_of_pos]
  · rw [List.takeWhile_cons_of_neg]
    · exact List.append_nil c
    · simp
  · intro a ha
    rw [bne_iff_ne]
    intro hEq
    exact hc (hEq ▸ ha)

/- The loop over the directories resolves their names. -/
theorem parseDirs_eq
    {dLen : Nat}
    (rest : List Byte)
    (dirs : List (List Byte)) :
    ∀ n used dir, (∀ c ∈ dirs, IsComponent c) →
      dLen ≤ used + (joinDirs dirs).length →
      used + (joinDirs dirs).length ≤ dLen + 1 →
      dirs.length ≤ n →
      parseDirs dLen n used (joinDirs dirs ++ rest) dir =
        resolveDirs dirs dir := by
  induction dirs with
  | nil =>
      intro n used dir _ hLe _ _
      cases n with
      | zero => rfl
      | succ n =>
          unfold parseDirs
          exact if_pos hLe
  | cons c dirs ih =>
      intro n used dir hDirs hLe hGe hFuel
      have hc := hDirs c List.mem_cons_self
      have hPos := List.length_pos_iff.mpr hc.ne_nil
      rw [joinDirs_cons, List.length_append,
        List.length_cons] at hLe hGe
      cases n with
      | zero => cases hFuel
      | succ n =>
          have hPart := takeWhile_component
            (joinDirs dirs ++ rest) hc.no_slash
          have hDrop : (c ++ slash :: (joinDirs dirs ++
              rest)).drop (c.length + 1) =
                joinDirs dirs ++ rest := by
            rw [← List.drop_drop, List.drop_left]
            rfl
          unfold parseDirs resolveDirs
          rw [if_neg (by omega), joinDirs_cons,
            List.append_assoc, List.cons_append]
          dsimp only
          rw [hPart, hDrop]
          congr 1
          funext o
          cases o with
          | none => rfl
          | some node =>
              dsimp only
              congr 1
              funext d
              apply ih
              · intro a ha
                exact hDirs a (List.mem_cons_of_mem c ha)
              · omega
              · omega
              · exact Nat.le_of_succ_le_succ hFuel

/- A path with a mount point and more behind it. -/
theorem run_parseObjectAt
    (hEnd : ∀ v ∈ mtb, v.mount.getLast? = some slash)
    (hFresh : obj.openSucc = false)
    (h : LongestMount mtb path w)
    (hMore : w.mount.length ≠ path.length)
    (S : Devs) :
    parseObjectAt mtb obj path S =
      match onDev w.dev
          (parseDirs
            (getDirLengthFromPath (path.drop w.mount.length))
            (getDirLengthFromPath
              (path.drop w.mount.length) + 1)
            0 (path.drop w.mount.length) rootDirSerial)
          (S.take w.dev) with
      | none => none
      | some ((true, dir), es, T) =>
          some ((.succ,
            { Obj.zero with
              dev := true
              parent := dir
              name := nameOfPath (path.drop w.mount.length) },
            some w.dev), es, T)
      | some ((false, dir), es, T) =>
          some ((.fail,
            { Obj.zero with
              err := .noent
              parent := dir
              name := nameOfPath (path.drop w.mount.length) },
            none), es, T.put w.dev) := by
  rcases getMatchedMountPointSize_eq hEnd h.absolute S with
    ⟨len, hRun, hMatched⟩
  rcases h.matched hEnd hMatched with ⟨hLen, hFind⟩
  rw [hLen] at hRun
  unfold parseObjectAt
  rw [hFresh, if_neg Bool.false_ne_true]
  dsimp only
  rw [run_bind, hRun]
  dsimp only
  rw [run_bind, run_getDevice_some S hFind]
  dsimp only
  rw [if_neg hMore, run_bind]
  cases onDev w.dev _ (S.take w.dev) with
  | none => rfl
  | some p =>
      rcases p with ⟨⟨found, dir⟩, es, T⟩
      cases found with
      | true =>
          dsimp only
          rw [if_pos rfl]
          simp only [run_pure, List.append_nil,
            List.nil_append]
      | false =>
          dsimp only
          rw [if_neg Bool.false_ne_true, run_bind]
          have hPut : onDev w.dev putDevice T =
              some ((), [], T.put w.dev) := rfl
          rw [hPut]
          simp only [run_pure, List.append_nil,
            List.nil_append]
          rfl

/- A path without a mount point cannot be parsed. -/
theorem run_parseObjectAt_none
    (hEnd : ∀ v ∈ mtb, v.mount.getLast? = some slash)
    (hFresh : obj.openSucc = false)
    (h : ¬ ∃ w, LongestMount mtb path w)
    (S : Devs) :
    parseObjectAt mtb obj path S =
      some ((.fail, { Obj.zero with err := .noent }, none), [],
        S) := by
  have hGet : ∃ len, getMatchedMountPointSize mtb path S =
        some (len, [], S) ∧
      findMounted mtb path len = none := by
    by_cases hAbsolute : path.head? = some slash
    · rcases getMatchedMountPointSize_eq hEnd hAbsolute S with
        ⟨len, hRun, hMatched⟩
      refine ⟨len, hRun, ?_⟩
      cases hFind : findMounted mtb path len with
      | none => rfl
      | some w =>
          exact absurd
            ⟨w, hMatched.longestMount hAbsolute hFind⟩ h
    · refine ⟨0, ?_, ?_⟩
      · unfold getMatchedMountPointSize
        rw [if_pos hAbsolute]
        rfl
      · cases hFind : findMounted mtb path 0 with
        | none => rfl
        | some w =>
            rcases findMounted_some hFind with ⟨hw, _, hLen⟩
            have hLast := hEnd w hw
            rw [List.length_eq_zero_iff.mp hLen] at hLast
            cases hLast
  rcases hGet with ⟨len, hRun, hFind⟩
  unfold parseObjectAt
  rw [hFresh, if_neg Bool.false_ne_true]
  dsimp only
  rw [run_bind, hRun]
  dsimp only
  rw [run_bind, run_getDevice_none S hFind]
  rfl

/- A mount point itself. -/
theorem run_parseObjectAt_mount
    (hEnd : ∀ v ∈ mtb, v.mount.getLast? = some slash)
    (hFresh : obj.openSucc = false)
    (h : LongestMount mtb path w)
    (hAll : w.mount.length = path.length)
    (S : Devs) :
    parseObjectAt mtb obj path S =
      some ((.succ,
        { Obj.zero with dev := true, parent := parentOfRoot },
        some w.dev), [], S.take w.dev) := by
  rcases getMatchedMountPointSize_eq hEnd h.absolute S with
    ⟨len, hRun, hMatched⟩
  rcases h.matched hEnd hMatched with ⟨hLen, hFind⟩
  rw [hLen] at hRun
  unfold parseObjectAt
  rw [hFresh, if_neg Bool.false_ne_true]
  dsimp only
  rw [run_bind, hRun]
  dsimp only
  rw [run_bind, run_getDevice_some S hFind]
  dsimp only
  rw [if_pos hAll]
  rfl

/-
  What the parsing of a path comes to: the components of a
  path are resolved one after the other, and the last one is
  the name; and no name has a '/' but at its end.
-/
structure Parses
    (mtb : List MountedAt)
    (obj : Obj)
    (path : List Byte)
    (S : Devs) : Prop where
  dirs : ∀ w dirs last (tail : Bool),
    LongestMount mtb path w →
    (∀ c ∈ dirs, IsComponent c) →
    IsComponent last →
    path = w.mount ++ (joinDirs dirs ++ last ++
      if tail then [slash] else []) →
    match onDev w.dev (resolveDirs dirs rootDirSerial)
        (S.take w.dev) with
    | none => parseObjectAt mtb obj path S = none
    | some ((true, dir), es, T) =>
        parseObjectAt mtb obj path S =
          some ((.succ,
            { Obj.zero with
              dev := true
              parent := dir
              name := last ++ if tail then [slash] else [] },
            some w.dev), es, T)
    | some ((false, dir), es, T) =>
        parseObjectAt mtb obj path S =
          some ((.fail,
            { Obj.zero with
              err := .noent
              parent := dir
              name := last ++ if tail then [slash] else [] },
            none), es, T.put w.dev)
  name : ∀ obj' dev es T,
    parseObjectAt mtb obj path S =
      some ((.succ, obj', dev), es, T) → NameOk obj'.name

/- The components of a path. -/
theorem parses_dirs
    {dirs : List (List Byte)}
    {last : List Byte}
    (tail : Bool)
    (hEnd : ∀ v ∈ mtb, v.mount.getLast? = some slash)
    (hFresh : obj.openSucc = false)
    (h : LongestMount mtb path w)
    (hDirs : ∀ c ∈ dirs, IsComponent c)
    (hLast : IsComponent last)
    (hPath : path = w.mount ++ (joinDirs dirs ++ last ++
      if tail then [slash] else []))
    (S : Devs) :
    parseObjectAt mtb obj path S =
      match onDev w.dev (resolveDirs dirs rootDirSerial)
          (S.take w.dev) with
      | none => none
      | some ((true, dir), es, T) =>
          some ((.succ,
            { Obj.zero with
              dev := true
              parent := dir
              name := last ++ if tail then [slash] else [] },
            some w.dev), es, T)
      | some ((false, dir), es, T) =>
          some ((.fail,
            { Obj.zero with
              err := .noent
              parent := dir
              name := last ++ if tail then [slash] else [] },
            none), es, T.put w.dev) := by
  have hStart : path.drop w.mount.length = joinDirs dirs ++
      last ++ if tail then [slash] else [] := by
    rw [hPath, List.drop_left]
  have hLastPos := List.length_pos_iff.mpr hLast.ne_nil
  have hMore : w.mount.length ≠ path.length := by
    rw [hPath]
    simp only [List.length_append]
    omega
  have hLen : getDirLengthFromPath (path.drop w.mount.length) =
      (joinDirs dirs).length - 1 := by
    rw [hStart]
    exact getDirLength_join tail hLast
  have hName : nameOfPath (path.drop w.mount.length) =
      last ++ if tail then [slash] else [] := by
    unfold nameOfPath
    dsimp only
    rw [hLen, hStart, List.append_assoc]
    by_cases hNil : dirs = []
    · rw [hNil]
      rfl
    · have hTwo := two_le_joinDirs hNil hDirs
      rw [if_pos (by omega), Nat.sub_add_cancel (by omega)]
      exact List.drop_left
  have hParse : parseDirs
      (getDirLengthFromPath (path.drop w.mount.length))
      (getDirLengthFromPath (path.drop w.mount.length) + 1) 0
      (path.drop w.mount.length) rootDirSerial =
      resolveDirs dirs rootDirSerial := by
    have hCount := length_le_joinDirs dirs
    rw [hLen, hStart, List.append_assoc]
    apply parseDirs_eq _ _ _ _ _ hDirs
    · omega
    · omega
    · omega
  rw [run_parseObjectAt hEnd hFresh h hMore, hParse, hName]

/- A '/' right behind the mount point is taken for a name. -/
theorem SlashFirst.run
    (hEnd : ∀ v ∈ mtb, v.mount.getLast? = some slash)
    (hFresh : obj.openSucc = false)
    (h : SlashFirst mtb path)
    (S : Devs) :
    ∃ obj' dev T, parseObjectAt mtb obj path S =
        some ((.succ, obj', dev), [], T) ∧
      ¬ NameOk obj'.name := by
  rcases h with ⟨w, c, hMount, hc, hDrop⟩
  rcases not_nameOk_slashFirst hc hDrop with ⟨hLen, hNe, hBad⟩
  have hMore : w.mount.length ≠ path.length := by
    intro hAll
    apply hNe
    rw [hAll]
    exact List.drop_length
  have hRun := run_parseObjectAt hEnd hFresh hMount hMore S
  have hName : nameOfPath (path.drop w.mount.length) =
      path.drop w.mount.length := by
    unfold nameOfPath
    rw [hLen]
    rfl
  rw [hName, hLen] at hRun
  exact ⟨_, _, _, hRun, hBad⟩

/- Otherwise the name is what stands behind the last '/'. -/
theorem nameOk_parseObjectAt
    (hEnd : ∀ v ∈ mtb, v.mount.getLast? = some slash)
    (hFresh : obj.openSucc = false)
    (h : ¬ SlashFirst mtb path)
    {obj' : Obj}
    {dev : Option Nat}
    {es : List Event}
    {T : Devs}
    (hRun : parseObjectAt mtb obj path S =
      some ((.succ, obj', dev), es, T)) : NameOk obj'.name := by
  by_cases hFind : ∃ w, LongestMount mtb path w
  · rcases hFind with ⟨w, hMount⟩
    by_cases hAll : w.mount.length = path.length
    · rw [run_parseObjectAt_mount hEnd hFresh hMount hAll]
        at hRun
      cases hRun
      intro i hi
      cases hi
    · rw [run_parseObjectAt hEnd hFresh hMount hAll] at hRun
      have hNot : ¬ ∃ c, slash ∉ c ∧
          dropEndingSlash (path.drop w.mount.length) =
            slash :: c :=
        fun ⟨c, hc, hDrop⟩ => h ⟨w, c, hMount, hc, hDrop⟩
      have hName := nameOk_drop hNot
      split at hRun
      · cases hRun
      · cases hRun
        exact hName
      · cases hRun
  · rw [run_parseObjectAt_none hEnd hFresh hFind] at hRun
    cases hRun

/-
  A path is parsed as it should be if and only if its mount
  point is not followed by a '/' and one name only.
-/
theorem parses_iff
    (mtb : List MountedAt)
    (obj : Obj)
    (path : List Byte)
    (S : Devs)
    (hEnd : ∀ v ∈ mtb, v.mount.getLast? = some slash)
    (hFresh : obj.openSucc = false) :
    Parses mtb obj path S ↔ ¬ SlashFirst mtb path := by
  constructor
  · intro h hSlash
    rcases hSlash.run hEnd hFresh S with
      ⟨obj', dev, T, hRun, hBad⟩
    exact hBad (h.name obj' dev [] T hRun)
  · intro h
    constructor
    · intro w dirs last tail hMount hDirs hLast hPath
      have hRun := parses_dirs tail hEnd hFresh hMount hDirs
        hLast hPath S
      rw [hRun]
      rcases onDev w.dev (resolveDirs dirs rootDirSerial)
        (S.take w.dev) with _ | ⟨⟨_ | _, dir⟩, es, T⟩
      · rfl
      · rfl
      · rfl
    · intro obj' dev es T hRun
      exact nameOk_parseObjectAt hEnd hFresh h hRun

end Parsing

/- The parsing of paths, as it should be. -/
def PathsParse : Prop :=
  ∀ (mtb : List MountedAt) (obj : Obj) (path : List Byte)
    (S : Devs),
    (∀ v ∈ mtb, v.mount.getLast? = some slash) →
    obj.openSucc = false → Parses mtb obj path S

------------------------------------------------------------
-- One Device
------------------------------------------------------------

/- One device, mounted at "/". -/
def rootMounted : List MountedAt := [⟨[slash], 0⟩]

section OneDevice

variable {obj : Obj} {start : List Byte}

omit [Platform] in
theorem rootMounted_longest (start : List Byte) :
    LongestMount rootMounted (slash :: start) ⟨[slash], 0⟩ := by
  constructor
  · rfl
  · rfl
  · exact ⟨start, rfl⟩
  · intro v hv _
    rw [List.mem_singleton.mp hv]

omit [Platform] in
theorem rootMounted_ends :
    ∀ v ∈ rootMounted, v.mount.getLast? = some slash := by
  intro v hv
  rw [List.mem_singleton.mp hv]
  rfl

/- A path with more behind the '/'. -/
theorem run_parseObject
    (hFresh : obj.openSucc = false)
    (hNil : start ≠ [])
    (s : Dev) :
    parseObject obj (slash :: start) s =
      match parseDirs (getDirLengthFromPath start)
          (getDirLengthFromPath start + 1) 0 start
          rootDirSerial
          { s with refCount := s.refCount + 1 } with
      | none => none
      | some ((true, dir), es, t) =>
          some ((.succ,
            { Obj.zero with
              dev := true
              parent := dir
              name := nameOfPath start }), es, t)
      | some ((false, dir), es, t) =>
          some ((.fail,
            { Obj.zero with
              err := .noent
              parent := dir
              name := nameOfPath start }), es,
            { t with refCount := t.refCount - 1 }) := by
  unfold parseObject
  rw [hFresh, if_neg Bool.false_ne_true]
  dsimp only
  rw [if_neg (not_not.mpr rfl), run_bind]
  have hTake : Prog.modify (ε := Event)
      (fun s : Dev => { s with refCount := s.refCount + 1 }) s =
        some ((), [],
          { s with refCount := s.refCount + 1 }) := rfl
  rw [hTake]
  dsimp only
  rw [if_neg hNil, run_bind]
  rcases parseDirs _ _ _ _ _ _ with
    _ | ⟨⟨_ | _, dir⟩, es, t⟩
  · rfl
  · dsimp only
    rw [if_neg Bool.false_ne_true, run_bind]
    have hPut : putDevice t = some ((), [],
        { t with refCount := t.refCount - 1 }) := rfl
    rw [hPut]
    simp only [run_pure, List.append_nil]
    rfl
  · dsimp only
    rw [if_pos rfl]
    simp only [run_pure, List.append_nil, List.nil_append]

/-
  With one device at "/" the paths are parsed as the model of
  one device has it.
-/
theorem parseObjectAt_rootMounted
    (obj : Obj)
    (path : List Byte)
    (S : Devs) :
    parseObjectAt rootMounted obj path S =
      match parseObject obj path (S 0) with
      | none => none
      | some ((.fail, obj'), es, t) =>
          some ((.fail, obj', none), es, upd S 0 t)
      | some ((.succ, obj'), es, t) =>
          some ((.succ, obj', some 0), es, upd S 0 t) := by
  have hSame : upd S 0 (S 0) = S := by
    funext j
    by_cases hj : j = 0
    · rw [hj, upd_same]
    · exact upd_other _ _ hj
  by_cases hFresh : obj.openSucc = true
  · unfold parseObjectAt parseObject
    rw [if_pos hFresh, if_pos hFresh]
    simp only [run_pure, hSame]
  · have hFresh := Bool.eq_false_of_not_eq_true hFresh
    have hNone : ∀ path : List Byte,
        path.head? ≠ some slash →
        parseObjectAt rootMounted obj path S =
          some ((.fail, { Obj.zero with err := .noent }, none),
            [], S) := by
      intro path hHead
      apply run_parseObjectAt_none rootMounted_ends hFresh
      exact fun ⟨_, hMount⟩ => hHead hMount.absolute
    cases path with
    | nil =>
        rw [hNone [] nofun]
        unfold parseObject
        rw [hFresh, if_neg Bool.false_ne_true]
        simp only [run_pure, hSame]
    | cons c start =>
        by_cases hc : c = slash
        · rw [hc]
          by_cases hNil : start = []
          · rw [run_parseObjectAt_mount rootMounted_ends hFresh
              (rootMounted_longest start) (by rw [hNil])]
            unfold parseObject
            rw [hFresh, if_neg Bool.false_ne_true, hNil]
            rfl
          · have hMore : [slash].length ≠
                (slash :: start).length := by
              intro hLen
              apply hNil
              apply List.length_eq_zero_iff.mp
              exact (Nat.succ.inj hLen).symm
            rw [run_parseObjectAt rootMounted_ends hFresh
              (rootMounted_longest start) hMore]
            rw [run_parseObject hFresh hNil]
            have hTake : (S.take 0) 0 =
                { S 0 with refCount := (S 0).refCount + 1 } :=
              upd_same _ _ _
            have hStart : (slash :: start).drop
                [slash].length = start := rfl
            have hPut : ∀ t, upd (S.take 0) 0 t = upd S 0 t :=
              upd_upd S 0 _
            rw [hStart]
            unfold onDev
            dsimp only
            rw [hTake]
            rcases parseDirs _ _ _ _ _ _ with
              _ | ⟨⟨_ | _, dir⟩, es, t⟩
            · rfl
            · dsimp only
              unfold Devs.put
              rw [upd_same, upd_upd, hPut]
            · dsimp only
              rw [hPut]
        · rw [hNone (c :: start) (by simpa using hc)]
          unfold parseObject
          rw [hFresh, if_neg Bool.false_ne_true]
          dsimp only
          rw [if_pos hc]
          simp only [run_pure, hSame]

end OneDevice

end Paths

------------------------------------------------------------
-- A Name with a '/'
------------------------------------------------------------

section Example

local instance pathPlatform : Platform := emulator alwaysOk

/- Devices with an erased flash. -/
def blankDevs : Devs := fun _ => Dev.init Flash.blank 0

/- Devices at "/" and at "/d/". -/
def rootAndD : List MountedAt :=
  [⟨[slash], 0⟩, ⟨[slash, 100, slash], 1⟩]

/- The path "/d/a/b" is parsed on the device at "/d/". -/
theorem parses_iff_rootAndD :
    Parses rootAndD Obj.zero
      [slash, 100, slash, 97, slash, 98] blankDevs := by
  have hIff := parses_iff rootAndD Obj.zero
    [slash, 100, slash, 97, slash, 98] blankDevs
    (by decide) rfl
  rw [hIff]
  intro ⟨w, c, hMount, _, hDrop⟩
  have hLongest := hMount.longest
    ⟨[slash, 100, slash], 1⟩ (by decide) (by decide)
  have hMem := List.mem_of_find?_eq_some hMount.first
  rcases List.mem_cons.mp hMem with hRoot | hMem
  · rw [hRoot] at hLongest
    exact absurd hLongest (by decide)
  · rw [List.mem_singleton.mp hMem] at hDrop
    have hHead : some 97 = some slash :=
      congrArg List.head? hDrop
    exact absurd hHead (by decide)

/- The name of the path "//a" is "/a". -/
theorem pathsParse_false : ¬ PathsParse := by
  intro hParse
  have hParses := hParse rootMounted Obj.zero
    [slash, slash, 97] blankDevs rootMounted_ends rfl
  have hSlash : SlashFirst rootMounted [slash, slash, 97] :=
    ⟨⟨[slash], 0⟩, [97], rootMounted_longest _, by decide,
      by decide⟩
  have hFresh : Obj.zero.openSucc = false := rfl
  rcases hSlash.run rootMounted_ends hFresh blankDevs with
    ⟨obj', dev, T, hRun, hBad⟩
  exact hBad (hParses.name obj' dev [] T hRun)

end Example

end Uffs
