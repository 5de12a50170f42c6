import Mathlib.Data.List.MinMax
import Mathlib.Order.Nat
import Uffs.Path.Parse

/-
  The length of the mount point that a path begins with.

  The search tries the whole path first, and then only the
  ends of the slashes in it, from the last to the first.

  Main declarations:
    * `longestMountPoint`
    * `Matched.eq_longestMountPoint`
    * `getMatchedMountPointSize_correct`
-/

namespace Uffs

section Match

variable [Platform]
variable {mtb : List MountedAt} {path : List Byte} {len : Nat}

/-
  The length of the longest mount point that an absolute path
  begins with, or 0.
-/
def longestMountPoint
    (mtb : List MountedAt)
    (path : List Byte) : Nat :=
  if path.head? = some slash then
    ((mtb.filter fun w => w.mount.isPrefixOf path).map
      fun w => w.mount.length).foldr max 0
  else
    0

/- What the search finds is the longest mount point. -/
omit [Platform] in
theorem Matched.eq_longestMountPoint
    (hAbsolute : path.head? = some slash)
    (h : Matched mtb path len) :
    len = longestMountPoint mtb path := by
  unfold longestMountPoint
  rw [if_pos hAbsolute]
  apply Nat.le_antisymm
  · by_cases hZero : len = 0
    · rw [hZero]
      exact Nat.zero_le _
    · rcases h.found hZero with ⟨w, hFind⟩
      rcases findMounted_some hFind with ⟨hw, hBegins, hLen⟩
      have hBegins' : w.mount.isPrefixOf path = true :=
        List.isPrefixOf_iff_prefix.mpr hBegins
      have hMem : len ∈
          (mtb.filter fun w => w.mount.isPrefixOf path).map
            fun w => w.mount.length := by
        rw [← hLen]
        exact List.mem_map_of_mem
          (List.mem_filter.mpr ⟨hw, hBegins'⟩)
      exact List.le_max_of_le hMem (Nat.le_refl len)
  · apply List.max_le_of_forall_le
    intro l hl
    rcases List.mem_map.mp hl with ⟨w, hw, hLen⟩
    rcases List.mem_filter.mp hw with ⟨hMem, hBegins⟩
    rw [← hLen]
    exact h.longest w hMem
      (List.isPrefixOf_iff_prefix.mp hBegins)

/- The search goes on to its end in any number of rounds. -/
omit [Platform] in
theorem matchedFrom_rounds
    (hEnd : ∀ w ∈ mtb, w.mount.getLast? = some slash)
    (hAbsolute : path.head? = some slash)
    (S : Devs)
    {rounds : Nat}
    (hRounds : path.length ≤ rounds) :
    matchedFrom mtb path rounds path.length S =
      some (longestMountPoint mtb path, [], S) := by
  have hPrefix : ∀ w ∈ mtb, w.mount <+: path →
      w.mount.length ≤ path.length :=
    fun w _ hBegins => hBegins.length_le
  rcases matchedFrom_eq hEnd S rounds path.length hRounds
    hPrefix with ⟨len, hRun, hMatched⟩
  rw [hRun, hMatched.eq_longestMountPoint hAbsolute]

/-
  The search ends with the length of the longest mount point,
  and no reference is taken or given back for good.  More
  rounds of its loop than the path is long change nothing.
-/
omit [Platform] in
theorem getMatchedMountPointSize_correct
    (hEnd : ∀ w ∈ mtb, w.mount.getLast? = some slash)
    (S : Devs) :
    getMatchedMountPointSize mtb path S =
        some (longestMountPoint mtb path, [], S) ∧
      (path.head? = some slash →
        ∀ rounds, path.length ≤ rounds →
          matchedFrom mtb path rounds path.length S =
            getMatchedMountPointSize mtb path S) := by
  by_cases hAbsolute : path.head? = some slash
  · have hRun : getMatchedMountPointSize mtb path S =
        some (longestMountPoint mtb path, [], S) := by
      unfold getMatchedMountPointSize
      rw [if_neg (not_not.mpr hAbsolute)]
      exact matchedFrom_rounds hEnd hAbsolute S
        (Nat.le_refl _)
    refine ⟨hRun, ?_⟩
    intro _ rounds hRounds
    rw [hRun]
    exact matchedFrom_rounds hEnd hAbsolute S hRounds
  · refine ⟨?_, fun h => absurd h hAbsolute⟩
    unfold getMatchedMountPointSize longestMountPoint
    rw [if_pos hAbsolute, if_neg hAbsolute]
    rfl

end Match

/- The mount points "/" and "/d/" and the path "/d//a". -/
theorem getMatchedMountPointSize_rootAndD :
    let _ := emulator alwaysOk
    getMatchedMountPointSize
        [⟨[47], 0⟩, ⟨[47, 100, 47], 1⟩]
        [47, 100, 47, 47, 97] (fun _ => Dev.init Flash.blank 0) =
      some (3, [], fun _ => Dev.init Flash.blank 0) := by
  let _ := emulator alwaysOk
  have hLongest : longestMountPoint
      [⟨[47], 0⟩, ⟨[47, 100, 47], 1⟩]
      [47, 100, 47, 47, 97] = 3 := by
    decide
  rw [← hLongest]
  exact (getMatchedMountPointSize_correct (by decide)
    (fun _ => Dev.init Flash.blank 0)).1

end Uffs
