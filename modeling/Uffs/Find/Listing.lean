import Mathlib.Data.List.Flatten
import Mathlib.Data.List.Perm.Subperm
import Uffs.Model.Find
import Uffs.Mount.Sentinels

/-
  The listing of a directory while entries are deleted.

  `uffs_FindInfo` remembers the tree node that was returned
  last and goes on at its `hash_next`.  A node that is taken
  out of its chain keeps that link, until it is put into the
  tree again.

  Main declarations:
    * `Chains.children`
    * `doFindObject_eq`
    * `Listing`, `Lists`
    * `lists_exact`
-/

namespace Uffs

open HashTable

------------------------------------------------------------
-- Children
------------------------------------------------------------

namespace Chains

/-
  The children of a directory in `n` chains, the first one
  of `hash`.
-/
def childrenFrom
    (c : Chains)
    (child : Nat → Bool)
    (type : BlockType)
    (n hash : Nat) : List Nat :=
  (List.range' hash n).flatMap fun h =>
    (c ⟨type, h⟩).filter child

/- All children: the directories, then the files. -/
def children (c : Chains) (child : Nat → Bool) : List Nat :=
  c.childrenFrom child .dir dirNodeEntryLen 0 ++
    c.childrenFrom child .file fileNodeEntryLen 0

theorem childrenFrom_succ
    (c : Chains)
    (child : Nat → Bool)
    (type : BlockType)
    (n hash : Nat) :
    c.childrenFrom child type (n + 1) hash =
      (c ⟨type, hash⟩).filter child ++
        c.childrenFrom child type n (hash + 1) := by
  unfold childrenFrom
  rw [List.range'_succ, List.flatMap_cons]

theorem childrenFrom_congr
    {c c' : Chains}
    {child child' : Nat → Bool}
    {type : BlockType}
    {n hash : Nat}
    (hChains : ∀ i, hash ≤ i → i < hash + n →
      c' ⟨type, i⟩ = c ⟨type, i⟩)
    (hChild : ∀ i, hash ≤ i → i < hash + n →
      ∀ x ∈ c ⟨type, i⟩, child' x = child x) :
    c'.childrenFrom child' type n hash =
      c.childrenFrom child type n hash := by
  unfold childrenFrom
  apply List.flatMap_congr
  intro i hi
  rcases List.mem_range'_1.mp hi with ⟨hLe, hLt⟩
  rw [hChains i hLe hLt]
  exact List.filter_congr (hChild i hLe hLt)

theorem mem_childrenFrom
    {c : Chains}
    {child : Nat → Bool}
    {type : BlockType}
    {n hash x : Nat} :
    x ∈ c.childrenFrom child type n hash ↔
      ∃ i, (hash ≤ i ∧ i < hash + n) ∧ x ∈ c ⟨type, i⟩ ∧
        child x = true := by
  unfold childrenFrom
  simp only [List.mem_flatMap, List.mem_range'_1,
    List.mem_filter]

end Chains

------------------------------------------------------------
-- Searching
------------------------------------------------------------

/- Is the node a child of the directory? -/
def FindView.child
    (v : FindView)
    (serial x : Nat) : Bool :=
  decide (v.parent x = serial)

namespace FindView

variable {v : FindView} {serial : Nat} {c : Chains}

/- The chains of the table, which all end. -/
structure Follows (v : FindView) (c : Chains) : Prop where
  linked : ∀ k,
    Linked v.table.after (link (v.table.entry k)) (c k)
  short : ∀ k, (c k).length ≤ emptyNode

theorem searchChain_eq
    (serial : Nat)
    (l : List Nat) :
    ∀ n x, Linked v.table.after (link x) l → l.length < n →
      v.searchChain serial n x =
        some (l.find? (v.child serial)) := by
  induction l with
  | nil =>
      intro n x hLinked hLength
      have hEnd := link_eq_none.mp (Linked.nil_iff.mp hLinked)
      cases n with
      | zero => cases hLength
      | succ n =>
          unfold searchChain
          rw [if_pos hEnd]
          rfl
  | cons a l ih =>
      intro n x hLinked hLength
      rcases Linked.cons_iff.mp hLinked with ⟨hHead, hRest⟩
      rcases link_eq_some.mp hHead with ⟨hx, hNode⟩
      cases n with
      | zero => cases hLength
      | succ n =>
          unfold searchChain
          rw [if_neg hNode, hx]
          by_cases hChild : v.parent a = serial
          · rw [if_pos hChild, List.find?_cons_of_pos]
            exact decide_eq_true hChild
          · rw [if_neg hChild, List.find?_cons_of_neg]
            · exact ih n _ hRest (Nat.lt_of_succ_lt_succ hLength)
            · simpa [child] using hChild

/- The first child of a chain. -/
theorem find?_child
    {l rest : List Nat}
    {a : Nat}
    {p : Nat → Bool}
    (h : l.filter p = a :: rest) :
    l.find? p = some a ∧
      ∃ l₁ l₂, l = l₁ ++ a :: l₂ ∧ l₂.filter p = rest := by
  rcases List.filter_eq_cons_iff.mp h with
    ⟨l₁, l₂, hSplit, _, _, hRest⟩
  refine ⟨?_, l₁, l₂, hSplit, hRest⟩
  rw [← List.head?_filter, h]
  rfl

theorem find?_no_child
    {l : List Nat}
    {p : Nat → Bool}
    (h : l.filter p = []) : l.find? p = none := by
  rw [← List.head?_filter, h]
  rfl

/-
  What is found of the children that are left: none, or the
  first one, in its chain.
-/
theorem searchEntries_eq
    (serial : Nat)
    (type : BlockType)
    (hFollows : v.Follows c)
    (n : Nat) :
    ∀ hash,
      match c.childrenFrom (v.child serial) type n hash with
      | [] => v.searchEntries serial type n hash = some none
      | a :: rest => ∃ h l₁ l₂,
          v.searchEntries serial type n hash =
              some (some (h, a)) ∧
            hash ≤ h ∧ h < hash + n ∧
            c ⟨type, h⟩ = l₁ ++ a :: l₂ ∧
            rest = l₂.filter (v.child serial) ++
              c.childrenFrom (v.child serial) type
                (hash + n - (h + 1)) (h + 1) := by
  induction n with
  | zero =>
      intro hash
      rfl
  | succ n ih =>
      intro hash
      have hSearch := searchChain_eq serial (c ⟨type, hash⟩)
        (emptyNode + 1) _ (hFollows.linked ⟨type, hash⟩)
        (Nat.lt_succ_of_le (hFollows.short ⟨type, hash⟩))
      rw [Chains.childrenFrom_succ]
      cases hHere : (c ⟨type, hash⟩).filter (v.child serial) with
      | nil =>
          have hStep :
              v.searchEntries serial type (n + 1) hash =
                v.searchEntries serial type n (hash + 1) := by
            conv_lhs => unfold searchEntries
            rw [hSearch, find?_no_child hHere]
            rfl
          rw [hStep, List.nil_append]
          have hRest := ih (hash + 1)
          cases hLater : c.childrenFrom (v.child serial) type n
              (hash + 1) with
          | nil =>
              rw [hLater] at hRest
              exact hRest
          | cons a rest =>
              rw [hLater] at hRest
              rcases hRest with
                ⟨h, l₁, l₂, hEq, hLe, hLt, hSplit, hLeft⟩
              refine ⟨h, l₁, l₂, hEq, by omega, by omega,
                hSplit, ?_⟩
              have hSum : hash + (n + 1) = hash + 1 + n := by
                omega
              rw [hSum]
              exact hLeft
      | cons a rest =>
          rcases find?_child hHere with
            ⟨hFind, l₁, l₂, hSplit, hLeft⟩
          have hStep :
              v.searchEntries serial type (n + 1) hash =
                some (some (hash, a)) := by
            conv_lhs => unfold searchEntries
            rw [hSearch, hFind]
            rfl
          refine ⟨hash, l₁, l₂, hStep, Nat.le_refl _, by omega,
            hSplit, ?_⟩
          have hSub : hash + (n + 1) - (hash + 1) = n := by
            omega
          rw [hSub]
          exact congrArg (· ++ _) hLeft.symm

/- The children that one step has still to return. -/
def leftOf
    (v : FindView)
    (c : Chains)
    (serial : Nat)
    (type : BlockType)
    (entryLen hash : Nat)
    (l : List Nat) : List Nat :=
  l.filter (v.child serial) ++
    c.childrenFrom (v.child serial) type
      (entryLen - (hash + 1)) (hash + 1)

/- One step of the search from somewhere in a chain on. -/
theorem searchStep_eq
    {type : BlockType}
    {entryLen x : Nat}
    {f : FindInfo}
    {l₀ l : List Nat}
    (hFollows : v.Follows c)
    (hHash : f.hash < entryLen)
    (hChain : c ⟨type, f.hash⟩ = l₀ ++ l)
    (hLinked : Linked v.table.after (link x) l) :
    match v.leftOf c f.serial type entryLen f.hash l with
    | [] => v.searchStep type entryLen f x =
        some ({ f with hash := entryLen }, false)
    | a :: rest => ∃ h l₁ l₂,
        v.searchStep type entryLen f x =
            some ({ f with
                hash := h
                work := some a
                pos := f.pos + 1 }, true) ∧
          h < entryLen ∧ c ⟨type, h⟩ = l₁ ++ a :: l₂ ∧
          rest = v.leftOf c f.serial type entryLen h l₂ := by
  have hLength : l.length < emptyNode + 1 := by
    have hShort := hFollows.short ⟨type, f.hash⟩
    rw [hChain, List.length_append] at hShort
    omega
  have hSearch := searchChain_eq f.serial l _ x hLinked hLength
  unfold leftOf searchStep
  rw [hSearch]
  simp only [Option.bind_eq_bind, Option.bind_some]
  cases hHere : l.filter (v.child f.serial) with
  | nil =>
      rw [find?_no_child hHere, List.nil_append]
      have hRest := searchEntries_eq f.serial type hFollows
        (entryLen - (f.hash + 1)) (f.hash + 1)
      cases hLater : c.childrenFrom (v.child f.serial) type
          (entryLen - (f.hash + 1)) (f.hash + 1) with
      | nil =>
          rw [hLater] at hRest
          rw [hRest]
          rfl
      | cons a rest =>
          rw [hLater] at hRest
          rcases hRest with
            ⟨h, l₁, l₂, hEq, hLe, hLt, hSplit, hLeft⟩
          rw [hEq]
          refine ⟨h, l₁, l₂, rfl, by omega, hSplit, ?_⟩
          have hSum : f.hash + 1 + (entryLen - (f.hash + 1)) =
              entryLen := by
            omega
          rw [hSum] at hLeft
          exact hLeft
  | cons a rest =>
      rcases find?_child hHere with
        ⟨hFind, l₁, l₂, hSplit, hLeft⟩
      rw [hFind]
      refine ⟨f.hash, l₀ ++ l₁, l₂, rfl, hHash, ?_, ?_⟩
      · rw [hChain, hSplit, List.append_assoc]
      · exact congrArg (· ++ _) hLeft.symm

/-
  What the search has still to return: `l` are the nodes
  that follow in the current chain.
-/
def left
    (v : FindView)
    (c : Chains)
    (f : FindInfo)
    (l : List Nat) : List Nat :=
  if f.step = 0 then
    v.leftOf c f.serial .dir dirNodeEntryLen f.hash l ++
      c.childrenFrom (v.child f.serial) .file
        fileNodeEntryLen 0
  else if f.step = 1 then
    v.leftOf c f.serial .file fileNodeEntryLen f.hash l
  else
    []

end FindView

/- The chain that a search is in. -/
def FindInfo.key (f : FindInfo) : EntryKey where
  type := if f.step = 0 then .dir else .file
  hash := f.hash

/- The number of chains of the step. -/
def FindInfo.entryLen (f : FindInfo) : Nat :=
  if f.step = 0 then dirNodeEntryLen else fileNodeEntryLen

/- A search that is in a chain, before the nodes of `l`. -/
structure FindInfo.InChain
    (f : FindInfo)
    (c : Chains)
    (l₀ l : List Nat) : Prop where
  step : f.step ≤ 1
  hash : f.hash < f.entryLen
  chain : c f.key = l₀ ++ l

/- Is a chain searched after the one that a search is in? -/
def FindInfo.Later (f : FindInfo) (k : EntryKey) : Prop :=
  k.type = f.key.type ∧ f.hash < k.hash ∧
      k.hash < f.entryLen ∨
    f.step = 0 ∧ k.type = .file ∧ k.hash < fileNodeEntryLen

namespace FindView

variable {v : FindView} {c : Chains}

/-
  `do_FindObject` finds the first child that is left, and
  stands behind it, or ends.
-/
def Finds
    (v : FindView)
    (c : Chains)
    (f : FindInfo)
    (l : List Nat)
    (r : URet)
    (f' : FindInfo) : Prop :=
  f'.serial = f.serial ∧
    match v.left c f l with
    | [] => r = .fail ∧ f'.step = 2
    | a :: rest => r = v.load a ∧ f'.work = some a ∧
        ∃ l₁ l₂, f'.InChain c (l₁ ++ [a]) l₂ ∧
          rest = v.left c f' l₂

theorem left_dir
    {f : FindInfo}
    (l : List Nat)
    (h : f.step = 0) :
    v.left c f l =
      v.leftOf c f.serial .dir dirNodeEntryLen f.hash l ++
        c.childrenFrom (v.child f.serial) .file
          fileNodeEntryLen 0 :=
  if_pos h

theorem left_file
    {f : FindInfo}
    (l : List Nat)
    (h : f.step = 1) :
    v.left c f l =
      v.leftOf c f.serial .file fileNodeEntryLen f.hash l := by
  unfold left
  rw [if_neg (by omega), if_pos h]

theorem findFile_eq
    {x : Nat}
    {f : FindInfo}
    {l₀ l : List Nat}
    (hFollows : v.Follows c)
    (hStep : f.step = 1)
    (hIn : f.InChain c l₀ l)
    (hLinked : Linked v.table.after (link x) l) :
    ∃ r f', v.findFile f x = some (r, f') ∧
      v.Finds c f l r f' := by
  have hHash := hIn.hash
  have hChain := hIn.chain
  unfold FindInfo.entryLen at hHash
  unfold FindInfo.key at hChain
  rw [if_neg (by omega)] at hHash hChain
  have hSearch := searchStep_eq hFollows hHash hChain hLinked
  unfold findFile Finds
  rw [if_pos hStep, left_file l hStep]
  cases hLeft : v.leftOf c f.serial .file fileNodeEntryLen
      f.hash l with
  | nil =>
      rw [hLeft] at hSearch
      dsimp only at hSearch
      rw [hSearch]
      refine ⟨_, _, rfl, rfl, rfl, ?_⟩
      change f.step + 1 = 2
      rw [hStep]
  | cons a rest =>
      rw [hLeft] at hSearch
      rcases hSearch with
        ⟨h, l₁, l₂, hEq, hLt, hSplit, hRest⟩
      rw [hEq]
      refine ⟨_, _, rfl, rfl, rfl, rfl, l₁, l₂, ?_, ?_⟩
      · constructor
        · change f.step ≤ 1
          omega
        · change h < if f.step = 0 then _ else _
          rw [if_neg (by omega)]
          exact hLt
        · unfold FindInfo.key
          dsimp only
          rw [if_neg (by omega), hSplit, List.append_assoc]
          rfl
      · have hSame := left_file (v := v) (c := c)
          (f := { f with
            hash := h, work := some a, pos := f.pos + 1 })
          l₂ hStep
        rw [hSame]
        exact hRest

theorem doFindObject_eq
    {x : Nat}
    {f : FindInfo}
    {l₀ l : List Nat}
    (hFollows : v.Follows c)
    (hIn : f.InChain c l₀ l)
    (hLinked : Linked v.table.after (link x) l) :
    ∃ r f', v.doFindObject f x = some (r, f') ∧
      v.Finds c f l r f' := by
  unfold doFindObject
  by_cases hStep : f.step = 0
  · have hHash := hIn.hash
    have hChain := hIn.chain
    unfold FindInfo.entryLen at hHash
    unfold FindInfo.key at hChain
    rw [if_pos hStep] at hHash hChain
    have hSearch := searchStep_eq hFollows hHash hChain hLinked
    rw [if_pos hStep]
    cases hLeft : v.leftOf c f.serial .dir dirNodeEntryLen
        f.hash l with
    | nil =>
        rw [hLeft] at hSearch
        dsimp only at hSearch
        rw [hSearch]
        -- the files follow, from the first chain on
        have hFiles : FindInfo.InChain
            { f with step := f.step + 1, hash := 0 } c []
            (c ⟨.file, 0⟩) := by
          constructor
          · change f.step + 1 ≤ 1
            omega
          · change 0 < if f.step + 1 = 0 then _ else _
            rw [if_neg (by omega)]
            decide
          · unfold FindInfo.key
            dsimp only
            rw [if_neg (by omega)]
            rfl
        rcases findFile_eq hFollows (by rw [hStep]) hFiles
            (hFollows.linked ⟨.file, 0⟩) with
          ⟨r, f', hEq, hSerial, hFinds⟩
        refine ⟨r, f', hEq, hSerial, ?_⟩
        have hSame : v.left c f l = v.left c
            { f with step := f.step + 1, hash := 0 }
            (c ⟨.file, 0⟩) := by
          rw [left_dir l hStep, left_file _ (by rw [hStep]),
            hLeft, List.nil_append]
          unfold leftOf
          exact Chains.childrenFrom_succ c _ .file 63 0
        rw [hSame]
        exact hFinds
    | cons a rest =>
        rw [hLeft] at hSearch
        rcases hSearch with
          ⟨h, l₁, l₂, hEq, hLt, hSplit, hRest⟩
        rw [hEq]
        unfold Finds
        rw [left_dir l hStep, hLeft, List.cons_append]
        refine ⟨_, _, rfl, rfl, rfl, rfl, l₁, l₂, ?_, ?_⟩
        · constructor
          · change f.step ≤ 1
            omega
          · change h < if f.step = 0 then _ else _
            rw [if_pos hStep]
            exact hLt
          · unfold FindInfo.key
            dsimp only
            rw [if_pos hStep, hSplit, List.append_assoc]
            rfl
        · have hSame := left_dir (v := v) (c := c)
            (f := { f with
              hash := h, work := some a, pos := f.pos + 1 })
            l₂ hStep
          rw [hSame, hRest]
  · have hOne : f.step = 1 := by
      have hLe := hIn.step
      omega
    rw [if_neg hStep]
    exact findFile_eq hFollows hOne hIn hLinked

end FindView

------------------------------------------------------------
-- Standing in a Chain
------------------------------------------------------------

/-
  A search whose last node is `w`: the nodes of `l` follow
  from its `hash_next` on, and `w` is the node before them or
  in no chain any more.
-/
structure StandsAt
    (t : HashTable)
    (c : Chains)
    (f : FindInfo)
    (w : Nat)
    (l₀ l : List Nat) : Prop where
  inChain : f.InChain c l₀ l
  linked : Linked t.after (t.after w) l
  place : (∃ l₁, l₀ = l₁ ++ [w]) ∨ ¬ c.Has w

section Standing

variable {t : HashTable} {nodes : Nat} {c : Chains}
variable {f : FindInfo} {w n : Nat} {l₀ l : List Nat}

theorem FindInfo.key_ne_data (f : FindInfo) :
    f.key.type ≠ .data := by
  unfold FindInfo.key
  dsimp only
  split
  · exact nofun
  · exact nofun

theorem Chains.has_push
    {k : EntryKey}
    {m : Nat}
    (h : (c.set k (m :: c k)).Has n) : n = m ∨ c.Has n := by
  rcases h with ⟨k', hk'⟩
  by_cases hk : k' = k
  · rw [hk, c.set_same] at hk'
    rcases List.mem_cons.mp hk' with hEq | hk'
    · exact Or.inl hEq
    · exact Or.inr ⟨k, hk'⟩
  · rw [c.set_ne _ hk] at hk'
    exact Or.inr ⟨k', hk'⟩

/- Another node is put into a chain of DATA nodes. -/
theorem StandsAt.insert
    (h : StandsAt t c f w l₀ l)
    (hash : Nat)
    (hNew : ¬ c.Has n)
    (hOther : n ≠ w) :
    StandsAt (t.insertToEntry ⟨.data, hash⟩ n)
      (c.set ⟨.data, hash⟩ (n :: c ⟨.data, hash⟩))
      f w l₀ l := by
  have hKey : f.key ≠ ⟨.data, hash⟩ := by
    intro hEq
    exact f.key_ne_data (congrArg EntryKey.type hEq)
  have hApart : ∀ m ∈ l, m ≠ n := by
    intro m hm hEq
    apply hNew
    refine ⟨f.key, ?_⟩
    rw [h.inChain.chain, ← hEq]
    exact List.mem_append_right _ hm
  constructor
  · constructor
    · exact h.inChain.step
    · exact h.inChain.hash
    · rw [c.set_ne _ hKey]
      exact h.inChain.chain
  · rw [after_insert, if_neg (Ne.symm hOther)]
    apply h.linked.congr
    intro m hm
    rw [after_insert, if_neg (hApart m hm)]
  · apply h.place.imp_right
    intro hNot hHas
    rcases Chains.has_push hHas with hEq | hHas
    · exact hOther hEq.symm
    · exact hNot hHas

/- The node before a node of a chain. -/
theorem HashTable.Chained.before_eq
    {k : EntryKey}
    {l₁ l₂ : List Nat}
    (h : t.Chained nodes c)
    (hSplit : c k = l₁ ++ n :: l₂) :
    t.before n = l₁.getLast? := by
  have hLinked := h.linked k
  rw [hSplit] at hLinked
  have hBack := hLinked.prev_eq
  rw [Option.or_none] at hBack
  exact hBack

/- A chain without one of its nodes has no other nodes. -/
theorem Chains.mem_erase
    {k k' : EntryKey}
    {m : Nat}
    (h : m ∈ c.set k ((c k).erase n) k') : m ∈ c k' := by
  by_cases hk : k' = k
  · rw [hk, c.set_same] at h
    rw [hk]
    exact List.mem_of_mem_erase h
  · rw [c.set_ne _ hk] at h
    exact h

/- A node that is taken out is in no chain. -/
theorem HashTable.Chained.not_has_erase
    {k : EntryKey}
    (h : t.Chained nodes c)
    (hIn : n ∈ c k) :
    ¬ (c.set k ((c k).erase n)).Has n := by
  rintro ⟨k', hk'⟩
  by_cases hk : k' = k
  · rw [hk, c.set_same] at hk'
    exact (h.nodup k).not_mem_erase hk'
  · rw [c.set_ne _ hk] at hk'
    exact hk (h.apart k k' n hIn hk')

/- A node that is not among those that follow is taken out. -/
theorem StandsAt.remove
    {k : EntryKey}
    (hChained : t.Chained nodes c)
    (h : StandsAt t c f w l₀ l)
    (hIn : n ∈ c k)
    (hNot : n ∉ l) :
    ∃ l₀', StandsAt (t.breakFromEntry k n)
      (c.set k ((c k).erase n)) f w l₀' l := by
  have hSub : ∀ m, (c.set k ((c k).erase n)).Has m →
      c.Has m := by
    rintro m ⟨k', hk'⟩
    exact ⟨k', Chains.mem_erase hk'⟩
  -- the nodes whose link forth changes
  have hLinks : ∀ m, (m ∈ l ∨ m = w) →
      t.before n ≠ some m := by
    intro m hm hBefore
    by_cases hk : k = f.key
    · have hPre : n ∈ l₀ := by
        rw [hk, h.inChain.chain] at hIn
        exact (List.mem_append.mp hIn).resolve_right hNot
      obtain ⟨p, q, hSplit⟩ := List.mem_iff_append.mp hPre
      have hChain : c k = p ++ n :: (q ++ l) := by
        rw [hk, h.inChain.chain, hSplit, List.append_assoc,
          List.cons_append]
      rw [hChained.before_eq hChain] at hBefore
      have hp := List.mem_of_getLast? hBefore
      have hNodup := hChained.nodup k
      rw [hChain] at hNodup
      have hDisjoint := List.disjoint_of_nodup_append hNodup
      rcases hm with hm | hm
      · exact hDisjoint hp (List.mem_cons_of_mem _
          (List.mem_append_right _ hm))
      · rcases h.place with ⟨l₁, hLast⟩ | hAway
        · -- `w` is the last one before those that follow
          have hEnd : (n :: q).getLast? = some w := by
            have hBoth : (p ++ n :: q).getLast? = some w := by
              rw [← hSplit, hLast]
              simp
            rw [List.getLast?_append] at hBoth
            cases hq : (n :: q).getLast? with
            | none => cases List.getLast?_eq_none_iff.mp hq
            | some z =>
                rw [hq] at hBoth
                exact hBoth
          have hRight := List.mem_of_getLast? hEnd
          rw [hm] at hp
          apply hDisjoint hp
          rw [← List.cons_append]
          exact List.mem_append_left _ hRight
        · apply hAway
          refine ⟨k, ?_⟩
          rw [hChain, ← hm]
          exact List.mem_append_left _ hp
    · obtain ⟨p, q, hSplit⟩ := List.mem_iff_append.mp hIn
      rw [hChained.before_eq hSplit] at hBefore
      have hp := List.mem_of_getLast? hBefore
      have hmk : m ∈ c k := by
        rw [hSplit]
        exact List.mem_append_left _ hp
      rcases hm with hm | hm
      · have hmf : m ∈ c f.key := by
          rw [h.inChain.chain]
          exact List.mem_append_right _ hm
        exact hk (hChained.apart f.key k m hmf hmk)
      · rcases h.place with ⟨l₁, hLast⟩ | hAway
        · have hmf : m ∈ c f.key := by
            rw [h.inChain.chain, hLast, hm]
            simp
          exact hk (hChained.apart f.key k m hmf hmk)
        · rw [hm] at hmk
          exact hAway ⟨k, hmk⟩
  have hLinked : Linked (t.breakFromEntry k n).after
      ((t.breakFromEntry k n).after w) l := by
    rw [after_break, if_neg (hLinks w (Or.inr rfl))]
    apply h.linked.congr
    intro m hm
    rw [after_break, if_neg (hLinks m (Or.inl hm))]
  by_cases hk : k = f.key
  · have hPre : n ∈ l₀ := by
      rw [hk, h.inChain.chain] at hIn
      exact (List.mem_append.mp hIn).resolve_right hNot
    refine ⟨l₀.erase n, ⟨h.inChain.step, h.inChain.hash, ?_⟩,
      hLinked, ?_⟩
    · rw [hk, c.set_same, h.inChain.chain,
        List.erase_append_left _ hPre]
    · by_cases hEq : n = w
      · right
        rw [← hEq]
        exact hChained.not_has_erase hIn
      · rcases h.place with ⟨l₁, hLast⟩ | hAway
        · left
          refine ⟨l₁.erase n, ?_⟩
          rw [hLast] at hPre ⊢
          apply List.erase_append_left
          rcases List.mem_append.mp hPre with hPre | hPre
          · exact hPre
          · exact absurd (List.mem_singleton.mp hPre) hEq
        · exact Or.inr fun hHas => hAway (hSub w hHas)
  · refine ⟨l₀, ⟨h.inChain.step, h.inChain.hash, ?_⟩,
      hLinked, ?_⟩
    · rw [c.set_ne _ (Ne.symm hk)]
      exact h.inChain.chain
    · exact h.place.imp_right fun hAway hHas =>
        hAway (hSub w hHas)

end Standing

------------------------------------------------------------
-- Listings
------------------------------------------------------------

/-
  A listing under way: the tree, the search, the nodes that it
  has returned, and whether the node that it returned last was
  put into the tree again.
-/
structure Listing where
  table : HashTable
  chains : Chains
  parent : Nat → Nat
  info : FindInfo
  returned : List Nat
  reused : Bool

namespace Listing

/- What the next call sees. -/
def view (L : Listing) (load : Nat → URet) : FindView where
  table := L.table
  parent := L.parent
  load := load

/-
  The next call: `uffs_FindObjectFirst`, and then
  `uffs_FindObjectNext`.
-/
def call
    (L : Listing)
    (load : Nat → URet) : Option (URet × FindInfo) :=
  match L.info.work with
  | none => (L.view load).findObjectFirst L.info
  | some _ => (L.view load).findObjectNext L.info

/-
  A node from the erased list becomes a DATA node, with
  another parent.
-/
def insert (L : Listing) (n parent hash : Nat) : Listing :=
  { L with
    table := L.table.insertToEntry ⟨.data, hash⟩ n
    chains := L.chains.set ⟨.data, hash⟩
      (n :: L.chains ⟨.data, hash⟩)
    parent := upd L.parent n parent
    reused := L.reused || decide (L.info.work = some n) }

/- A node is taken out, and loses its parent. -/
def remove
    (L : Listing)
    (k : EntryKey)
    (n parent : Nat) : Listing :=
  { L with
    table := L.table.breakFromEntry k n
    chains := L.chains.set k ((L.chains k).erase n)
    parent := upd L.parent n parent }

end Listing

/-
  The listings of the directory `serial` in a tree, with what
  `uffs_DeleteObject` does between the calls: its flush puts
  new DATA nodes into the tree, then it takes out the node of
  the object, which was returned before, and DATA nodes.
-/
inductive Lists
    (nodes serial : Nat)
    (t : HashTable)
    (c : Chains)
    (parent : Nat → Nat) : Listing → Prop
| init
    {f : FindInfo}
    (hSerial : f.serial = serial) :
    Lists nodes serial t c parent
      { table := t
        chains := c
        parent := parent
        info := f.reset
        returned := []
        reused := false }
| found
    {L : Listing}
    {load : Nat → URet}
    {f : FindInfo}
    (hRun : Lists nodes serial t c parent L)
    (hFound : L.call load = some (.succ, f)) :
    Lists nodes serial t c parent
      { L with
        info := f
        returned := L.returned ++ f.work.toList }
| flush
    {L : Listing}
    {n : Nat}
    (p hash : Nat)
    (hRun : Lists nodes serial t c parent L)
    (hNew : ¬ L.chains.Has n)
    (hPool : n < nodes) :
    Lists nodes serial t c parent (L.insert n p hash)
| remove
    {L : Listing}
    {k : EntryKey}
    {n : Nat}
    (p : Nat)
    (hRun : Lists nodes serial t c parent L)
    (hIn : n ∈ L.chains k)
    (hReturned : k.type = .data ∨ n ∈ L.returned) :
    Lists nodes serial t c parent (L.remove k n p)

------------------------------------------------------------
-- What Is Left
------------------------------------------------------------

namespace FindView

variable {v v' : FindView} {c c' : Chains}
variable {f : FindInfo} {l : List Nat}

theorem mem_leftOf
    {serial : Nat}
    {type : BlockType}
    {entryLen hash x : Nat} :
    x ∈ v.leftOf c serial type entryLen hash l ↔
      v.child serial x = true ∧ (x ∈ l ∨
        ∃ i, (hash < i ∧ i < entryLen) ∧ x ∈ c ⟨type, i⟩)
    := by
  unfold leftOf
  rw [List.mem_append, List.mem_filter,
    Chains.mem_childrenFrom]
  constructor
  · rintro (⟨hx, hChild⟩ | ⟨i, ⟨hLe, hLt⟩, hx, hChild⟩)
    · exact ⟨hChild, Or.inl hx⟩
    · exact ⟨hChild, Or.inr ⟨i, ⟨hLe, by omega⟩, hx⟩⟩
  · rintro ⟨hChild, hx | ⟨i, ⟨hLt, hLen⟩, hx⟩⟩
    · exact Or.inl ⟨hx, hChild⟩
    · exact Or.inr ⟨i, ⟨hLt, by omega⟩, hx, hChild⟩

/- The children that are left. -/
theorem mem_left
    {x : Nat}
    (hStep : f.step ≤ 1) :
    x ∈ v.left c f l ↔
      v.child f.serial x = true ∧
        (x ∈ l ∨ ∃ k, f.Later k ∧ x ∈ c k) := by
  by_cases hZero : f.step = 0
  · have hType : f.key.type = .dir := if_pos hZero
    have hLen : f.entryLen = dirNodeEntryLen := if_pos hZero
    rw [left_dir l hZero, List.mem_append, mem_leftOf,
      Chains.mem_childrenFrom]
    unfold FindInfo.Later
    rw [hType, hLen]
    constructor
    · rintro (⟨hChild, hx | ⟨i, hi, hx⟩⟩ | ⟨i, hi, hx, hChild⟩)
      · exact ⟨hChild, Or.inl hx⟩
      · exact ⟨hChild, Or.inr ⟨_, Or.inl ⟨rfl, hi⟩, hx⟩⟩
      · refine ⟨hChild, Or.inr ⟨_, Or.inr ⟨hZero, rfl, ?_⟩, hx⟩⟩
        exact (Nat.zero_add fileNodeEntryLen) ▸ hi.2
    · rintro ⟨hChild, hx | ⟨⟨type, i⟩, hk, hx⟩⟩
      · exact Or.inl ⟨hChild, Or.inl hx⟩
      · rcases hk with ⟨hDir, hi⟩ | ⟨_, hFile, hi⟩
        · dsimp only at hDir
          rw [hDir] at hx
          exact Or.inl ⟨hChild, Or.inr ⟨i, hi, hx⟩⟩
        · dsimp only at hFile
          rw [hFile] at hx
          rw [Nat.zero_add]
          exact Or.inr ⟨i, ⟨Nat.zero_le i, hi⟩, hx, hChild⟩
  · have hOne : f.step = 1 := by omega
    have hType : f.key.type = .file := if_neg hZero
    have hLen : f.entryLen = fileNodeEntryLen := if_neg hZero
    rw [left_file l hOne, mem_leftOf]
    unfold FindInfo.Later
    rw [hType, hLen]
    constructor
    · rintro ⟨hChild, hx | ⟨i, hi, hx⟩⟩
      · exact ⟨hChild, Or.inl hx⟩
      · exact ⟨hChild, Or.inr ⟨_, Or.inl ⟨rfl, hi⟩, hx⟩⟩
    · rintro ⟨hChild, hx | ⟨⟨type, i⟩, hk, hx⟩⟩
      · exact ⟨hChild, Or.inl hx⟩
      · rcases hk with ⟨hFile, hi⟩ | ⟨hStep, _⟩
        · dsimp only at hFile
          rw [hFile] at hx
          exact ⟨hChild, Or.inr ⟨i, hi, hx⟩⟩
        · exact absurd hStep hZero

/- Other nodes do not matter. -/
theorem left_congr
    (hStep : f.step ≤ 1)
    (hHere : ∀ x ∈ l, v'.parent x = v.parent x)
    (hChains : ∀ k, f.Later k → c' k = c k)
    (hLater : ∀ k, f.Later k → ∀ x ∈ c k,
      v'.parent x = v.parent x) :
    v'.left c' f l = v.left c f l := by
  have hChild : ∀ x, v'.parent x = v.parent x →
      v'.child f.serial x = v.child f.serial x := by
    intro x hx
    unfold child
    rw [hx]
  have hFilter := List.filter_congr fun x hx =>
    hChild x (hHere x hx)
  by_cases hZero : f.step = 0
  · have hType : f.key.type = .dir := if_pos hZero
    have hLen : f.entryLen = dirNodeEntryLen := if_pos hZero
    have hDirs : ∀ i, f.hash + 1 ≤ i →
        i < f.hash + 1 + (dirNodeEntryLen - (f.hash + 1)) →
        f.Later ⟨.dir, i⟩ := by
      intro i hLe hLt
      refine Or.inl ⟨hType.symm, hLe, ?_⟩
      rw [hLen]
      dsimp only
      omega
    have hFiles : ∀ i, 0 ≤ i → i < 0 + fileNodeEntryLen →
        f.Later ⟨.file, i⟩ := by
      intro i _ hLt
      rw [Nat.zero_add] at hLt
      exact Or.inr ⟨hZero, rfl, hLt⟩
    rw [left_dir l hZero, left_dir l hZero]
    unfold leftOf
    rw [hFilter,
      Chains.childrenFrom_congr
        (fun i hLe hLt => hChains _ (hDirs i hLe hLt))
        (fun i hLe hLt x hx =>
          hChild x (hLater _ (hDirs i hLe hLt) x hx)),
      Chains.childrenFrom_congr
        (fun i hLe hLt => hChains _ (hFiles i hLe hLt))
        (fun i hLe hLt x hx =>
          hChild x (hLater _ (hFiles i hLe hLt) x hx))]
  · have hOne : f.step = 1 := by omega
    have hType : f.key.type = .file := if_neg hZero
    have hLen : f.entryLen = fileNodeEntryLen := if_neg hZero
    have hFiles : ∀ i, f.hash + 1 ≤ i →
        i < f.hash + 1 + (fileNodeEntryLen - (f.hash + 1)) →
        f.Later ⟨.file, i⟩ := by
      intro i hLe hLt
      refine Or.inl ⟨hType.symm, hLe, ?_⟩
      rw [hLen]
      dsimp only
      omega
    rw [left_file l hOne, left_file l hOne]
    unfold leftOf
    rw [hFilter,
      Chains.childrenFrom_congr
        (fun i hLe hLt => hChains _ (hFiles i hLe hLt))
        (fun i hLe hLt x hx =>
          hChild x (hLater _ (hFiles i hLe hLt) x hx))]

end FindView

------------------------------------------------------------
-- What Every Listing Keeps
------------------------------------------------------------

section Runs

variable {nodes serial : Nat} {parent : Nat → Nat}
variable {t : HashTable} {c : Chains} {L : Listing}
variable {children : List Nat}

/- Before the first call, and after a call. -/
inductive Listing.Place
    (L : Listing)
    (children : List Nat) : Prop
| start
    (hWork : L.info.work = none)
    (hReset : L.info.reset = L.info)
    (hReturned : L.returned = [])
    (hLeft : (L.view fun _ => .succ).left L.chains L.info
      (L.chains ⟨.dir, 0⟩) = children)
| stands
    {w : Nat}
    {l₀ l : List Nat}
    (hWork : L.info.work = some w)
    (hStands : StandsAt L.table L.chains L.info w l₀ l)
    (hLeft : L.returned ++
      (L.view fun _ => .succ).left L.chains L.info l = children)

/-
  What every listing keeps, with the children that the
  directory had at first.
-/
structure Listing.Inv
    (nodes serial : Nat)
    (parent : Nat → Nat)
    (children : List Nat)
    (L : Listing) : Prop where
  chained : L.table.Chained nodes L.chains
  dir : L.info.serial = serial
  parents : ∀ k, k.type ≠ .data → ∀ x ∈ L.chains k,
    L.parent x = parent x
  place : L.Place children

theorem HashTable.Chained.follows
    (parent : Nat → Nat)
    (load : Nat → URet)
    (hNodes : nodes ≤ emptyNode)
    (h : t.Chained nodes c) :
    FindView.Follows
      { table := t, parent := parent, load := load } c := by
  constructor
  · intro k
    exact (h.linked k).linked
  · intro k
    have hSub : (c k) ⊆ List.range nodes := by
      intro n hn
      exact List.mem_range.mpr (h.pool k n hn)
    have hLength := ((h.nodup k).subperm hSub).length_le
    rw [List.length_range] at hLength
    exact Nat.le_trans hLength hNodes

theorem FindInfo.Later.ne_data
    {f : FindInfo}
    {k : EntryKey}
    (h : f.Later k) : k.type ≠ .data := by
  intro hData
  rcases h with ⟨hType, _⟩ | ⟨_, hFile, _⟩
  · exact f.key_ne_data (hType.symm.trans hData)
  · rw [hData] at hFile
    cases hFile

/-
  What a call returns when `rest` are the children that have
  not been returned.
-/
def Listing.Returns
    (L : Listing)
    (load : Nat → URet)
    (rest : List Nat)
    (r : URet)
    (f : FindInfo) : Prop :=
  match rest with
  | [] => r = .fail
  | a :: rest => r = load a ∧ f.work = some a ∧
      ∃ l₀ l, StandsAt L.table L.chains f a l₀ l ∧
        rest = (L.view load).left L.chains f l

theorem FindView.Finds.returns
    {load : Nat → URet}
    {f f' : FindInfo}
    {r : URet}
    {l : List Nat}
    (hFinds : (L.view load).Finds L.chains f l r f')
    (hNodes : nodes ≤ emptyNode)
    (hChained : L.table.Chained nodes L.chains) :
    L.Returns load ((L.view load).left L.chains f l) r f' := by
  have hFollows := hChained.follows L.parent load hNodes
  rcases hFinds with ⟨_, hFinds⟩
  cases hLeft : (L.view load).left L.chains f l with
  | nil =>
      rw [hLeft] at hFinds
      exact hFinds.1
  | cons a rest =>
      rw [hLeft] at hFinds
      rcases hFinds with ⟨hRet, hWork, l₁, l₂, hIn, hRest⟩
      refine ⟨hRet, hWork, l₁ ++ [a], l₂,
        ⟨hIn, ?_, Or.inl ⟨l₁, rfl⟩⟩, hRest⟩
      have hLinked := hFollows.linked f'.key
      rw [hIn.chain, List.append_assoc] at hLinked
      exact hLinked.behind l₁

/- A search that starts is before the first chain. -/
theorem FindInfo.inChain_reset
    (f : FindInfo)
    (c : Chains) :
    f.reset.InChain c [] (c ⟨.dir, 0⟩) :=
  ⟨Nat.zero_le 1, (by decide : 0 < dirNodeEntryLen), rfl⟩

/-
  The next call finds the first child that has not been
  returned, if there is one.
-/
theorem Listing.Inv.call
    (hNodes : nodes ≤ emptyNode)
    (h : L.Inv nodes serial parent children)
    (load : Nat → URet) :
    ∃ r f rest, L.call load = some (r, f) ∧
      L.returned ++ rest = children ∧
      f.serial = serial ∧
      L.Returns load rest r f := by
  have hFollows := h.chained.follows L.parent load hNodes
  cases h.place with
  | start hWork hReset hReturned hLeft =>
      rcases FindView.doFindObject_eq hFollows
          (L.info.inChain_reset L.chains)
          (hFollows.linked ⟨.dir, 0⟩) with
        ⟨r, f, hEq, hFinds⟩
      refine ⟨r, f, _, ?_, ?_, hFinds.1.trans h.dir,
        hFinds.returns hNodes h.chained⟩
      · unfold Listing.call
        rw [hWork]
        exact hEq
      · rw [hReturned, List.nil_append, hReset]
        exact hLeft
  | @stands w l₀ l hWork hStands hLeft =>
      rcases FindView.doFindObject_eq hFollows
          hStands.inChain hStands.linked with
        ⟨r, f, hEq, hFinds⟩
      refine ⟨r, f, _, ?_, hLeft, hFinds.1.trans h.dir,
        hFinds.returns hNodes h.chained⟩
      unfold Listing.call FindView.findObjectNext
      have hStep := hStands.inChain.step
      rw [hWork]
      dsimp only
      rw [if_neg (by omega)]
      exact hEq

theorem Listing.Inv.found
    {load : Nat → URet}
    {f : FindInfo}
    (hNodes : nodes ≤ emptyNode)
    (h : L.Inv nodes serial parent children)
    (hSucc : L.call load = some (.succ, f)) :
    Listing.Inv nodes serial parent children
      { L with
        info := f
        returned := L.returned ++ f.work.toList } := by
  rcases h.call hNodes load with
    ⟨r, f', rest, hCall, hLeft, hDir, hReturns⟩
  rw [hSucc] at hCall
  cases hCall
  cases rest with
  | nil => cases hReturns
  | cons a rest =>
      rcases hReturns with ⟨_, hWork, l₀, l, hStands, hRest⟩
      constructor
      · exact h.chained
      · exact hDir
      · exact h.parents
      · apply Listing.Place.stands hWork hStands
        change L.returned ++ f.work.toList ++ _ = _
        rw [hWork, ← hLeft, hRest, List.append_assoc]
        rfl

/- The nodes that a search may still meet. -/
theorem FindInfo.InChain.has
    {f : FindInfo}
    {l₀ l : List Nat}
    {n : Nat}
    (h : f.InChain c l₀ l)
    (hIn : n ∈ l ∨ ∃ k, f.Later k ∧ n ∈ c k) :
    ∃ k, k.type ≠ .data ∧ n ∈ c k := by
  rcases hIn with hIn | ⟨k, hLater, hIn⟩
  · refine ⟨f.key, f.key_ne_data, ?_⟩
    rw [h.chain]
    exact List.mem_append_right _ hIn
  · exact ⟨k, hLater.ne_data, hIn⟩

/- A node is put into the tree: no child is lost. -/
theorem Listing.left_insert
    {l₀ l : List Nat}
    {n : Nat}
    (p hash : Nat)
    (hIn : L.info.InChain L.chains l₀ l)
    (hNew : ¬ L.chains.Has n) :
    ((L.insert n p hash).view fun _ => .succ).left
        (L.insert n p hash).chains L.info l =
      (L.view fun _ => .succ).left L.chains L.info l := by
  have hParent : ∀ x,
      (x ∈ l ∨ ∃ k, L.info.Later k ∧ x ∈ L.chains k) →
      upd L.parent n p x = L.parent x := by
    intro x hx
    rcases hIn.has hx with ⟨k, _, hk⟩
    apply upd_other
    intro hEq
    exact hNew ⟨k, hEq ▸ hk⟩
  apply FindView.left_congr hIn.step
  · intro x hx
    exact hParent x (Or.inl hx)
  · intro k hk
    apply Chains.set_ne
    intro hEq
    exact hk.ne_data (congrArg EntryKey.type hEq)
  · intro k hk x hx
    exact hParent x (Or.inr ⟨k, hk, hx⟩)

theorem Listing.Inv.insert
    {n : Nat}
    (p hash : Nat)
    (hNodes : nodes ≤ emptyNode)
    (h : L.Inv nodes serial parent children)
    (hNew : ¬ L.chains.Has n)
    (hPool : n < nodes)
    (hOther : L.info.work ≠ some n) :
    (L.insert n p hash).Inv nodes serial parent children := by
  have hChain : ∀ k, k.type ≠ .data →
      (L.insert n p hash).chains k = L.chains k := by
    intro k hk
    apply Chains.set_ne
    intro hEq
    exact hk (congrArg EntryKey.type hEq)
  constructor
  · exact h.chained.insert ⟨.data, hash⟩ hNodes hNew hPool
  · exact h.dir
  · intro k hk x hx
    rw [hChain k hk] at hx
    rw [← h.parents k hk x hx]
    apply upd_other
    intro hEq
    exact hNew ⟨k, hEq ▸ hx⟩
  · cases h.place with
    | start hWork hReset hReturned hLeft =>
        apply Listing.Place.start (L := L.insert n p hash)
          hWork hReset hReturned
        rw [hChain ⟨.dir, 0⟩ nofun]
        have hIn := L.info.inChain_reset L.chains
        rw [hReset] at hIn
        exact (Listing.left_insert p hash hIn hNew).trans hLeft
    | @stands w l₀ l hWork hStands hLeft =>
        have hNe : n ≠ w := by
          intro hEq
          exact hOther (hEq ▸ hWork)
        apply Listing.Place.stands (L := L.insert n p hash)
          hWork (hStands.insert hash hNew hNe)
        rw [← hLeft]
        exact congrArg (L.returned ++ ·)
          (Listing.left_insert p hash hStands.inChain hNew)

/- A node that was returned is not left. -/
theorem Listing.Inv.not_left
    {l₀ l : List Nat}
    {n : Nat}
    {k : EntryKey}
    (h : L.Inv nodes serial parent children)
    (hNodup : children.Nodup)
    (hChild : ∀ x ∈ children, parent x = serial)
    (hIn : L.info.InChain L.chains l₀ l)
    (hLeft : L.returned ++
      (L.view fun _ => .succ).left L.chains L.info l = children)
    (hk : n ∈ L.chains k)
    (hReturned : k.type = .data ∨ n ∈ L.returned) :
    ¬ (n ∈ l ∨ ∃ k, L.info.Later k ∧ n ∈ L.chains k) := by
  intro hHere
  rcases hIn.has hHere with ⟨k', hType, hk'⟩
  rcases hReturned with hData | hReturned
  · rw [← h.chained.apart k k' n hk hk'] at hData
    exact hType hData
  · rw [← hLeft] at hNodup hChild
    apply List.disjoint_of_nodup_append hNodup hReturned
    apply (FindView.mem_left hIn.step).mpr
    refine ⟨decide_eq_true ?_, hHere⟩
    have hParent := h.parents k' hType n hk'
    rw [hChild n (List.mem_append_left _ hReturned)] at hParent
    exact hParent.trans h.dir.symm

/- A node is taken out: no other child is lost. -/
theorem Listing.left_remove
    {l : List Nat}
    {n : Nat}
    {k : EntryKey}
    (p : Nat)
    (hStep : L.info.step ≤ 1)
    (hk : n ∈ L.chains k)
    (hNot : ¬ (n ∈ l ∨
      ∃ k, L.info.Later k ∧ n ∈ L.chains k)) :
    ((L.remove k n p).view fun _ => .succ).left
        (L.remove k n p).chains L.info l =
      (L.view fun _ => .succ).left L.chains L.info l := by
  apply FindView.left_congr hStep
  · intro x hx
    apply upd_other
    intro hEq
    exact hNot (Or.inl (hEq ▸ hx))
  · intro k' hk'
    apply Chains.set_ne
    intro hEq
    rw [hEq] at hk'
    exact hNot (Or.inr ⟨k, hk', hk⟩)
  · intro k' hk' x hx
    apply upd_other
    intro hEq
    exact hNot (Or.inr ⟨k', hk', hEq ▸ hx⟩)

theorem Listing.Inv.remove
    {n : Nat}
    {k : EntryKey}
    (p : Nat)
    (hNodup : children.Nodup)
    (hChild : ∀ x ∈ children, parent x = serial)
    (h : L.Inv nodes serial parent children)
    (hk : n ∈ L.chains k)
    (hReturned : k.type = .data ∨ n ∈ L.returned) :
    (L.remove k n p).Inv nodes serial parent children := by
  have hChained := h.chained.remove hk
  constructor
  · exact hChained
  · exact h.dir
  · intro k' hk' x hx
    have hNe : x ≠ n := by
      intro hEq
      exact h.chained.not_has_erase hk ⟨k', hEq ▸ hx⟩
    have hOld : x ∈ L.chains k' := Chains.mem_erase hx
    exact (upd_other _ _ hNe).trans (h.parents k' hk' x hOld)
  · cases h.place with
    | start hWork hReset hReturned' hLeft =>
        have hData : k.type = .data := by
          rw [hReturned'] at hReturned
          exact hReturned.resolve_right List.not_mem_nil
        have hIn := L.info.inChain_reset L.chains
        rw [hReset] at hIn
        have hNot := h.not_left hNodup hChild hIn
          (by rw [hReturned']; exact hLeft) hk hReturned
        apply Listing.Place.start (L := L.remove k n p)
          hWork hReset hReturned'
        have hSame : (L.remove k n p).chains ⟨.dir, 0⟩ =
            L.chains ⟨.dir, 0⟩ := by
          apply Chains.set_ne
          intro hEq
          rw [← hEq] at hData
          cases hData
        rw [hSame]
        exact (Listing.left_remove p hIn.step hk hNot).trans
          hLeft
    | @stands w l₀ l hWork hStands hLeft =>
        have hNot := h.not_left hNodup hChild hStands.inChain
          hLeft hk hReturned
        rcases hStands.remove h.chained hk
            (fun hl => hNot (Or.inl hl)) with
          ⟨l₀', hStands'⟩
        apply Listing.Place.stands (L := L.remove k n p)
          hWork hStands'
        rw [← hLeft]
        exact congrArg (L.returned ++ ·)
          (Listing.left_remove p hStands.inChain.step hk hNot)

------------------------------------------------------------
-- Exactness
------------------------------------------------------------

/-
  The directories and the files that are children of a
  directory, each of them once.
-/
structure Chains.ChildList
    (c : Chains)
    (parent : Nat → Nat)
    (serial : Nat)
    (dirs files : List Nat) : Prop where
  nodup : (dirs ++ files).Nodup
  dir : ∀ x, x ∈ dirs ↔ parent x = serial ∧
    ∃ h < dirNodeEntryLen, x ∈ c ⟨.dir, h⟩
  file : ∀ x, x ∈ files ↔ parent x = serial ∧
    ∃ h < fileNodeEntryLen, x ∈ c ⟨.file, h⟩

theorem Chains.mem_children
    {type : BlockType}
    {entryLen x : Nat} :
    x ∈ c.childrenFrom (fun x => decide (parent x = serial))
        type entryLen 0 ↔
      parent x = serial ∧
        ∃ h < entryLen, x ∈ c ⟨type, h⟩ := by
  rw [Chains.mem_childrenFrom]
  constructor
  · rintro ⟨i, ⟨_, hLt⟩, hx, hChild⟩
    rw [Nat.zero_add] at hLt
    exact ⟨of_decide_eq_true hChild, i, hLt, hx⟩
  · rintro ⟨hChild, i, hLt, hx⟩
    refine ⟨i, ⟨Nat.zero_le i, ?_⟩, hx,
      decide_eq_true hChild⟩
    rw [Nat.zero_add]
    exact hLt

theorem HashTable.Chained.nodup_childrenFrom
    (child : Nat → Bool)
    (type : BlockType)
    (n hash : Nat)
    (h : t.Chained nodes c) :
    (c.childrenFrom child type n hash).Nodup := by
  unfold Chains.childrenFrom
  apply List.nodup_flatMap.mpr
  constructor
  · intro i _
    exact (h.nodup _).filter _
  · have hRange : (List.range' hash n).Nodup :=
      List.nodup_range'
    apply hRange.imp
    intro i j hij x hi hj
    have hKey := h.apart _ _ x (List.mem_of_mem_filter hi)
      (List.mem_of_mem_filter hj)
    exact hij (congrArg EntryKey.hash hKey).symm

theorem HashTable.Chained.childList
    (parent : Nat → Nat)
    (serial : Nat)
    (h : t.Chained nodes c) :
    c.ChildList parent serial
      (c.childrenFrom (fun x => decide (parent x = serial))
        .dir dirNodeEntryLen 0)
      (c.childrenFrom (fun x => decide (parent x = serial))
        .file fileNodeEntryLen 0) := by
  constructor
  · apply (h.nodup_childrenFrom _ _ _ _).append
      (h.nodup_childrenFrom _ _ _ _)
    intro x hDir hFile
    rcases (Chains.mem_children.mp hDir).2 with ⟨i, _, hi⟩
    rcases (Chains.mem_children.mp hFile).2 with ⟨j, _, hj⟩
    have hKey := h.apart _ _ x hi hj
    cases congrArg EntryKey.type hKey
  · intro x
    exact Chains.mem_children
  · intro x
    exact Chains.mem_children

theorem Lists.inv
    (hNodes : nodes ≤ emptyNode)
    (hChained : t.Chained nodes c)
    (hRun : Lists nodes serial t c parent L)
    (hReused : L.reused = false) :
    L.Inv nodes serial parent
      (c.children fun x => decide (parent x = serial)) := by
  have hList := hChained.childList parent serial
  induction hRun with
  | init hSerial =>
      rename_i f
      constructor
      · exact hChained
      · exact hSerial
      · intro k _ x _
        rfl
      · apply Listing.Place.start rfl rfl rfl
        rw [FindView.left_dir _ rfl]
        unfold Chains.children FindView.leftOf
        rw [← hSerial]
        exact congrArg (· ++ _)
          (Chains.childrenFrom_succ c _ .dir 31 0).symm
  | found _ hFound ih =>
      exact (ih hReused).found hNodes hFound
  | flush p hash _ hNew hPool ih =>
      rcases Bool.or_eq_false_iff.mp hReused with
        ⟨hBefore, hOther⟩
      exact (ih hBefore).insert p hash hNodes hNew hPool
        (of_decide_eq_false hOther)
  | remove p _ hIn hReturned ih =>
      apply (ih hReused).remove p hList.nodup _ hIn
        hReturned
      intro x hx
      rcases List.mem_append.mp hx with hx | hx
      · exact ((hList.dir x).mp hx).1
      · exact ((hList.file x).mp hx).1

/-
  The next call returns the first child that was not returned
  yet, with the result of loading its header, or it fails
  after the last one.
-/
def Listing.Exact
    (L : Listing)
    (children : List Nat)
    (load : Nat → URet) : Prop :=
  ∃ r f, L.call load = some (r, f) ∧
    (r = .fail ∧ L.returned = children ∨
      ∃ a, r = load a ∧ f.work = some a ∧
        L.returned ++ [a] <+: children)

/-
  A listing returns each child once, directories first,
  whatever is deleted behind it, as long as the node that was
  returned last is not put into the tree again.
-/
theorem lists_exact
    (hNodes : nodes ≤ emptyNode)
    (hChained : t.Chained nodes c)
    (hRun : Lists nodes serial t c parent L)
    (hReused : L.reused = false) :
    ∃ dirs files, c.ChildList parent serial dirs files ∧
      ∀ load, L.Exact (dirs ++ files) load := by
  refine ⟨_, _, hChained.childList parent serial, ?_⟩
  intro load
  have hInv := hRun.inv hNodes hChained hReused
  rcases hInv.call hNodes load with
    ⟨r, f, rest, hCall, hLeft, _, hReturns⟩
  refine ⟨r, f, hCall, ?_⟩
  cases rest with
  | nil =>
      left
      rw [List.append_nil] at hLeft
      exact ⟨hReturns, hLeft⟩
  | cons a rest =>
      rcases hReturns with ⟨hRet, hWork, _⟩
      right
      refine ⟨a, hRet, hWork, rest, ?_⟩
      rw [List.append_assoc]
      exact hLeft

end Runs

------------------------------------------------------------
-- A Child That Is Lost
------------------------------------------------------------

/- Every listing of every tree is exact. -/
def ListingsExact : Prop :=
  ∀ (nodes serial : Nat) (t : HashTable) (c : Chains)
    (parent : Nat → Nat) (L : Listing),
    nodes ≤ emptyNode → t.Chained nodes c →
    Lists nodes serial t c parent L →
    ∃ dirs files, c.ChildList parent serial dirs files ∧
      L.Exact (dirs ++ files) fun _ => .succ

namespace Listing

/- The hash entries of the four files below. -/
def fileHash : Nat → Nat
| 0 => 0
| 1 => 1
| _ => 2

/- Put one of the files into the tree. -/
def addFile (L : Listing) (n : Nat) : Listing :=
  { L with
    table := L.table.insertToEntry ⟨.file, fileHash n⟩ n
    chains := L.chains.set ⟨.file, fileHash n⟩
      (n :: L.chains ⟨.file, fileHash n⟩) }

/-
  Four files of the root directory; the last two are in one
  chain.
-/
def fourFiles : Listing :=
  let empty : Listing :=
    { table :=
        { entry := fun _ => emptyNode
          hashNext := fun _ => emptyNode
          hashPrev := fun _ => emptyNode }
      chains := fun _ => []
      parent := fun _ => 0
      info :=
        { serial := 0, step := 0, hash := 0
          work := none, pos := 0 }
      returned := []
      reused := false }
  (((empty.addFile 3).addFile 2).addFile 1).addFile 0

/- The search stands at one of the files. -/
def standAt (L : Listing) (n : Nat) : Listing :=
  { L with
    info :=
      { serial := 0, step := 1, hash := fileHash n
        work := some n, pos := n + 1 }
    returned := L.returned ++ [n] }

theorem addFile_chained
    {L : Listing}
    {n : Nat}
    (h : L.table.Chained 5 L.chains)
    (hNew : ¬ L.chains.Has n)
    (hPool : n < 5) :
    (L.addFile n).table.Chained 5 (L.addFile n).chains :=
  h.insert _ (by decide) hNew hPool

theorem not_has_addFile
    {L : Listing}
    {m n : Nat}
    (h : ¬ L.chains.Has n)
    (hNe : n ≠ m) : ¬ (L.addFile m).chains.Has n := by
  intro hHas
  rcases Chains.has_push hHas with hEq | hHas
  · exact hNe hEq
  · exact h hHas

theorem fourFiles_chained :
    fourFiles.table.Chained 5 fourFiles.chains := by
  have hNone : ∀ n, ¬ Chains.Has (fun _ => []) n := by
    rintro n ⟨k, hk⟩
    cases hk
  unfold fourFiles
  apply addFile_chained _ _ (by decide)
  apply addFile_chained _ _ (by decide)
  apply addFile_chained _ _ (by decide)
  apply addFile_chained _ (hNone 3) (by decide)
  · exact HashTable.Chained.init _ _
  · apply not_has_addFile _ (by decide)
    exact hNone 2
  · apply not_has_addFile _ (by decide)
    apply not_has_addFile _ (by decide)
    exact hNone 1
  · apply not_has_addFile _ (by decide)
    apply not_has_addFile _ (by decide)
    apply not_has_addFile _ (by decide)
    exact hNone 0

theorem not_has_four : ¬ fourFiles.chains.Has 4 := by
  apply not_has_addFile _ (by decide)
  apply not_has_addFile _ (by decide)
  apply not_has_addFile _ (by decide)
  apply not_has_addFile _ (by decide)
  rintro ⟨k, hk⟩
  cases hk

/- A search that has returned the first three files. -/
def threeReturned : Listing :=
  ((fourFiles.standAt 0).standAt 1).standAt 2

theorem lists_threeReturned :
    Lists 5 0 fourFiles.table fourFiles.chains
      fourFiles.parent threeReturned := by
  have hStart : Lists 5 0 fourFiles.table fourFiles.chains
      fourFiles.parent fourFiles :=
    .init (f := fourFiles.info) rfl
  have hFirst : fourFiles.call (fun _ => .succ) =
      some (.succ, (fourFiles.standAt 0).info) := by
    decide +kernel
  have hSecond : (fourFiles.standAt 0).call (fun _ => .succ) =
      some (.succ, ((fourFiles.standAt 0).standAt 1).info) := by
    decide +kernel
  have hThird :
      ((fourFiles.standAt 0).standAt 1).call (fun _ => .succ) =
        some (.succ, threeReturned.info) := by
    decide +kernel
  exact ((hStart.found hFirst).found hSecond).found hThird

/- Two of the files have been deleted. -/
def twoDeleted : Listing :=
  (threeReturned.remove ⟨.file, 2⟩ 2 0).remove ⟨.file, 0⟩ 0 0

theorem lists_twoDeleted :
    Lists 5 0 fourFiles.table fourFiles.chains
      fourFiles.parent twoDeleted := by
  apply Lists.remove 0 _ (by decide) (Or.inr (by decide))
  apply Lists.remove 0 _ (by decide) (Or.inr (by decide))
  exact lists_threeReturned

end Listing

/- A new block is flushed, and the listing stays exact. -/
theorem lists_exact_flushed :
    ∃ dirs files,
      Listing.fourFiles.chains.ChildList
        Listing.fourFiles.parent 0 dirs files ∧
      ∀ load, (Listing.twoDeleted.insert 4 2 6).Exact
        (dirs ++ files) load := by
  have hNew : ¬ Listing.twoDeleted.chains.Has 4 := by
    rintro ⟨k, hk⟩
    apply Listing.not_has_four
    exact ⟨k, Chains.mem_erase (Chains.mem_erase hk)⟩
  exact lists_exact (by decide) Listing.fourFiles_chained
    (Listing.lists_twoDeleted.flush 2 6 hNew (by decide))
    (by decide)

/-
  The node that was returned last is deleted, and becomes a
  DATA node when another file is deleted: the file behind it
  is never returned.
-/
theorem listingsExact_false : ¬ ListingsExact := by
  intro hExact
  have hChained := Listing.fourFiles_chained
  have hNew : ¬ Listing.twoDeleted.chains.Has 2 := by
    rintro ⟨k, hk⟩
    exact hChained.not_has_erase (k := ⟨.file, 2⟩) (by decide)
      ⟨k, Chains.mem_erase hk⟩
  have hRun := Listing.lists_twoDeleted.flush 3 6 hNew
    (by decide)
  have hLast := hRun.remove (k := ⟨.file, 1⟩) (n := 1) 0
    (by decide) (Or.inr (by decide))
  rcases hExact 5 0 _ _ _ _ (by decide) hChained hLast with
    ⟨dirs, files, hList, r, f, hCall, hEnd⟩
  have hFail : ((((Listing.twoDeleted.insert 2 3 6).remove
      ⟨.file, 1⟩ 1 0).call fun _ => .succ).map Prod.fst) =
        some .fail := by
    decide +kernel
  rw [hCall] at hFail
  rcases hEnd with ⟨_, hReturned⟩ | ⟨a, hRet, _⟩
  · have hFile : 3 ∈ dirs ++ files := by
      apply List.mem_append_right
      exact (hList.file 3).mpr ⟨rfl, 2, by decide, by decide⟩
    rw [← hReturned] at hFile
    exact absurd hFile (by decide)
  · rw [hRet] at hFail
    cases hFail

end Uffs
