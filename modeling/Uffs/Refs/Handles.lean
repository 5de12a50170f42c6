import Uffs.Refs.Objects

/-
  The pools of objects and of open directories: which
  handles are allocated, and how many of the allocated
  objects are attached to the device.

  Main declarations:
    * `Pool.Whole`, `Pool.count_eq`
    * `Fds.Whole`, `Fds.refs`
    * `Fds.Holds`
    * `Fds.Whole.afterPutAll`
    * `Fds.Doubled`
-/

namespace Uffs

------------------------------------------------------------
-- Counting
------------------------------------------------------------

/- Two tests that differ at one place count that much less. -/
theorem countP_range_single
    (f g : Nat → Bool)
    {i : Nat}
    (hSame : ∀ j, j ≠ i → f j = g j)
    (n : Nat) :
    (List.range n).countP f +
        (if i < n then (g i).toNat else 0) =
      (List.range n).countP g +
        (if i < n then (f i).toNat else 0) := by
  induction n with
  | zero => rfl
  | succ n ih =>
      rw [List.range_succ, List.countP_append,
        List.countP_append, List.countP_singleton,
        List.countP_singleton]
      by_cases hi : i = n
      · subst hi
        rw [if_neg (Nat.lt_irrefl i), if_neg (Nat.lt_irrefl i)]
          at ih
        rw [if_pos (Nat.lt_succ_self i),
          if_pos (Nat.lt_succ_self i)]
        cases f i <;> cases g i <;> simp at ih ⊢ <;> omega
      · have hIff : i < n + 1 ↔ i < n := by omega
        rw [hSame n (Ne.symm hi)]
        simp only [hIff]
        omega

namespace Pool

variable {α : Type} {p q : Pool α} {i : Nat}

------------------------------------------------------------
-- Allocated Buffers
------------------------------------------------------------

/- No buffer is twice in the list of the free ones. -/
structure Whole (p : Pool α) : Prop where
  nodup : p.freeList.Nodup
  inside : ∀ i ∈ p.freeList, i < p.numBufs

theorem allocated_iff :
    p.allocated i = true ↔
      i < p.numBufs ∧ i ∉ p.freeList := by
  unfold allocated
  rw [Bool.and_eq_true, decide_eq_true_iff, Bool.not_eq_true',
    List.contains_eq_mem, decide_eq_false_iff_not]

theorem whole_init
    (n : Nat)
    (x : α) : (init n x).Whole where
  nodup := List.nodup_range
  inside := fun _ hi => List.mem_range.mp hi

theorem not_allocated_init
    (n : Nat)
    (x : α) : ¬ (init n x).allocated i = true := by
  rw [allocated_iff]
  rintro ⟨hLt, hNot⟩
  exact hNot (List.mem_range.mpr hLt)

/- What `uffs_PoolGet` returns. -/
structure Got (p : Pool α) (i : Nat) (q : Pool α) : Prop where
  whole : q.Whole
  numBufs : q.numBufs = p.numBufs
  mem : q.mem = p.mem
  fresh : ¬ p.allocated i = true
  allocated : ∀ j, q.allocated j = true ↔
    p.allocated j = true ∨ j = i

theorem Whole.get
    (h : p.Whole)
    (hGet : p.get = some (i, q)) : p.Got i q := by
  unfold Pool.get at hGet
  cases hFree : p.freeList with
  | nil =>
      rw [hFree] at hGet
      cases hGet
  | cons j rest =>
      rw [hFree] at hGet
      cases hGet
      have hNodup := h.nodup
      have hInside := h.inside
      rw [hFree] at hNodup hInside
      rw [List.nodup_cons] at hNodup
      constructor
      · exact ⟨hNodup.2, fun k hk =>
          hInside k (List.mem_cons_of_mem i hk)⟩
      · rfl
      · rfl
      · rw [allocated_iff, hFree]
        exact fun hAll => hAll.2 List.mem_cons_self
      · intro k
        rw [allocated_iff, allocated_iff, hFree,
          List.mem_cons, not_or]
        constructor
        · intro hk
          by_cases hEq : k = i
          · exact .inr hEq
          · exact .inl ⟨hk.1, hEq, hk.2⟩
        · intro hk
          rcases hk with hk | rfl
          · exact ⟨hk.1, hk.2.2⟩
          · exact ⟨hInside k List.mem_cons_self, hNodup.1⟩

theorem allocated_put
    (j : Nat) :
    (p.put i).allocated j = true ↔
      p.allocated j = true ∧ j ≠ i := by
  rw [allocated_iff, allocated_iff]
  unfold put
  rw [List.mem_cons, not_or]
  constructor
  · intro h
    exact ⟨⟨h.1, h.2.2⟩, h.2.1⟩
  · intro h
    exact ⟨h.1.1, h.2, h.1.2⟩

theorem Whole.put
    (h : p.Whole)
    (hi : p.allocated i = true) : (p.put i).Whole := by
  rw [allocated_iff] at hi
  constructor
  · exact List.nodup_cons.mpr ⟨hi.2, h.nodup⟩
  · intro j hj
    rcases List.mem_cons.mp hj with rfl | hj
    · exact hi.1
    · exact h.inside j hj

theorem mem_set_same
    (p : Pool α)
    (i : Nat)
    (x : α) : (p.set i x).mem i = x :=
  upd_same _ _ _

theorem mem_set_other
    (p : Pool α)
    {i j : Nat}
    (x : α)
    (h : j ≠ i) : (p.set i x).mem j = p.mem j :=
  upd_other _ _ h

theorem Whole.set
    (h : p.Whole)
    (i : Nat)
    (x : α) : (p.set i x).Whole :=
  ⟨h.nodup, h.inside⟩

/- The order of the list of the free buffers. -/
theorem allocated_perm
    {l : List Nat}
    (hPerm : l.Perm p.freeList)
    (j : Nat) :
    ({ p with freeList := l } : Pool α).allocated j =
      p.allocated j := by
  rw [Bool.eq_iff_iff, allocated_iff, allocated_iff,
    hPerm.mem_iff]

theorem Whole.perm
    {l : List Nat}
    (h : p.Whole)
    (hPerm : l.Perm p.freeList) :
    ({ p with freeList := l } : Pool α).Whole where
  nodup := hPerm.nodup_iff.mpr h.nodup
  inside := fun i hi => h.inside i (hPerm.mem_iff.mp hi)

/- Putting back all buffers of a list with a property. -/
theorem putAll_foldl
    (f : α → Bool)
    (l : List Nat) :
    ∀ p : Pool α, p.Whole →
      let q := l.foldl (fun q i =>
        if q.allocated i && f (q.mem i) then q.put i else q) p
      q.Whole ∧ q.numBufs = p.numBufs ∧ q.mem = p.mem ∧
        ∀ j, q.allocated j = true ↔
          p.allocated j = true ∧
            ¬ (j ∈ l ∧ f (p.mem j) = true) := by
  induction l with
  | nil =>
      intro p h
      refine ⟨h, rfl, rfl, ?_⟩
      intro j
      simp
  | cons i rest ih =>
      intro p h
      rw [List.foldl_cons]
      split
      · rename_i hTest
        rw [Bool.and_eq_true] at hTest
        have hRest := ih (p.put i) (h.put hTest.1)
        refine ⟨hRest.1, hRest.2.1, hRest.2.2.1, ?_⟩
        intro j
        rw [hRest.2.2.2, allocated_put]
        constructor
        · intro hj
          refine ⟨hj.1.1, ?_⟩
          rintro ⟨hMem, hf⟩
          rcases List.mem_cons.mp hMem with hEq | hMem
          · exact hj.1.2 hEq
          · exact hj.2 ⟨hMem, hf⟩
        · intro hj
          refine ⟨⟨hj.1, ?_⟩, ?_⟩
          · rintro rfl
            exact hj.2 ⟨List.mem_cons_self, hTest.2⟩
          · rintro ⟨hMem, hf⟩
            exact hj.2 ⟨List.mem_cons_of_mem i hMem, hf⟩
      · rename_i hTest
        rw [Bool.and_eq_true, not_and] at hTest
        have hRest := ih p h
        refine ⟨hRest.1, hRest.2.1, hRest.2.2.1, ?_⟩
        intro j
        rw [hRest.2.2.2]
        constructor
        · intro hj
          refine ⟨hj.1, ?_⟩
          rintro ⟨hMem, hf⟩
          rcases List.mem_cons.mp hMem with rfl | hMem
          · exact hTest hj.1 hf
          · exact hj.2 ⟨hMem, hf⟩
        · intro hj
          refine ⟨hj.1, ?_⟩
          rintro ⟨hMem, hf⟩
          exact hj.2 ⟨List.mem_cons_of_mem i hMem, hf⟩

theorem Whole.putAll
    (h : p.Whole)
    (f : α → Bool) : (p.putAll f).Whole :=
  (putAll_foldl f _ p h).1

theorem Whole.allocated_putAll
    (h : p.Whole)
    (f : α → Bool)
    (j : Nat) :
    (p.putAll f).allocated j = true ↔
      p.allocated j = true ∧ f (p.mem j) = false := by
  have hAll := (putAll_foldl f (List.range p.numBufs) p h).2.2.2
  rw [Pool.putAll, hAll, List.mem_range]
  constructor
  · intro hj
    refine ⟨hj.1, ?_⟩
    rw [← Bool.not_eq_true]
    exact fun hf => hj.2 ⟨(allocated_iff.mp hj.1).1, hf⟩
  · intro hj
    refine ⟨hj.1, ?_⟩
    rw [hj.2]
    exact fun hf => nomatch hf.2

theorem Whole.mem_putAll
    (h : p.Whole)
    (f : α → Bool) : (p.putAll f).mem = p.mem :=
  (putAll_foldl f _ p h).2.2.1

theorem Whole.numBufs_putAll
    (h : p.Whole)
    (f : α → Bool) : (p.putAll f).numBufs = p.numBufs :=
  (putAll_foldl f _ p h).2.1

------------------------------------------------------------
-- Counting Buffers
------------------------------------------------------------

/-
  Two pools that differ in one buffer: the counts differ by
  what the buffer counts in each.
-/
theorem count_eq
    (f : α → Bool)
    (hNum : q.numBufs = p.numBufs)
    (hi : i < p.numBufs)
    (hSame : ∀ j, j ≠ i →
      q.allocated j = p.allocated j ∧ q.mem j = p.mem j) :
    q.count f + (p.allocated i && f (p.mem i)).toNat =
      p.count f + (q.allocated i && f (q.mem i)).toNat := by
  have hTest : ∀ j, j ≠ i →
      (q.allocated j && f (q.mem j)) =
        (p.allocated j && f (p.mem j)) := by
    intro j hj
    rw [(hSame j hj).1, (hSame j hj).2]
  have hCount := countP_range_single
    (fun j => q.allocated j && f (q.mem j))
    (fun j => p.allocated j && f (p.mem j)) hTest p.numBufs
  rw [if_pos hi, if_pos hi] at hCount
  unfold count
  rw [hNum]
  exact hCount

theorem count_set
    (f : α → Bool)
    (x : α)
    (hi : p.allocated i = true) :
    (p.set i x).count f + (f (p.mem i)).toNat =
      p.count f + (f x).toNat := by
  have hMem := p.mem_set_same i x
  have hSame : ∀ j, j ≠ i →
      (p.set i x).allocated j = p.allocated j ∧
        (p.set i x).mem j = p.mem j :=
    fun j hj => ⟨rfl, p.mem_set_other x hj⟩
  have hCount := count_eq (p := p) (q := p.set i x) f rfl
    (allocated_iff.mp hi).1 hSame
  have hSet : (p.set i x).allocated i = true := hi
  rw [hMem, hi, hSet, Bool.true_and, Bool.true_and] at hCount
  exact hCount

theorem count_put
    (f : α → Bool)
    (hi : p.allocated i = true) :
    (p.put i).count f + (f (p.mem i)).toNat = p.count f := by
  have hSame : ∀ j, j ≠ i →
      (p.put i).allocated j = p.allocated j ∧
        (p.put i).mem j = p.mem j := by
    intro j hj
    refine ⟨?_, rfl⟩
    rw [Bool.eq_iff_iff, allocated_put]
    exact and_iff_left hj
  have hCount := count_eq (p := p) (q := p.put i) f rfl
    (allocated_iff.mp hi).1 hSame
  have hPut : (p.put i).allocated i = false := by
    rw [← Bool.not_eq_true, allocated_put]
    exact fun h => h.2 rfl
  rw [hi, hPut, Bool.true_and, Bool.false_and] at hCount
  exact hCount

theorem Got.count
    (h : p.Got i q)
    (f : α → Bool) :
    q.count f = p.count f + (f (p.mem i)).toNat := by
  have hi : q.allocated i = true :=
    (h.allocated i).mpr (.inr rfl)
  have hSame : ∀ j, j ≠ i →
      q.allocated j = p.allocated j ∧ q.mem j = p.mem j := by
    intro j hj
    refine ⟨?_, congrFun h.mem j⟩
    rw [Bool.eq_iff_iff, h.allocated]
    exact or_iff_left hj
  have hLt : i < p.numBufs := by
    rw [← h.numBufs]
    exact (allocated_iff.mp hi).1
  have hCount := count_eq f h.numBufs hLt hSame
  rw [hi, Bool.eq_false_of_not_eq_true h.fresh, Bool.true_and,
    Bool.false_and, h.mem] at hCount
  exact hCount

theorem count_putAll
    (h : p.Whole)
    (f : α → Bool) : (p.putAll f).count f = 0 := by
  unfold count
  rw [List.countP_eq_zero]
  intro j _
  rw [Bool.and_eq_true, h.allocated_putAll, h.mem_putAll]
  rintro ⟨⟨_, hNot⟩, hf⟩
  rw [hNot] at hf
  cases hf

end Pool

------------------------------------------------------------
-- Handles
------------------------------------------------------------

namespace Fds

variable {s t : Fds} {i d : Nat}

/-
  The pools are whole, and what an open directory uses is an
  object of the pool.  It need not be one in use: a close of
  an old descriptor of the object puts it back.
-/
structure Whole (s : Fds) : Prop where
  objs : s.objs.Whole
  dirs : s.dirs.Whole
  object : ∀ d i,
    s.dirs.allocated d = true → s.dirs.mem d = some i →
    i < s.objs.numBufs

/- The references that all objects hold. -/
def refs (s : Fds) : Int :=
  s.objs.count Obj.dev

/- The object `i` is in use. -/
structure Holds (s : Fds) (i : Nat) : Prop where
  whole : s.Whole
  allocated : s.objs.allocated i = true

theorem whole_init : init.Whole where
  objs := Pool.whole_init _ _
  dirs := Pool.whole_init _ _
  object := by
    intro d i hd
    exact absurd hd (Pool.not_allocated_init _ _)

theorem refs_init : init.refs = 0 := by
  unfold refs Pool.count
  rw [List.countP_eq_zero.mpr]
  · rfl
  · intro i _ hTest
    rw [Bool.and_eq_true] at hTest
    exact Pool.not_allocated_init _ _ hTest.1

/- What one object counts. -/
theorem toNat_dev (obj : Obj) :
    (obj.dev.toNat : Int) = obj.refs := by
  unfold Obj.refs
  cases obj.dev with
  | false => rfl
  | true => rfl

------------------------------------------------------------
-- Taking and Putting Back Objects
------------------------------------------------------------

theorem refs_setObject
    (obj : Obj)
    (hi : s.objs.allocated i = true) :
    (s.setObject i obj).refs =
      s.refs - (s.objs.mem i).refs + obj.refs := by
  have hCount := Pool.count_set Obj.dev obj hi
  have hOld := toNat_dev (s.objs.mem i)
  have hNew := toNat_dev obj
  unfold refs setObject
  dsimp only
  omega

theorem refs_putObject
    (hi : s.objs.allocated i = true) :
    (s.putObject i).refs = s.refs - (s.objs.mem i).refs := by
  have hCount := Pool.count_put Obj.dev hi
  have hOld := toNat_dev (s.objs.mem i)
  unfold refs putObject
  dsimp only
  omega

theorem Whole.setObject
    (h : s.Whole)
    (i : Nat)
    (obj : Obj) : (s.setObject i obj).Whole :=
  ⟨h.objs.set i obj, h.dirs, h.object⟩

theorem Holds.setObject
    (h : s.Holds i)
    (obj : Obj) : (s.setObject i obj).Holds i :=
  ⟨h.whole.setObject i obj, h.allocated⟩

theorem Holds.putObject
    (h : s.Holds i) : (s.putObject i).Whole where
  objs := h.whole.objs.put h.allocated
  dirs := h.whole.dirs
  object := h.whole.object

theorem Whole.getObject
    (h : s.Whole)
    (hGet : s.getObject = some (i, t)) :
    t.Holds i ∧ t.objs.mem i = Obj.zero ∧ t.refs = s.refs ∧
      t.dirs = s.dirs := by
  unfold Fds.getObject at hGet
  cases hPool : s.objs.get with
  | none =>
      rw [hPool] at hGet
      cases hGet
  | some r =>
      rcases r with ⟨j, p⟩
      rw [hPool] at hGet
      cases hGet
      have hGot := h.objs.get hPool
      have hi : p.allocated i = true :=
        (hGot.allocated i).mpr (.inr rfl)
      refine ⟨⟨⟨hGot.whole.set i _, h.dirs, ?_⟩, hi⟩,
        upd_same _ _ _, ?_, rfl⟩
      · intro d k hd hMem
        have hLt := h.object d k hd hMem
        rw [← hGot.numBufs] at hLt
        exact hLt
      · have hCount := hGot.count Obj.dev
        have hSet := Pool.count_set Obj.dev Obj.zero hi
        have hZero : Obj.zero.dev.toNat = 0 := rfl
        rw [hGot.mem] at hSet
        unfold refs
        dsimp only
        omega

/- An object that is used and put back. -/
theorem Holds.finish
    (h : s.Holds i)
    (obj : Obj) :
    ((s.setObject i obj).putObject i).Whole ∧
      ((s.setObject i obj).putObject i).refs =
        s.refs - (s.objs.mem i).refs := by
  refine ⟨(h.setObject obj).putObject, ?_⟩
  have hMem : (s.setObject i obj).objs.mem i = obj :=
    s.objs.mem_set_same i obj
  rw [refs_putObject (h.setObject obj).allocated,
    refs_setObject obj h.allocated, hMem]
  omega

theorem Whole.permObjs
    {l : List Nat}
    (h : s.Whole)
    (hPerm : l.Perm s.objs.freeList) :
    Whole { s with objs := { s.objs with freeList := l } } where
  objs := h.objs.perm hPerm
  dirs := h.dirs
  object := h.object

theorem refs_permObjs
    {l : List Nat}
    (hPerm : l.Perm s.objs.freeList) :
    refs { s with objs := { s.objs with freeList := l } } =
      s.refs := by
  unfold refs Pool.count
  dsimp only
  simp only [Pool.allocated_perm hPerm]

------------------------------------------------------------
-- Open Directories
------------------------------------------------------------

theorem Whole.getDirEntry
    (h : s.Whole)
    (hGet : s.getDirEntry = some (d, t)) :
    t.Whole ∧ t.dirs.allocated d = true ∧
      t.objs = s.objs := by
  unfold Fds.getDirEntry at hGet
  cases hPool : s.dirs.get with
  | none =>
      rw [hPool] at hGet
      cases hGet
  | some r =>
      rcases r with ⟨j, p⟩
      rw [hPool] at hGet
      cases hGet
      have hGot := h.dirs.get hPool
      have hd : p.allocated d = true :=
        (hGot.allocated d).mpr (.inr rfl)
      refine ⟨⟨h.objs, hGot.whole.set d none, ?_⟩, hd, rfl⟩
      intro e i he hMem
      by_cases hEq : e = d
      · subst hEq
        exact nomatch (Pool.mem_set_same _ _ _).symm.trans hMem
      · have hOld : s.dirs.mem e = some i := by
          rw [← hGot.mem]
          exact (p.mem_set_other none hEq).symm.trans hMem
        exact h.object e i
          (((hGot.allocated e).mp he).resolve_right hEq) hOld

/- An open directory gets an object. -/
theorem Holds.setDirEntry
    (h : s.Holds i)
    (d : Nat) : (s.setDirEntry d (some i)).Whole := by
  refine ⟨h.whole.objs, h.whole.dirs.set d _, ?_⟩
  intro e j he hMem
  by_cases hEq : e = d
  · subst hEq
    have hSelf : some i = some j :=
      (s.dirs.mem_set_same e _).symm.trans hMem
    rw [← Option.some.inj hSelf]
    exact (Pool.allocated_iff.mp h.allocated).1
  · exact h.whole.object e j he
      ((s.dirs.mem_set_other _ hEq).symm.trans hMem)

theorem Whole.clearDirEntry
    (h : s.Whole)
    (d : Nat) : (s.setDirEntry d none).Whole := by
  refine ⟨h.objs, h.dirs.set d _, ?_⟩
  intro e j he hMem
  by_cases hEq : e = d
  · subst hEq
    exact nomatch (s.dirs.mem_set_same e none).symm.trans hMem
  · exact h.object e j he
      ((s.dirs.mem_set_other _ hEq).symm.trans hMem)

theorem Whole.putDirEntry
    (h : s.Whole)
    (hd : s.dirs.allocated d = true) :
    (s.putDirEntry d).Whole := by
  refine ⟨h.objs, h.dirs.put hd, ?_⟩
  intro e j he hMem
  exact h.object e j ((Pool.allocated_put e).mp he).1 hMem

------------------------------------------------------------
-- All Handles
------------------------------------------------------------

/- What a format with force leaves of the handles. -/
def afterPutAll (s : Fds) : Fds :=
  signatureIncrease
    { s with
      dirs := s.dirs.putAll s.dirAttached
      objs := s.objs.putAll Obj.dev }

theorem Whole.afterPutAll
    (h : s.Whole) : s.afterPutAll.Whole := by
  refine ⟨h.objs.putAll _, h.dirs.putAll _, ?_⟩
  intro e i he hMem
  have hNum : s.afterPutAll.objs.numBufs = s.objs.numBufs :=
    h.objs.numBufs_putAll Obj.dev
  have hOld : s.afterPutAll.dirs.mem = s.dirs.mem :=
    h.dirs.mem_putAll s.dirAttached
  rw [hNum]
  rw [hOld] at hMem
  exact h.object e i
    ((h.dirs.allocated_putAll s.dirAttached e).mp he).1 hMem

theorem Whole.refs_afterPutAll
    (h : s.Whole) : s.afterPutAll.refs = 0 := by
  have hCount : s.afterPutAll.objs.count Obj.dev = 0 :=
    Pool.count_putAll h.objs Obj.dev
  unfold refs
  rw [hCount]
  rfl

------------------------------------------------------------
-- An Object That Is Put Back Twice
------------------------------------------------------------

/-
  The next object to be taken is still in the list of the
  free ones after that.  In the source the list then leads
  back to the object.
-/
def Doubled (s : Fds) : Prop :=
  ∃ i rest, s.objs.freeList = i :: rest ∧ i ∈ rest

/- A free object is put back once more. -/
theorem Whole.doubled_putObject
    (h : s.Whole)
    (obj : Obj)
    (hd : s.dirs.allocated d = true)
    (hMem : s.dirs.mem d = some i)
    (hFree : ¬ s.objs.allocated i = true) :
    ((s.setObject i obj).putObject i).Doubled := by
  refine ⟨i, s.objs.freeList, rfl, ?_⟩
  rw [Pool.allocated_iff] at hFree
  by_contra hNot
  exact hFree ⟨h.object d i hd hMem, hNot⟩

/- The object that is taken counts as free. -/
theorem Doubled.refs_setObject
    (h : s.Doubled)
    (obj : Obj)
    (hGet : s.getObject = some (i, t)) :
    (t.setObject i obj).refs = s.refs := by
  rcases h with ⟨j, rest, hList, hj⟩
  unfold Fds.getObject Pool.get at hGet
  rw [hList] at hGet
  cases hGet
  unfold refs Pool.count
  apply congrArg
  apply List.countP_congr
  intro k _
  rw [Bool.and_eq_true, Bool.and_eq_true, Pool.allocated_iff,
    Pool.allocated_iff, hList]
  unfold setObject Pool.set
  dsimp only
  by_cases hk : k = i
  · subst hk
    exact iff_of_false (fun h => h.1.2 hj)
      fun h => h.1.2 List.mem_cons_self
  · rw [upd_other _ _ hk, upd_other _ _ hk, List.mem_cons,
      or_iff_right hk]

end Fds

end Uffs
