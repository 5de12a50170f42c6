import Mathlib.Data.List.Find
import Uffs.Good.StepOne
import Uffs.Reading.Volume

/-
  The reading calls of the file layer over any page store.

  All that they rely on below them is that page buffers show
  the pages of a volume, whatever is cached, and that nothing
  has to be flushed or recovered.  A reading call then gives
  what the volume gives, and leaves the volume as it is.

  Main declarations:
    * `Tree.Alike`
    * `Volume.Serving`
    * `Obj.Fits`
    * `Volume.Serving.openObject`
    * `Volume.Serving.readObject`
-/

namespace Uffs

open Prog

variable [Platform]

------------------------------------------------------------
-- Page Stores
------------------------------------------------------------

/-
  Two trees with the same nodes in the hash entries, but for
  the blocks of the nodes.
-/
structure Tree.Alike (t v : Tree) : Prop where
  entry : t.entry = v.entry
  node : ∀ n ∈ v.entryNodes,
    (t.node n).setBlock 0 = (v.node n).setBlock 0

namespace Tree.Alike

variable {t v : Tree} {n : Nat}

omit [Platform]

theorem refl (t : Tree) : t.Alike t where
  entry := rfl
  node := fun _ _ => rfl

theorem checksum
    (h : t.Alike v)
    (hMem : n ∈ v.entryNodes) :
    (t.node n).checksum = (v.node n).checksum := by
  have hSame := congrArg TreeNode.checksum (h.node n hMem)
  have hBlock : ∀ x : TreeNode,
      (x.setBlock 0).checksum = x.checksum := by
    intro x
    cases x <;> rfl
  rw [hBlock, hBlock] at hSame
  exact hSame

theorem parent
    (h : t.Alike v)
    (hMem : n ∈ v.entryNodes) :
    (t.node n).parent = (v.node n).parent := by
  have hSame := congrArg TreeNode.parent (h.node n hMem)
  have hBlock : ∀ x : TreeNode,
      (x.setBlock 0).parent = x.parent := by
    intro x
    cases x <;> rfl
  rw [hBlock, hBlock] at hSame
  exact hSame

theorem serial
    (h : t.Alike v)
    (hMem : n ∈ v.entryNodes) :
    (t.node n).serial = (v.node n).serial := by
  have hSame := congrArg TreeNode.serial (h.node n hMem)
  have hBlock : ∀ x : TreeNode,
      (x.setBlock 0).serial = x.serial := by
    intro x
    cases x <;> rfl
  rw [hBlock, hBlock] at hSame
  exact hSame

theorem len
    (h : t.Alike v)
    (hMem : n ∈ v.entryNodes) :
    (t.node n).len = (v.node n).len := by
  have hSame := congrArg TreeNode.len (h.node n hMem)
  have hBlock : ∀ x : TreeNode,
      (x.setBlock 0).len = x.len := by
    intro x
    cases x <;> rfl
  rw [hBlock, hBlock] at hSame
  exact hSame

theorem region
    (h : t.Alike v)
    (type : BlockType) : t.region type = v.region type := by
  unfold Tree.region
  rw [h.entry]

/- The search for a data block is the same. -/
theorem findDataNode
    (h : t.Alike v)
    (parent serial : Nat) :
    t.findDataNode parent serial =
      v.findDataNode parent serial := by
  have hEntry : t.dataEntry = v.dataEntry :=
    congrFun h.entry .data
  unfold Tree.findDataNode
  rw [hEntry]
  apply List.find?_congr
  intro n hn
  have hMem : n ∈ v.entryNodes :=
    Tree.mem_entryNodes.mpr
      ⟨.data, _, Nat.mod_lt _ (by decide), hn⟩
  rw [h.parent hMem, h.serial hMem]

end Tree.Alike

omit [Platform] in
theorem Tree.mem_of_findDataNode
    {t : Tree}
    {parent serial n : Nat}
    (h : t.findDataNode parent serial = some n) :
    n ∈ t.entryNodes :=
  Tree.mem_entryNodes.mpr
    ⟨.data, _, Nat.mod_lt _ (by decide),
      List.mem_of_find?_eq_some h⟩

/-
  What is expected of a page that is asked for: a buffer that
  is held and shows the page, or none when there is none.
-/
def Volume.Serves
    (v : Volume)
    (Shows : (Nat → Nat) → Dev → Prop)
    (n id : Nat)
    (r : Option Nat)
    (t : Dev) : Prop :=
  match v.page n id with
  | none => r = none ∧ Shows idle t
  | some c =>
      ∃ i, r = some i ∧ Shows (holds i) t ∧
        (t.buf.entry i).data = c.1 ∧
        (t.buf.entry i).dataLen = c.2

/- The name sums in the tree are those of the names. -/
def Volume.Summed (v : Volume) : Prop :=
  ∀ type n x, type = .dir ∨ type = .file →
    n ∈ v.tree.region type → v.name n = some x →
      (v.tree.node n).checksum = makeSum16 x

/-
  The states `Shows R` show the volume `v`, with the page
  buffers held as `R` says.
-/
structure Volume.Serving
    (v : Volume)
    (Shows : (Nat → Nat) → Dev → Prop) : Prop where
  sums : v.Summed
  tree : ∀ R s, Shows R s → s.tree.Alike v.tree
  count : ∀ R s k, Shows R s →
    Shows R { s with refCount := k }
  get : ∀ s type n id noEcc, Shows idle s → type ≠ .resv →
    n ∈ v.tree.entryNodes →
      wp (bufGetEx type n id noEcc)
        (fun r _ t => v.Serves Shows n id r t) s
  put : ∀ s i, Shows (holds i) s →
    wp (bufPut i) (fun _ _ t => Shows idle t) s
  flushGroup : ∀ s parent serial, Shows idle s →
    wp (bufFlushGroup parent serial)
      (fun r _ t => r = .succ ∧ Shows idle t) s
  flushMatchParent : ∀ s parent, Shows idle s →
    wp (bufFlushGroupMatchParent parent)
      (fun r _ t => r = .succ ∧ Shows idle t) s
  flushAll : ∀ s, Shows idle s →
    wp bufFlushAll (fun r _ t => r = .succ ∧ Shows idle t) s
  recover : ∀ s, Shows idle s →
    wp recoverIfPending (fun _ _ t => Shows idle t) s

/- What an object has to do with a volume. -/
structure Obj.Fits (obj : Obj) (v : Volume) : Prop where
  type : obj.type ≠ .resv
  node : ∀ n, obj.node = some n → n ∈ v.tree.entryNodes
  region : obj.type ≠ .dir → ∀ n, obj.node = some n →
    n ∈ v.tree.region .file
  file : obj.openSucc = true → obj.type ≠ .dir →
    obj.headPages = Uffs.headPages ∧ obj.node ≠ none

/- The root directory alone is attached without a node. -/
def Obj.Rooted (obj : Obj) : Prop :=
  obj.dev = true → obj.parent = parentOfRoot ∨ obj.node ≠ none

/- All objects of a pool fit. -/
def ObjPool.Fits (p : ObjPool) (v : Volume) : Prop :=
  ∀ h obj, p h = some obj → obj.Fits v ∧ obj.Rooted

theorem Obj.fits_zero (v : Volume) : Obj.zero.Fits v where
  type := nofun
  node := by
    intro n hNode
    cases hNode
  region := by
    intro _ n hNode
    cases hNode
  file := by
    intro hOpen
    cases hOpen

namespace Volume.Serving

variable {v : Volume} {Shows : (Nat → Nat) → Dev → Prop}
  {s : Dev}

------------------------------------------------------------
-- Names
------------------------------------------------------------

/- A node of the hash entries is read. -/
theorem node
    {R : Nat → Nat}
    (hServing : v.Serving Shows)
    (hs : Shows R s) : s.tree.Alike v.tree :=
  hServing.tree R s hs

/- The comparison of a name with the one on flash. -/
theorem treeCompareFileName
    {type : BlockType}
    {name : List Byte}
    {sum n : Nat}
    (hServing : v.Serving Shows)
    (hs : Shows idle s)
    (hType : type ≠ .resv)
    (hMem : n ∈ v.tree.entryNodes) :
    wp (treeCompareFileName name sum n type)
      (fun r _ t => Shows idle t ∧
        (r = true ↔ v.name n = some name ∧
          makeSum16 name = sum)) s := by
  unfold Uffs.treeCompareFileName
  refine wp_seq (hServing.get s type n 0 false hs hType hMem) ?_
  intro r _ t ht
  unfold Volume.Serves at ht
  cases hPage : v.page n 0 with
  | none =>
      rw [hPage] at ht
      rcases ht with ⟨rfl, hShows⟩
      simp only [wp_pure]
      refine ⟨hShows, ?_⟩
      unfold Volume.name
      rw [hPage]
      simp
  | some c =>
      rw [hPage] at ht
      rcases ht with ⟨i, rfl, hShows, hData, _⟩
      simp only [getBuf, wp_bind, wp_gets]
      refine wp_mono (hServing.put t i hShows) ?_
      intro _ _ u hu
      rw [wp_pure]
      refine ⟨hu, ?_⟩
      unfold Volume.name
      rw [hPage, hData]
      simp only [Bool.and_eq_true, decide_eq_true_eq]
      constructor
      · intro h
        rcases h with ⟨⟨hSum, hLen⟩, hName⟩
        rw [← hName] at hLen
        rw [if_pos hLen, hName]
        rw [hName] at hSum
        exact ⟨rfl, hSum⟩
      · intro h
        by_cases hLen : fiNameLen c.1 = (fiName c.1).length
        · rw [if_pos hLen, Option.some.injEq] at h
          rcases h with ⟨hName, hSum⟩
          rw [hName] at hLen ⊢
          exact ⟨⟨hSum, hLen⟩, rfl⟩
        · rw [if_neg hLen] at h
          cases h.1

/- The search of a name among some nodes. -/
theorem findByNameFrom
    {type : BlockType}
    {name : List Byte}
    {sum dir : Nat}
    (hServing : v.Serving Shows)
    (hType : type = .dir ∨ type = .file)
    (l : List Nat) :
    ∀ s, Shows idle s →
      (∀ n ∈ l, n ∈ v.tree.region type) →
      wp (findByNameFrom name sum dir type l)
        (fun r _ t => Shows idle t ∧
          r =
            if makeSum16 name = sum then
              l.find? fun n => v.isChild name dir n
            else
              none) s := by
  have hNot : type ≠ .resv := by
    intro hEq
    subst hEq
    rcases hType with hType | hType
    · cases hType
    · cases hType
  induction l with
  | nil =>
      intro s hs _
      unfold Uffs.findByNameFrom
      rw [wp_pure]
      refine ⟨hs, ?_⟩
      rw [List.find?_nil, ite_self]
  | cons n l ih =>
      intro s hs hRegion
      have hIn := hRegion n List.mem_cons_self
      have hMem := Tree.region_subset hIn
      have hAlike := hServing.node hs
      have hRest : ∀ m ∈ l, m ∈ v.tree.region type :=
        fun m hm => hRegion m (List.mem_cons_of_mem n hm)
      unfold Uffs.findByNameFrom
      simp only [getNode, wp_bind, wp_gets, hAlike.checksum hMem,
        hAlike.parent hMem]
      have hSkip : ∀ u, Shows idle u →
          (makeSum16 name = sum →
            v.isChild name dir n = false) →
          wp (Uffs.findByNameFrom name sum dir type l)
            (fun r _ t => Shows idle t ∧
              r =
                if makeSum16 name = sum then
                  (n :: l).find? fun n => v.isChild name dir n
                else
                  none) u := by
        intro u hu hNot
        refine wp_mono (ih u hu hRest) ?_
        intro r _ t ht
        refine ⟨ht.1, ?_⟩
        rw [ht.2]
        by_cases hSum : makeSum16 name = sum
        · rw [if_pos hSum, if_pos hSum, List.find?_cons,
            hNot hSum]
        · rw [if_neg hSum, if_neg hSum]
      split
      · rename_i hHere
        refine wp_seq
          (hServing.treeCompareFileName hs hNot hMem) ?_
        intro r _ t ht
        rcases ht with ⟨hShows, hMatch⟩
        split
        · rename_i hTrue
          have hNamed := hMatch.mp hTrue
          rw [wp_pure]
          refine ⟨hShows, ?_⟩
          rw [if_pos hNamed.2, List.find?_cons]
          unfold Volume.isChild
          rw [hHere.2, hNamed.1, beq_self_eq_true,
            beq_self_eq_true]
          rfl
        · rename_i hFalse
          apply hSkip t hShows
          intro hSum
          unfold Volume.isChild
          rw [Bool.and_eq_false_iff]
          right
          rw [beq_eq_false_iff_ne]
          intro hName
          exact hFalse (hMatch.mpr ⟨hName, hSum⟩)
      · rename_i hNot
        apply hSkip s hs
        intro hSum
        unfold Volume.isChild
        rw [Bool.and_eq_false_iff, beq_eq_false_iff_ne,
          beq_eq_false_iff_ne]
        by_contra hBoth
        rw [not_or, Decidable.not_not, Decidable.not_not] at hBoth
        apply hNot
        refine ⟨?_, hBoth.1⟩
        rw [hServing.sums type n name hType hIn hBoth.2]
        exact hSum

theorem treeFindDirNodeByName
    {name : List Byte}
    {sum dir : Nat}
    (hServing : v.Serving Shows)
    (hs : Shows idle s) :
    wp (treeFindDirNodeByName name sum dir)
      (fun r _ t => Shows idle t ∧
        r =
          if makeSum16 name = sum then v.child .dir name dir
          else none) s := by
  have hNodes : s.tree.dirNodes = v.tree.region .dir :=
    (hServing.node hs).region .dir
  unfold Uffs.treeFindDirNodeByName
  simp only [wp_bind, wp_get, hNodes]
  exact hServing.findByNameFrom (.inl rfl) _ s
    hs fun n hn => hn

theorem treeFindFileNodeByName
    {name : List Byte}
    {sum dir : Nat}
    (hServing : v.Serving Shows)
    (hs : Shows idle s) :
    wp (treeFindFileNodeByName name sum dir)
      (fun r _ t => Shows idle t ∧
        r =
          if makeSum16 name = sum then v.child .file name dir
          else none) s := by
  have hNodes : s.tree.fileNodes = v.tree.region .file :=
    (hServing.node hs).region .file
  unfold Uffs.treeFindFileNodeByName
  simp only [wp_bind, wp_get, hNodes]
  exact hServing.findByNameFrom (.inr rfl) _ s
    hs fun n hn => hn

------------------------------------------------------------
-- Opening
------------------------------------------------------------

/- A name leads to a node of the hash entries. -/
omit [Platform] in
theorem mem_of_child
    {type : BlockType}
    {name : List Byte}
    {dir n : Nat}
    (hChild : v.child type name dir = some n) :
    n ∈ v.tree.entryNodes :=
  Tree.region_subset (List.mem_of_find?_eq_some hChild)

omit [Platform] in
theorem region_of_lookup
    {type : BlockType}
    {name : List Byte}
    {dir n : Nat}
    (hLookup : v.lookup type name dir = some n) :
    n ∈ v.tree.region type := by
  unfold Volume.lookup at hLookup
  split at hLookup
  · cases hLookup
  · exact List.mem_of_find?_eq_some hLookup

omit [Platform] in
theorem mem_of_lookup
    {type : BlockType}
    {name : List Byte}
    {dir n : Nat}
    (hLookup : v.lookup type name dir = some n) :
    n ∈ v.tree.entryNodes :=
  Tree.region_subset (region_of_lookup hLookup)

theorem parseDirs
    {dLen : Nat}
    (hServing : v.Serving Shows)
    (n : Nat) :
    ∀ s used rest dir, Shows idle s →
      wp (parseDirs dLen n used rest dir)
        (fun r _ t => Shows idle t ∧
          r = v.walk dLen n used rest dir) s := by
  induction n with
  | zero =>
      intro s used rest dir hs
      unfold Uffs.parseDirs Volume.walk
      rw [wp_pure]
      exact ⟨hs, rfl⟩
  | succ n ih =>
      intro s used rest dir hs
      unfold Uffs.parseDirs Volume.walk
      split
      · rw [wp_pure]
        exact ⟨hs, rfl⟩
      · refine wp_seq (hServing.treeFindDirNodeByName hs) ?_
        intro r _ t ht
        rcases ht with ⟨hShows, hFound⟩
        rw [if_pos rfl] at hFound
        subst hFound
        dsimp only
        cases hChild : v.child .dir
            (rest.takeWhile fun c => c != slash) dir with
        | none =>
            dsimp only
            rw [wp_pure]
            exact ⟨hShows, rfl⟩
        | some d =>
            have hMem := mem_of_child hChild
            simp only [getNode, wp_bind, wp_gets,
              (hServing.node hShows).serial hMem]
            exact ih t _ _ _ hShows

theorem putDevice
    {R : Nat → Nat}
    (hServing : v.Serving Shows)
    (hs : Shows R s) :
    wp putDevice (fun _ _ t => Shows R t) s := by
  unfold Uffs.putDevice
  rw [wp_modify]
  exact hServing.count R s _ hs

theorem parseObject
    {obj : Obj}
    {path : List Byte}
    (hServing : v.Serving Shows)
    (hs : Shows idle s) :
    wp (parseObject obj path)
      (fun r _ t => Shows idle t ∧ r = v.parse obj path)
      s := by
  unfold Uffs.parseObject Volume.parse
  split
  · rw [wp_pure]
    exact ⟨hs, rfl⟩
  · cases path with
    | nil =>
        dsimp only
        rw [wp_pure]
        exact ⟨hs, rfl⟩
    | cons c start =>
        dsimp only
        split
        · rw [wp_pure]
          exact ⟨hs, rfl⟩
        · rw [wp_bind, wp_modify]
          have hCount := hServing.count idle s (s.refCount + 1) hs
          split
          · rw [wp_pure]
            exact ⟨hCount, rfl⟩
          · refine wp_seq (hServing.parseDirs _ _ _ _ _ hCount)
              ?_
            intro r _ t ht
            rcases ht with ⟨hShows, hWalk⟩
            rw [← hWalk]
            split
            · rw [wp_pure]
              exact ⟨hShows, rfl⟩
            · refine wp_seq (hServing.putDevice hShows) ?_
              intro _ _ u hu
              rw [wp_pure]
              exact ⟨hu, rfl⟩

/- The sum that `uffs_OpenObjectEx` searches with. -/
omit [Platform] in
theorem lookup_eq
    {type : BlockType}
    {name : List Byte}
    {dir : Nat} :
    (if makeSum16 name =
        (if name = [] then 0 else makeSum16 name) then
      v.child type name dir
    else none) = v.lookup type name dir := by
  unfold Volume.lookup
  by_cases hEmpty : name = []
  · rw [if_pos hEmpty, if_pos hEmpty, if_neg]
    rw [hEmpty]
    decide
  · rw [if_neg hEmpty, if_neg hEmpty, if_pos rfl]

theorem openObjectEx
    {obj : Obj}
    {dir : Nat}
    {name : List Byte}
    {oflag : OFlag}
    (hServing : v.Serving Shows)
    (hs : Shows idle s)
    (hCreate : oflag.create = false)
    (hTrunc : oflag.trunc = false) :
    wp (openObjectEx obj dir name oflag)
      (fun r _ t => Shows idle t ∧
        r = v.openIn obj dir name oflag) s := by
  unfold Uffs.openObjectEx Volume.openIn Volume.named
  split
  · rw [wp_pure]
    exact ⟨hs, rfl⟩
  · cases hDir : oflag.dir with
    | true =>
        simp only [hCreate, hTrunc, Bool.true_and,
          if_true, Bool.not_true, Bool.false_and,
          Bool.false_eq_true, if_false]
        split
        · split
          · rw [wp_pure]
            exact ⟨hs, rfl⟩
          · rw [wp_pure]
            exact ⟨hs, rfl⟩
        · refine wp_seq (hServing.treeFindDirNodeByName hs) ?_
          intro r _ t ht
          rcases ht with ⟨hShows, hFound⟩
          rw [lookup_eq] at hFound
          rw [← hFound]
          cases r with
          | none =>
              dsimp only
              rw [wp_pure]
              exact ⟨hShows, rfl⟩
          | some n =>
              have hMem := mem_of_lookup hFound.symm
              simp only [getNode, wp_bind, wp_gets, wp_pure,
                (hServing.node hShows).serial hMem]
              exact ⟨hShows, rfl⟩
    | false =>
        simp only [hCreate, hTrunc, Bool.false_and,
          Bool.false_eq_true, if_false, Bool.not_false,
          Bool.true_and]
        have hSlash : ∀ {n}, v.lookup .file name dir = some n →
            (decide (name = []) ||
              decide (name.getLast? = some slash)) =
                decide (name.getLast? = some slash) := by
          intro n hLookup
          have hName : name ≠ [] := by
            intro hEmpty
            unfold Volume.lookup at hLookup
            rw [if_pos hEmpty] at hLookup
            cases hLookup
          rw [decide_eq_false hName, Bool.false_or]
        by_cases hBad : (decide (name = []) ||
            decide (name.getLast? = some slash)) = true
        · simp only [hBad, if_true]
          refine wp_seq (hServing.treeFindFileNodeByName hs) ?_
          intro r _ t ht
          rcases ht with ⟨hShows, hFound⟩
          rw [lookup_eq] at hFound
          rw [← hFound]
          cases r with
          | none =>
              dsimp only
              rw [wp_pure]
              exact ⟨hShows, rfl⟩
          | some n =>
              have hMem := mem_of_lookup hFound.symm
              rw [hSlash hFound.symm] at hBad
              simp only [getNode, wp_bind, wp_gets, wp_pure,
                (hServing.node hShows).serial hMem, hBad,
                if_true]
              exact ⟨hShows, rfl⟩
        · simp only [hBad, Bool.false_eq_true, if_false]
          refine wp_seq (hServing.treeFindFileNodeByName hs) ?_
          intro r _ t ht
          rcases ht with ⟨hShows, hFound⟩
          rw [lookup_eq] at hFound
          rw [← hFound]
          cases r with
          | none =>
              dsimp only
              rw [wp_pure]
              exact ⟨hShows, rfl⟩
          | some n =>
              have hMem := mem_of_lookup hFound.symm
              rw [hSlash hFound.symm] at hBad
              simp only [getNode, wp_bind, wp_gets, wp_pure,
                (hServing.node hShows).serial hMem, hBad,
                Bool.false_eq_true, if_false]
              exact ⟨hShows, rfl⟩

/- What is done with an object that is given up. -/
theorem doReleaseObjectResource
    {obj : Obj}
    (hServing : v.Serving Shows)
    (hs : Shows idle s) :
    wp (doReleaseObjectResource obj)
      (fun r _ t => Shows idle t ∧ r = Volume.released obj)
      s := by
  unfold Uffs.doReleaseObjectResource Volume.released
  split
  · refine wp_seq (hServing.recover s hs) ?_
    intro _ _ t ht
    refine wp_seq (hServing.putDevice ht) ?_
    intro _ _ u hu
    rw [wp_pure]
    exact ⟨hu, rfl⟩
  · rw [wp_pure]
    exact ⟨hs, rfl⟩

theorem openObject
    {obj : Obj}
    {path : List Byte}
    {oflag : OFlag}
    (hServing : v.Serving Shows)
    (hs : Shows idle s)
    (hCreate : oflag.create = false)
    (hTrunc : oflag.trunc = false) :
    wp (openObject obj path oflag)
      (fun r _ t => Shows idle t ∧
        r = v.openFile obj path oflag) s := by
  unfold Uffs.openObject Volume.openFile
  refine wp_seq (hServing.parseObject hs) ?_
  intro r _ t ht
  rcases ht with ⟨hShows, rfl⟩
  cases hParse : v.parse obj path with
  | mk ret x =>
      cases ret with
      | fail =>
          dsimp only
          rw [wp_bind, wp_pure]
          refine wp_seq (hServing.doReleaseObjectResource hShows)
            ?_
          intro _ _ u hu
          rw [wp_pure]
          exact ⟨hu.1, by rw [hu.2]⟩
      | succ =>
          dsimp only
          refine wp_seq (hServing.openObjectEx hShows hCreate
            hTrunc) ?_
          intro r _ u hu
          rcases hu with ⟨hShows, rfl⟩
          cases hOpen : v.openIn x x.parent x.name oflag with
          | mk ret y =>
              cases ret with
              | succ =>
                  dsimp only
                  rw [wp_pure]
                  exact ⟨hShows, rfl⟩
              | fail =>
                  dsimp only
                  refine wp_seq
                    (hServing.doReleaseObjectResource hShows) ?_
                  intro _ _ w hw
                  rw [wp_pure]
                  exact ⟨hw.1, by rw [hw.2]⟩

------------------------------------------------------------
-- Flushing and Closing
------------------------------------------------------------

theorem doFlushObject
    {obj : Obj}
    (hServing : v.Serving Shows)
    (hs : Shows idle s) :
    wp (doFlushObject obj)
      (fun r _ t => r = .succ ∧ Shows idle t) s := by
  unfold Uffs.doFlushObject
  cases obj.node with
  | none =>
      dsimp only
      rw [wp_pure]
      exact ⟨rfl, hs⟩
  | some n =>
      simp only [getNode, wp_bind, wp_gets]
      split
      · exact hServing.flushGroup s _ _ hs
      · refine wp_seq (hServing.flushMatchParent s _ hs) ?_
        intro r _ t ht
        rcases ht with ⟨rfl, hShows⟩
        simp only [wp_bind, wp_gets]
        exact hServing.flushGroup t _ _ hShows

theorem flushObject
    {obj : Obj}
    (hServing : v.Serving Shows)
    (hs : Shows idle s) :
    wp (flushObject obj)
      (fun r _ t => Shows idle t ∧ r = Volume.flushFile obj)
      s := by
  unfold Uffs.flushObject Volume.flushFile
  split
  · rw [wp_pure]
    exact ⟨hs, rfl⟩
  · refine wp_seq (hServing.doFlushObject hs) ?_
    intro r _ t ht
    rcases ht with ⟨rfl, hShows⟩
    dsimp only
    rw [wp_pure]
    exact ⟨hShows, rfl⟩

theorem closeObject
    {obj : Obj}
    (hServing : v.Serving Shows)
    (hs : Shows idle s) :
    wp (closeObject obj)
      (fun r _ t => Shows idle t ∧ r = Volume.closeFile obj)
      s := by
  unfold Uffs.closeObject Volume.closeFile
  have hRelease : ∀ (x : Obj) u, Shows idle u →
      wp
        (do
          let y ← Uffs.doReleaseObjectResource x
          pure (y.ret, y))
        (fun r _ t => Shows idle t ∧
          r = ((Volume.released x).ret, Volume.released x))
        u := by
    intro x u hu
    refine wp_seq (hServing.doReleaseObjectResource hu) ?_
    intro y _ t ht
    rw [wp_pure]
    exact ⟨ht.1, by rw [ht.2]⟩
  split
  · exact hRelease _ s hs
  · split
    · refine wp_seq (hServing.doFlushObject hs) ?_
      intro _ _ t ht
      exact hRelease _ t ht.2
    · exact hRelease _ s hs

------------------------------------------------------------
-- Reading
------------------------------------------------------------

/- What `uffs_BufRead` takes from a buffer. -/
theorem bufRead
    (i ofs size : Nat) :
    wp (bufRead i ofs size)
      (fun r _ t => t = s ∧
        copied r size =
          Volume.pageBytes (s.buf.entry i).data ofs size)
      s := by
  unfold Uffs.bufRead Volume.pageBytes
  simp only [getBuf, wp_bind, wp_gets, wp_pure, true_and]
  apply congrArg (fun k => copied (List.take k _) size)
  split
  · omega
  · split
    · omega
    · omega

/- A sequence that starts with a choice. -/
omit [Platform] in
theorem ite_seq
    {α β : Type}
    {c : Prop}
    [Decidable c]
    {m k : M α}
    {f : α → M β} :
    (if c then m else k) >>= f =
      if c then m >>= f else k >>= f := by
  split
  · rfl
  · rfl

/- The node that has the bytes of a file block. -/
theorem blockNode
    {fnode fdn : Nat}
    (hServing : v.Serving Shows)
    (hs : Shows idle s)
    (hMem : fnode ∈ v.tree.entryNodes) :
    wp
      (if fdn = 0 then
        (pure (some fnode) : M (Option Nat))
      else
        treeFindDataNode (s.tree.node fnode).serial fdn)
      (fun r _ t => Shows idle t ∧ r = v.blockNode fnode fdn)
      s := by
  have hAlike := hServing.node hs
  unfold Volume.blockNode
  split
  · rw [wp_pure]
    exact ⟨hs, rfl⟩
  · unfold treeFindDataNode
    rw [wp_gets, hAlike.serial hMem]
    exact ⟨hs, hAlike.findDataNode _ _⟩

omit [Platform] in
theorem mem_of_blockNode
    {fnode fdn d : Nat}
    (hMem : fnode ∈ v.tree.entryNodes)
    (hBlock : v.blockNode fnode fdn = some d) :
    d ∈ v.tree.entryNodes := by
  unfold Volume.blockNode at hBlock
  split at hBlock
  · cases hBlock
    exact hMem
  · exact Tree.mem_of_findDataNode hBlock

theorem readObjectFrom
    {obj : Obj}
    {fnode : Nat}
    (hServing : v.Serving Shows)
    (hMem : fnode ∈ v.tree.entryNodes)
    (n : Nat) :
    ∀ s start remain, Shows idle s →
      wp (readObjectFrom obj fnode n start remain)
        (fun r _ t => Shows idle t ∧
          r = v.readFrom obj.headPages fnode n start remain)
        s := by
  induction n with
  | zero =>
      intro s start remain hs
      unfold Uffs.readObjectFrom Volume.readFrom
      rw [wp_pure]
      exact ⟨hs, rfl⟩
  | succ n ih =>
      intro s start remain hs
      have hAlike := hServing.node hs
      unfold Uffs.readObjectFrom Volume.readFrom
      simp only [getNode, wp_bind, wp_gets, hAlike.len hMem]
      split
      · rw [wp_pure]
        exact ⟨hs, rfl⟩
      · rw [← ite_seq]
        refine wp_seq (hServing.blockNode hs hMem) ?_
        intro r _ t ht
        rcases ht with ⟨hShows, hBlock⟩
        rw [← hBlock]
        cases r with
        | none =>
            dsimp only
            rw [wp_pure]
            exact ⟨hShows, rfl⟩
        | some d =>
            have hd := mem_of_blockNode hMem hBlock.symm
            dsimp only
            refine wp_seq (hServing.get t _ d _ _ hShows
              (by split <;> decide) hd) ?_
            intro r _ u hu
            unfold Volume.Serves at hu
            cases hPage : v.page d
                (((start - getStartOfDataBlock obj.headPages
                    (getFdnByOfs obj.headPages start)) /
                      pgDataSize +
                    if getFdnByOfs obj.headPages start = 0 then
                      1 else 0) % 65536) with
            | none =>
                rw [hPage] at hu
                rcases hu with ⟨rfl, hShows⟩
                dsimp only
                rw [wp_pure]
                exact ⟨hShows, rfl⟩
            | some c =>
                rw [hPage] at hu
                rcases hu with ⟨i, rfl, hShows, hData, hLen⟩
                simp only [getBuf, wp_bind, wp_gets, hLen]
                split
                · refine wp_seq (hServing.put u i hShows) ?_
                  intro _ _ w hw
                  rw [wp_pure]
                  exact ⟨hw, rfl⟩
                · have hSize :
                      (if remain + start % pgDataSize > c.2 then
                        c.2 - start % pgDataSize
                      else remain) =
                        min remain (c.2 - start % pgDataSize) := by
                    split
                    · omega
                    · omega
                  rw [hSize]
                  refine wp_seq (bufRead i _ _) ?_
                  intro bytes _ w hw
                  rcases hw with ⟨rfl, hBytes⟩
                  refine wp_seq (hServing.put w i hShows) ?_
                  intro _ _ x hx
                  refine wp_seq (ih x _ _ hx) ?_
                  intro more _ y hy
                  rw [wp_pure, hBytes, hData, hy.2]
                  exact ⟨hy.1, rfl⟩

theorem readObject
    {obj : Obj}
    {len : Nat}
    (hServing : v.Serving Shows)
    (hs : Shows idle s)
    (hFits : obj.Fits v) :
    wp (readObject obj len)
      (fun r _ t => Shows idle t ∧ r = v.readFile obj len)
      s := by
  unfold Uffs.readObject Volume.readFile
  cases hBad : (!obj.dev || !obj.openSucc) with
  | true =>
      simp only [Bool.true_or, if_true, wp_pure]
      exact ⟨hs, trivial⟩
  | false =>
      simp only [Bool.false_or, Bool.false_eq_true, if_false,
        decide_eq_true_eq]
      split
      · rw [wp_pure]
        exact ⟨hs, rfl⟩
      · rename_i hDir
        have hOpen : obj.openSucc = true := by
          rw [Bool.or_eq_false_iff] at hBad
          simpa using hBad.2
        cases hNode : obj.node with
        | none => exact absurd hNode (hFits.file hOpen hDir).2
        | some fnode =>
            have hMem := hFits.node fnode hNode
            have hAlike := hServing.node hs
            simp only [getNode, wp_bind, wp_gets,
              hAlike.len hMem]
            split
            · rw [wp_pure]
              exact ⟨hs, rfl⟩
            · split
              · rw [wp_pure]
                exact ⟨hs, rfl⟩
              · refine wp_seq
                  (hServing.readObjectFrom hMem len s _ _ hs) ?_
                intro r _ t ht
                rcases ht with ⟨hShows, rfl⟩
                refine wp_seq (hServing.recover t hShows) ?_
                intro _ _ u hu
                rw [wp_pure]
                exact ⟨hu, rfl⟩

theorem seekObject
    {obj : Obj}
    {offset : Int}
    {origin : Origin}
    (hServing : v.Serving Shows)
    (hs : Shows idle s)
    (hFits : obj.Fits v)
    (hEnd : origin = .end → obj.type ≠ .dir →
      obj.node ≠ none) :
    wp (seekObject obj offset origin)
      (fun r _ t => Shows idle t ∧
        r = Volume.seekTo (v.fileLen obj) obj offset origin)
      s := by
  unfold Uffs.seekObject Volume.seekTo
  split
  · rw [wp_pure]
    exact ⟨hs, rfl⟩
  · rename_i hDir
    have hBase : wp (seekBase obj origin)
        (fun base _ t => Shows idle t ∧
          base = Volume.seekFrom origin obj.pos
            (v.fileLen obj)) s := by
      unfold seekBase Volume.seekFrom Volume.fileLen
      cases origin with
      | cur =>
          rw [wp_pure]
          exact ⟨hs, rfl⟩
      | set =>
          rw [wp_pure]
          exact ⟨hs, rfl⟩
      | «end» =>
          cases hNode : obj.node with
          | none => exact absurd hNode (hEnd rfl hDir)
          | some fnode =>
              have hMem := hFits.node fnode hNode
              simp only [getNode, wp_bind, wp_gets, wp_pure,
                (hServing.node hs).len hMem]
              exact ⟨hs, trivial⟩
    refine wp_seq hBase ?_
    intro base _ t ht
    rw [wp_pure, ht.2]
    exact ⟨ht.1, rfl⟩

------------------------------------------------------------
-- Object Information
------------------------------------------------------------

theorem loadObjectInfo
    {n : Nat}
    {type : BlockType}
    (hServing : v.Serving Shows)
    (hs : Shows idle s)
    (hType : type ≠ .resv)
    (hMem : n ∈ v.tree.entryNodes) :
    wp (loadObjectInfo n type)
      (fun r _ t => Shows idle t ∧ r = v.infoOf n type) s := by
  unfold Uffs.loadObjectInfo Volume.infoOf
  refine wp_seq (hServing.get s type n 0 false hs hType hMem) ?_
  intro r _ t ht
  unfold Volume.Serves at ht
  cases hPage : v.page n 0 with
  | none =>
      rw [hPage] at ht
      rcases ht with ⟨rfl, hShows⟩
      rw [wp_pure]
      exact ⟨hShows, rfl⟩
  | some c =>
      rw [hPage] at ht
      rcases ht with ⟨i, rfl, hShows, hData, _⟩
      have hAlike := hServing.node hShows
      simp only [getBuf, getNode, wp_bind, wp_gets, hData,
        hAlike.len hMem, hAlike.serial hMem]
      refine wp_mono (hServing.put t i hShows) ?_
      intro _ _ u hu
      rw [wp_pure]
      exact ⟨hu, rfl⟩

theorem getObjectInfo
    {obj : Obj}
    (hServing : v.Serving Shows)
    (hs : Shows idle s)
    (hFits : obj.Fits v)
    (hRooted : obj.Rooted) :
    wp (getObjectInfo obj)
      (fun r _ t => Shows idle t ∧ r = v.info obj) s := by
  unfold Uffs.getObjectInfo Volume.info
  split
  · rw [wp_pure]
    exact ⟨hs, rfl⟩
  · rename_i hDev
    rw [Bool.not_eq_true', Bool.not_eq_false] at hDev
    split
    · rw [wp_pure]
      exact ⟨hs, rfl⟩
    · rename_i hRoot
      cases hObj : obj.node with
      | none =>
          exact absurd hObj ((hRooted hDev).resolve_left hRoot)
      | some n =>
          dsimp only
          refine wp_seq (hServing.loadObjectInfo hs hFits.type
            (hFits.node n hObj)) ?_
          intro r _ t ht
          rw [Option.bind_some, ← ht.2]
          cases r with
          | none =>
              dsimp only
              rw [wp_pure]
              exact ⟨ht.1, rfl⟩
          | some info =>
              dsimp only
              rw [wp_pure]
              exact ⟨ht.1, rfl⟩

------------------------------------------------------------
-- Runs
------------------------------------------------------------

omit [Platform] in
theorem onObject
    {p : ObjPool}
    {h : Nat}
    {f : Obj → M (Reply × Obj)}
    {g : Obj → Reply × Obj}
    (hs : Shows idle s)
    (hf : ∀ obj, p h = some obj →
      wp (f obj) (fun r _ t => Shows idle t ∧ r = g obj) s) :
    wp (withObject p h f)
      (fun r _ t => Shows idle t ∧ r = Volume.onObject p h g)
      s := by
  unfold Uffs.withObject Volume.onObject
  cases hObj : p h with
  | none =>
      dsimp only
      rw [wp_pure]
      exact ⟨hs, rfl⟩
  | some obj =>
      dsimp only
      refine wp_seq (hf obj hObj) ?_
      intro r _ t ht
      rw [wp_pure]
      exact ⟨ht.1, by rw [ht.2]⟩

/- A call that returns `URET` and an object. -/
omit [Platform] in
theorem replies
    {m : M (URet × Obj)}
    {q : URet × Obj}
    (hm : wp m (fun r _ t => Shows idle t ∧ r = q) s) :
    wp (do pure (replyRet (← m)))
      (fun r _ t => Shows idle t ∧ r = replyRet q) s := by
  refine wp_seq hm ?_
  intro r _ t ht
  rw [wp_pure]
  exact ⟨ht.1, by rw [ht.2]⟩

/- A reading call gives what the volume gives. -/
theorem exec
    {p : ObjPool}
    (hServing : v.Serving Shows)
    (hs : Shows idle s)
    (hFits : p.Fits v)
    (op : Op)
    (hReads : op.reads = true)
    (hAdmits : v.admits p op = true) :
    wp (op.exec p)
      (fun r _ t => Shows idle t ∧ r = v.exec p op) s := by
  cases op with
  | getObject =>
      unfold Op.exec Volume.exec
      cases p.free with
      | none =>
          dsimp only
          rw [wp_pure]
          exact ⟨hs, rfl⟩
      | some h =>
          dsimp only
          rw [wp_pure]
          exact ⟨hs, rfl⟩
  | putObject h =>
      unfold Op.exec Volume.exec
      rw [wp_pure]
      exact ⟨hs, rfl⟩
  | openObject h path oflag =>
      unfold Op.reads at hReads
      rw [Bool.and_eq_true, Bool.not_eq_true',
        Bool.not_eq_true'] at hReads
      apply onObject hs
      intro obj hObj
      exact replies
        (hServing.openObject hs hReads.1 hReads.2)
  | closeObject h =>
      apply onObject hs
      intro obj hObj
      exact replies (hServing.closeObject hs)
  | readObject h len =>
      apply onObject hs
      intro obj hObj
      refine wp_seq
        (hServing.readObject hs (hFits h obj hObj).1)
        ?_
      intro r _ t ht
      rw [wp_pure]
      exact ⟨ht.1, by rw [ht.2]⟩
  | objectInfo h =>
      apply onObject hs
      intro obj hObj
      have hHere := hFits h obj hObj
      refine wp_seq (hServing.getObjectInfo hs hHere.1
        hHere.2) ?_
      intro r _ t ht
      rw [wp_pure]
      exact ⟨ht.1, by rw [ht.2]⟩
  | findObject n type =>
      unfold Volume.admits at hAdmits
      rw [Bool.and_eq_true, decide_eq_true_iff,
        decide_eq_true_iff] at hAdmits
      refine wp_seq
        (hServing.loadObjectInfo hs hAdmits.1 hAdmits.2) ?_
      intro r _ t ht
      rw [wp_pure, ht.2]
      exact ⟨ht.1, rfl⟩
  | seekObject h offset origin =>
      apply onObject hs
      intro obj hObj
      have hEnd : origin = .end → obj.type ≠ .dir →
          obj.node ≠ none := by
        intro hOrigin hDir
        rw [hOrigin] at hAdmits
        unfold Volume.admits at hAdmits
        simpa [hObj, hDir, Option.isSome_iff_ne_none]
          using hAdmits
      refine wp_seq (hServing.seekObject hs
        (hFits h obj hObj).1 hEnd) ?_
      intro r _ t ht
      rw [wp_pure]
      exact ⟨ht.1, by rw [ht.2]⟩
  | flushObject h =>
      apply onObject hs
      intro obj hObj
      exact replies (hServing.flushObject hs)
  | flushAll =>
      unfold Op.exec Volume.exec
      refine wp_seq (hServing.flushAll s hs) ?_
      intro r _ t ht
      rw [wp_pure]
      exact ⟨ht.2, by rw [ht.1]⟩
  | recover =>
      unfold Op.exec Volume.exec
      refine wp_seq (hServing.recover s hs) ?_
      intro r _ t ht
      rw [wp_pure]
      exact ⟨ht, rfl⟩
  | createObject h path oflag => cases hReads
  | writeObject h data => cases hReads
  | truncateObject h remain => cases hReads
  | deleteObject path => cases hReads
  | renameObject oldPath newPath => cases hReads
  | format force => cases hReads
  | mount => cases hReads

end Volume.Serving

------------------------------------------------------------
-- Objects of a Run
------------------------------------------------------------

section Fits

variable {v : Volume} {obj x : Obj}

/- An object that is open only if an old one was. -/
theorem Obj.Fits.change
    (h : obj.Fits v)
    (hNode : x.node = obj.node)
    (hType : x.type = obj.type)
    (hPages : x.headPages = obj.headPages)
    (hOpen : x.openSucc = true → obj.openSucc = true) :
    x.Fits v where
  type := by
    rw [hType]
    exact h.type
  node := by
    rw [hNode]
    exact h.node
  region := by
    rw [hNode, hType]
    exact h.region
  file := by
    intro hx
    rw [hNode, hType, hPages]
    exact h.file (hOpen hx)

theorem Volume.fits_released
    (h : obj.Fits v) : (Volume.released obj).Fits v := by
  unfold Volume.released
  split
  · refine h.change rfl rfl rfl ?_
    intro hOpen
    cases hOpen
  · exact h

theorem Volume.fits_parse
    (path : List Byte)
    (h : obj.Fits v) : (v.parse obj path).2.Fits v := by
  unfold Volume.parse
  split
  · exact h
  · split
    · exact (Obj.fits_zero v).change rfl rfl rfl fun hx => hx
    · split
      · exact (Obj.fits_zero v).change rfl rfl rfl fun hx => hx
      · split
        · exact (Obj.fits_zero v).change rfl rfl rfl fun hx => hx
        · dsimp only
          split
          · exact (Obj.fits_zero v).change rfl rfl rfl fun hx => hx
          · exact (Obj.fits_zero v).change rfl rfl rfl fun hx => hx

/- An object that could not be opened, or has no error. -/
theorem Volume.fits_opened
    (hType : obj.type ≠ .resv)
    (hNode : ∀ n, obj.node = some n → n ∈ v.tree.entryNodes)
    (hRegion : obj.type ≠ .dir → ∀ n, obj.node = some n →
      n ∈ v.tree.region .file)
    (hFile : obj.err = .noErr → obj.type ≠ .dir →
      obj.headPages = headPages ∧ obj.node ≠ none) :
    (Volume.opened obj).2.Fits v where
  type := hType
  node := hNode
  region := hRegion
  file := by
    intro hOpen
    exact hFile (of_decide_eq_true hOpen)

theorem Volume.fits_openIn
    {dir : Nat}
    {name : List Byte}
    {oflag : OFlag}
    (h : obj.Fits v) :
    (v.openIn obj dir name oflag).2.Fits v := by
  have hDirType : oflag.dir = true →
      (Volume.named obj dir name oflag).type = .dir := by
    intro hDir
    unfold Volume.named
    rw [hDir]
    rfl
  have hFileType :
      (Volume.named obj dir name oflag).type ≠ .dir →
        (Volume.named obj dir name oflag).type = .file := by
    unfold Volume.named
    dsimp only
    split
    · intro hNot
      exact absurd rfl hNot
    · intro _
      rfl
  have hTyped :
      (Volume.named obj dir name oflag).type ≠ .resv := by
    unfold Volume.named
    dsimp only
    split
    · exact nofun
    · exact nofun
  unfold Volume.openIn
  split
  · refine Volume.fits_opened h.type h.node h.region ?_
    intro hErr
    cases hErr
  · dsimp only
    split
    · rename_i hRoot
      have hDir : oflag.dir = true := by
        rw [Bool.and_eq_true] at hRoot
        exact hRoot.1
      have hType := hDirType hDir
      split
      · refine Volume.fits_opened hTyped h.node ?_ ?_
        · intro hFile
          exact absurd hType hFile
        · intro hErr
          cases hErr
      · refine Volume.fits_opened hTyped h.node ?_ ?_
        · intro hFile
          exact absurd hType hFile
        · intro _ hFile
          exact absurd hType hFile
    · split
      · apply Volume.fits_opened
        · exact hTyped
        · intro n hNode
          cases hNode
        · intro _ n hNode
          cases hNode
        · intro hErr
          cases hErr
      · rename_i n hLookup
        apply Volume.fits_opened
        · exact hTyped
        · intro m hNode
          cases hNode
          exact Volume.Serving.mem_of_lookup hLookup
        · intro hFile m hNode
          cases hNode
          rw [hFileType hFile] at hLookup
          exact Volume.Serving.region_of_lookup hLookup
        · intro _ _
          refine ⟨rfl, ?_⟩
          intro hNode
          cases hNode

theorem Volume.fits_openFile
    {path : List Byte}
    {oflag : OFlag}
    (h : obj.Fits v) :
    (v.openFile obj path oflag).2.Fits v := by
  have hParse := Volume.fits_parse path h
  unfold Volume.openFile
  cases hEq : v.parse obj path with
  | mk ret x =>
      rw [hEq] at hParse
      cases ret with
      | fail => exact Volume.fits_released hParse
      | succ =>
          have hOpen : (v.openIn x x.parent x.name
              oflag).2.Fits v := Volume.fits_openIn hParse
          dsimp only
          cases hIn : v.openIn x x.parent x.name oflag with
          | mk ret y =>
              rw [hIn] at hOpen
              cases ret with
              | succ => exact hOpen
              | fail => exact Volume.fits_released hOpen

omit [Platform] in
theorem Volume.rooted_released (obj : Obj) :
    (Volume.released obj).Rooted := by
  unfold Volume.released
  split
  · intro hDev
    cases hDev
  · rename_i hDev
    exact fun h => absurd h hDev

/- What is opened is the root directory, or has a node. -/
theorem Volume.rooted_openIn
    {dir : Nat}
    {name : List Byte}
    {oflag : OFlag}
    (hSucc : (v.openIn obj dir name oflag).1 = .succ) :
    (v.openIn obj dir name oflag).2.Rooted := by
  unfold Volume.openIn at hSucc ⊢
  split at hSucc
  · cases hSucc
  · rename_i hFlags
    rw [if_neg hFlags]
    dsimp only at hSucc ⊢
    split at hSucc
    · rename_i hRoot
      rw [if_pos hRoot]
      split at hSucc
      · cases hSucc
      · rename_i hDir
        rw [if_neg hDir]
        exact fun _ => Or.inl (not_not.mp hDir)
    · rename_i hName
      rw [if_neg hName]
      split at hSucc
      · cases hSucc
      · exact fun _ => Or.inr (Option.some_ne_none _)

theorem Volume.rooted_openFile
    {path : List Byte}
    {oflag : OFlag} :
    (v.openFile obj path oflag).2.Rooted := by
  unfold Volume.openFile
  cases hEq : v.parse obj path with
  | mk ret x =>
      cases ret with
      | fail => exact Volume.rooted_released x
      | succ =>
          dsimp only
          cases hIn : v.openIn x x.parent x.name oflag with
          | mk ret y =>
              cases ret with
              | fail => exact Volume.rooted_released y
              | succ =>
                  have hOpen : (v.openIn x x.parent x.name
                      oflag).2.Rooted :=
                    Volume.rooted_openIn (by rw [hIn])
                  rw [hIn] at hOpen
                  exact hOpen

/- Every object of a pool fits after a reading call. -/
theorem Volume.fits_exec
    {p : ObjPool}
    (hFits : p.Fits v)
    (op : Op) : (v.exec p op).2.Fits v := by
  have hUpd : ∀ h (x : Obj), x.Fits v ∧ x.Rooted →
      ObjPool.Fits (upd p h (some x)) v := by
    intro h x hx k y hy
    by_cases hk : k = h
    · subst hk
      rw [upd_same] at hy
      cases hy
      exact hx
    · rw [upd_other _ _ hk] at hy
      exact hFits k y hy
  have hOn : ∀ h (f : Obj → Reply × Obj),
      (∀ x : Obj, x.Fits v → x.Rooted →
        (f x).2.Fits v ∧ (f x).2.Rooted) →
      ObjPool.Fits (Volume.onObject p h f).2 v := by
    intro h f hf
    unfold Volume.onObject
    cases hObj : p h with
    | none => exact hFits
    | some x =>
        have hHere := hFits h x hObj
        exact hUpd h _ (hf x hHere.1 hHere.2)
  cases op with
  | getObject =>
      unfold Volume.exec
      cases p.free with
      | none => exact hFits
      | some h =>
          exact hUpd h _ ⟨Obj.fits_zero v, nofun⟩
  | putObject h =>
      intro k y hy
      by_cases hk : k = h
      · subst hk
        have hNone : upd p k none k = some y := hy
        rw [upd_same] at hNone
        cases hNone
      · have hOld : upd p h none k = some y := hy
        rw [upd_other _ _ hk] at hOld
        exact hFits k y hOld
  | openObject h path oflag =>
      apply hOn
      intro x hx _
      exact ⟨Volume.fits_openFile hx, Volume.rooted_openFile⟩
  | closeObject h =>
      apply hOn
      intro x hx _
      refine ⟨Volume.fits_released ?_,
        Volume.rooted_released _⟩
      split
      · exact hx.change rfl rfl rfl fun hOpen => hOpen
      · exact hx
  | readObject h len =>
      apply hOn
      intro x hx hRooted
      unfold Volume.readFile
      split
      · exact ⟨hx.change rfl rfl rfl id, hRooted⟩
      · split
        · exact ⟨hx, hRooted⟩
        · split
          · exact ⟨hx, hRooted⟩
          · split
            · exact ⟨hx.change rfl rfl rfl id, hRooted⟩
            · exact ⟨hx.change rfl rfl rfl id, hRooted⟩
  | objectInfo h =>
      apply hOn
      intro x hx hRooted
      exact ⟨hx, hRooted⟩
  | findObject n type => exact hFits
  | seekObject h offset origin =>
      apply hOn
      intro x hx hRooted
      unfold Volume.seekTo Obj.moveTo
      dsimp only
      split
      · exact ⟨hx.change rfl rfl rfl id, hRooted⟩
      · split
        · exact ⟨hx.change rfl rfl rfl id, hRooted⟩
        · exact ⟨hx.change rfl rfl rfl id, hRooted⟩
  | flushObject h =>
      apply hOn
      intro x hx hRooted
      unfold Volume.flushFile
      dsimp only
      split
      · exact ⟨hx.change rfl rfl rfl id, hRooted⟩
      · exact ⟨hx, hRooted⟩
  | flushAll => exact hFits
  | recover => exact hFits
  | createObject h path oflag => exact hFits
  | writeObject h data => exact hFits
  | truncateObject h remain => exact hFits
  | deleteObject path => exact hFits
  | renameObject oldPath newPath => exact hFits
  | format force => exact hFits
  | mount => exact hFits

end Fits

/-
  Reading calls one after the other give what the volume
  gives.
-/
theorem Volume.Serving.runOps
    {v : Volume}
    {Shows : (Nat → Nat) → Dev → Prop}
    (hServing : v.Serving Shows)
    (ops : List Op) :
    ∀ (p : ObjPool) (s : Dev),
      Shows idle s →
      p.Fits v →
      (∀ op ∈ ops, op.reads = true) →
      v.admitsAll p ops = true →
      wp (Uffs.runOps p ops)
        (fun r _ t => Shows idle t ∧ r = v.runOps p ops) s := by
  induction ops with
  | nil =>
      intro p s hs _ _ _
      unfold Uffs.runOps Volume.runOps
      rw [wp_pure]
      exact ⟨hs, rfl⟩
  | cons op rest ih =>
      intro p s hs hFits hReads hAdmits
      unfold Volume.admitsAll at hAdmits
      rw [Bool.and_eq_true] at hAdmits
      unfold Uffs.runOps Volume.runOps
      refine wp_seq (hServing.exec hs hFits op
        (hReads op List.mem_cons_self) hAdmits.1) ?_
      intro r _ t ht
      rcases ht with ⟨hShows, rfl⟩
      refine wp_seq (ih _ t hShows
        (Volume.fits_exec hFits op)
        (fun op hop => hReads op (List.mem_cons_of_mem _ hop))
        hAdmits.2) ?_
      intro q _ u hu
      rcases hu with ⟨hu, rfl⟩
      rw [wp_pure]
      exact ⟨hu, rfl⟩

end Uffs
