import Mathlib.Data.List.Perm.Subperm
import Uffs.Model.Links
import Uffs.Mount.Sentinels
import Uffs.Tree.Parts

/-
  Searches along the links of a hash entry.

  On a table that holds chains, a search with one round more
  than there are nodes ends, and finds what a search of the
  list of the entry finds.

  Main declarations:
    * `HashTable.findFrom_linked`
    * `HashTable.Chained.find`
    * `HashTable.Chained.findFileNode`
    * `HashTable.Chained.insertNode`,
      `HashTable.Chained.breakNode`
-/

namespace Uffs

namespace HashTable

variable {t : HashTable} {nodes : Nat} {c : Chains}

/- A search meets the nodes of a list in their order. -/
theorem findFrom_linked
    {test : Nat → Bool}
    {l : List Nat} :
    ∀ {fuel x : Nat}, Linked t.after (link x) l →
      l.length < fuel →
      t.findFrom test fuel x = some (l.find? test) := by
  induction l with
  | nil =>
      intro fuel x hLinked hFuel
      cases fuel with
      | zero => cases hFuel
      | succ fuel =>
          have hEmpty := link_eq_none.mp (Linked.nil_iff.mp hLinked)
          unfold findFrom
          rw [if_pos hEmpty]
          rfl
  | cons n l ih =>
      intro fuel x hLinked hFuel
      cases fuel with
      | zero => cases hFuel
      | succ fuel =>
          rcases Linked.cons_iff.mp hLinked with ⟨hHead, hRest⟩
          rcases link_eq_some.mp hHead with ⟨hx, hNode⟩
          subst hx
          unfold findFrom
          rw [if_neg hNode]
          by_cases hTest : test x = true
          · rw [if_pos hTest, List.find?_cons_of_pos hTest]
          · rw [if_neg hTest, List.find?_cons_of_neg hTest]
            exact ih hRest (Nat.lt_of_succ_lt_succ hFuel)

namespace Chained

/- A chain has no more nodes than the pool. -/
theorem length_le
    (h : t.Chained nodes c)
    (k : EntryKey) : (c k).length ≤ nodes := by
  have hSub : c k ⊆ List.range nodes := by
    intro n hn
    exact List.mem_range.mpr (h.pool k n hn)
  have hLength := ((h.nodup k).subperm hSub).length_le
  rw [List.length_range] at hLength
  exact hLength

/- A search from an entry on. -/
theorem find
    (h : t.Chained nodes c)
    (test : Nat → Bool)
    (k : EntryKey) :
    t.findFrom test (nodes + 1) (t.entry k) =
      some ((c k).find? test) :=
  findFrom_linked (h.linked k).linked
    (Nat.lt_succ_of_le (h.length_le k))

end Chained

end HashTable

------------------------------------------------------------
-- The Entries of the Tree
------------------------------------------------------------

section Entries

variable [Platform]

omit [Platform] in
theorem Tree.chains_eq_entry
    (t : Tree)
    (k : EntryKey) : t.chains k = t.entry k.type k.hash := by
  rcases k with ⟨type, hash⟩
  cases type <;> rfl

omit [Platform] in
theorem Tree.chains_congr
    {t u : Tree}
    (h : u.entry = t.entry) : u.chains = t.chains := by
  funext k
  rw [u.chains_eq_entry, t.chains_eq_entry, h]

theorem nodeCount_le : nodeCount ≤ emptyNode := by
  have hEnd := Platform.parEnd_lt
  unfold nodeCount emptyNode
  omega

/- The search for a file by the links. -/
theorem HashTable.Chained.findFileNode
    {table : HashTable}
    {t : Tree}
    (h : table.Chained nodeCount t.chains)
    (serial : Nat) :
    table.findFileNode t.node (nodeCount + 1) serial =
      some (t.findFileNode serial) :=
  h.find _ _

namespace HashTable.Chained

variable {table : HashTable} {t : Tree} {E B H : List Nat}
  {own : Nat → Nat} {n : Nat} {type : BlockType}

/- A node that no list has is inserted by the links. -/
theorem insertNode
    (h : table.Chained nodeCount t.chains)
    (hParts : t.Parts E B H own)
    (hMem : n ∈ H)
    (hResv : type ≠ .resv)
    (hRoom : t.allocated ≤ nodeCount) :
    (table.insertNode type n (t.node n)).Chained nodeCount
      (t.insertNode type n).chains := by
  have hNew : ¬ t.chains.Has n := by
    intro hHas
    rcases hHas with ⟨k, hk⟩
    rw [Tree.chains_eq_entry] at hk
    exact hParts.held hMem
      (List.mem_append_right _ (hParts.entry_mem hk))
  have hPool : n < nodeCount := Nat.lt_of_lt_of_le
    (hParts.lt (List.mem_append_right _ hMem)) hRoom
  have hTable : table.insertNode type n (t.node n) =
      table.insertToEntry (t.entryOf type n) n := by
    cases type with
    | resv => exact absurd rfl hResv
    | _ => rfl
  rw [hTable, t.chains_insertNode n hResv]
  exact h.insert _ nodeCount_le hNew hPool

/- A node of a region is taken out by the links. -/
theorem breakNode
    (h : table.Chained nodeCount t.chains)
    (hParts : t.Parts E B H own)
    (hIn : n ∈ t.region type) :
    (table.breakNode type n (t.node n)).Chained nodeCount
      (t.breakNode type n).chains := by
  rcases List.mem_flatMap.mp hIn with ⟨k, _, hk⟩
  have hResv : type ≠ .resv := by
    intro hEq
    rw [hEq] at hk
    cases hk
  have hTable : table.breakNode type n (t.node n) =
      table.breakFromEntry (t.entryOf type n) n := by
    cases type with
    | resv => exact absurd rfl hResv
    | _ => rfl
  have hKey : (t.entryOf type n).hash = k := by
    rw [← (hParts.hash type k n hk).2]
    cases type <;> rfl
  rw [hTable, t.chains_breakNode n hResv]
  apply h.remove
  rw [Tree.chains_eq_entry, hKey]
  exact hk

end HashTable.Chained

end Entries

end Uffs
