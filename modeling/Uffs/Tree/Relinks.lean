import Uffs.Links.Find

/-
  How the hash entries of the tree change: nodes from
  elsewhere are put in, and nodes are taken out.

  Main declarations:
    * `ChainAct`, `Chains.act`
    * `Chains.Relinks`, `Chains.Does`
    * `ChainAct.Filing`, `ChainAct.Dropping`
    * `Tree.Parts.does_insertNode`,
      `Tree.Parts.does_breakNode`
-/

namespace Uffs

/- A node is put into an entry, or taken out of it. -/
inductive ChainAct where
| insert (k : EntryKey) (n : Nat)
| remove (k : EntryKey) (n : Nat)

namespace ChainAct

/-
  A node that is put in is in no chain, and one that is taken
  out is in the chain.
-/
def Fits (nodes : Nat) (c : Chains) : ChainAct → Prop
| insert _ n => ¬ c.Has n ∧ n < nodes
| remove k n => n ∈ c k

/- The DIR and FILE nodes stay. -/
def Filing : ChainAct → Prop
| insert _ _ => True
| remove k _ => k.type = .data

/- The DIR and FILE nodes stay, but for one. -/
def Dropping (node : Nat) (a : ChainAct) : Prop :=
  a.Filing ∨ ∃ k, a = .remove k node

end ChainAct

namespace Chains

/- The chains after an act. -/
def act (c : Chains) : ChainAct → Chains
| .insert k n => c.set k (n :: c k)
| .remove k n => c.set k ((c k).erase n)

/- What some acts make of the chains. -/
def Relinks
    (nodes : Nat) : Chains → List ChainAct → Chains → Prop
| c, [], d => d = c
| c, a :: acts, d =>
    a.Fits nodes c ∧ Relinks nodes (c.act a) acts d

/- Acts with `P` lead from the one to the other. -/
def Does
    (nodes : Nat)
    (P : ChainAct → Prop)
    (c d : Chains) : Prop :=
  ∃ acts, Relinks nodes c acts d ∧ ∀ a ∈ acts, P a

variable {nodes : Nat} {c d e : Chains} {acts : List ChainAct}
  {P P' : ChainAct → Prop}

theorem Relinks.append
    {acts' : List ChainAct}
    (h' : Relinks nodes d acts' e) :
    ∀ {c : Chains}, Relinks nodes c acts d →
      Relinks nodes c (acts ++ acts') e := by
  induction acts with
  | nil =>
      intro c h
      rw [show d = c from h] at h'
      exact h'
  | cons a acts ih =>
      intro c h
      exact ⟨h.1, ih h.2⟩

/- A DIR or FILE node that stays in its chain. -/
theorem Relinks.mem
    {k : EntryKey}
    {n : Nat}
    (hType : k.type ≠ .data) :
    ∀ {c : Chains}, Relinks nodes c acts d →
      (∀ a ∈ acts, a.Filing) → n ∈ c k → n ∈ d k := by
  induction acts with
  | nil =>
      intro c h _ hIn
      rw [show d = c from h]
      exact hIn
  | cons a acts ih =>
      intro c h hFiling hIn
      apply ih h.2
      · intro a' ha'
        exact hFiling a' (List.mem_cons_of_mem _ ha')
      · have hHead := hFiling a List.mem_cons_self
        cases a with
        | insert k' m =>
            change n ∈ c.set k' (m :: c k') k
            by_cases hk : k = k'
            · subst hk
              rw [set_same]
              exact List.mem_cons_of_mem _ hIn
            · rw [set_ne _ _ hk]
              exact hIn
        | remove k' m =>
            have hk : k ≠ k' := by
              intro hEq
              rw [hEq] at hType
              exact hType hHead
            change n ∈ c.set k' ((c k').erase m) k
            rw [set_ne _ _ hk]
            exact hIn

namespace Does

theorem refl (c : Chains) : Does nodes P c c :=
  ⟨[], rfl, fun _ h => nomatch h⟩

theorem trans
    (h : Does nodes P c d)
    (h' : Does nodes P d e) : Does nodes P c e := by
  rcases h with ⟨acts, hRun, hAll⟩
  rcases h' with ⟨acts', hRun', hAll'⟩
  refine ⟨acts ++ acts', Relinks.append hRun' hRun, ?_⟩
  intro a ha
  exact (List.mem_append.mp ha).elim (hAll a) (hAll' a)

theorem mono
    (h : Does nodes P c d)
    (hP : ∀ a, P a → P' a) : Does nodes P' c d := by
  rcases h with ⟨acts, hRun, hAll⟩
  exact ⟨acts, hRun, fun a ha => hP a (hAll a ha)⟩

/- One act. -/
theorem one
    {a : ChainAct}
    (hFits : a.Fits nodes c)
    (hP : P a) : Does nodes P c (c.act a) := by
  refine ⟨[a], ⟨hFits, rfl⟩, ?_⟩
  intro a' ha'
  rw [List.mem_singleton.mp ha']
  exact hP

end Does

end Chains

------------------------------------------------------------
-- The Entries of the Tree
------------------------------------------------------------

namespace Tree.Parts

variable [Platform] {t : Tree} {E B H : List Nat}
  {own : Nat → Nat} {n : Nat} {type : BlockType}
  {P : ChainAct → Prop}

/- A held node is put into its entry. -/
theorem does_insertNode
    (h : t.Parts E B H own)
    (hMem : n ∈ H)
    (hResv : type ≠ .resv)
    (hP : P (.insert (t.entryOf type n) n)) :
    t.chains.Does t.allocated P (t.insertNode type n).chains := by
  rw [t.chains_insertNode n hResv]
  apply Chains.Does.one (a := .insert (t.entryOf type n) n) _ hP
  refine ⟨?_, h.lt (List.mem_append_right _ hMem)⟩
  intro hHas
  rcases hHas with ⟨k, hk⟩
  rw [Tree.chains_eq_entry] at hk
  exact h.held hMem (List.mem_append_right _ (h.entry_mem hk))

/- A node of a region is taken out of its entry. -/
theorem does_breakNode
    (h : t.Parts E B H own)
    (hIn : n ∈ t.region type)
    (hP : P (.remove (t.entryOf type n) n)) :
    t.chains.Does t.allocated P (t.breakNode type n).chains := by
  rcases List.mem_flatMap.mp hIn with ⟨k, _, hk⟩
  have hResv : type ≠ .resv := by
    intro hEq
    rw [hEq] at hk
    cases hk
  have hKey : (t.entryOf type n).hash = k := by
    rw [← (h.hash type k n hk).2]
    cases type <;> rfl
  rw [t.chains_breakNode n hResv]
  apply Chains.Does.one (a := .remove (t.entryOf type n) n) _ hP
  change n ∈ t.chains (t.entryOf type n)
  rw [Tree.chains_eq_entry, hKey]
  exact hk

end Tree.Parts

end Uffs
