import Uffs.Find.Listing
import Uffs.Nodes.Files

/-
  What the file layer does between the calls of a listing.

  A flush puts nodes into the hash entries and takes DATA
  nodes out; a deletion also takes out the node of the
  object.  As long as every node that is put in is a DATA
  node, these are the steps that the listings allow.

  Main declarations:
    * `Listing.act`, `Listing.acts`
    * `Lists.acts`, `Listing.acts_reused`
    * `Listing.Shows`, `Tree.Calm`
    * `Lists.flushAll`, `Lists.deleteObject`
-/

namespace Uffs

open Prog

------------------------------------------------------------
-- Acts Behind a Listing
------------------------------------------------------------

theorem upd_self
    {α : Type}
    (f : Nat → α)
    (i : Nat) : upd f i (f i) = f := by
  funext j
  by_cases hj : j = i
  · rw [hj, upd_same]
  · rw [upd_other _ _ hj]

namespace Listing

/- The nodes keep their parents. -/
def act (L : Listing) : ChainAct → Listing
| .insert k n => L.insert n (L.parent n) k.hash
| .remove k n => L.remove k n (L.parent n)

/- Some acts, one after the other. -/
def acts (L : Listing) : List ChainAct → Listing
| [] => L
| a :: rest => (L.act a).acts rest

/- DATA nodes, and nodes that have been returned. -/
def Allows (L : Listing) : ChainAct → Prop
| .insert k _ => k.type = .data
| .remove k n => k.type = .data ∨ n ∈ L.returned

variable {L : Listing} {a : ChainAct}

@[simp] theorem act_info (L : Listing) (a : ChainAct) :
    (L.act a).info = L.info := by
  cases a <;> rfl

@[simp] theorem act_returned (L : Listing) (a : ChainAct) :
    (L.act a).returned = L.returned := by
  cases a <;> rfl

@[simp] theorem act_parent (L : Listing) (a : ChainAct) :
    (L.act a).parent = L.parent := by
  cases a with
  | insert k n => exact upd_self L.parent n
  | remove k n => exact upd_self L.parent n

theorem act_chains
    (h : L.Allows a) : (L.act a).chains = L.chains.act a := by
  cases a with
  | insert k n =>
      rcases k with ⟨type, hash⟩
      have hType : type = .data := h
      rw [hType]
      rfl
  | remove k n => rfl

end Listing

/- The acts behind a listing are steps of the listing. -/
theorem Lists.acts
    {nodes serial : Nat}
    {t : HashTable}
    {c d : Chains}
    {parent : Nat → Nat}
    {acts : List ChainAct} :
    ∀ {L : Listing}, Lists nodes serial t c parent L →
      L.chains.Relinks nodes acts d →
      (∀ a ∈ acts, L.Allows a) →
      Lists nodes serial t c parent (L.acts acts) ∧
        (L.acts acts).chains = d ∧
        (L.acts acts).parent = L.parent := by
  induction acts with
  | nil =>
      intro L hRun hRelinks _
      exact ⟨hRun, (show d = L.chains from hRelinks).symm, rfl⟩
  | cons a acts ih =>
      intro L hRun hRelinks hAllows
      have hHead := hAllows a List.mem_cons_self
      have hNext : Lists nodes serial t c parent (L.act a) := by
        cases a with
        | insert k n =>
            exact hRun.flush _ _ hRelinks.1.1 hRelinks.1.2
        | remove k n => exact hRun.remove _ hRelinks.1 hHead
      have hRest : (L.act a).chains.Relinks nodes acts d := by
        rw [Listing.act_chains hHead]
        exact hRelinks.2
      have hTail : ∀ a' ∈ acts, (L.act a).Allows a' := by
        intro a' ha'
        have hOld := hAllows a' (List.mem_cons_of_mem _ ha')
        cases a' with
        | insert k n => exact hOld
        | remove k n =>
            exact hOld.imp id fun h => by
              rw [Listing.act_returned]
              exact h
      have hEnd := ih hNext hRest hTail
      rw [Listing.act_parent] at hEnd
      exact hEnd

/- The node returned last is put in again by an act. -/
theorem Listing.acts_reused
    {acts : List ChainAct} :
    ∀ {L : Listing}, (L.acts acts).reused = true ↔
      L.reused = true ∨
        ∃ k n, .insert k n ∈ acts ∧ L.info.work = some n := by
  induction acts with
  | nil =>
      intro L
      constructor
      · exact Or.inl
      · intro h
        rcases h with h | ⟨k, n, hMem, _⟩
        · exact h
        · cases hMem
  | cons a acts ih =>
      intro L
      unfold Listing.acts
      rw [ih, Listing.act_info]
      cases a with
      | insert k n =>
          have hReused : (L.act (.insert k n)).reused = true ↔
              L.reused = true ∨ L.info.work = some n := by
            change (L.reused ||
              decide (L.info.work = some n)) = true ↔ _
            rw [Bool.or_eq_true, decide_eq_true_eq]
          rw [hReused, or_assoc]
          apply or_congr_right
          constructor
          · intro h
            rcases h with hWork | ⟨k', m, hMem, hWork⟩
            · exact ⟨k, n, List.mem_cons_self, hWork⟩
            · exact ⟨k', m, List.mem_cons_of_mem _ hMem, hWork⟩
          · intro h
            rcases h with ⟨k', m, hMem, hWork⟩
            rcases List.mem_cons.mp hMem with hEq | hMem
            · cases hEq
              exact Or.inl hWork
            · exact Or.inr ⟨k', m, hMem, hWork⟩
      | remove k n =>
          change L.reused = true ∨ _ ↔ _
          apply or_congr_right
          constructor
          · intro h
            rcases h with ⟨k', m, hMem, hWork⟩
            exact ⟨k', m, List.mem_cons_of_mem _ hMem, hWork⟩
          · intro h
            rcases h with ⟨k', m, hMem, hWork⟩
            rcases List.mem_cons.mp hMem with hEq | hMem
            · cases hEq
            · exact ⟨k', m, hMem, hWork⟩

------------------------------------------------------------
-- Flushes and Deletions
------------------------------------------------------------

section Behind

variable [Platform]

/- The listing sees the hash entries of the tree. -/
structure Listing.Shows (L : Listing) (t : Tree) : Prop where
  chains : L.chains = t.chains
  parent : ∀ k, k.type ≠ .data → ∀ n ∈ t.chains k,
    L.parent n = (t.node n).parent

/- Nothing is created, and nothing moves. -/
structure Tree.Calm
    (acts : List ChainAct)
    (t u : Tree) : Prop where
  new : ∀ k n, .insert k n ∈ acts → k.type = .data
  parent : ∀ k, k.type ≠ .data → ∀ n ∈ u.chains k,
    (u.node n).parent = (t.node n).parent

/- A DIR or FILE node was in its chain before. -/
omit [Platform] in
theorem Chains.Relinks.mem_of
    {nodes n : Nat}
    {d : Chains}
    {acts : List ChainAct}
    {k : EntryKey}
    (hType : k.type ≠ .data) :
    ∀ {c : Chains}, c.Relinks nodes acts d →
      (∀ k n, .insert k n ∈ acts → k.type = .data) →
        n ∈ d k → n ∈ c k := by
  induction acts with
  | nil =>
      intro c h _ hIn
      rw [← show d = c from h]
      exact hIn
  | cons a acts ih =>
      intro c h hNew hIn
      have hNext : n ∈ c.act a k := by
        apply ih h.2 _ hIn
        intro k' m hMem
        exact hNew k' m (List.mem_cons_of_mem _ hMem)
      cases a with
      | insert k' m =>
          have hk : k ≠ k' := by
            intro hEq
            rw [hEq] at hType
            exact hType (hNew k' m List.mem_cons_self)
          change n ∈ c.set k' (m :: c k') k at hNext
          rw [Chains.set_ne _ _ hk] at hNext
          exact hNext
      | remove k' m =>
          change n ∈ c.set k' ((c k').erase m) k at hNext
          by_cases hk : k = k'
          · subst hk
            rw [Chains.set_same] at hNext
            exact List.mem_of_mem_erase hNext
          · rw [Chains.set_ne _ _ hk] at hNext
            exact hNext

variable {serial : Nat} {h : HashTable} {c : Chains}
  {parent : Nat → Nat} {L : Listing} {s : Dev} {strict : Bool}

/- A run of acts that the listing allows. -/
theorem Lists.shows
    {t : Tree}
    {acts : List ChainAct}
    (hRun : Lists nodeCount serial h c parent L)
    (hShows : L.Shows s.tree)
    (hRelinks : s.tree.chains.Relinks nodeCount acts t.chains)
    (hAllows : ∀ a ∈ acts, L.Allows a)
    (hCalm : s.tree.Calm acts t) :
    Lists nodeCount serial h c parent (L.acts acts) ∧
      (L.acts acts).Shows t := by
  have hSame := hRelinks
  rw [← hShows.chains] at hSame
  rcases hRun.acts hSame hAllows with
    ⟨hNext, hChains, hParent⟩
  refine ⟨hNext, hChains, ?_⟩
  intro k hType n hn
  rw [hParent, hCalm.parent k hType n hn]
  exact hShows.parent k hType n
    (hRelinks.mem_of hType hCalm.new hn)

/- The flush of all groups, between two calls. -/
theorem Lists.flushAll
    (hRun : Lists nodeCount serial h c parent L)
    (hShows : L.Shows s.tree)
    (hs : s.Settled strict) :
    wlp (Allowed strict) bufFlushAll
      (fun _ t => ∃ acts,
        s.tree.chains.Relinks nodeCount acts t.tree.chains ∧
          (s.tree.Calm acts t.tree →
            Lists nodeCount serial h c parent (L.acts acts) ∧
              (L.acts acts).Shows t.tree)) s := by
  refine wlp_mono (fileLayer_runs.flushAll s) ?_
  intro _ t ht
  have hDoes := (ht hs.whole).does
  rw [hs.allocated] at hDoes
  rcases hDoes with ⟨acts, hRelinks, hFiling⟩
  refine ⟨acts, hRelinks, ?_⟩
  intro hCalm
  apply hRun.shows hShows hRelinks _ hCalm
  intro a ha
  cases a with
  | insert k n => exact hCalm.new k n ha
  | remove k n => exact Or.inl (hFiling _ ha)

/-
  The deletion of an object, between two calls: it takes out
  one node that is not a DATA node, or none.
-/
theorem Lists.deleteObject
    (path : List Byte)
    (used : Nat)
    (others : List (Option Nat))
    (hRun : Lists nodeCount serial h c parent L)
    (hShows : L.Shows s.tree)
    (hs : s.Settled strict) :
    wlp (Allowed strict) (deleteObject path used others)
      (fun _ t => ∃ acts node,
        s.tree.chains.Relinks nodeCount acts t.tree.chains ∧
          (∀ a ∈ acts, a.Dropping node) ∧
          ((∀ k, .remove k node ∈ acts →
              k.type = .data ∨ node ∈ L.returned) →
            s.tree.Calm acts t.tree →
            Lists nodeCount serial h c parent (L.acts acts) ∧
              (L.acts acts).Shows t.tree)) s := by
  refine wlp_mono (wlp_deleteObject path used others hs) ?_
  intro _ t ht
  rcases ht.does with ⟨node, acts, hRelinks, hDropping⟩
  refine ⟨acts, node, hRelinks, hDropping, ?_⟩
  intro hReturned hCalm
  apply hRun.shows hShows hRelinks _ hCalm
  intro a ha
  cases a with
  | insert k n => exact hCalm.new k n ha
  | remove k n =>
      rcases hDropping _ ha with hData | ⟨k', hEq⟩
      · exact Or.inl hData
      · cases hEq
        exact hReturned k ha

end Behind

end Uffs
