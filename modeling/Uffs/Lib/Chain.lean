import Mathlib.Data.List.Nodup

/-
  Linked lists whose links are functions of the cells.

  `Linked next o l` says that the cells met from `o` on are
  those of `l`, in this order, and that the last of them has
  no successor.  `DLinked next prev p o l` says in addition
  that each cell links back to the one before it, the first
  one to `p`.

  Main declarations:
    * `Linked`
    * `Linked.congr`
    * `Linked.cut`
    * `Linked.snoc`
    * `DLinked`
    * `DLinked.push`
    * `DLinked.remove`
-/

variable {α : Type} {next g : α → Option α}

/- The cells that are met from `o` on. -/
def Linked (next : α → Option α) : Option α → List α → Prop
| none, [] => True
| some a, b :: l => a = b ∧ Linked next (next a) l
| _, _ => False

/- A list of two cells. -/
example :
    Linked (fun n => if n < 2 then some (n + 1) else none)
      (some 1) [1, 2] := by
  simp [Linked]

namespace Linked

theorem nil_iff
    {o : Option α} : Linked next o [] ↔ o = none := by
  cases o with
  | none => simp [Linked]
  | some a => simp [Linked]

theorem cons_iff
    {o : Option α}
    {a : α}
    {l : List α} :
    Linked next o (a :: l) ↔
      o = some a ∧ Linked next (next a) l := by
  cases o with
  | none => simp [Linked]
  | some b =>
      simp only [Linked, Option.some.injEq]
      constructor
      · rintro ⟨rfl, h⟩
        exact ⟨rfl, h⟩
      · rintro ⟨rfl, h⟩
        exact ⟨rfl, h⟩

/- Where a list starts. -/
theorem head
    {o : Option α}
    {l : List α}
    (h : Linked next o l) : o = l.head? := by
  cases l with
  | nil => exact nil_iff.mp h
  | cons a l => exact (cons_iff.mp h).1

/- A list starts at one cell exactly when it has one. -/
theorem eq_none_iff
    {o : Option α}
    {l : List α}
    (h : Linked next o l) : o = none ↔ l = [] := by
  rw [h.head, List.head?_eq_none_iff]

/- Only the links of the cells of a list matter. -/
theorem congr
    {o : Option α}
    {l : List α}
    (h : Linked next o l)
    (hEq : ∀ a ∈ l, g a = next a) :
    Linked g o l := by
  induction l generalizing o with
  | nil => exact nil_iff.mpr (nil_iff.mp h)
  | cons a l ih =>
      rcases cons_iff.mp h with ⟨ho, hl⟩
      refine cons_iff.mpr ⟨ho, ?_⟩
      rw [hEq a (by simp)]
      exact ih hl fun b hb => hEq b (by simp [hb])

/- The cells behind one of a list. -/
theorem behind
    {a : α}
    {l₂ : List α}
    (l₁ : List α) :
    ∀ {o : Option α}, Linked next o (l₁ ++ a :: l₂) →
      Linked next (next a) l₂ := by
  induction l₁ with
  | nil =>
      intro o h
      exact (cons_iff.mp h).2
  | cons b l₁ ih =>
      intro o h
      exact ih (cons_iff.mp h).2

/-
  A cell of a list gets a link to a new last cell: the cells
  behind it are lost.
-/
theorem cut
    {a e : α}
    {q : List α}
    (p : List α) :
    ∀ {o : Option α}, Linked next o (p ++ e :: q) →
      (∀ b ∈ p, g b = next b) →
      g e = some a → g a = none →
      Linked g o (p ++ [e, a]) := by
  induction p with
  | nil =>
      intro o h _ he ha
      rcases cons_iff.mp h with ⟨ho, _⟩
      rw [List.nil_append, cons_iff, cons_iff, nil_iff]
      exact ⟨ho, he, ha⟩
  | cons b p ih =>
      intro o h hEq he ha
      rcases cons_iff.mp h with ⟨ho, hl⟩
      rw [List.cons_append, cons_iff,
        hEq b List.mem_cons_self]
      exact ⟨ho, ih hl
        (fun c hc => hEq c (List.mem_cons_of_mem b hc)) he ha⟩

/-
  A cell is added at the end: the last cell gets a link to
  it, and it has none.
-/
theorem snoc
    {o : Option α}
    {l : List α}
    {a : α}
    (h : Linked next o l)
    (hNodup : l.Nodup)
    (hEnd : g a = none)
    (hLast : ∀ b, l.getLast? = some b → g b = some a)
    (hEq : ∀ b ∈ l, l.getLast? ≠ some b → g b = next b) :
    Linked g (if o = none then some a else o) (l ++ [a])
    := by
  induction l generalizing o with
  | nil =>
      rw [nil_iff.mp h, if_pos rfl]
      exact cons_iff.mpr ⟨rfl, nil_iff.mpr hEnd⟩
  | cons c l ih =>
      rcases cons_iff.mp h with ⟨ho, hl⟩
      subst ho
      rw [if_neg (by simp), List.cons_append]
      refine cons_iff.mpr ⟨rfl, ?_⟩
      have hNodup' := List.nodup_cons.mp hNodup
      cases l with
      | nil =>
          rw [hLast c (by simp)]
          exact cons_iff.mpr ⟨rfl, nil_iff.mpr hEnd⟩
      | cons d l =>
          have hc : (c :: d :: l).getLast? ≠ some c := by
            rw [List.getLast?_cons_cons]
            intro hEq
            exact hNodup'.1 (List.mem_of_getLast? hEq)
          rw [hEq c (by simp) hc]
          have hNext := ih hl hNodup'.2 ?_ ?_
          · rw [if_neg ?_] at hNext
            · exact hNext
            · intro hNone
              rw [hNone] at hl
              exact absurd (cons_iff.mp hl).1 (by simp)
          · intro b hb
            exact hLast b hb
          · intro b hb hNe
            exact hEq b (by simp [List.mem_cons.mp hb]) hNe

end Linked

------------------------------------------------------------
-- Doubly Linked Lists
------------------------------------------------------------

/- The cells that are met from `o` on, with links back. -/
def DLinked (next prev : α → Option α) :
    Option α → Option α → List α → Prop
| _, o, [] => o = none
| p, o, a :: l =>
    o = some a ∧ prev a = p ∧
      DLinked next prev (some a) (next a) l

example :
    DLinked (fun n => if n < 2 then some (n + 1) else none)
      (fun n => if n < 2 then none else some (n - 1))
      none (some 1) [1, 2] := by
  simp [DLinked]

namespace DLinked

variable {prev g' : α → Option α} {l : List α}

/- The links forth make a singly linked list. -/
theorem linked :
    ∀ {p o : Option α}, DLinked next prev p o l →
      Linked next o l := by
  induction l with
  | nil =>
      intro p o h
      exact Linked.nil_iff.mpr h
  | cons a l ih =>
      intro p o h
      exact Linked.cons_iff.mpr ⟨h.1, ih h.2.2⟩

/- Only the links of the cells of a list matter. -/
theorem congr
    (hNext : ∀ a ∈ l, g a = next a)
    (hPrev : ∀ a ∈ l, g' a = prev a) :
    ∀ {p o : Option α}, DLinked next prev p o l →
      DLinked g g' p o l := by
  induction l with
  | nil =>
      intro p o h
      exact h
  | cons a l ih =>
      intro p o h
      have hRest := ih
        (fun b hb => hNext b (List.mem_cons_of_mem _ hb))
        (fun b hb => hPrev b (List.mem_cons_of_mem _ hb))
        h.2.2
      refine ⟨h.1, ?_, ?_⟩
      · rw [hPrev a List.mem_cons_self]
        exact h.2.1
      · rw [hNext a List.mem_cons_self]
        exact hRest

/- A cell is put in front of a list. -/
theorem push
    [DecidableEq α]
    {o : Option α}
    {a : α}
    (h : DLinked next prev none o l)
    (hNotIn : a ∉ l)
    (hNodup : l.Nodup)
    (hNext : ∀ b, b ≠ a → g b = next b)
    (hPrev : ∀ b, b ≠ a →
      g' b = if o = some b then some a else prev b)
    (hNextA : g a = o)
    (hPrevA : g' a = none) :
    DLinked g g' none (some a) (a :: l) := by
  refine ⟨rfl, hPrevA, ?_⟩
  rw [hNextA]
  cases l with
  | nil => exact h
  | cons b l =>
      rcases h with ⟨rfl, _, hRest⟩
      rw [List.mem_cons, not_or] at hNotIn
      rw [List.nodup_cons] at hNodup
      refine ⟨rfl, ?_, ?_⟩
      · rw [hPrev b (Ne.symm hNotIn.1), if_pos rfl]
      · rw [hNext b (Ne.symm hNotIn.1)]
        apply hRest.congr
        · intro c hc
          apply hNext
          intro hEq
          rw [hEq] at hc
          exact hNotIn.2 hc
        · intro c hc
          rw [hPrev c, if_neg]
          · intro hEq
            rw [Option.some.inj hEq] at hNodup
            exact hNodup.1 hc
          · intro hEq
            rw [hEq] at hc
            exact hNotIn.2 hc

/- What a cell of a list links back to. -/
theorem prev_eq
    {a : α}
    {l₁ l₂ : List α} :
    ∀ {p o : Option α},
      DLinked next prev p o (l₁ ++ a :: l₂) →
        prev a = l₁.getLast?.or p := by
  induction l₁ with
  | nil =>
      intro p o h
      exact h.2.1
  | cons b l₁ ih =>
      intro p o h
      rw [ih h.2.2]
      cases l₁ with
      | nil => rfl
      | cons c l₁ =>
          rw [List.getLast?_cons_cons]
          cases hLast : (c :: l₁).getLast? with
          | none => cases List.getLast?_eq_none_iff.mp hLast
          | some d => rfl

/- What a cell of a list links to. -/
theorem next_eq
    {a : α}
    {l₁ l₂ : List α} :
    ∀ {p o : Option α},
      DLinked next prev p o (l₁ ++ a :: l₂) →
        next a = l₂.head? := by
  induction l₁ with
  | nil =>
      intro p o h
      exact h.2.2.linked.head
  | cons b l₁ ih =>
      intro p o h
      exact ih h.2.2

/-
  A cell is taken out of a list: the cells beside it are
  linked to each other.
-/
theorem remove
    [DecidableEq α]
    {a : α}
    {l₁ l₂ : List α}
    (hNodup : (l₁ ++ a :: l₂).Nodup)
    (hNext : ∀ b, b ∈ l₁ ++ l₂ →
      g b = if l₁.getLast? = some b then next a else next b)
    (hPrev : ∀ b, b ∈ l₁ ++ l₂ →
      g' b = if l₂.head? = some b then prev a else prev b) :
    ∀ {p o : Option α},
      DLinked next prev p o (l₁ ++ a :: l₂) →
        DLinked g g' p (if l₁ = [] then next a else o)
          (l₁ ++ l₂) := by
  induction l₁ with
  | nil =>
      intro p o h
      rw [if_pos rfl, List.nil_append] at *
      cases l₂ with
      | nil => exact h.2.2
      | cons b l₂ =>
          rcases h with ⟨_, hBack, hb, _, hRest⟩
          rw [List.nodup_cons, List.nodup_cons] at hNodup
          refine ⟨hb, ?_, ?_⟩
          · rw [hPrev b List.mem_cons_self, List.head?_cons,
              if_pos rfl]
            exact hBack
          · rw [hNext b List.mem_cons_self,
              if_neg (by rw [List.getLast?_nil]; simp)]
            apply hRest.congr
            · intro c hc
              rw [hNext c (List.mem_cons_of_mem _ hc),
                if_neg (by rw [List.getLast?_nil]; simp)]
            · intro c hc
              rw [hPrev c (List.mem_cons_of_mem _ hc), if_neg]
              rw [List.head?_cons]
              intro hEq
              rw [Option.some.inj hEq] at hNodup
              exact hNodup.2.1 hc
  | cons b l₁ ih =>
      intro p o h
      rw [if_neg (List.cons_ne_nil _ _)]
      rcases h with ⟨ho, hBack, hRest⟩
      rw [List.cons_append, List.nodup_cons] at hNodup
      have hbIn : b ∉ l₂ := fun hb =>
        hNodup.1 (List.mem_append_right _
          (List.mem_cons_of_mem _ hb))
      have hTail := ih hNodup.2
        (fun c hc => by
          rw [hNext c (List.mem_cons_of_mem _ hc)]
          cases l₁ with
          | nil =>
              rw [List.getLast?_singleton, List.getLast?_nil,
                if_neg, if_neg (by simp)]
              intro hEq
              rw [Option.some.inj hEq] at hbIn
              exact hbIn hc
          | cons d l₁ => rw [List.getLast?_cons_cons])
        (fun c hc => hPrev c (List.mem_cons_of_mem _ hc))
        hRest
      refine ⟨ho, ?_, ?_⟩
      · rw [hPrev b List.mem_cons_self, if_neg, hBack]
        intro hEq
        exact hbIn (List.mem_of_mem_head? hEq)
      · rw [hNext b List.mem_cons_self]
        cases l₁ with
        | nil =>
            rw [List.getLast?_singleton, if_pos rfl]
            rw [if_pos rfl] at hTail
            exact hTail
        | cons d l₁ =>
            rw [if_neg (List.cons_ne_nil _ _)] at hTail
            rw [List.getLast?_cons_cons, if_neg]
            · exact hTail
            · intro hEq
              exact hNodup.1 (List.mem_append_left _
                (List.mem_of_getLast? hEq))

end DLinked
