import Mathlib.Data.List.Basic
import Mathlib.Data.List.Nodup
import Uffs.Lib.Chain

/-
  Doubly linked lists with a first and a last cell.

  `DList` has the links of all cells; `DList.Holds` says
  which cells are in the list, in which order.  A walk along
  the links is given a number of steps; if it has one more
  than there are cells, it does what a search of the list of
  the cells does.

  Main declarations:
    * `DList`, `DList.Holds`
    * `DLinked.erase`, `DList.Holds.remove`
    * `DList.Holds.pushFront`, `DList.Holds.pushBack`
    * `walkFind`, `Linked.walkFind_eq`
    * `walkFold`, `Linked.walkFold_eq`
-/

variable {α β : Type}

------------------------------------------------------------
-- Walks
------------------------------------------------------------

/- The first cell with a property; `none` if out of steps. -/
def walkFind
    (next : α → Option α)
    (test : α → Bool) : Nat → Option α → Option (Option α)
| 0, _ => none
| _ + 1, none => some none
| n + 1, some a =>
    if test a then some (some a) else walkFind next test n (next a)

/- All cells are visited; `none` if out of steps. -/
def walkFold
    (next : α → Option α)
    (f : β → α → β) : Nat → Option α → β → Option β
| 0, _, _ => none
| _ + 1, none, x => some x
| n + 1, some a, x => walkFold next f n (next a) (f x a)

namespace Linked

variable {next : α → Option α}

/- A walk finds what a search of the list finds. -/
theorem walkFind_eq
    {l : List α}
    (test : α → Bool) :
    ∀ {o : Option α} {n : Nat}, Linked next o l →
      l.length < n → walkFind next test n o = some (l.find? test) := by
  induction l with
  | nil =>
      intro o n h hLt
      rw [Linked.nil_iff.mp h]
      cases n with
      | zero => exact absurd hLt (Nat.not_lt_zero _)
      | succ n => rfl
  | cons a l ih =>
      intro o n h hLt
      rcases Linked.cons_iff.mp h with ⟨rfl, hRest⟩
      cases n with
      | zero => exact absurd hLt (Nat.not_lt_zero _)
      | succ n =>
          rw [List.length_cons] at hLt
          unfold walkFind
          rw [ih hRest (by omega), List.find?_cons]
          cases test a with
          | true => rfl
          | false => rfl

/- A walk over all cells is a fold of the list. -/
theorem walkFold_eq
    {l : List α}
    (f : β → α → β) :
    ∀ {o : Option α} {n : Nat} (x : β), Linked next o l →
      l.length < n →
        walkFold next f n o x = some (l.foldl f x) := by
  induction l with
  | nil =>
      intro o n x h hLt
      rw [Linked.nil_iff.mp h]
      cases n with
      | zero => exact absurd hLt (Nat.not_lt_zero _)
      | succ n => rfl
  | cons a l ih =>
      intro o n x h hLt
      rcases Linked.cons_iff.mp h with ⟨rfl, hRest⟩
      cases n with
      | zero => exact absurd hLt (Nat.not_lt_zero _)
      | succ n =>
          rw [List.length_cons] at hLt
          unfold walkFold
          rw [ih (f x a) hRest (by omega)]
          rfl

end Linked

------------------------------------------------------------
-- Links Back, and the Last Cell
------------------------------------------------------------

namespace DLinked

variable {next prev g g' : α → Option α} {l : List α}

/- The links back make a list in the other order. -/
theorem reverse :
    ∀ {p o : Option α} {acc : List α},
      DLinked next prev p o l → Linked prev p acc →
        Linked prev (l.getLast?.or p) (l.reverse ++ acc) := by
  induction l with
  | nil =>
      intro p o acc _ hAcc
      exact hAcc
  | cons a l ih =>
      intro p o acc h hAcc
      rcases h with ⟨_, hBack, hRest⟩
      have hStart : Linked prev (some a) (a :: acc) := by
        rw [Linked.cons_iff, hBack]
        exact ⟨rfl, hAcc⟩
      have hNext := ih hRest hStart
      rw [List.reverse_cons, List.append_assoc,
        List.singleton_append]
      have hLast : (a :: l).getLast?.or p =
          l.getLast?.or (some a) := by
        rw [List.getLast?_cons]
        cases l.getLast? with
        | none => rfl
        | some b => rfl
      rw [hLast]
      exact hNext

/- A cell is added behind the last one. -/
theorem snoc
    [DecidableEq α]
    {a : α}
    (hNodup : l.Nodup)
    (hNotIn : a ∉ l)
    (hNext : ∀ b ∈ l,
      g b = if l.getLast? = some b then some a else next b)
    (hPrev : ∀ b ∈ l, g' b = prev b)
    (hEnd : g a = none) :
    ∀ {p o : Option α}, DLinked next prev p o l →
      g' a = l.getLast?.or p →
        DLinked g g' p (if l = [] then some a else o)
          (l ++ [a]) := by
  induction l with
  | nil =>
      intro p o _ hBack
      exact ⟨rfl, hBack, hEnd⟩
  | cons b l ih =>
      intro p o h hBack
      rcases h with ⟨ho, hb, hRest⟩
      rw [List.nodup_cons] at hNodup
      rw [List.mem_cons, not_or] at hNotIn
      have hLastA : g' a = l.getLast?.or (some b) := by
        rw [hBack, List.getLast?_cons]
        cases l.getLast? with
        | none => rfl
        | some c => rfl
      have hTail := ih hNodup.2 hNotIn.2
        (by
          intro c hc
          rw [hNext c (List.mem_cons_of_mem _ hc)]
          cases l with
          | nil => cases hc
          | cons d l => rw [List.getLast?_cons_cons])
        (fun c hc => hPrev c (List.mem_cons_of_mem _ hc))
        hRest hLastA
      rw [if_neg (List.cons_ne_nil _ _)]
      refine ⟨ho, ?_, ?_⟩
      · rw [hPrev b List.mem_cons_self]
        exact hb
      · rw [hNext b List.mem_cons_self]
        cases l with
        | nil =>
            rw [List.getLast?_singleton, if_pos rfl]
            rw [if_pos rfl] at hTail
            exact hTail
        | cons d l =>
            rw [if_neg (List.cons_ne_nil _ _)] at hTail
            rw [List.getLast?_cons_cons, if_neg]
            · exact hTail
            · intro hEq
              exact hNodup.1 (List.mem_of_getLast? hEq)

/- The links of a cell lead to cells of the list. -/
theorem next_mem
    {a b : α}
    {p o : Option α}
    (h : DLinked next prev p o l)
    (hMem : a ∈ l)
    (hNext : next a = some b) : b ∈ l := by
  rcases List.append_of_mem hMem with ⟨l₁, l₂, rfl⟩
  rw [h.next_eq] at hNext
  have hIn := List.mem_of_mem_head? hNext
  exact List.mem_append_right _ (List.mem_cons_of_mem _ hIn)

theorem prev_mem
    {a b : α}
    {o : Option α}
    (h : DLinked next prev none o l)
    (hMem : a ∈ l)
    (hPrev : prev a = some b) : b ∈ l := by
  rcases List.append_of_mem hMem with ⟨l₁, l₂, rfl⟩
  rw [h.prev_eq, Option.or_none] at hPrev
  exact List.mem_append_left _ (List.mem_of_getLast? hPrev)

/- No cell is linked to itself. -/
theorem next_ne
    {a : α}
    {p o : Option α}
    (h : DLinked next prev p o l)
    (hNodup : l.Nodup)
    (hMem : a ∈ l) : next a ≠ some a := by
  rcases List.append_of_mem hMem with ⟨l₁, l₂, rfl⟩
  rw [List.nodup_middle, List.nodup_cons] at hNodup
  rw [h.next_eq]
  intro hEq
  have hIn := List.mem_of_mem_head? hEq
  exact hNodup.1 (List.mem_append_right _ hIn)

theorem prev_ne
    {a : α}
    {o : Option α}
    (h : DLinked next prev none o l)
    (hNodup : l.Nodup)
    (hMem : a ∈ l) : prev a ≠ some a := by
  rcases List.append_of_mem hMem with ⟨l₁, l₂, rfl⟩
  rw [List.nodup_middle, List.nodup_cons] at hNodup
  rw [h.prev_eq, Option.or_none]
  intro hEq
  have hIn := List.mem_of_getLast? hEq
  exact hNodup.1 (List.mem_append_left _ hIn)

/- A cell is taken out; the first cell may be this one. -/
theorem erase
    [DecidableEq α]
    {a : α}
    {o : Option α}
    (h : DLinked next prev none o l)
    (hNodup : l.Nodup)
    (hMem : a ∈ l)
    (hNext : ∀ b ∈ l, b ≠ a →
      g b = if prev a = some b then next a else next b)
    (hPrev : ∀ b ∈ l, b ≠ a →
      g' b = if next a = some b then prev a else prev b) :
    DLinked g g' none (if o = some a then next a else o)
      (l.erase a) := by
  rcases List.append_of_mem hMem with ⟨l₁, l₂, rfl⟩
  have hSplit := hNodup
  rw [List.nodup_middle, List.nodup_cons, List.mem_append,
    not_or] at hSplit
  rcases hSplit with ⟨⟨hNot₁, hNot₂⟩, _⟩
  have hBack : prev a = l₁.getLast? := by
    rw [h.prev_eq, Option.or_none]
  have hForth : next a = l₂.head? := h.next_eq
  have hOther : ∀ b ∈ l₁ ++ l₂,
      b ≠ a ∧ b ∈ l₁ ++ a :: l₂ := by
    intro b hb
    rcases List.mem_append.mp hb with hb | hb
    · refine ⟨?_, List.mem_append_left _ hb⟩
      intro hEq
      subst hEq
      exact hNot₁ hb
    · refine ⟨?_, List.mem_append_right _
        (List.mem_cons_of_mem _ hb)⟩
      intro hEq
      subst hEq
      exact hNot₂ hb
  have hLinked : DLinked g g' none
      (if l₁ = [] then next a else o) (l₁ ++ l₂) :=
    h.remove hNodup
      (fun b hb => by
        rw [hNext b (hOther b hb).2 (hOther b hb).1, hBack])
      (fun b hb => by
        rw [hPrev b (hOther b hb).2 (hOther b hb).1, hForth])
  rw [List.erase_append_right _ hNot₁, List.erase_cons_head]
  cases l₁ with
  | nil =>
      rw [if_pos rfl] at hLinked
      rw [if_pos h.1]
      exact hLinked
  | cons c l₁ =>
      rw [if_neg (List.cons_ne_nil _ _)] at hLinked
      rw [if_neg]
      · exact hLinked
      · intro hEq
        have hFirst := h.1
        rw [hEq, Option.some.injEq] at hFirst
        rw [hFirst] at hNot₁
        exact hNot₁ List.mem_cons_self

end DLinked

/- The links of all cells, the first and the last cell. -/
structure DList (α : Type) where
  next : α → Option α
  prev : α → Option α
  head : Option α
  tail : Option α

namespace DList

/- The cells of `l`, in this order, are in the list. -/
structure Holds (d : DList α) (l : List α) : Prop where
  nodup : l.Nodup
  linked : DLinked d.next d.prev none d.head l
  tail : d.tail = l.getLast?

namespace Holds

variable {d d' : DList α} {l : List α} {a : α}

theorem forth (h : d.Holds l) : Linked d.next d.head l :=
  h.linked.linked

theorem back (h : d.Holds l) :
    Linked d.prev d.tail l.reverse := by
  have hEnd : Linked d.prev none [] := Linked.nil_iff.mpr rfl
  have hBack := h.linked.reverse hEnd
  rw [List.append_nil, Option.or_none, ← h.tail] at hBack
  exact hBack

/- Only the links of the cells of the list matter. -/
theorem congr
    (h : d.Holds l)
    (hNext : ∀ b ∈ l, d'.next b = d.next b)
    (hPrev : ∀ b ∈ l, d'.prev b = d.prev b)
    (hHead : d'.head = d.head)
    (hTail : d'.tail = d.tail) : d'.Holds l where
  nodup := h.nodup
  linked := by
    rw [hHead]
    exact h.linked.congr hNext hPrev
  tail := by
    rw [hTail]
    exact h.tail

variable [DecidableEq α]

/- A cell is taken out. -/
theorem remove
    (h : d.Holds l)
    (hMem : a ∈ l)
    (hNext : ∀ b, b ≠ a → d'.next b =
      if d.prev a = some b then d.next a else d.next b)
    (hPrev : ∀ b, b ≠ a → d'.prev b =
      if d.next a = some b then d.prev a else d.prev b)
    (hHead : d'.head =
      if d.head = some a then d.next a else d.head)
    (hTail : d'.tail =
      if d.tail = some a then d.prev a else d.tail) :
    d'.Holds (l.erase a) where
  nodup := h.nodup.erase a
  linked := by
    rw [hHead]
    exact h.linked.erase h.nodup hMem
      (fun b _ hb => hNext b hb) (fun b _ hb => hPrev b hb)
  tail := by
    rcases List.append_of_mem hMem with ⟨l₁, l₂, rfl⟩
    have hNodup := h.nodup
    rw [List.nodup_middle, List.nodup_cons, List.mem_append,
      not_or] at hNodup
    rw [List.erase_append_right _ hNodup.1.1,
      List.erase_cons_head, hTail, h.tail, List.getLast?_append,
      List.getLast?_append]
    cases l₂ with
    | nil =>
        rw [List.getLast?_singleton, Option.some_or,
          if_pos rfl, h.linked.prev_eq, Option.or_none,
          List.getLast?_nil, Option.none_or]
    | cons c l₂ =>
        rw [List.getLast?_cons_cons, if_neg]
        intro hEq
        have hLast : (c :: l₂).getLast? = some a := by
          cases hSome : (c :: l₂).getLast? with
          | none => cases List.getLast?_eq_none_iff.mp hSome
          | some e =>
              rw [hSome, Option.some_or] at hEq
              exact hEq
        exact hNodup.1.2 (List.mem_of_getLast? hLast)

/- A cell is put in front. -/
theorem pushFront
    (h : d.Holds l)
    (hNotIn : a ∉ l)
    (hNextA : d'.next a = d.head)
    (hPrevA : d'.prev a = none)
    (hNext : ∀ b, b ≠ a → d'.next b = d.next b)
    (hPrev : ∀ b, b ≠ a → d'.prev b =
      if d.head = some b then some a else d.prev b)
    (hHead : d'.head = some a)
    (hTail : d'.tail =
      if d.tail = none then some a else d.tail) :
    d'.Holds (a :: l) where
  nodup := List.nodup_cons.mpr ⟨hNotIn, h.nodup⟩
  linked := by
    rw [hHead]
    exact h.linked.push hNotIn h.nodup hNext hPrev hNextA hPrevA
  tail := by
    rw [hTail, h.tail, List.getLast?_cons]
    cases l.getLast? with
    | none => rfl
    | some b => rfl

/- A cell is put behind the last one. -/
theorem pushBack
    (h : d.Holds l)
    (hNe : l ≠ [])
    (hNotIn : a ∉ l)
    (hNextA : d'.next a = none)
    (hPrevA : d'.prev a = d.tail)
    (hNext : ∀ b, b ≠ a → d'.next b =
      if d.tail = some b then some a else d.next b)
    (hPrev : ∀ b, b ≠ a → d'.prev b = d.prev b)
    (hHead : d'.head = d.head)
    (hTail : d'.tail = some a) : d'.Holds (l ++ [a]) where
  nodup := by
    rw [List.nodup_append]
    refine ⟨h.nodup, List.nodup_singleton a, ?_⟩
    intro b hb c hc hEq
    rw [List.mem_singleton.mp hc] at hEq
    subst hEq
    exact hNotIn hb
  linked := by
    have hOther : ∀ b ∈ l, b ≠ a := by
      intro b hb hEq
      subst hEq
      exact hNotIn hb
    have hLinked : DLinked d'.next d'.prev none
        (if l = [] then some a else d.head) (l ++ [a]) :=
      h.linked.snoc h.nodup hNotIn
        (fun b hb => by rw [hNext b (hOther b hb), h.tail])
        (fun b hb => hPrev b (hOther b hb)) hNextA
        (by rw [hPrevA, h.tail, Option.or_none])
    rw [if_neg hNe] at hLinked
    rw [hHead]
    exact hLinked
  tail := by
    rw [hTail, List.getLast?_append, List.getLast?_singleton]
    rfl

end Holds

end DList
