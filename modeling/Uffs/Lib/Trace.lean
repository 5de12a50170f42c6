import Uffs.Lib.Prog

/-
  What a program does, read off its events, and programs
  that do the same.

  `Traces R` bounds every run together with the events that
  it emits.  `Alike m k Q` says of two programs that they
  have one outcome from a state, and that it satisfies `Q`:
  a rule for each way in which two programs that differ in
  one place are put together.

  Main declarations:
    * `Prog.Traces`
    * `Prog.Alike`
-/

namespace Prog

variable {σ ε α β : Type}

------------------------------------------------------------
-- Traces
------------------------------------------------------------

/- A relation of states that adds up along the events. -/
class Additive (R : σ → List ε → σ → Prop) : Prop where
  refl : ∀ s, R s [] s
  trans : ∀ {s es t fs u}, R s es t → R t fs u →
    R s (es ++ fs) u

/- Every run is related to its start by way of its events. -/
structure Traces
    (R : σ → List ε → σ → Prop)
    (m : Prog σ ε α) : Prop where
  run : ∀ {s a es t}, m s = some (a, es, t) → R s es t

namespace Traces

variable {R : σ → List ε → σ → Prop}

theorem diverge :
    Traces R (Prog.diverge : Prog σ ε α) := by
  constructor
  intro s a es t hRun
  cases hRun

theorem modify
    {f : σ → σ}
    (h : ∀ s, R s [] (f s)) :
    Traces R (Prog.modify f : Prog σ ε Unit) := by
  constructor
  intro s a es t hRun
  cases hRun
  exact h s

theorem ite
    {c : Prop}
    [Decidable c]
    {m k : Prog σ ε α}
    (hm : Traces R m)
    (hk : Traces R k) : Traces R (if c then m else k) := by
  split
  · exact hm
  · exact hk

/- A relation that does not look at the events. -/
theorem of_within
    {R' : σ → σ → Prop}
    {m : Prog σ ε α}
    (h : Within (fun _ => True) R' m)
    (hR : ∀ s es t, R' s t → R s es t) : Traces R m := by
  constructor
  intro s a es t hRun
  exact hR s es t (h s a es t hRun fun _ _ => trivial)

/- What is known of a run that returns. -/
theorem wp_and
    {m : Prog σ ε α}
    {Q : α → List ε → σ → Prop}
    {s : σ}
    (h : Traces R m)
    (hQ : wp m Q s) :
    wp m (fun a es t => Q a es t ∧ R s es t) s := by
  rcases hQ with ⟨a, es, t, hRun, hQ⟩
  exact ⟨a, es, t, hRun, hQ, h.run hRun⟩

section Adding

variable [Additive R]

theorem pure (a : α) :
    Traces R (Pure.pure a : Prog σ ε α) := by
  constructor
  intro s b es t hRun
  cases hRun
  exact Additive.refl s

theorem get : Traces R (Prog.get : Prog σ ε σ) := by
  constructor
  intro s a es t hRun
  cases hRun
  exact Additive.refl s

theorem bind
    {m : Prog σ ε α}
    {f : α → Prog σ ε β}
    (hm : Traces R m)
    (hf : ∀ a, Traces R (f a)) : Traces R (m >>= f) := by
  constructor
  intro s b gs u hRun
  rcases run_bind_eq_some.mp hRun with
    ⟨a, es, t, fs, hFirst, hRest, hEvents⟩
  rw [hEvents]
  exact Additive.trans (hm.run hFirst) ((hf a).run hRest)

end Adding

end Traces

/- What is known of a run that may emit anything. -/
theorem wlp_run
    {m : Prog σ ε α}
    {P : α → σ → Prop}
    {s t : σ}
    {a : α}
    {es : List ε}
    (h : wlp (fun _ => True) m P s)
    (hRun : m s = some (a, es, t)) : P a t :=
  h a es t hRun fun _ _ => trivial

theorem Within.of_run
    {R : σ → σ → Prop}
    {m : Prog σ ε α}
    {s t : σ}
    {a : α}
    {es : List ε}
    (h : Within (fun _ => True) R m)
    (hRun : m s = some (a, es, t)) : R s t :=
  h s a es t hRun fun _ _ => trivial

/- A total outcome with what is known of partial ones. -/
theorem wp_and_wlp
    {m : Prog σ ε α}
    {P : α → σ → Prop}
    {Q : α → List ε → σ → Prop}
    {s : σ}
    (hQ : wp m Q s)
    (hP : wlp (fun _ => True) m P s) :
    wp m (fun a es t => Q a es t ∧ P a t) s := by
  rcases hQ with ⟨a, es, t, hRun, hQ⟩
  exact ⟨a, es, t, hRun, hQ, wlp_run hP hRun⟩

------------------------------------------------------------
-- Programs That Do the Same
------------------------------------------------------------

/- Both programs return with one outcome that has `Q`. -/
def Alike
    (m k : Prog σ ε α)
    (Q : α → List ε → σ → Prop)
    (s : σ) : Prop :=
  k s = m s ∧ wp m Q s

namespace Alike

variable {m k : Prog σ ε α} {P Q : α → List ε → σ → Prop}
  {s : σ}

theorem same (h : wp m Q s) : Alike m m Q s :=
  ⟨rfl, h⟩

theorem mono
    (h : Alike m k P s)
    (hPQ : ∀ a es t, P a es t → Q a es t) : Alike m k Q s :=
  ⟨h.1, wp_mono h.2 hPQ⟩

/- Programs that begin alike. -/
theorem seq
    {f g : α → Prog σ ε β}
    {Q : β → List ε → σ → Prop}
    (h : Alike m k P s)
    (hf : ∀ a es t, P a es t →
      Alike (f a) (g a) (fun b fs u => Q b (es ++ fs) u) t) :
    Alike (m >>= f) (k >>= g) Q s := by
  rcases h with ⟨hSame, a, es, t, hRun, hP⟩
  have hRest := hf a es t hP
  constructor
  · rw [run_bind, run_bind, hSame, hRun]
    dsimp only
    rw [hRest.1]
  · exact (wp_bind m f Q s).mpr ⟨a, es, t, hRun, hRest.2⟩

/- A read of the state, and a change of it. -/
theorem gets
    {p : σ → α}
    {f g : α → Prog σ ε β}
    {Q : β → List ε → σ → Prop}
    (h : Alike (f (p s)) (g (p s)) Q s) :
    Alike (Prog.gets p >>= f) (Prog.gets p >>= g) Q s := by
  constructor
  · rw [run_gets_bind, run_gets_bind]
    exact h.1
  · rw [wp_bind, wp_gets]
    exact h.2

theorem modify
    {p : σ → σ}
    {f g : Unit → Prog σ ε β}
    {Q : β → List ε → σ → Prop}
    (h : Alike (f ()) (g ()) Q (p s)) :
    Alike (Prog.modify p >>= f) (Prog.modify p >>= g) Q s := by
  constructor
  · rw [run_modify_bind, run_modify_bind]
    exact h.1
  · rw [wp_bind, wp_modify]
    exact h.2

/- A read of the state that one program does without. -/
theorem get_left
    {f : σ → Prog σ ε β}
    {k : Prog σ ε β}
    {Q : β → List ε → σ → Prop}
    (h : Alike (f s) k Q s) :
    Alike (Prog.get >>= f) k Q s := by
  constructor
  · rw [h.1]
    exact (run_gets_bind id f s).symm
  · rw [wp_bind, wp_get]
    exact h.2

/- The beginning is the same. -/
theorem bind
    {f g : α → Prog σ ε β}
    {Q : β → List ε → σ → Prop}
    (h : wp m P s)
    (hf : ∀ a es t, P a es t →
      Alike (f a) (g a) (fun b fs u => Q b (es ++ fs) u) t) :
    Alike (m >>= f) (m >>= g) Q s :=
  seq (same h) hf

end Alike

end Prog
