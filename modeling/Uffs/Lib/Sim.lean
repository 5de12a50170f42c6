import Uffs.Lib.Prog

/-
  Two programs side by side: one on a state with links, say,
  and one on a state with lists in their place.

  `sim m m' Q` is a transformer of pairs of states: both
  programs return, with the same value and the same events,
  and their final states satisfy `Q`.

  Main declarations:
    * `Prog.sim`
    * `Prog.sim_bind`
    * `Prog.runAll`, `Prog.sim_runAll`
-/

namespace Prog

variable {σ τ ε α β : Type}

/- Both programs return, and give the same. -/
def sim
    (m : Prog σ ε α)
    (m' : Prog τ ε α)
    (Q : α → σ → τ → Prop)
    (s : σ)
    (t : τ) : Prop :=
  ∃ a es u v,
    m s = some (a, es, u) ∧ m' t = some (a, es, v) ∧ Q a u v

section Sim

variable {m : Prog σ ε α} {m' : Prog τ ε α}
  {Q : α → σ → τ → Prop} {s : σ} {t : τ}

theorem sim_mono
    {P : α → σ → τ → Prop}
    (h : sim m m' P s t)
    (hPQ : ∀ a u v, P a u v → Q a u v) : sim m m' Q s t := by
  rcases h with ⟨a, es, u, v, hRun, hRun', hP⟩
  exact ⟨a, es, u, v, hRun, hRun', hPQ a u v hP⟩

/- Two runs that are known. -/
theorem sim_of_run
    {a : α}
    {es : List ε}
    {u : σ}
    {v : τ}
    (hRun : m s = some (a, es, u))
    (hRun' : m' t = some (a, es, v))
    (hQ : Q a u v) : sim m m' Q s t :=
  ⟨a, es, u, v, hRun, hRun', hQ⟩

theorem sim_pure
    {a : α}
    (hQ : Q a s t) :
    sim (pure a : Prog σ ε α) (pure a : Prog τ ε α) Q s t :=
  sim_of_run rfl rfl hQ

theorem sim_modify
    {Q : Unit → σ → τ → Prop}
    {f : σ → σ}
    {g : τ → τ}
    (hQ : Q () (f s) (g t)) :
    sim (modify f : Prog σ ε Unit) (modify g) Q s t :=
  sim_of_run rfl rfl hQ

theorem sim_bind
    {f : α → Prog σ ε β}
    {f' : α → Prog τ ε β}
    {R : β → σ → τ → Prop}
    (h : sim m m' (fun a u v => sim (f a) (f' a) R u v) s t) :
    sim (m >>= f) (m' >>= f') R s t := by
  rcases h with ⟨a, es, u, v, hm, hm', b, fs, w, x, hf, hf', hR⟩
  refine ⟨b, es ++ fs, w, x, ?_, ?_, hR⟩
  · exact run_bind_eq_some.mpr ⟨a, es, u, fs, hm, hf, rfl⟩
  · exact run_bind_eq_some.mpr ⟨a, es, v, fs, hm', hf', rfl⟩

/- A read of the first state, and one of the second. -/
theorem sim_left
    {f : α → Prog σ ε β}
    {n' : Prog τ ε β}
    {R : β → σ → τ → Prop}
    {a : α}
    {u : σ}
    (hRun : m s = some (a, [], u))
    (h : sim (f a) n' R u t) : sim (m >>= f) n' R s t := by
  rcases h with ⟨b, es, w, x, hf, hn', hR⟩
  refine ⟨b, es, w, x, ?_, hn', hR⟩
  exact run_bind_eq_some.mpr ⟨a, [], u, es, hRun, hf, rfl⟩

theorem sim_right
    {n : Prog σ ε β}
    {f' : α → Prog τ ε β}
    {R : β → σ → τ → Prop}
    {a : α}
    {v : τ}
    (hRun : m' t = some (a, [], v))
    (h : sim n (f' a) R s v) : sim n (m' >>= f') R s t := by
  rcases h with ⟨b, es, w, x, hn, hf', hR⟩
  refine ⟨b, es, w, x, hn, ?_, hR⟩
  exact run_bind_eq_some.mpr ⟨a, [], v, es, hRun, hf', rfl⟩

end Sim

------------------------------------------------------------
-- Many Calls
------------------------------------------------------------

/- Calls one after the other, and all of their answers. -/
def runAll
    {κ : Type}
    (exec : κ → Prog σ ε α) : List κ → Prog σ ε (List α)
| [] => pure []
| call :: rest => do
    let a ← exec call
    let as ← runAll exec rest
    pure (a :: as)

/-
  A relation of the calls to come and the two states, that
  each call keeps, is kept by all of them.
-/
theorem sim_runAll
    {κ : Type}
    {exec : κ → Prog σ ε α}
    {exec' : κ → Prog τ ε α}
    {R : List κ → σ → τ → Prop}
    (hStep : ∀ call rest s t, R (call :: rest) s t →
      sim (exec call) (exec' call) (fun _ => R rest) s t)
    (calls : List κ) :
    ∀ {s : σ} {t : τ}, R calls s t →
      sim (runAll exec calls) (runAll exec' calls)
        (fun _ => R []) s t := by
  induction calls with
  | nil =>
      intro s t h
      exact sim_pure h
  | cons call rest ih =>
      intro s t h
      unfold runAll
      apply sim_bind
      apply sim_mono (hStep call rest s t h)
      intro a u v hRest
      apply sim_bind
      apply sim_mono (ih hRest)
      intro as w x hEnd
      exact sim_pure hEnd

end Prog
