import Mathlib.Order.Defs.Unbundled

/-
  Partial state-passing programs that emit events, and their
  predicate transformers.

  A program reads and changes a state, emits events in the
  order in which they happen, and either returns a value or
  does not return.  `wp` is the total transformer: the
  program returns, and its value, its events and its final
  state satisfy the postcondition.  `wlp ok` is the partial
  one over the runs that emit only events allowed by `ok`.

  Main declarations:
    * `Prog`
    * `Prog.wp`
    * `Prog.wlp`
    * `Prog.Within`
    * `Prog.Always`
    * `Prog.Returns`
-/

------------------------------------------------------------
-- Programs
------------------------------------------------------------

/-
  A program over states `σ` that emits events `ε` and
  returns a value of type `α`.  The result `none` means that
  the program does not return.
-/
def Prog (σ ε α : Type) : Type :=
  σ → Option (α × List ε × σ)

namespace Prog

variable {σ ε α β : Type}

/- Return a value and leave the state alone. -/
protected def pure (a : α) : Prog σ ε α :=
  fun s => some (a, [], s)

/- Run `m`, then run `f` on its value. -/
protected def bind
    (m : Prog σ ε α)
    (f : α → Prog σ ε β) : Prog σ ε β :=
  fun s =>
    match m s with
    | none => none
    | some (a, es, t) =>
        match f a t with
        | none => none
        | some (b, fs, u) => some (b, es ++ fs, u)

instance : Monad (Prog σ ε) where
  pure := Prog.pure
  bind := Prog.bind

/- Read the whole state. -/
def get : Prog σ ε σ :=
  fun s => some (s, [], s)

/- Read a part of the state. -/
def gets (f : σ → α) : Prog σ ε α :=
  fun s => some (f s, [], s)

/- Change the state. -/
def modify (f : σ → σ) : Prog σ ε Unit :=
  fun s => some ((), [], f s)

/- Emit an event. -/
def emit (e : ε) : Prog σ ε Unit :=
  fun s => some ((), [e], s)

/- A program that does not return. -/
def diverge : Prog σ ε α :=
  fun _ => none

------------------------------------------------------------
-- Running
------------------------------------------------------------

@[simp] theorem run_pure (a : α) (s : σ) :
    (pure a : Prog σ ε α) s = some (a, [], s) := rfl

@[simp] theorem run_get (s : σ) :
    (get : Prog σ ε σ) s = some (s, [], s) := rfl

@[simp] theorem run_gets (f : σ → α) (s : σ) :
    (gets f : Prog σ ε α) s = some (f s, [], s) := rfl

@[simp] theorem run_modify (f : σ → σ) (s : σ) :
    (modify f : Prog σ ε Unit) s = some ((), [], f s) := rfl

@[simp] theorem run_emit (e : ε) (s : σ) :
    (emit e : Prog σ ε Unit) s = some ((), [e], s) := rfl

@[simp] theorem run_diverge (s : σ) :
    (diverge : Prog σ ε α) s = none := rfl

theorem run_bind
    (m : Prog σ ε α)
    (f : α → Prog σ ε β)
    (s : σ) :
    (m >>= f) s =
      match m s with
      | none => none
      | some (a, es, t) =>
          match f a t with
          | none => none
          | some (b, fs, u) => some (b, es ++ fs, u) := rfl

/- A sequence that starts with a read, and with a change. -/
theorem run_gets_bind
    (g : σ → α)
    (f : α → Prog σ ε β)
    (s : σ) : (gets g >>= f) s = f (g s) s := by
  rw [run_bind, run_gets]
  dsimp only
  cases f (g s) s with
  | none => rfl
  | some q => rfl

theorem run_modify_bind
    (g : σ → σ)
    (f : Unit → Prog σ ε β)
    (s : σ) : (modify g >>= f) s = f () (g s) := by
  rw [run_bind, run_modify]
  dsimp only
  cases f () (g s) with
  | none => rfl
  | some q => rfl

/- A run of a sequence is a run of each of its parts. -/
theorem run_bind_eq_some
    {m : Prog σ ε α}
    {f : α → Prog σ ε β}
    {s u : σ}
    {b : β}
    {gs : List ε} :
    (m >>= f) s = some (b, gs, u) ↔
      ∃ a es t fs,
        m s = some (a, es, t) ∧ f a t = some (b, fs, u) ∧
          gs = es ++ fs := by
  rw [run_bind]
  constructor
  · intro h
    cases hm : m s with
    | none => simp [hm] at h
    | some p =>
        obtain ⟨a, es, t⟩ := p
        simp only [hm] at h
        cases hf : f a t with
        | none => simp [hf] at h
        | some q =>
            obtain ⟨b', fs, u'⟩ := q
            simp only [hf, Option.some.injEq, Prod.mk.injEq] at h
            rcases h with ⟨rfl, rfl, rfl⟩
            exact ⟨a, es, t, fs, rfl, hf, rfl⟩
  · rintro ⟨a, es, t, fs, hm, hf, rfl⟩
    simp only [hm, hf]

------------------------------------------------------------
-- The Partial Transformer
------------------------------------------------------------

/-
  If the program returns and all its events are allowed, its
  outcome satisfies `Q`.
-/
def wlp
    (ok : ε → Prop)
    (m : Prog σ ε α)
    (Q : α → σ → Prop)
    (s : σ) : Prop :=
  ∀ a es t, m s = some (a, es, t) → (∀ e ∈ es, ok e) → Q a t

section Partial

variable {ok : ε → Prop}

theorem wlp_mono
    {m : Prog σ ε α}
    {P Q : α → σ → Prop}
    {s : σ}
    (h : wlp ok m P s)
    (hPQ : ∀ a t, P a t → Q a t) : wlp ok m Q s := by
  intro a es t hRun hOk
  exact hPQ a t (h a es t hRun hOk)

theorem wlp_of_forall
    {m : Prog σ ε α}
    {Q : α → σ → Prop}
    {s : σ}
    (h : ∀ a t, Q a t) : wlp ok m Q s :=
  fun a _ t _ _ => h a t

theorem wlp_and
    {m : Prog σ ε α}
    {P Q : α → σ → Prop}
    {s : σ}
    (hP : wlp ok m P s)
    (hQ : wlp ok m Q s) :
    wlp ok m (fun a t => P a t ∧ Q a t) s := by
  intro a es t hRun hOk
  exact ⟨hP a es t hRun hOk, hQ a es t hRun hOk⟩

@[simp] theorem wlp_pure
    (a : α) (Q : α → σ → Prop) (s : σ) :
    wlp ok (pure a : Prog σ ε α) Q s ↔ Q a s := by
  constructor
  · intro h
    exact h a [] s rfl (by simp)
  · intro h a' es t hRun _
    simp only [run_pure, Option.some.injEq, Prod.mk.injEq] at hRun
    rcases hRun with ⟨rfl, _, rfl⟩
    exact h

@[simp] theorem wlp_get
    (Q : σ → σ → Prop) (s : σ) :
    wlp ok (get : Prog σ ε σ) Q s ↔ Q s s := by
  constructor
  · intro h
    exact h s [] s rfl (by simp)
  · intro h a' es t hRun _
    simp only [run_get, Option.some.injEq, Prod.mk.injEq] at hRun
    rcases hRun with ⟨rfl, _, rfl⟩
    exact h

@[simp] theorem wlp_gets
    (f : σ → α) (Q : α → σ → Prop) (s : σ) :
    wlp ok (gets f : Prog σ ε α) Q s ↔ Q (f s) s := by
  constructor
  · intro h
    exact h (f s) [] s rfl (by simp)
  · intro h a' es t hRun _
    simp only [run_gets, Option.some.injEq, Prod.mk.injEq] at hRun
    rcases hRun with ⟨rfl, _, rfl⟩
    exact h

@[simp] theorem wlp_modify
    (f : σ → σ) (Q : Unit → σ → Prop) (s : σ) :
    wlp ok (modify f : Prog σ ε Unit) Q s ↔ Q () (f s) := by
  constructor
  · intro h
    exact h () [] (f s) rfl (by simp)
  · intro h a' es t hRun _
    simp only [run_modify, Option.some.injEq,
      Prod.mk.injEq] at hRun
    rcases hRun with ⟨_, _, rfl⟩
    exact h

@[simp] theorem wlp_emit
    (e : ε) (Q : Unit → σ → Prop) (s : σ) :
    wlp ok (emit e : Prog σ ε Unit) Q s ↔ (ok e → Q () s) := by
  constructor
  · intro h hOk
    exact h () [e] s rfl (by simpa using hOk)
  · intro h a' es t hRun hOk
    simp only [run_emit, Option.some.injEq, Prod.mk.injEq] at hRun
    rcases hRun with ⟨_, rfl, rfl⟩
    exact h (hOk e (by simp))

@[simp] theorem wlp_diverge
    (Q : α → σ → Prop) (s : σ) :
    wlp ok (diverge : Prog σ ε α) Q s ↔ True := by
  constructor
  · intro _
    trivial
  · intro _ a es t hRun
    simp at hRun

@[simp] theorem wlp_bind
    (m : Prog σ ε α)
    (f : α → Prog σ ε β)
    (Q : β → σ → Prop)
    (s : σ) :
    wlp ok (m >>= f) Q s ↔
      wlp ok m (fun a t => wlp ok (f a) Q t) s := by
  constructor
  · intro h a es t hm hEs b fs u hf hFs
    refine h b (es ++ fs) u ?_ ?_
    · exact run_bind_eq_some.mpr ⟨a, es, t, fs, hm, hf, rfl⟩
    · intro e he
      rcases List.mem_append.mp he with he | he
      · exact hEs e he
      · exact hFs e he
  · intro h b gs u hRun hOk
    rcases run_bind_eq_some.mp hRun with
      ⟨a, es, t, fs, hm, hf, rfl⟩
    refine h a es t hm ?_ b fs u hf ?_
    · intro e he
      exact hOk e (List.mem_append_left fs he)
    · intro e he
      exact hOk e (List.mem_append_right es he)

/- Sequencing for `wlp`, with the middle condition named. -/
theorem wlp_seq
    {m : Prog σ ε α}
    {f : α → Prog σ ε β}
    {P : α → σ → Prop}
    {Q : β → σ → Prop}
    {s : σ}
    (hm : wlp ok m P s)
    (hf : ∀ a t, P a t → wlp ok (f a) Q t) :
    wlp ok (m >>= f) Q s :=
  (wlp_bind m f Q s).mpr (wlp_mono hm hf)

end Partial

------------------------------------------------------------
-- The Total Transformer
------------------------------------------------------------

/-
  The program returns, and its value, its events and its
  final state satisfy `Q`.
-/
def wp
    (m : Prog σ ε α)
    (Q : α → List ε → σ → Prop)
    (s : σ) : Prop :=
  ∃ a es t, m s = some (a, es, t) ∧ Q a es t

theorem wp_mono
    {m : Prog σ ε α}
    {P Q : α → List ε → σ → Prop}
    {s : σ}
    (h : wp m P s)
    (hPQ : ∀ a es t, P a es t → Q a es t) : wp m Q s := by
  rcases h with ⟨a, es, t, hRun, hP⟩
  exact ⟨a, es, t, hRun, hPQ a es t hP⟩

/- Two facts of the same run. -/
theorem wp_conj
    {m : Prog σ ε α}
    {P Q : α → List ε → σ → Prop}
    {s : σ}
    (hP : wp m P s)
    (hQ : wp m Q s) :
    wp m (fun a es t => P a es t ∧ Q a es t) s := by
  rcases hP with ⟨a, es, t, hRun, hP⟩
  rcases hQ with ⟨a', es', t', hRun', hQ⟩
  rw [hRun, Option.some.injEq, Prod.mk.injEq,
    Prod.mk.injEq] at hRun'
  rcases hRun' with ⟨rfl, rfl, rfl⟩
  exact ⟨a, es, t, hRun, hP, hQ⟩

theorem wp_of_run
    {m : Prog σ ε α}
    {Q : α → List ε → σ → Prop}
    {s t : σ}
    {a : α}
    {es : List ε}
    (hRun : m s = some (a, es, t)) :
    wp m Q s ↔ Q a es t := by
  constructor
  · rintro ⟨a', es', t', hRun', hQ⟩
    rw [hRun] at hRun'
    cases hRun'
    exact hQ
  · intro hQ
    exact ⟨a, es, t, hRun, hQ⟩

@[simp] theorem wp_pure
    (a : α) (Q : α → List ε → σ → Prop) (s : σ) :
    wp (pure a : Prog σ ε α) Q s ↔ Q a [] s :=
  wp_of_run rfl

@[simp] theorem wp_get
    (Q : σ → List ε → σ → Prop) (s : σ) :
    wp (get : Prog σ ε σ) Q s ↔ Q s [] s :=
  wp_of_run rfl

@[simp] theorem wp_gets
    (f : σ → α) (Q : α → List ε → σ → Prop) (s : σ) :
    wp (gets f : Prog σ ε α) Q s ↔ Q (f s) [] s :=
  wp_of_run rfl

@[simp] theorem wp_modify
    (f : σ → σ) (Q : Unit → List ε → σ → Prop) (s : σ) :
    wp (modify f : Prog σ ε Unit) Q s ↔ Q () [] (f s) :=
  wp_of_run rfl

@[simp] theorem wp_emit
    (e : ε) (Q : Unit → List ε → σ → Prop) (s : σ) :
    wp (emit e : Prog σ ε Unit) Q s ↔ Q () [e] s :=
  wp_of_run rfl

@[simp] theorem wp_diverge
    (Q : α → List ε → σ → Prop) (s : σ) :
    wp (diverge : Prog σ ε α) Q s ↔ False := by
  simp [wp]

@[simp] theorem wp_bind
    (m : Prog σ ε α)
    (f : α → Prog σ ε β)
    (Q : β → List ε → σ → Prop)
    (s : σ) :
    wp (m >>= f) Q s ↔
      wp m
        (fun a es t =>
          wp (f a) (fun b fs u => Q b (es ++ fs) u) t) s := by
  constructor
  · rintro ⟨b, gs, u, hRun, hQ⟩
    rcases run_bind_eq_some.mp hRun with
      ⟨a, es, t, fs, hm, hf, rfl⟩
    exact ⟨a, es, t, hm, b, fs, u, hf, hQ⟩
  · rintro ⟨a, es, t, hm, b, fs, u, hf, hQ⟩
    exact ⟨b, es ++ fs, u,
      run_bind_eq_some.mpr ⟨a, es, t, fs, hm, hf, rfl⟩, hQ⟩

/- Sequencing for `wp`, with the middle condition named. -/
theorem wp_seq
    {m : Prog σ ε α}
    {f : α → Prog σ ε β}
    {P : α → List ε → σ → Prop}
    {Q : β → List ε → σ → Prop}
    {s : σ}
    (hm : wp m P s)
    (hf : ∀ a es t, P a es t →
      wp (f a) (fun b fs u => Q b (es ++ fs) u) t) :
    wp (m >>= f) Q s :=
  (wp_bind m f Q s).mpr (wp_mono hm hf)

theorem wp_ite
    {c : Prop}
    [Decidable c]
    {m k : Prog σ ε α}
    {Q : α → List ε → σ → Prop}
    {s : σ}
    (hm : wp m Q s)
    (hk : wp k Q s) : wp (if c then m else k) Q s := by
  split
  · exact hm
  · exact hk

/- Does the program return with an outcome that passes? -/
def check
    (m : Prog σ ε α)
    (test : α → List ε → σ → Bool)
    (s : σ) : Bool :=
  (m s).any fun q => test q.1 q.2.1 q.2.2

theorem wp_of_check
    {m : Prog σ ε α}
    {test : α → List ε → σ → Bool}
    {s : σ}
    (h : m.check test s = true) :
    wp m (fun a es t => test a es t = true) s := by
  unfold check at h
  cases hRun : m s with
  | none =>
      rw [hRun] at h
      cases h
  | some q =>
      rw [hRun] at h
      exact ⟨q.1, q.2.1, q.2.2, hRun, h⟩

/- Every allowed outcome is related to its start by `R`. -/
def Within
    (ok : ε → Prop)
    (R : σ → σ → Prop)
    (m : Prog σ ε α) : Prop :=
  ∀ s, wlp ok m (fun _ t => R s t) s

namespace Within

variable {ok : ε → Prop} {R R' : σ → σ → Prop}

@[simp] theorem diverge :
    Within ok R (Prog.diverge : Prog σ ε α) := by
  intro s
  rw [wlp_diverge]
  trivial

theorem modify
    {f : σ → σ}
    (h : ∀ s, R s (f s)) :
    Within ok R (Prog.modify f : Prog σ ε Unit) := by
  intro s
  rw [wlp_modify]
  exact h s

@[simp] theorem ite
    {c : Prop}
    [Decidable c]
    {m k : Prog σ ε α}
    (hm : Within ok R m)
    (hk : Within ok R k) :
    Within ok R (if c then m else k) := by
  split
  · exact hm
  · exact hk

/- A value in hand is passed on. -/
theorem pure_bind
    {a : α}
    {f : α → Prog σ ε β}
    (h : Within ok R (f a)) :
    Within ok R ((Pure.pure a : Prog σ ε α) >>= f) := by
  intro s
  rw [wlp_bind, wlp_pure]
  exact h s

theorem mono
    {m : Prog σ ε α}
    (h : Within ok R m)
    (hMono : ∀ s t, R s t → R' s t) : Within ok R' m := by
  intro s
  exact wlp_mono (h s) (fun _ t => hMono s t)

section Preorder

variable [IsPreorder σ R]

@[simp] theorem pure (a : α) :
    Within ok R (Pure.pure a : Prog σ ε α) := by
  intro s
  rw [wlp_pure]
  exact refl_of R s

@[simp] theorem get : Within ok R (Prog.get : Prog σ ε σ) := by
  intro s
  rw [wlp_get]
  exact refl_of R s

@[simp] theorem gets (f : σ → α) :
    Within ok R (Prog.gets f : Prog σ ε α) := by
  intro s
  rw [wlp_gets]
  exact refl_of R s

@[simp] theorem emit (e : ε) :
    Within ok R (Prog.emit e : Prog σ ε Unit) := by
  intro s
  rw [wlp_emit]
  exact fun _ => refl_of R s

/- A composition stays within a transitive relation. -/
@[simp] theorem bind
    {m : Prog σ ε α}
    {f : α → Prog σ ε β}
    (hm : Within ok R m)
    (hf : ∀ a, Within ok R (f a)) :
    Within ok R (m >>= f) := by
  intro s
  refine wlp_seq (hm s) ?_
  intro a t hst
  exact wlp_mono (hf a t) (fun _ u htu => trans_of R hst htu)

end Preorder

end Within

------------------------------------------------------------
-- Programs That Always Return
------------------------------------------------------------

/- Every run returns, in a state related to its start. -/
def Always (R : σ → σ → Prop) (m : Prog σ ε α) : Prop :=
  ∀ s, wp m (fun _ _ t => R s t) s

namespace Always

variable {R : σ → σ → Prop}

theorem modify
    {f : σ → σ}
    (h : ∀ s, R s (f s)) :
    Always R (Prog.modify f : Prog σ ε Unit) := by
  intro s
  rw [wp_modify]
  exact h s

theorem ite
    {c : Prop}
    [Decidable c]
    {m k : Prog σ ε α}
    (hm : Always R m)
    (hk : Always R k) : Always R (if c then m else k) := by
  split
  · exact hm
  · exact hk

/- The second part need only end behind the first one. -/
theorem seq
    {m : Prog σ ε α}
    {f : α → Prog σ ε β}
    {Q : β → List ε → σ → Prop}
    {s : σ}
    (hm : Always R m)
    (hf : ∀ a es t, R s t →
      wp (f a) (fun b fs u => Q b (es ++ fs) u) t) :
    wp (m >>= f) Q s :=
  wp_seq (hm s) hf

section Preorder

variable [IsPreorder σ R]

theorem pure (a : α) :
    Always R (Pure.pure a : Prog σ ε α) := by
  intro s
  rw [wp_pure]
  exact refl_of R s

theorem get : Always R (Prog.get : Prog σ ε σ) := by
  intro s
  rw [wp_get]
  exact refl_of R s

theorem gets (f : σ → α) :
    Always R (Prog.gets f : Prog σ ε α) := by
  intro s
  rw [wp_gets]
  exact refl_of R s

theorem emit (e : ε) :
    Always R (Prog.emit e : Prog σ ε Unit) := by
  intro s
  rw [wp_emit]
  exact refl_of R s

theorem bind
    {m : Prog σ ε α}
    {f : α → Prog σ ε β}
    (hm : Always R m)
    (hf : ∀ a, Always R (f a)) : Always R (m >>= f) := by
  intro s
  apply hm.seq
  intro a es t hst
  exact wp_mono (hf a t) fun _ _ u htu => trans_of R hst htu

end Preorder

end Always

------------------------------------------------------------
-- Returned Values
------------------------------------------------------------

/- Every allowed outcome has a value with `P`. -/
def Returns
    (ok : ε → Prop)
    (P : α → Prop)
    (m : Prog σ ε α) : Prop :=
  ∀ s, wlp ok m (fun a _ => P a) s

namespace Returns

variable {ok : ε → Prop} {P : α → Prop} {P' : β → Prop}

theorem pure
    {a : α}
    (h : P a) : Returns ok P (Pure.pure a : Prog σ ε α) := by
  intro s
  rw [wlp_pure]
  exact h

theorem diverge :
    Returns ok P (Prog.diverge : Prog σ ε α) := by
  intro s
  rw [wlp_diverge]
  trivial

theorem ite
    {c : Prop}
    [Decidable c]
    {m k : Prog σ ε α}
    (hm : Returns ok P m)
    (hk : Returns ok P k) :
    Returns ok P (if c then m else k) := by
  split
  · exact hm
  · exact hk

/- The value of the first part satisfies `P`. -/
theorem seq
    {m : Prog σ ε α}
    {f : α → Prog σ ε β}
    (hm : Returns ok P m)
    (hf : ∀ a, P a → Returns ok P' (f a)) :
    Returns ok P' (m >>= f) := by
  intro s
  refine wlp_seq (hm s) ?_
  intro a t ha
  exact hf a ha t

/- Nothing is said about the value of the first part. -/
theorem bind
    {m : Prog σ ε α}
    {f : α → Prog σ ε β}
    (hf : ∀ a, Returns ok P' (f a)) :
    Returns ok P' (m >>= f) :=
  seq (P := fun _ => True) (fun _ => wlp_of_forall fun _ _ => trivial)
    fun a _ => hf a

theorem pure_bind
    {a : α}
    {f : α → Prog σ ε β}
    (h : Returns ok P' (f a)) :
    Returns ok P' ((Pure.pure a : Prog σ ε α) >>= f) := by
  intro s
  rw [wlp_bind, wlp_pure]
  exact h s

/- The value of a run that may emit anything. -/
theorem of_run
    {m : Prog σ ε α}
    {s t : σ}
    {a : α}
    {es : List ε}
    (h : Returns (fun _ => True) P m)
    (hRun : m s = some (a, es, t)) : P a :=
  h s a es t hRun fun _ _ => trivial

end Returns

end Prog
