/-!
# Machine - Programs that make calls

A program stops, or makes a call and goes on with its answer.  A world says which
calls may be made, which answers they may get and what they leave of the caller's own
state and of the state it shares with others, and what others may do to the shared
state at any time.

Main results:

- Theorem `keeps_bind`: a sequence of programs keeps to the calls when its first part
  does and leaves a state from which the second does.
- Theorem `Keeps.of_steps`: a program that keeps to the legal calls does so at every
  point of every run.
- Theorem `Steps.legal`: so no run makes an illegal call.
- Theorem `Steps.exists_call`: what changes in a run, some call of it has changed.
- Theorem `Keeps.exists_end`: a program whose calls get answers can run to its end.
- Theorem `Keeps.reaches`: if it may not stop, and its calls get answers, a run comes to a
  call that ends it.
-/

namespace Machine

/-! ## Programs -/

/-- A program: it stops, or makes a call and goes on with the answer. -/
inductive Calls (C : Type) (R : C → Type) (α : Type) where
  | done (a : α)
  | call (c : C) (next : R c → Calls C R α)

namespace Calls

variable {C : Type} {R : C → Type} {α β : Type}

/-- Go on with another program. -/
def bind : Calls C R α → (α → Calls C R β) → Calls C R β
  | .done a, f => f a
  | .call c next, f => .call c fun r => (next r).bind f

instance : Monad (Calls C R) where
  pure := .done
  bind := bind

/-- Make one call. -/
def make (c : C) : Calls C R (R c) :=
  .call c .done

@[simp]
theorem pure_eq_done (a : α) : (pure a : Calls C R α) = .done a :=
  rfl

@[simp]
theorem done_bind (a : α) (f : α → Calls C R β) : (.done a : Calls C R α) >>= f = f a :=
  rfl

@[simp]
theorem call_bind (c : C) (next : R c → Calls C R α) (f : α → Calls C R β) :
    (.call c next : Calls C R α) >>= f = .call c fun r => next r >>= f :=
  rfl

@[simp]
theorem make_bind (c : C) (f : R c → Calls C R β) : make c >>= f = .call c f :=
  rfl

end Calls

/-! ## Worlds -/

/-- A world for programs with a state of their own, `σ`, and a shared one, `τ`. -/
structure World (C : Type) (R : C → Type) (σ τ : Type) where
  Legal : σ → τ → C → Prop
  Acts : σ → τ → (c : C) → R c → σ → τ → Prop
  Rely : τ → τ → Prop
  rely_refl : ∀ t, Rely t t
  rely_trans : ∀ {t u v}, Rely t u → Rely u v → Rely t v

section Worlds

variable {C : Type} {R : C → Type} {σ τ α β : Type} (w : World C R σ τ)

/-- Whatever the others do to the shared state and whatever answers come, the program
makes legal calls only, and stops as `Q` says. -/
def Keeps (Q : α → σ → τ → Prop) : Calls C R α → σ → τ → Prop
  | .done a, s, t => ∀ u, w.Rely t u → Q a s u
  | .call c next, s, t => ∀ u, w.Rely t u →
      w.Legal s u c ∧ ∀ r s' t', w.Acts s u c r s' t' → Keeps Q (next r) s' t'

/-- A run from a program and its states to what is left of it and the states then. -/
inductive Steps : Calls C R α → σ → τ → Calls C R α → σ → τ → Prop
  | refl (p : Calls C R α) (s : σ) (t : τ) : Steps p s t p s t
  | others {p q : Calls C R α} {s s' : σ} {t u t' : τ} (rely : w.Rely t u)
      (rest : Steps p s u q s' t') : Steps p s t q s' t'
  | answer {c : C} {next : R c → Calls C R α} {q : Calls C R α} {r : R c} {s s₁ s' : σ}
      {t t₁ t' : τ} (acts : w.Acts s t c r s₁ t₁) (rest : Steps (next r) s₁ t₁ q s' t') :
      Steps (.call c next) s t q s' t'

variable {w} {Q Q' : α → σ → τ → Prop} {p q : Calls C R α} {s s' : σ} {t t' u : τ}

/-! ## Keeping to the calls -/

theorem keeps_done {a : α} : Keeps w Q (.done a) s t ↔ ∀ u, w.Rely t u → Q a s u :=
  Iff.rfl

theorem keeps_call {c : C} {next : R c → Calls C R α} :
    Keeps w Q (.call c next) s t ↔ ∀ u, w.Rely t u →
      w.Legal s u c ∧ ∀ r s' t', w.Acts s u c r s' t' → Keeps w Q (next r) s' t' :=
  Iff.rfl

/-- What others do to the shared state is allowed for. -/
theorem Keeps.rely (h : Keeps w Q p s t) (hrely : w.Rely t u) : Keeps w Q p s u := by
  cases p with
  | done a =>
      intro v hv
      exact h v (w.rely_trans hrely hv)
  | call c next =>
      intro v hv
      exact h v (w.rely_trans hrely hv)

/-- A weaker demand on the end is kept too. -/
theorem Keeps.mono (h : Keeps w Q p s t) (hQ : ∀ a s t, Q a s t → Q' a s t) :
    Keeps w Q' p s t := by
  induction p generalizing s t with
  | done a =>
      intro u hu
      exact hQ a s u (h u hu)
  | call c next ih =>
      intro u hu
      rcases h u hu with ⟨hlegal, hnext⟩
      refine ⟨hlegal, ?_⟩
      intro r s' t' hacts
      exact ih r (hnext r s' t' hacts)

/-- A sequence of programs keeps to the calls when its first part does, up to a state
from which the second does. -/
theorem keeps_bind {Q : β → σ → τ → Prop} {f : α → Calls C R β} :
    Keeps w Q (p >>= f) s t ↔ Keeps w (fun a s t => Keeps w Q (f a) s t) p s t := by
  induction p generalizing s t with
  | done a =>
      rw [Calls.done_bind, keeps_done]
      constructor
      · intro h u hu
        exact h.rely hu
      · intro h
        exact h t (w.rely_refl t)
  | call c next ih =>
      rw [Calls.call_bind, keeps_call, keeps_call]
      simp only [ih]

/-- The second part may be proved from what the first is known to end with. -/
theorem Keeps.bind {Q : β → σ → τ → Prop} {P : α → σ → τ → Prop} {f : α → Calls C R β}
    (h : Keeps w P p s t) (hf : ∀ a s t, P a s t → Keeps w Q (f a) s t) :
    Keeps w Q (p >>= f) s t :=
  keeps_bind.mpr (h.mono hf)

/-! ## Runs -/

/-- What is left of the program at any point of a run keeps to the calls as well. -/
theorem Keeps.of_steps (h : Keeps w Q p s t) (hsteps : Steps w p s t q s' t') :
    Keeps w Q q s' t' := by
  induction hsteps with
  | refl p s t => exact h
  | others hrely _ ih => exact ih (h.rely hrely)
  | answer hacts _ ih => exact ih ((h _ (w.rely_refl _)).2 _ _ _ hacts)

/-- The next call of a run is legal. -/
theorem Steps.legal {c : C} {next : R c → Calls C R α}
    (hsteps : Steps w p s t (.call c next) s' t') (h : Keeps w Q p s t) : w.Legal s' t' c :=
  (h.of_steps hsteps t' (w.rely_refl t')).1

/-- A run that has stopped, stopped as it should. -/
theorem Steps.stopped {a : α} (hsteps : Steps w p s t (.done a) s' t') (h : Keeps w Q p s t) :
    Q a s' t' :=
  h.of_steps hsteps t' (w.rely_refl t')

theorem Steps.trans {p₁ p₂ p₃ : Calls C R α} {s₁ s₂ s₃ : σ} {t₁ t₂ t₃ : τ}
    (h : Steps w p₁ s₁ t₁ p₂ s₂ t₂) (h' : Steps w p₂ s₂ t₂ p₃ s₃ t₃) :
    Steps w p₁ s₁ t₁ p₃ s₃ t₃ := by
  induction h with
  | refl p s t => exact h'
  | others hrely _ ih => exact .others hrely (ih h')
  | answer hacts _ ih => exact .answer hacts (ih h')

/-- What every answer preserves of the caller's own state holds throughout a run. -/
theorem Steps.own {I : σ → Prop}
    (hI : ∀ {s t c r s' t'}, w.Acts s t c r s' t' → I s → I s')
    (hsteps : Steps w p s t q s' t') (h : I s) : I s' := by
  induction hsteps with
  | refl p s t => exact h
  | others _ _ ih => exact ih h
  | answer hacts _ ih => exact ih (hI hacts h)

/-- What changes in the course of a run, a call that can change it has changed. -/
theorem Steps.exists_call {I : σ → Prop} {Changes : C → Prop}
    (hI : ∀ {s t c r s' t'}, w.Acts s t c r s' t' → ¬Changes c → I s → I s')
    (hsteps : Steps w p s t q s' t') (h : I s) (hend : ¬I s') :
    ∃ c next s₁ t₁, Steps w p s t (.call c next) s₁ t₁ ∧ Changes c := by
  induction hsteps with
  | refl p s t => exact (hend h).elim
  | others hrely _ ih =>
      rcases ih h hend with ⟨c, next, s₁, t₁, hbefore, hchanges⟩
      exact ⟨c, next, s₁, t₁, .others hrely hbefore, hchanges⟩
  | @answer c next _ r s s₁ _ t _ _ hacts _ ih =>
      by_cases hchanges : Changes c
      · exact ⟨c, next, s, t, .refl _ s t, hchanges⟩
      · rcases ih (hI hacts hchanges h) hend with ⟨c', next', s', t', hbefore, hchanges'⟩
        exact ⟨c', next', s', t', .answer hacts hbefore, hchanges'⟩

/-- A program that may not stop, and whose legal calls get an answer unless they end the
run, comes to such a call: a program has no endless runs. -/
theorem Keeps.reaches {I : σ → Prop} {Final : C → Prop} (h : Keeps w Q p s t)
    (hI : ∀ {s t c r s' t'}, w.Acts s t c r s' t' → I s → I s')
    (hanswer : ∀ s t c, I s → w.Legal s t c → ¬Final c → ∃ r s' t', w.Acts s t c r s' t')
    (hstop : ∀ a s t, ¬Q a s t) (hs : I s) :
    ∃ c next s' t', Steps w p s t (.call c next) s' t' ∧ Final c := by
  induction p generalizing s t with
  | done a => exact (hstop a s t (h t (w.rely_refl t))).elim
  | call c next ih =>
      rcases h t (w.rely_refl t) with ⟨hlegal, hnext⟩
      by_cases hfinal : Final c
      · exact ⟨c, next, s, t, .refl _ s t, hfinal⟩
      · rcases hanswer s t c hs hlegal hfinal with ⟨r, s', t', hacts⟩
        rcases ih r (hnext r s' t' hacts) (hI hacts hs) with
          ⟨c', next', s'', t'', hsteps, hfinal'⟩
        exact ⟨c', next', s'', t'', .answer hacts hsteps, hfinal'⟩

/-- A program whose legal calls all get an answer can run to its end. -/
theorem Keeps.exists_end_of {I : σ → Prop} (h : Keeps w Q p s t)
    (hI : ∀ {s t c r s' t'}, w.Acts s t c r s' t' → I s → I s')
    (hanswer : ∀ s t c, I s → w.Legal s t c → ∃ r s' t', w.Acts s t c r s' t') (hs : I s) :
    ∃ a s' t', Steps w p s t (.done a) s' t' := by
  induction p generalizing s t with
  | done a => exact ⟨a, s, t, .refl _ s t⟩
  | call c next ih =>
      rcases h t (w.rely_refl t) with ⟨hlegal, hnext⟩
      rcases hanswer s t c hs hlegal with ⟨r, s', t', hacts⟩
      rcases ih r (hnext r s' t' hacts) (hI hacts hs) with ⟨a, s'', t'', hsteps⟩
      exact ⟨a, s'', t'', .answer hacts hsteps⟩

theorem Keeps.exists_end (h : Keeps w Q p s t)
    (hanswer : ∀ s t c, w.Legal s t c → ∃ r s' t', w.Acts s t c r s' t') :
    ∃ a s' t', Steps w p s t (.done a) s' t' :=
  h.exists_end_of (I := fun _ => True) (fun _ _ => trivial)
    (fun s t c _ hlegal => hanswer s t c hlegal) trivial

end Worlds

end Machine
