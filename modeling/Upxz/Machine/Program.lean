import Upxz.Machine.Exec

/-!
# Machine - Programs over a state

A program reads and changes a state and stops with an outcome; the state it
leaves is known whatever the outcome is.  Its queries leave the state alone, so
a program that starts with queries can be read off one query at a time.

Main results:

- Theorem `query_bind_refusesOr`: a program that starts with a query refuses
  with it and leaves the state alone, or goes on in the same state.
- Theorem `runAll_invariant`: what every program of a sequence preserves, the
  sequence preserves.
-/

namespace Machine

/-- A program over a state: its outcome, and the state it leaves. -/
def Program (σ ε α : Type) : Type := σ → Exec ε α × σ

namespace Program

variable {σ ε ε' α β γ : Type}

/-- Run a program from a state. -/
def run (x : Program σ ε α) (s : σ) : Exec ε α × σ := x s

/-! ## Sequencing -/

/-- A program that fails stops there, and what it did to the state stays done. -/
instance : Monad (Program σ ε) where
  pure a := fun s => (.ok a, s)
  bind x f := fun s =>
    match x.run s with
    | (.ok a, s') => (f a).run s'
    | (.error fault, s') => (.error fault, s')

/-- Look at the state without changing it. -/
def query (f : σ → Exec ε α) : Program σ ε α := fun s => (f s, s)

/-- A computation that does not look at the state. -/
abbrev lift (x : Exec ε α) : Program σ ε α := query fun _ => x

/-- Reword the errors of a program. -/
def mapError (f : ε → ε') (x : Program σ ε α) : Program σ ε' α := fun s =>
  match x.run s with
  | (.ok a, s') => (.ok a, s')
  | (.error (.err e), s') => (.error (.err (f e)), s')
  | (.error (.panic why), s') => (.error (.panic why), s')
  | (.error .timeout, s') => (.error .timeout, s')

@[simp]
theorem run_pure (a : α) (s : σ) : (pure a : Program σ ε α).run s = (.ok a, s) :=
  rfl

@[simp]
theorem run_query (f : σ → Exec ε α) (s : σ) : (query f).run s = (f s, s) :=
  rfl

theorem run_bind_of_ok {x : Program σ ε α} {f : α → Program σ ε β} {s s' : σ} {a : α}
    (h : x.run s = (.ok a, s')) : (x >>= f).run s = (f a).run s' := by
  change (match x.run s with
    | (.ok a, s') => (f a).run s'
    | (.error fault, s') => (.error fault, s')) = _
  rw [h]

theorem run_bind_of_error {x : Program σ ε α} {f : α → Program σ ε β} {s s' : σ}
    {fault : Fault ε} (h : x.run s = (.error fault, s')) :
    (x >>= f).run s = (.error fault, s') := by
  change (match x.run s with
    | (.ok a, s') => (f a).run s'
    | (.error fault, s') => (.error fault, s')) = _
  rw [h]

/-- A sequence that ends well does both its parts. -/
theorem run_bind_eq_ok_iff {x : Program σ ε α} {f : α → Program σ ε β} {s s' : σ} {b : β} :
    (x >>= f).run s = (.ok b, s') ↔
      ∃ a mid, x.run s = (.ok a, mid) ∧ (f a).run mid = (.ok b, s') := by
  constructor
  · intro h
    rcases hx : x.run s with ⟨outcome, mid⟩
    cases outcome with
    | ok a => exact ⟨a, mid, rfl, by rwa [run_bind_of_ok hx] at h⟩
    | error fault =>
        rw [run_bind_of_error hx] at h
        cases h
  · intro h
    rcases h with ⟨a, mid, hx, hf⟩
    rw [run_bind_of_ok hx, hf]

theorem run_query_bind_of_ok {f : σ → Exec ε α} {g : α → Program σ ε β} {s : σ} {a : α}
    (h : f s = .ok a) : (query f >>= g).run s = (g a).run s :=
  run_bind_of_ok (by rw [run_query, h])

theorem run_query_bind_of_error {f : σ → Exec ε α} {g : α → Program σ ε β} {s : σ}
    {fault : Fault ε} (h : f s = .error fault) :
    (query f >>= g).run s = (.error fault, s) :=
  run_bind_of_error (by rw [run_query, h])

/-- A sequence that starts with a query ends well when the query does, and the rest from the
same state. -/
theorem run_query_bind_eq_ok_iff {f : σ → Exec ε α} {g : α → Program σ ε β} {s s' : σ} {b : β} :
    (query f >>= g).run s = (.ok b, s') ↔ ∃ a, f s = .ok a ∧ (g a).run s = (.ok b, s') := by
  cases hf : f s with
  | ok a => simp [run_query_bind_of_ok hf]
  | error fault => simp [run_query_bind_of_error hf]

/-- It is clean when the query is, and the rest from the same state. -/
theorem query_bind_clean {f : σ → Exec ε α} {g : α → Program σ ε β} {s : σ} (hf : Clean (f s))
    (hg : ∀ a, f s = .ok a → Clean ((g a).run s).1) : Clean ((query f >>= g).run s).1 := by
  rcases hf with ⟨a, hok⟩ | ⟨e, herror⟩
  · rw [run_query_bind_of_ok hok]
    exact hg a hok
  · rw [run_query_bind_of_error herror]
    exact clean_err e

theorem run_mapError_of_ok {f : ε → ε'} {x : Program σ ε α} {s s' : σ} {a : α}
    (h : x.run s = (.ok a, s')) : (mapError f x).run s = (.ok a, s') := by
  simp only [run, mapError] at h ⊢
  rw [h]

/-- A program that stopped and left the state as it was. -/
def Refused (s : σ) (r : Exec ε α × σ) : Prop :=
  ∃ fault, r = (.error fault, s)

theorem not_refused_of_ok {s : σ} {r : Exec ε α × σ} {a : α} (h : r.1 = .ok a) :
    ¬Refused s r := by
  intro hrefused
  rcases hrefused with ⟨fault, rfl⟩
  cases h

/-- A program that refuses, refuses with reworded errors. -/
theorem Refused.mapError {f : ε → ε'} {x : Program σ ε α} {s s₀ : σ}
    (h : Refused s₀ (x.run s)) : Refused s₀ ((mapError f x).run s) := by
  rcases h with ⟨fault, hx⟩
  simp only [run, Program.mapError] at hx ⊢
  rw [hx]
  cases fault with
  | err e => exact ⟨_, rfl⟩
  | panic why => exact ⟨_, rfl⟩
  | timeout => exact ⟨_, rfl⟩

/-- A program whose first part refuses, refuses. -/
theorem Refused.bind {x : Program σ ε α} {f : α → Program σ ε β} {s s₀ : σ}
    (h : Refused s₀ (x.run s)) : Refused s₀ ((x >>= f).run s) := by
  rcases h with ⟨fault, hx⟩
  exact ⟨fault, run_bind_of_error hx⟩

/-- The program refused, or what it did instead is described by `W`. -/
def RefusesOr (s : σ) (W : Exec ε α × σ → Prop) (r : Exec ε α × σ) : Prop :=
  Refused s r ∨ W r

/-- A program that starts with a query refuses with it, or goes on after it. -/
theorem query_bind_refusesOr {W : Exec ε β × σ → Prop} {f : σ → Exec ε α}
    {g : α → Program σ ε β} {s : σ}
    (hok : ∀ a, f s = .ok a → RefusesOr s W ((g a).run s)) :
    RefusesOr s W ((query f >>= g).run s) := by
  cases hf : f s with
  | error fault =>
      have hquery : (query f).run s = (.error fault, s) := by rw [run_query, hf]
      exact Or.inl ⟨fault, run_bind_of_error hquery⟩
  | ok a =>
      have hquery : (query f).run s = (.ok a, s) := by rw [run_query, hf]
      rw [run_bind_of_ok hquery]
      exact hok a hf

/-! ## Sequences of programs -/

/-- Run one program after another, whatever the outcome of each. -/
def runAll (program : γ → Program σ ε α) (inputs : List γ) (s : σ) : σ :=
  inputs.foldl (fun s input => ((program input).run s).2) s

/-- What every program of a sequence preserves, the sequence preserves. -/
theorem runAll_invariant {I : σ → Prop} {program : γ → Program σ ε α} {inputs : List γ}
    (hstep : ∀ input ∈ inputs, ∀ s, I s → I ((program input).run s).2) {s : σ} (h : I s) :
    I (runAll program inputs s) := by
  induction inputs generalizing s with
  | nil => exact h
  | cons input inputs ih =>
      rcases List.forall_mem_cons.mp hstep with ⟨hhead, htail⟩
      exact ih htail (hhead s h)

end Program
end Machine
