import Mathlib.Logic.Function.Basic
import Upxz.Machine.Calls

/-!
# Machine - Parties that share a state

Any number of programs run side by side.  Each has a state of its own and a world of
its own; the shared state is one for all.  A schedule lets the parties make their calls
in any order, one call at a time.

Main results:

- Theorem `Interleaves.keeps`: when the legal calls of every party do to the shared
  state only what every other party allows for, each party keeps to its calls in every
  interleaving.
- Theorem `Interleaves.legal`: so no party makes an illegal call in any of them.
- Theorem `AllKeep.reaches`: and a party that may not stop can go on to the end of its run.
- Theorem `AllKeep.exists_end`: as can a party whose calls all get an answer.
-/

namespace Machine

/-- What each party has left to do, its own state, and the shared state. -/
structure Parties (ι C : Type) (R : C → Type) (σ τ α : Type) where
  prog : ι → Calls C R α
  own : ι → σ
  shared : τ

section Interleavings

variable {ι C : Type} [DecidableEq ι] {R : C → Type} {σ τ α : Type} (w : ι → World C R σ τ)

/-- The parties after one of them got an answer to its call. -/
def Parties.move (all : Parties ι C R σ τ α) (i : ι) (p : Calls C R α) (s : σ) (t : τ) :
    Parties ι C R σ τ α where
  prog := Function.update all.prog i p
  own := Function.update all.own i s
  shared := t

/-- The parties make their calls in some order. -/
inductive Interleaves : Parties ι C R σ τ α → Parties ι C R σ τ α → Prop
  | refl (all : Parties ι C R σ τ α) : Interleaves all all
  | answer {all last : Parties ι C R σ τ α} {i : ι} {c : C} {next : R c → Calls C R α} {r : R c}
      {s : σ} {t : τ} (turn : all.prog i = .call c next)
      (acts : (w i).Acts (all.own i) all.shared c r s t)
      (rest : Interleaves (all.move i (next r) s t) last) : Interleaves all last

/-- What a party does to the shared state with a legal call, every other party allows
for. -/
def Guarantees : Prop :=
  ∀ {i j : ι}, i ≠ j → ∀ {s s' : σ} {t t' : τ} {c : C} {r : R c},
    (w i).Legal s t c → (w i).Acts s t c r s' t' → (w j).Rely t t'

/-- Every party keeps to its calls from here on. -/
def AllKeep (Q : ι → α → σ → τ → Prop) (all : Parties ι C R σ τ α) : Prop :=
  ∀ i, Keeps (w i) (Q i) (all.prog i) (all.own i) all.shared

variable {w} {Q : ι → α → σ → τ → Prop} {all last : Parties ι C R σ τ α}

/-- One call of one party. -/
theorem AllKeep.move (h : AllKeep w Q all) (hguarantee : Guarantees w) {i : ι} {c : C}
    {next : R c → Calls C R α} {r : R c} {s : σ} {t : τ} (hturn : all.prog i = .call c next)
    (hacts : (w i).Acts (all.own i) all.shared c r s t) :
    AllKeep w Q (all.move i (next r) s t) := by
  have hi := h i
  rw [hturn] at hi
  rcases hi all.shared ((w i).rely_refl _) with ⟨hlegal, hnext⟩
  intro j
  by_cases hij : j = i
  · subst hij
    simp only [Parties.move, Function.update_self]
    exact hnext r s t hacts
  · simp only [Parties.move, Function.update_of_ne hij]
    exact (h j).rely (hguarantee (Ne.symm hij) hlegal hacts)

/-- In every interleaving each party keeps to its calls, as if it were alone with
whatever it allows the others to do. -/
theorem Interleaves.keeps (hrun : Interleaves w all last) (hguarantee : Guarantees w)
    (h : AllKeep w Q all) : AllKeep w Q last := by
  induction hrun with
  | refl all => exact h
  | answer hturn hacts _ ih => exact ih (h.move hguarantee hturn hacts)

/-- No party makes an illegal call. -/
theorem Interleaves.legal (hrun : Interleaves w all last) (hguarantee : Guarantees w)
    (h : AllKeep w Q all) {i : ι} {c : C} {next : R c → Calls C R α}
    (hturn : last.prog i = .call c next) : (w i).Legal (last.own i) last.shared c := by
  have hi := hrun.keeps hguarantee h i
  rw [hturn] at hi
  exact (hi last.shared ((w i).rely_refl _)).1

/-- A party that stopped, stopped as it should. -/
theorem Interleaves.stopped (hrun : Interleaves w all last) (hguarantee : Guarantees w)
    (h : AllKeep w Q all) {i : ι} {a : α} (hdone : last.prog i = .done a) :
    Q i a (last.own i) last.shared := by
  have hi := hrun.keeps hguarantee h i
  rw [hdone] at hi
  exact hi last.shared ((w i).rely_refl _)

/-- What every answer preserves of a party's own state holds in every interleaving. -/
theorem Interleaves.own {I : σ → Prop}
    (hI : ∀ {i s t c r s' t'}, (w i).Acts s t c r s' t' → I s → I s')
    (hrun : Interleaves w all last) (h : ∀ i, I (all.own i)) (i : ι) : I (last.own i) := by
  induction hrun with
  | refl all => exact h i
  | @answer all last j c next r s t hturn hacts _ ih =>
      apply ih
      intro k
      by_cases hkj : k = j
      · subst hkj
        simp only [Parties.move, Function.update_self]
        exact hI hacts (h k)
      · simp only [Parties.move, Function.update_of_ne hkj]
        exact h k

/-- In every interleaving a party that may not stop can go on, alone, to a call that ends
its run. -/
theorem AllKeep.reaches (hguarantee : Guarantees w) {I : σ → Prop} {Final : C → Prop} (i : ι)
    (hI : ∀ {s t c r s' t'}, (w i).Acts s t c r s' t' → I s → I s')
    (hanswer : ∀ s t c, I s → (w i).Legal s t c → ¬Final c → ∃ r s' t', (w i).Acts s t c r s' t')
    (hstop : ∀ a s t, ¬Q i a s t) (h : AllKeep w Q all) (hs : I (all.own i)) :
    ∃ last c next, Interleaves w all last ∧ last.prog i = .call c next ∧ Final c := by
  generalize hprog : all.prog i = p
  induction p generalizing all with
  | done a =>
      have hi := h i
      rw [hprog] at hi
      exact (hstop a _ _ (hi all.shared ((w i).rely_refl _))).elim
  | call c next ih =>
      by_cases hfinal : Final c
      · exact ⟨all, c, next, .refl all, hprog, hfinal⟩
      · have hi := h i
        rw [hprog] at hi
        have hlegal := (hi all.shared ((w i).rely_refl _)).1
        rcases hanswer _ _ c hs hlegal hfinal with ⟨r, s, t, hacts⟩
        have hmoved := h.move hguarantee hprog hacts
        have hown : I ((all.move i (next r) s t).own i) := by
          simp only [Parties.move, Function.update_self]
          exact hI hacts hs
        have hleft : (all.move i (next r) s t).prog i = next r := by
          simp only [Parties.move, Function.update_self]
        rcases ih r hmoved hown hleft with ⟨last, c', next', hrun, hturn, hend⟩
        exact ⟨last, c', next', .answer hprog hacts hrun, hturn, hend⟩

/-- In every interleaving a party whose legal calls all get an answer can go on, alone, to its
end. -/
theorem AllKeep.exists_end (hguarantee : Guarantees w) (i : ι)
    (hanswer : ∀ s t c, (w i).Legal s t c → ∃ r s' t', (w i).Acts s t c r s' t')
    (h : AllKeep w Q all) : ∃ last a, Interleaves w all last ∧ last.prog i = .done a := by
  generalize hprog : all.prog i = p
  induction p generalizing all with
  | done a => exact ⟨all, a, .refl all, hprog⟩
  | call c next ih =>
      have hi := h i
      rw [hprog] at hi
      have hlegal := (hi all.shared ((w i).rely_refl _)).1
      rcases hanswer _ _ c hlegal with ⟨r, s, t, hacts⟩
      have hleft : (all.move i (next r) s t).prog i = next r := by
        simp only [Parties.move, Function.update_self]
      rcases ih r (h.move hguarantee hprog hacts) hleft with ⟨last, a, hrun, hdone⟩
      exact ⟨last, a, .answer hprog hacts hrun, hdone⟩

end Interleavings

end Machine
