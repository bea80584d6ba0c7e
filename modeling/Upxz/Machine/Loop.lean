import Upxz.Machine.Exec

/-!
# Machine - Loops that leave from inside

A loop without a bound of its own: each turn either leaves it with a value or
goes round again from a new state.  It runs with a number of turns granted; how
it ends does not depend on that number, so ending is a relation between the first
state and the value it leaves with.

Main results:

- Theorem `exists_turns_iff`: running with enough turns computes that relation.
- Theorem `exists_leavesWith_of_variant`: a loop leaves when a measure goes down
  at every turn.
- Theorem `not_leavesWith_of_invariant`: a loop that can only go round again never
  leaves.
-/

namespace Machine

/-- What one turn of a loop does. -/
inductive Turn (σ β : Type) where
  | leave (b : β)
  | again (s : σ)
deriving DecidableEq, Repr

/-- Run a loop for at most `fuel` turns. -/
def turns {σ β : Type} (body : σ → Turn σ β) : (fuel : Nat) → σ → Option β
  | 0, _ => none
  | fuel + 1, s =>
      match body s with
      | .leave b => some b
      | .again s' => turns body fuel s'

/-- The loop entered in a state leaves with a value, after some number of turns. -/
inductive LeavesWith {σ β : Type} (body : σ → Turn σ β) : σ → β → Prop
  | now {s : σ} {b : β} (h : body s = .leave b) : LeavesWith body s b
  | later {s s' : σ} {b : β} (h : body s = .again s') (hrest : LeavesWith body s' b) :
      LeavesWith body s b

section Loops

variable {σ β : Type} {body : σ → Turn σ β}

/-- Some number of turns is enough exactly when the loop leaves. -/
theorem exists_turns_iff {s : σ} {b : β} :
    (∃ fuel, turns body fuel s = some b) ↔ LeavesWith body s b := by
  constructor
  · intro h
    rcases h with ⟨fuel, h⟩
    induction fuel generalizing s with
    | zero => cases h
    | succ fuel ih =>
        rw [turns] at h
        cases hturn : body s with
        | leave b' =>
            rw [hturn] at h
            cases h
            exact .now hturn
        | again s' =>
            rw [hturn] at h
            exact .later hturn (ih h)
  · intro h
    induction h with
    | now h => exact ⟨1, by rw [turns, h]⟩
    | later h _ ih =>
        rcases ih with ⟨fuel, ih⟩
        exact ⟨fuel + 1, by rw [turns, h]; exact ih⟩

/-- A loop leaves with one value only. -/
theorem LeavesWith.unique {s : σ} {b b' : β} (h : LeavesWith body s b)
    (h' : LeavesWith body s b') : b = b' := by
  induction h with
  | now hturn =>
      cases h' with
      | now hturn' =>
          rw [hturn] at hturn'
          cases hturn'
          rfl
      | later hturn' _ =>
          rw [hturn] at hturn'
          cases hturn'
  | later hturn _ ih =>
      cases h' with
      | now hturn' =>
          rw [hturn] at hturn'
          cases hturn'
      | later hturn' hrest' =>
          rw [hturn] at hturn'
          cases hturn'
          exact ih hrest'

/-- What holds of every state the loop comes through decides what it leaves with. -/
theorem LeavesWith.post {I : σ → Prop} {Q : β → Prop}
    (hagain : ∀ s s', I s → body s = .again s' → I s')
    (hleave : ∀ s b, I s → body s = .leave b → Q b) {s : σ} {b : β}
    (h : LeavesWith body s b) (hs : I s) : Q b := by
  induction h with
  | now hturn => exact hleave _ _ hs hturn
  | later hturn _ ih => exact ih (hagain _ _ hs hturn)

/-- A loop leaves when a measure goes down at every turn that does not leave. -/
theorem exists_leavesWith_of_variant {I : σ → Prop} (measure : σ → Nat)
    (hagain : ∀ s s', I s → body s = .again s' → I s' ∧ measure s' < measure s) {s : σ}
    (hs : I s) : ∃ b, LeavesWith body s b := by
  induction hm : measure s using Nat.strongRecOn generalizing s with
  | ind m ih =>
      cases hturn : body s with
      | leave b => exact ⟨b, .now hturn⟩
      | again s' =>
          rcases hagain s s' hs hturn with ⟨hs', hlt⟩
          rcases ih (measure s') (hm ▸ hlt) hs' rfl with ⟨b, hrest⟩
          exact ⟨b, .later hturn hrest⟩

/-- A loop whose every turn goes round again never leaves. -/
theorem not_leavesWith_of_invariant {I : σ → Prop}
    (hagain : ∀ s, I s → ∃ s', body s = .again s' ∧ I s') {s : σ} (hs : I s) (b : β) :
    ¬LeavesWith body s b := by
  intro h
  refine LeavesWith.post (Q := fun _ => False) ?_ ?_ h hs
  · intro s s' hs hturn
    rcases hagain s hs with ⟨t, ht, hit⟩
    rw [hturn] at ht
    cases ht
    exact hit
  · intro s b hs hturn
    rcases hagain s hs with ⟨t, ht, -⟩
    rw [hturn] at ht
    cases ht

end Loops

end Machine
