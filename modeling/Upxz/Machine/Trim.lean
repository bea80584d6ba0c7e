import Mathlib.Data.List.DropRight
import Mathlib.Order.Monotone.Basic
import Mathlib.Order.Nat

/-!
# Machine - Stripping and trimming

Three ways to shorten a list: take a prefix off its front, once; take every
occurrence of one element off its end; and cut it off at the last occurrence of one.
The lemmas say what they make of a list that was lengthened at either end.

Main results:

- Theorem `trimEnd_replicate`: what is appended to be trimmed leaves no trace.
- Theorem `trimEnd_append_injective`: putting a nonempty lead in front again and again
  gives lists that stay distinct when trimmed.
- Theorem `beforeLast_eq_some_iff`: what is cut off begins with the element and has no
  other.
-/

namespace Machine

variable {α : Type} [DecidableEq α]

/-- Take a prefix off the front of a list, if it is there. -/
def stripFront (lead s : List α) : List α :=
  if lead <+: s then s.drop lead.length else s

/-- Take an element off the end of a list, as often as it is there. -/
def trimEnd (s : List α) (a : α) : List α :=
  s.rdropWhile (· == a)

/-- What stands in front of the last occurrence of an element, if it occurs. -/
def beforeLast (s : List α) (a : α) : Option (List α) :=
  if a ∈ s then some (s.rdropWhile (· ≠ a)).dropLast else none

/-! ## Stripping -/

@[simp]
theorem stripFront_append (lead s : List α) : stripFront lead (lead ++ s) = s := by
  rw [stripFront, if_pos (List.prefix_append lead s), List.drop_left]

theorem stripFront_of_not {lead s : List α} (h : ¬lead <+: s) : stripFront lead s = s :=
  if_neg h

/-! ## Trimming -/

@[simp]
theorem trimEnd_nil (a : α) : trimEnd ([] : List α) a = [] :=
  List.rdropWhile_nil _

@[simp]
theorem trimEnd_concat (s : List α) (a : α) : trimEnd (s ++ [a]) a = trimEnd s a :=
  List.rdropWhile_concat_pos _ _ _ (beq_self_eq_true a)

@[simp]
theorem trimEnd_idem (s : List α) (a : α) : trimEnd (trimEnd s a) a = trimEnd s a :=
  List.rdropWhile_idempotent _ _

theorem trimEnd_isPrefix (s : List α) (a : α) : trimEnd s a <+: s :=
  List.rdropWhile_prefix _ s

/-- Appended copies of the trimmed element leave no trace. -/
@[simp]
theorem trimEnd_replicate (s : List α) (a : α) (k : Nat) :
    trimEnd (s ++ List.replicate k a) a = trimEnd s a := by
  induction k with
  | zero => rw [List.replicate_zero, List.append_nil]
  | succ k ih => rw [List.replicate_succ', ← List.append_assoc, trimEnd_concat, ih]

/-- A lead that does not end in the trimmed element stays as it is. -/
theorem trimEnd_append {lead : List α} (s : List α) {a : α} (h : trimEnd s a ≠ []) :
    trimEnd (lead ++ s) a = lead ++ trimEnd s a := by
  unfold trimEnd at h ⊢
  induction s using List.reverseRecOn with
  | nil => exact (h rfl).elim
  | append_singleton s x ih =>
      rw [← List.append_assoc, List.rdropWhile_concat]
      rw [List.rdropWhile_concat] at h ⊢
      split_ifs at h ⊢ with hx
      · exact ih h
      · rw [List.append_assoc]

/-- A lead in front of nothing but trimmed elements is trimmed itself. -/
theorem trimEnd_append_of_nil {lead : List α} (s : List α) {a : α} (h : trimEnd s a = []) :
    trimEnd (lead ++ s) a = trimEnd lead a := by
  unfold trimEnd at h ⊢
  induction s using List.reverseRecOn with
  | nil => rw [List.append_nil]
  | append_singleton s x ih =>
      rw [List.rdropWhile_concat] at h
      split_ifs at h with hx
      · rw [← List.append_assoc, List.rdropWhile_concat, if_pos hx, ih h]
      · simp at h

/-- A lead that is not trimmed away makes every trimmed list longer. -/
theorem trimEnd_length_lt {lead : List α} {a : α} (hlead : trimEnd lead a ≠ []) (s : List α) :
    (trimEnd s a).length < (trimEnd (lead ++ s) a).length := by
  by_cases h : trimEnd s a = []
  · rw [trimEnd_append_of_nil s h, h, List.length_nil]
    exact List.length_pos_of_ne_nil hlead
  · have hne : lead ≠ [] := by
      intro hnil
      rw [hnil, trimEnd_nil] at hlead
      exact hlead rfl
    rw [trimEnd_append s h, List.length_append]
    have hpos := List.length_pos_of_ne_nil hne
    omega

/-- The same lead put in front `i` times and `j` times makes the same trimmed list only
when `i = j`. -/
theorem trimEnd_append_injective {lead : List α} {a : α} (hlead : trimEnd lead a ≠ [])
    (s : List α) {i j : Nat}
    (h : trimEnd ((List.replicate i lead).flatten ++ s) a =
      trimEnd ((List.replicate j lead).flatten ++ s) a) : i = j := by
  have hmono : StrictMono fun i =>
      (trimEnd ((List.replicate i lead).flatten ++ s) a).length := by
    apply strictMono_nat_of_lt_succ
    intro n
    rw [List.replicate_succ, List.flatten_cons, List.append_assoc]
    exact trimEnd_length_lt hlead _
  exact hmono.injective (congrArg List.length h)

/-! ## Cutting -/

theorem beforeLast_of_not_mem {s : List α} {a : α} (h : a ∉ s) : beforeLast s a = none :=
  if_neg h

/-- Behind the last occurrence there is none. -/
theorem beforeLast_append {x y : List α} {a : α} (h : a ∉ y) :
    beforeLast (x ++ a :: y) a = some x := by
  have hdrop : (x ++ a :: y).rdropWhile (· ≠ a) = x ++ [a] := by
    induction y using List.reverseRecOn with
    | nil =>
        apply List.rdropWhile_concat_neg
        simp
    | append_singleton y b ih =>
        rw [List.mem_append, not_or, List.mem_singleton] at h
        rw [← List.cons_append, ← List.append_assoc, List.rdropWhile_concat_pos, ih h.1]
        exact decide_eq_true (Ne.symm h.2)
  rw [beforeLast, if_pos (List.mem_append_right x List.mem_cons_self), hdrop, List.dropLast_concat]

theorem beforeLast_eq_some_iff {s x : List α} {a : α} :
    beforeLast s a = some x ↔ ∃ y, a ∉ y ∧ s = x ++ a :: y := by
  constructor
  · intro h
    by_cases hmem : a ∈ s
    · rcases List.eq_append_cons_of_mem (List.mem_reverse.mpr hmem) with ⟨back, front, hs, hback⟩
      have hsplit : s = front.reverse ++ a :: back.reverse := by
        rw [← List.reverse_reverse s, hs]
        simp
      have hlast : a ∉ back.reverse := by
        rw [List.mem_reverse]
        exact hback
      rw [hsplit, beforeLast_append hlast] at h
      exact ⟨back.reverse, hlast, Option.some.inj h ▸ hsplit⟩
    · rw [beforeLast_of_not_mem hmem] at h
      cases h
  · intro h
    rcases h with ⟨y, hy, rfl⟩
    exact beforeLast_append hy

end Machine
