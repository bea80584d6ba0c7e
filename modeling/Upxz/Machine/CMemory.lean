import Upxz.Machine.Exec

/-!
# Machine - C strings and pointer vectors

Memory as a C program hands it to `open` or `exec`: a block of bytes is read as a
string up to its first NUL, a vector of pointers up to its first null pointer.  A slot
of a fresh vector holds nothing before it is stored.  Reading on past the end of a
block, or a slot that holds nothing, has no result.

Main results:

- Theorem `readCString_concat`: a NUL behind a string without one ends it.
- Theorem `store_filled`: storing into the first free slot of a vector.
- Theorem `readVector_filled`: a null pointer behind pointers that are not null ends
  the vector.
-/

namespace Machine

/-! ## Strings -/

/-- The C string at the start of a block. -/
def readCString (block : Bytes) : Option Bytes :=
  if 0 ∈ block then some (block.takeWhile (· ≠ 0)) else none

/-- A NUL behind a string without one ends it. -/
theorem readCString_concat {s : Bytes} (h : 0 ∉ s) : readCString (s ++ [0]) = some s := by
  have hall : ∀ b ∈ s, decide (b ≠ 0) = true := by
    intro b hb
    apply decide_eq_true
    intro hzero
    rw [hzero] at hb
    exact h hb
  have hmem : 0 ∈ s ++ [0] := List.mem_append_right s (List.mem_singleton_self 0)
  rw [readCString, if_pos hmem, List.takeWhile_append_of_pos hall]
  simp

/-! ## Vectors of pointers -/

/-- A pointer to a C string: the null pointer, one to a block of the program's own, or
one that was passed to it. -/
inductive Pointer (α : Type) where
  | null
  | own (block : Bytes)
  | passed (a : α)
deriving DecidableEq, Repr

/-- The slots of a vector, each with its pointer or nothing yet. -/
abbrev Slots (α : Type) := List (Option (Pointer α))

/-- Slots of which the first hold the given pointers and the last `k` nothing. -/
def filled {α : Type} (ps : List (Pointer α)) (k : Nat) : Slots α :=
  ps.map some ++ List.replicate k none

/-- The pointers of a vector in front of its first null pointer. -/
def readVector {α : Type} : Slots α → Option (List (Pointer α))
  | [] => none
  | none :: _ => none
  | some .null :: _ => some []
  | some p :: rest => (readVector rest).map (p :: ·)

section Vectors

variable {α : Type}

@[simp]
theorem filled_length (ps : List (Pointer α)) (k : Nat) :
    (filled ps k).length = ps.length + k := by
  rw [filled, List.length_append, List.length_map, List.length_replicate]

/-- A store into the first free slot. -/
theorem store_filled (ps : List (Pointer α)) (k : Nat) (p : Pointer α) :
    store (filled ps (k + 1)) ps.length (some p) = .ok (filled (ps ++ [p]) k) := by
  have hlen : (ps.map some).length = ps.length := List.length_map some
  rw [store_ok _ (by rw [filled_length]; omega)]
  unfold filled
  rw [List.set_append_right _ _ (Nat.le_of_eq hlen), hlen, Nat.sub_self, List.replicate_succ,
    List.set_cons_zero, List.map_append, List.append_assoc]
  rfl

/-- A null pointer behind pointers that are not null ends the vector. -/
theorem readVector_filled {ps : List (Pointer α)} (h : .null ∉ ps) (k : Nat) :
    readVector (filled (ps ++ [.null]) k) = some ps := by
  induction ps with
  | nil => rfl
  | cons p ps ih =>
      rw [List.mem_cons, not_or] at h
      rcases h with ⟨hp, hps⟩
      have hrest := ih hps
      cases p with
      | null => exact (hp rfl).elim
      | own block =>
          change (readVector (filled (ps ++ [.null]) k)).map _ = _
          rw [hrest]
          rfl
      | passed a =>
          change (readVector (filled (ps ++ [.null]) k)).map _ = _
          rw [hrest]
          rfl

end Vectors

end Machine
