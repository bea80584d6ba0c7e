import Mathlib.Logic.Function.Basic
import Mathlib.Data.Set.Finite.Basic
import Upxz.Machine.CMemory

/-!
# Machine - Blocks of memory

Memory as a program without bounds checks sees it: blocks of cells, each cell written or
not.  A block is found under its address as long as it is live.

Main results:

- Theorem `overwrite_front`: writing behind a written front extends the front.
- Theorem `Holds.unique`: cells hold one string of a given length.
- Theorems `Memory.drop_put` and `Memory.drop_put_of_ne`: freeing a block that was just
  put, and one that was there before.
- Theorem `Memory.Finitary.exists_free`: memory with finitely many live blocks never runs
  out of addresses.
-/

namespace Machine

/-! ## Cells -/

/-- Cells of a block; `none` was never written. -/
abbrev Cells (α : Type) := List (Option α)

/-- Cells nothing was written to. -/
def fresh (α : Type) (n : Nat) : Cells α :=
  List.replicate n none

section Cells

variable {α : Type}

@[simp]
theorem fresh_length (n : Nat) : (fresh α n).length = n :=
  List.length_replicate

/-- From the offset on the cells hold the given values. -/
def Holds (cells : Cells α) (offset : Nat) (values : List α) : Prop :=
  (cells.drop offset).take values.length = values.map some

/-- Some values of the given number stand at the offset: every cell there was written. -/
def Written (cells : Cells α) (offset count : Nat) : Prop :=
  ∃ values : List α, values.length = count ∧ Holds cells offset values

/-- Write values into the cells from the offset on. -/
def overwrite (cells : Cells α) (offset : Nat) (values : List α) : Cells α :=
  cells.take offset ++ values.map some ++ cells.drop (offset + values.length)

/-- Cells hold one string of values of a given length. -/
theorem Holds.unique {cells : Cells α} {offset : Nat} {values values' : List α}
    (h : Holds cells offset values) (h' : Holds cells offset values')
    (hlen : values.length = values'.length) : values = values' := by
  unfold Holds at h h'
  rw [hlen, h'] at h
  exact ((List.map_inj_right fun _ _ hsome => Option.some.inj hsome).mp h).symm

/-- A written front holds every part of what was written to it. -/
theorem holds_part (values : List α) (rest : Cells α) {offset count : Nat}
    (h : offset + count ≤ values.length) :
    Holds (values.map some ++ rest) offset ((values.drop offset).take count) := by
  have hlen : ((values.drop offset).take count).length = count := by
    rw [List.length_take, List.length_drop]
    omega
  unfold Holds
  rw [hlen, List.drop_append_of_le_length (by rw [List.length_map]; omega),
    List.take_append_of_le_length (by rw [List.length_drop, List.length_map]; omega),
    List.map_take, List.map_drop]

theorem written_part (values : List α) (rest : Cells α) {offset count : Nat}
    (h : offset + count ≤ values.length) :
    Written (values.map some ++ rest) offset count := by
  refine ⟨(values.drop offset).take count, ?_, holds_part values rest h⟩
  rw [List.length_take, List.length_drop]
  omega

@[simp]
theorem overwrite_length {cells : Cells α} {offset : Nat} {values : List α}
    (h : offset + values.length ≤ cells.length) :
    (overwrite cells offset values).length = cells.length := by
  unfold overwrite
  rw [List.length_append, List.length_append, List.length_take, List.length_map,
    List.length_drop]
  omega

@[simp]
theorem overwrite_nil (cells : Cells α) (offset : Nat) : overwrite cells offset [] = cells := by
  simp [overwrite]

/-- Writing behind a written front extends the front. -/
theorem overwrite_front (front values : List α) (rest : Cells α) :
    overwrite (front.map some ++ rest) front.length values =
      (front ++ values).map some ++ rest.drop values.length := by
  have hfront : (front.map some).length = front.length := List.length_map some
  unfold overwrite
  rw [List.take_left' hfront, List.map_append, ← hfront, List.drop_append,
    List.drop_of_length_le (Nat.le_add_right _ _), Nat.add_sub_cancel_left, List.nil_append]

end Cells

/-! ## Memory -/

/-- The live blocks. -/
abbrev Memory (κ β : Type) := κ → Option β

namespace Memory

variable {κ β : Type}

/-- Only finitely many blocks are live. -/
def Finitary (mem : Memory κ β) : Prop :=
  Set.Finite {a | mem a ≠ none}

/-- So one of any infinitely many addresses is free. -/
theorem Finitary.exists_free {ι : Type} [Infinite ι] {mem : Memory κ β} (h : mem.Finitary)
    {place : ι → κ} (hplace : Function.Injective place) : ∃ i, mem (place i) = none := by
  rcases (Set.Finite.preimage hplace.injOn h).exists_notMem with ⟨i, hi⟩
  refine ⟨i, ?_⟩
  simpa using hi

variable [DecidableEq κ]

/-- Put a block at an address. -/
def put (mem : Memory κ β) (a : κ) (block : β) : Memory κ β :=
  Function.update mem a (some block)

/-- Forget the block at an address. -/
def drop (mem : Memory κ β) (a : κ) : Memory κ β :=
  Function.update mem a none

@[simp]
theorem put_same (mem : Memory κ β) (a : κ) (block : β) : mem.put a block a = some block :=
  Function.update_self ..

@[simp]
theorem put_of_ne {mem : Memory κ β} {a b : κ} (block : β) (h : b ≠ a) :
    mem.put a block b = mem b :=
  Function.update_of_ne h ..

@[simp]
theorem put_put (mem : Memory κ β) (a : κ) (block block' : β) :
    (mem.put a block).put a block' = mem.put a block' :=
  Function.update_idem ..

/-- Freeing a block that was put at a free address. -/
theorem drop_put {mem : Memory κ β} {a : κ} (block : β) (h : mem a = none) :
    (mem.put a block).drop a = mem := by
  rw [put, drop, Function.update_idem, ← h]
  exact Function.update_eq_self a mem

/-- Freeing a block that was there before another was put. -/
theorem drop_put_of_ne (mem : Memory κ β) {a b : κ} (block : β) (h : a ≠ b) :
    (mem.put a block).drop b = (mem.drop b).put a block :=
  Function.update_comm h ..

/-- Putting two blocks in the other order. -/
theorem put_comm (mem : Memory κ β) {a b : κ} (block block' : β) (h : a ≠ b) :
    (mem.put a block).put b block' = (mem.put b block').put a block :=
  Function.update_comm h ..

theorem Finitary.put {mem : Memory κ β} (h : mem.Finitary) (a : κ) (block : β) :
    (mem.put a block).Finitary := by
  refine (Set.Finite.insert a h).subset ?_
  intro b hb
  by_cases hab : b = a
  · exact Or.inl hab
  · refine Or.inr ?_
    intro hnone
    exact hb ((put_of_ne block hab).trans hnone)

theorem Finitary.drop {mem : Memory κ β} (h : mem.Finitary) (a : κ) :
    (mem.drop a).Finitary := by
  refine h.subset ?_
  intro b hb hnone
  apply hb
  by_cases hab : b = a
  · rw [hab]
    exact Function.update_self ..
  · exact (Function.update_of_ne hab ..).trans hnone

end Memory

end Machine
