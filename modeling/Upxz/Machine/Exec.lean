import Mathlib.Algebra.Group.Nat.Defs
import Mathlib.Data.List.Basic
import Mathlib.Tactic.Basic

/-!
# Machine - Checked execution of byte-slice programs

Programs over byte slices stop in three ways: they return, they report an error
value, or they panic.  This module fixes that outcome type, the 64-bit address
arithmetic under both overflow disciplines, and the slice and index primitives
that panic outside their range.

Main results:

- Theorem `addUsize_ok`: a sum that fits 64 bits is exact under either
  overflow discipline.
- Theorems `slice_to_end` and `slice_from_end`: slices given by their distance
  from the end of the list.
- Theorems `bind_eq_ok_iff` and `ensure_bind_eq_ok` peel a successful run apart
  one primitive at a time.
-/

namespace Machine

/-- A byte string. -/
abbrev Bytes := List UInt8

/-! ## Outcomes -/

/-- The panics a byte-slice program can raise. -/
inductive Panic where
  | addOverflow
  | subOverflow
  | sliceRange
  | indexRange
  | notUnicode
  | capacityOverflow
  | unreachable
deriving DecidableEq, Repr

/-- Ways a run stops without a result.  `timeout` marks a loop that used up the
steps a model grants it; it stands for no behaviour of the program. -/
inductive Fault (ε : Type) where
  | err (error : ε)
  | panic (why : Panic)
  | timeout
deriving DecidableEq, Repr

/-- Outcome of a run: a result, or the fault that ended it. -/
abbrev Exec (ε α : Type) := Except (Fault ε) α

/-- Build profiles: debug builds panic on overflow, release builds wrap. -/
inductive Overflow where
  | checked
  | wrapping
deriving DecidableEq, Repr

/-- Run a computation that can only panic inside one that can also fail. -/
def liftPanic {ε α : Type} : Except Panic α → Exec ε α
  | .ok a => .ok a
  | .error why => .error (.panic why)

/-- `Result::is_ok`; a panic on the way still panics. -/
def isOk {ε α : Type} : Exec ε α → Except Panic Bool
  | .ok _ => .ok true
  | .error (.panic why) => .error why
  | .error _ => .ok false

/-- Stop with an error unless the condition holds. -/
def ensure {ε : Type} (cond : Prop) [Decidable cond] (error : ε) : Exec ε Unit :=
  if cond then .ok () else .error (.err error)

@[simp]
theorem liftPanic_ok {ε α : Type} (a : α) :
    liftPanic (ε := ε) (.ok a) = .ok a :=
  rfl

@[simp]
theorem liftPanic_error {ε α : Type} (why : Panic) :
    liftPanic (ε := ε) (.error why : Except Panic α) = .error (.panic why) :=
  rfl

@[simp]
theorem liftPanic_eq_ok_iff {ε α : Type} {x : Except Panic α} {a : α} :
    liftPanic (ε := ε) x = .ok a ↔ x = .ok a := by
  cases x <;> simp [liftPanic]

/-- A sequential run succeeds exactly when both of its parts do. -/
theorem bind_eq_ok_iff {ε α β : Type} {x : Except ε α} {f : α → Except ε β} {b : β} :
    (x >>= f) = .ok b ↔ ∃ a, x = .ok a ∧ f a = .ok b := by
  cases x with
  | error e => simp [bind, Except.bind]
  | ok a => simp [bind, Except.bind]

@[simp]
theorem ok_bind {ε α β : Type} (a : α) (f : α → Except ε β) :
    ((.ok a : Except ε α) >>= f) = f a :=
  rfl

@[simp]
theorem error_bind {ε α β : Type} (e : ε) (f : α → Except ε β) :
    ((.error e : Except ε α) >>= f) = .error e :=
  rfl

theorem ensure_of {ε : Type} {cond : Prop} [Decidable cond] (error : ε) (h : cond) :
    ensure cond error = .ok () :=
  if_pos h

theorem ensure_of_not {ε : Type} {cond : Prop} [Decidable cond] (error : ε) (h : ¬cond) :
    ensure cond error = .error (.err error) :=
  if_neg h

theorem ensure_eq_ok_iff {ε : Type} {cond : Prop} [Decidable cond] {error : ε} :
    ensure cond error = .ok () ↔ cond := by
  by_cases h : cond
  · rw [ensure_of error h]
    simp only [h]
  · rw [ensure_of_not error h]
    simp only [h, reduceCtorEq]

/-- A guarded run succeeds exactly when the guard holds and the rest does. -/
@[simp]
theorem ensure_bind_eq_ok {ε α : Type} {cond : Prop} [Decidable cond] {error : ε}
    {f : Unit → Exec ε α} {a : α} :
    (ensure cond error >>= f) = .ok a ↔ cond ∧ f () = .ok a := by
  by_cases h : cond
  · rw [ensure_of error h]
    simp [h]
  · rw [ensure_of_not error h]
    simp [h]

/-- A run that returns, or reports an error of the given kind. -/
def CleanWith {ε α : Type} (P : ε → Prop) (x : Exec ε α) : Prop :=
  (∃ a, x = .ok a) ∨ ∃ e, x = .error (.err e) ∧ P e

theorem cleanWith_ok {ε α : Type} {P : ε → Prop} (a : α) : CleanWith P (.ok a) :=
  Or.inl ⟨a, rfl⟩

theorem cleanWith_err {ε α : Type} {P : ε → Prop} {e : ε} (h : P e) :
    CleanWith (α := α) P (.error (.err e)) :=
  Or.inr ⟨e, rfl, h⟩

/-- A guarded run is clean when its error is of the kind, and the rest is clean under the
guard. -/
theorem CleanWith.ensure_bind {ε α : Type} {P : ε → Prop} {cond : Prop} [Decidable cond]
    {error : ε} {f : Unit → Exec ε α} (herror : P error) (h : cond → CleanWith P (f ())) :
    CleanWith P (ensure cond error >>= f) := by
  by_cases hcond : cond
  · rw [ensure_of error hcond, ok_bind]
    exact h hcond
  · rw [ensure_of_not error hcond, error_bind]
    exact cleanWith_err herror

/-- A sequential run is clean when its parts are. -/
theorem CleanWith.bind {ε α β : Type} {P : ε → Prop} {x : Exec ε α} {f : α → Exec ε β}
    (hx : CleanWith P x) (hf : ∀ a, x = .ok a → CleanWith P (f a)) : CleanWith P (x >>= f) := by
  rcases hx with ⟨a, ha⟩ | ⟨e, he, hP⟩
  · rw [ha, ok_bind]
    exact hf a ha
  · rw [he, error_bind]
    exact cleanWith_err hP

/-- A run that returns or reports an error: it neither panics nor runs out of
steps. -/
def Clean {ε α : Type} (x : Exec ε α) : Prop :=
  (∃ a, x = .ok a) ∨ ∃ e, x = .error (.err e)

/-- Clean without a word on the kind of error. -/
theorem clean_iff_cleanWith {ε α : Type} {x : Exec ε α} :
    Clean x ↔ CleanWith (fun _ => True) x := by
  simp only [Clean, CleanWith, and_true]

theorem clean_ok {ε α : Type} (a : α) : Clean (ε := ε) (.ok a) :=
  Or.inl ⟨a, rfl⟩

theorem clean_err {ε α : Type} (e : ε) : Clean (α := α) (.error (.err e)) :=
  Or.inr ⟨e, rfl⟩

theorem not_clean_panic {ε α : Type} (why : Panic) :
    ¬Clean (.error (.panic why) : Exec ε α) := by
  intro h
  rcases h with ⟨a, ha⟩ | ⟨e, he⟩
  · cases ha
  · cases he

theorem Clean.ensure_bind {ε α : Type} {cond : Prop} [Decidable cond] {error : ε}
    {f : Unit → Exec ε α} (h : cond → Clean (f ())) : Clean (ensure cond error >>= f) :=
  clean_iff_cleanWith.mpr
    (CleanWith.ensure_bind trivial fun hcond => clean_iff_cleanWith.mp (h hcond))

theorem Clean.bind {ε α β : Type} {x : Exec ε α} {f : α → Exec ε β} (hx : Clean x)
    (hf : ∀ a, x = .ok a → Clean (f a)) : Clean (x >>= f) :=
  clean_iff_cleanWith.mpr
    ((clean_iff_cleanWith.mp hx).bind fun a ha => clean_iff_cleanWith.mp (hf a ha))

/-- A clean run that cannot return reports an error. -/
theorem Clean.error_of_not_ok {ε α : Type} {x : Exec ε α} (hx : Clean x)
    (h : ∀ a, x ≠ .ok a) : ∃ e, x = .error (.err e) := by
  rcases hx with ⟨a, ha⟩ | he
  · exact (h a ha).elim
  · exact he

theorem clean_ensure {ε : Type} (cond : Prop) [Decidable cond] (error : ε) :
    Clean (ensure cond error) := by
  by_cases h : cond
  · rw [ensure_of error h]
    exact clean_ok ()
  · rw [ensure_of_not error h]
    exact clean_err error

/-- A run that ends clean panics where its first part does. -/
theorem bind_eq_panic_iff {ε α β : Type} {x : Exec ε α} {f : α → Exec ε β} {why : Panic}
    (hf : ∀ a, x = .ok a → Clean (f a)) :
    (x >>= f) = .error (.panic why) ↔ x = .error (.panic why) := by
  cases x with
  | error fault => rw [error_bind]; simp
  | ok a =>
      rw [ok_bind]
      constructor
      · intro h
        have hclean := hf a rfl
        rw [h] at hclean
        exact (not_clean_panic why hclean).elim
      · intro h
        cases h

/-- A map whose step returns or fails in one way, returns or fails in that way. -/
theorem mapM_ok_or_error {ε α β : Type} {f : α → Except ε β} {e : ε} {xs : List α}
    (h : ∀ a ∈ xs, (∃ b, f a = .ok b) ∨ f a = .error e) :
    (∃ ys, xs.mapM f = .ok ys) ∨ xs.mapM f = .error e := by
  induction xs with
  | nil => exact Or.inl ⟨[], rfl⟩
  | cons x xs ih =>
      rcases List.forall_mem_cons.mp h with ⟨hx, hxs⟩
      rw [List.mapM_cons]
      rcases hx with ⟨b, hb⟩ | herror
      · rcases ih hxs with ⟨ys, hys⟩ | herror
        · exact Or.inl ⟨b :: ys, by rw [hb, hys]; rfl⟩
        · exact Or.inr (by rw [hb, herror]; rfl)
      · exact Or.inr (by rw [herror]; rfl)

/-- A map whose step returns its argument unchanged, or not at all, returns the
list unchanged, exactly when every step returns. -/
theorem mapM_eq_ok_iff_of_verbatim {ε α : Type} {f : α → Except ε α} {P : α → Prop}
    {xs ys : List α} (hf : ∀ a ∈ xs, ∀ b, f a = .ok b ↔ P a ∧ a = b) :
    xs.mapM f = .ok ys ↔ (∀ a ∈ xs, P a) ∧ xs = ys := by
  induction xs generalizing ys with
  | nil => simp [pure, Except.pure]
  | cons x xs ih =>
      rcases List.forall_mem_cons.mp hf with ⟨hfx, hfxs⟩
      rw [List.mapM_cons, bind_eq_ok_iff]
      constructor
      · intro h
        rcases h with ⟨y, hy, hrest⟩
        rcases bind_eq_ok_iff.mp hrest with ⟨zs, hzs, hys⟩
        rcases (hfx y).mp hy with ⟨hx, rfl⟩
        rcases (ih hfxs).mp hzs with ⟨hall, rfl⟩
        simp only [pure, Except.pure, Except.ok.injEq] at hys
        exact ⟨List.forall_mem_cons.mpr ⟨hx, hall⟩, hys⟩
      · intro h
        rcases h with ⟨hall, rfl⟩
        rcases List.forall_mem_cons.mp hall with ⟨hx, hxs⟩
        refine ⟨x, (hfx x).mpr ⟨hx, rfl⟩, ?_⟩
        rw [(ih hfxs).mpr ⟨hxs, rfl⟩]
        rfl

/-! ## 64-bit address arithmetic -/

/-- Number of values of a 64-bit `usize`. -/
def usizeValues : Nat := 2 ^ 64

/-- The largest length a slice in memory can have. -/
def isizeMax : Nat := 2 ^ 63 - 1

/-- `usize` addition under the given overflow discipline. -/
def addUsize (mode : Overflow) (a b : Nat) : Except Panic Nat :=
  if a + b < usizeValues then .ok (a + b)
  else
    match mode with
    | .checked => .error .addOverflow
    | .wrapping => .ok ((a + b) % usizeValues)

/-- `usize` subtraction under the given overflow discipline. -/
def subUsize (mode : Overflow) (a b : Nat) : Except Panic Nat :=
  if b ≤ a then .ok (a - b)
  else
    match mode with
    | .checked => .error .subOverflow
    | .wrapping => .ok (usizeValues + a - b)

/-- `usize::checked_add`. -/
def checkedAdd (a b : Nat) : Option Nat :=
  if a + b < usizeValues then some (a + b) else none

/-- `usize::saturating_add`. -/
def saturatingAdd (a b : Nat) : Nat :=
  if a + b < usizeValues then a + b else usizeValues - 1

/-- `usize::saturating_mul`. -/
def saturatingMul (a b : Nat) : Nat :=
  if a * b < usizeValues then a * b else usizeValues - 1

/-- A sum that fits is exact whatever the overflow discipline. -/
theorem addUsize_ok {mode : Overflow} {a b : Nat} (h : a + b < usizeValues) :
    addUsize mode a b = .ok (a + b) :=
  if_pos h

/-- A sum that does not fit panics in a debug build. -/
theorem addUsize_checked_overflow {a b : Nat} (h : usizeValues ≤ a + b) :
    addUsize .checked a b = .error .addOverflow := by
  simp [addUsize, Nat.not_lt.mpr h]

/-- A sum that does not fit loses its carry in a release build. -/
theorem addUsize_wrapping_overflow {a b : Nat} (h : usizeValues ≤ a + b) :
    addUsize .wrapping a b = .ok ((a + b) % usizeValues) := by
  simp [addUsize, Nat.not_lt.mpr h]

theorem subUsize_ok {mode : Overflow} {a b : Nat} (h : b ≤ a) :
    subUsize mode a b = .ok (a - b) :=
  if_pos h

theorem checkedAdd_of_lt {a b : Nat} (h : a + b < usizeValues) :
    checkedAdd a b = some (a + b) :=
  if_pos h

/-- The length of a slice in memory fits 64 bits, with room to spare. -/
theorem add_lt_usizeValues {n k : Nat} (hn : n ≤ isizeMax) (hk : k ≤ isizeMax) :
    n + k < usizeValues := by
  unfold isizeMax at hn hk
  unfold usizeValues
  omega

theorem lt_usizeValues {n : Nat} (h : n ≤ isizeMax) : n < usizeValues :=
  add_lt_usizeValues h (Nat.zero_le _)

theorem saturatingAdd_of_lt {a b : Nat} (h : a + b < usizeValues) :
    saturatingAdd a b = a + b :=
  if_pos h

theorem saturatingMul_of_lt {a b : Nat} (h : a * b < usizeValues) :
    saturatingMul a b = a * b :=
  if_pos h

theorem saturatingMul_of_le {a b : Nat} (h : usizeValues ≤ a * b) :
    saturatingMul a b = usizeValues - 1 :=
  if_neg (Nat.not_lt.mpr h)

/-! ## Slices and indices -/

section Slices

variable {α : Type}

/-- `xs[start..stop]`. -/
def slice (xs : List α) (start stop : Nat) : Except Panic (List α) :=
  if start ≤ stop ∧ stop ≤ xs.length then .ok ((xs.drop start).take (stop - start))
  else .error .sliceRange

/-- `xs[start..]`. -/
def sliceFrom (xs : List α) (start : Nat) : Except Panic (List α) :=
  if start ≤ xs.length then .ok (xs.drop start) else .error .sliceRange

/-- `xs[i]`. -/
def index (xs : List α) (i : Nat) : Except Panic α :=
  match xs[i]? with
  | some x => .ok x
  | none => .error .indexRange

theorem slice_ok {xs : List α} {start stop : Nat} (h : start ≤ stop)
    (hstop : stop ≤ xs.length) :
    slice xs start stop = .ok ((xs.drop start).take (stop - start)) :=
  if_pos ⟨h, hstop⟩

theorem sliceFrom_ok {xs : List α} {start : Nat} (h : start ≤ xs.length) :
    sliceFrom xs start = .ok (xs.drop start) :=
  if_pos h

theorem sliceFrom_error {xs : List α} {start : Nat} (h : xs.length < start) :
    sliceFrom xs start = .error .sliceRange :=
  if_neg (Nat.not_le.mpr h)

theorem exists_getElem?_of_lt {xs : List α} {i : Nat} (h : i < xs.length) :
    ∃ x, xs[i]? = some x :=
  ⟨xs[i], List.getElem?_eq_getElem h⟩

theorem index_ok {xs : List α} {i : Nat} {x : α} (h : xs[i]? = some x) :
    index xs i = .ok x := by
  simp [index, h]

/-- The last `k` elements are `k` elements. -/
theorem length_drop_sub {xs : List α} {k : Nat} (h : k ≤ xs.length) :
    (xs.drop (xs.length - k)).length = k := by
  rw [List.length_drop]
  omega

/-- The last elements, less the first `j` of them. -/
theorem drop_sub_drop {xs : List α} {j k : Nat} (h : j + k ≤ xs.length) :
    (xs.drop (xs.length - (j + k))).drop j = xs.drop (xs.length - k) := by
  rw [List.drop_drop]
  congr 1
  omega

/-- A slice that runs to the end. -/
theorem slice_to_end {xs : List α} {start : Nat} (h : start ≤ xs.length) :
    slice xs start xs.length = .ok (xs.drop start) := by
  rw [slice_ok h (Nat.le_refl _), List.take_of_length_le (Nat.le_of_eq List.length_drop)]

/-- A slice given by its distances from the end. -/
theorem slice_from_end {xs : List α} {j k : Nat} (h : j + k ≤ xs.length) :
    slice xs (xs.length - (j + k)) (xs.length - k) =
      .ok ((xs.drop (xs.length - (j + k))).take j) := by
  rw [slice_ok (by omega) (Nat.sub_le _ _)]
  congr 2
  omega

/-! ## Stores into a buffer -/

/-- `xs[i] = x`. -/
def store (xs : List α) (i : Nat) (x : α) : Except Panic (List α) :=
  if i < xs.length then .ok (xs.set i x) else .error .indexRange

theorem store_ok {xs : List α} {i : Nat} (x : α) (h : i < xs.length) :
    store xs i x = .ok (xs.set i x) :=
  if_pos h

/-- A store behind the first `i` elements keeps these and appends its own. -/
theorem take_set_succ {xs : List α} {i : Nat} (x : α) (h : i < xs.length) :
    (xs.set i x).take (i + 1) = xs.take i ++ [x] := by
  rw [List.take_succ_eq_append_getElem (by rw [List.length_set]; exact h),
    List.getElem_set_self, List.take_set_of_le (Nat.le_refl i)]

/-- Copy `count` elements, from `src[offset + k]` on, to `dst[k]` on, one by one. -/
def copyLoop (src : List α) (offset : Nat) :
    (count k : Nat) → (dst : List α) → Except Panic (List α)
  | 0, _, dst => .ok dst
  | count + 1, k, dst => do
      let x ← index src (offset + k)
      let dst ← store dst k x
      copyLoop src offset count (k + 1) dst

/-- A copy whose source and target ranges are in bounds replaces that range. -/
theorem copyLoop_ok {src : List α} {offset count k : Nat} {dst : List α}
    (hsrc : offset + k + count ≤ src.length) (hdst : k + count ≤ dst.length) :
    copyLoop src offset count k dst =
      .ok (dst.take k ++ (src.drop (offset + k)).take count ++ dst.drop (k + count)) := by
  induction count generalizing k dst with
  | zero => simp [copyLoop]
  | succ count ih =>
      have hlt : offset + k < src.length := by omega
      have hk : k < dst.length := by omega
      have hget : index src (offset + k) = .ok src[offset + k] :=
        index_ok (List.getElem?_eq_getElem hlt)
      rw [copyLoop, hget, ok_bind, store_ok _ hk, ok_bind,
        ih (by omega) (by rw [List.length_set]; omega)]
      have htake := take_set_succ src[offset + k] hk
      have hdrop : (dst.set k src[offset + k]).drop (k + 1 + count) =
          dst.drop (k + (count + 1)) := by
        rw [List.drop_set_of_lt (by omega)]
        congr 1
        omega
      have hsrcTake : (src.drop (offset + k)).take (count + 1) =
          src[offset + k] :: (src.drop (offset + (k + 1))).take count := by
        rw [List.drop_eq_getElem_cons hlt, List.take_succ_cons]
        rfl
      rw [htake, hdrop, hsrcTake]
      simp

end Slices

end Machine
