import Mathlib.Data.String.Basic
import Upxz.Machine.Trim

/-!
# Bin - Tar paths compared by `--bin`

The requested path and the path of every entry are normalized before they are
compared: one leading `./` is dropped, then all trailing slashes.  The definition
follows `normalize_tar_path` in `bin_run.rs`.

Main results:

- Theorem `normalizeTarPath_spell`: what normalization makes of a path with any number
  of `./` in front and of slashes behind.
- Theorem `canonical_iff`: the laws of a canonical form hold exactly at the paths
  that neither begin with `./` nor are `.`.
-/

namespace Upxz
namespace Bin

open Machine

/-- `./`. -/
def dotSlash : List Char := ['.', '/']

/-- Canonicalize a tar entry path for comparison: drop a leading `./` and any trailing
`/`. -/
def normalizeTarPath (p : String) : String :=
  String.ofList (trimEnd (stripFront dotSlash p.toList) '/')

/-- The path begins with `./`. -/
def HasDotSlash (p : String) : Prop :=
  dotSlash <+: p.toList

instance (p : String) : Decidable (HasDotSlash p) :=
  inferInstanceAs (Decidable (dotSlash <+: p.toList))

/-- A path with `i` times `./` in front and `k` slashes behind. -/
def spell (i k : Nat) (p : String) : String :=
  String.ofList ((List.replicate i dotSlash).flatten ++ p.toList ++ List.replicate k '/')

/-! ## Normalization on characters -/

/-- A path that does not begin with `./` is only trimmed. -/
theorem normalizeTarPath_of_not {p : String} (h : ¬HasDotSlash p) :
    normalizeTarPath p = String.ofList (trimEnd p.toList '/') := by
  rw [normalizeTarPath, stripFront_of_not h]

/-- A `./` in front of a path is all that is stripped. -/
theorem normalizeTarPath_dotSlash (p : String) :
    normalizeTarPath ("./" ++ p) = String.ofList (trimEnd p.toList '/') := by
  have hlead : ("./" ++ p).toList = dotSlash ++ p.toList := by
    rw [String.toList_append]
    rfl
  rw [normalizeTarPath, hlead, stripFront_append]

/-- A `./` is not trimmed away. -/
theorem trimEnd_dotSlash : trimEnd dotSlash '/' ≠ [] := by
  decide

/-- Behind a slash that is appended, a `./` in front is new only for the path `.`. -/
theorem hasDotSlash_concat_iff {s : List Char} :
    dotSlash <+: s ++ ['/'] ↔ s = ['.'] ∨ dotSlash <+: s := by
  rw [List.prefix_concat_iff]
  constructor
  · intro h
    rcases h with heq | hs
    · exact Or.inl (List.append_cancel_right heq.symm)
    · exact Or.inr hs
  · intro h
    rcases h with rfl | hs
    · exact Or.inl rfl
    · exact Or.inr hs

theorem eq_dot_iff {p : String} : p.toList = ['.'] ↔ p = "." := by
  constructor
  · intro h
    exact String.toList_inj.mp h
  · intro h
    rw [h]
    rfl

/-- Slashes appended to a path put no `./` in front of it. -/
theorem not_dotSlash_replicate {p : String} (h : ¬HasDotSlash p) (hdot : p ≠ ".") (k : Nat) :
    ¬dotSlash <+: p.toList ++ List.replicate k '/' := by
  induction k with
  | zero =>
      rw [List.replicate_zero, List.append_nil]
      exact h
  | succ k ih =>
      rw [List.replicate_succ', ← List.append_assoc, hasDotSlash_concat_iff]
      intro hcases
      rcases hcases with hone | hs
      · cases k with
        | zero =>
            rw [List.replicate_zero, List.append_nil] at hone
            exact hdot (eq_dot_iff.mp hone)
        | succ k =>
            rw [List.replicate_succ', ← List.append_assoc] at hone
            have hlast := congrArg List.getLast? hone
            rw [List.getLast?_concat] at hlast
            exact absurd hlast (by decide)
      · exact ih hs

/-- What normalization makes of a spelling: one `./` is dropped, if there is one, and all
slashes behind. -/
theorem normalizeTarPath_spell {p : String} (h : ¬HasDotSlash p) (hdot : p ≠ ".") (i k : Nat) :
    normalizeTarPath (spell i k p) =
      String.ofList (trimEnd ((List.replicate (i - 1) dotSlash).flatten ++ p.toList) '/') := by
  unfold normalizeTarPath spell
  rw [String.toList_ofList]
  cases i with
  | zero =>
      rw [Nat.zero_sub, List.replicate_zero, List.flatten_nil, List.nil_append,
        stripFront_of_not (not_dotSlash_replicate h hdot k), trimEnd_replicate]
  | succ i =>
      rw [Nat.add_sub_cancel, List.replicate_succ, List.flatten_cons, List.append_assoc,
        List.append_assoc, stripFront_append, ← List.append_assoc, trimEnd_replicate]

/-! ## A canonical form -/

/-- The laws of a canonical form, at one path: a `./` in front and a slash behind make no
difference, and normalizing again changes nothing. -/
structure Canonical (p : String) : Prop where
  dot_slash : normalizeTarPath ("./" ++ p) = normalizeTarPath p
  slash : normalizeTarPath (p ++ "/") = normalizeTarPath p
  idem : normalizeTarPath (normalizeTarPath p) = normalizeTarPath p

/-- A second `./` in front is kept. -/
theorem not_dot_slash_of_hasDotSlash {p : String} (h : HasDotSlash p) :
    normalizeTarPath ("./" ++ p) ≠ normalizeTarPath p := by
  rcases h with ⟨s, hs⟩
  intro heq
  rw [normalizeTarPath_dotSlash, normalizeTarPath, ← hs, stripFront_append,
    String.ofList_inj] at heq
  have hlt := trimEnd_length_lt trimEnd_dotSlash s
  rw [heq] at hlt
  exact Nat.lt_irrefl _ hlt

theorem normalizeTarPath_slash {p : String} (h : ¬HasDotSlash p) (hdot : p ≠ ".") :
    normalizeTarPath (p ++ "/") = normalizeTarPath p := by
  have hconcat : (p ++ "/").toList = p.toList ++ ['/'] := by
    rw [String.toList_append]
    rfl
  have hstill : ¬HasDotSlash (p ++ "/") := by
    unfold HasDotSlash
    rw [hconcat, hasDotSlash_concat_iff, eq_dot_iff]
    intro hcases
    rcases hcases with hone | hs
    · exact hdot hone
    · exact h hs
  rw [normalizeTarPath_of_not hstill, normalizeTarPath_of_not h, hconcat, trimEnd_concat]

theorem normalizeTarPath_idem {p : String} (h : ¬HasDotSlash p) :
    normalizeTarPath (normalizeTarPath p) = normalizeTarPath p := by
  have hstill : ¬HasDotSlash (String.ofList (trimEnd p.toList '/')) := by
    unfold HasDotSlash
    rw [String.toList_ofList]
    intro hs
    exact h (hs.trans (trimEnd_isPrefix p.toList '/'))
  rw [normalizeTarPath_of_not h, normalizeTarPath_of_not hstill, String.toList_ofList,
    trimEnd_idem]

/-- The laws hold exactly at the paths that neither begin with `./` nor are `.`; and two
spellings of such a path compare equal exactly when they have the same number of `./` in
front, none counting as one. -/
theorem canonical_iff (p : String) :
    (Canonical p ↔ ¬HasDotSlash p ∧ p ≠ ".") ∧
    (¬HasDotSlash p ∧ p ≠ "." → ∀ i j k l,
      normalizeTarPath (spell i k p) = normalizeTarPath (spell j l p) ↔ i - 1 = j - 1) := by
  constructor
  · constructor
    · intro hcanonical
      constructor
      · intro h
        exact not_dot_slash_of_hasDotSlash h hcanonical.dot_slash
      · intro hdot
        rw [hdot] at hcanonical
        exact absurd hcanonical.slash (by decide)
    · intro h
      exact
        { dot_slash := by rw [normalizeTarPath_dotSlash, normalizeTarPath_of_not h.1]
          slash := normalizeTarPath_slash h.1 h.2
          idem := normalizeTarPath_idem h.1 }
  · intro h i j k l
    rw [normalizeTarPath_spell h.1 h.2, normalizeTarPath_spell h.1 h.2, String.ofList_inj]
    constructor
    · intro heq
      exact trimEnd_append_injective trimEnd_dotSlash p.toList heq
    · intro heq
      rw [heq]

/-- The spellings `bin/hello`, `./bin/hello` and `bin/hello/` compare equal. -/
theorem canonical_bin_hello :
    Canonical "bin/hello" ∧
      normalizeTarPath (spell 1 0 "bin/hello") = normalizeTarPath (spell 0 1 "bin/hello") :=
  ⟨(canonical_iff "bin/hello").1.mpr (by decide),
    ((canonical_iff "bin/hello").2 (by decide) 1 0 0 1).mpr (by decide)⟩

/-- The path `././a` normalizes to `./a` and then to `a`, so it does not compare equal to
`a`; and `.` does not compare equal to `./`. -/
theorem not_canonical_double_dot_slash :
    ¬Canonical "./a" ∧ normalizeTarPath "././a" = "./a" ∧ normalizeTarPath "./a" = "a" ∧
      normalizeTarPath "././a" ≠ normalizeTarPath "a" ∧
      ¬Canonical "." ∧ normalizeTarPath "." = "." ∧ normalizeTarPath "./" = "" := by
  have hdouble : normalizeTarPath "././a" = "./a" := by decide
  have hsingle : normalizeTarPath "./a" = "a" := by decide
  have hdot : normalizeTarPath "." = "." := by decide
  have hslash : normalizeTarPath "./" = "" := by decide
  refine ⟨?_, hdouble, hsingle, ?_, ?_, hdot, hslash⟩
  · intro hcanonical
    have heq := hcanonical.dot_slash
    exact absurd heq (by decide)
  · rw [hdouble]
    decide
  · intro hcanonical
    have heq := hcanonical.slash
    exact absurd heq (by decide)

end Bin
end Upxz
