import Upxz.Format.Classify

/-!
# Format - Where a container lies

What the two self-extractor trailers can locate: whether the located slice is a
container by its own first bytes, and whether a file can be read both ways.  Here
the additions are over the natural numbers; the classifier computes the same as
long as its stub size does not overflow.

Main results:

- Theorem `locatesMagic_iff`: the located slice begins with a magic of its own
  exactly when the 8-byte trailer, if it locates anything, leaves 8 bytes between
  the stub and itself.
- Theorem `trailers_unambiguous`: a file has at most one container location, and the
  order of the two trailers does not matter.
-/

namespace Upxz
namespace Format

open Machine

/-! ## The located slice -/

/-- What the classifier locates begins with a complete magic of its own. -/
def LocatesMagic (mode : Overflow) (buf : Bytes) : Prop :=
  ∀ offset len, classify mode buf = .ok (.packed offset len) →
    magicLen ≤ len ∧ hasMagic ((buf.drop offset).take len) = .ok true

/-- A slice begins with a magic exactly when it is long enough and the bytes from there
on do. -/
theorem startsWithMagic_take_iff {bytes : Bytes} {len : Nat} :
    StartsWithMagic (bytes.take len) ↔ magicLen ≤ len ∧ StartsWithMagic bytes := by
  constructor
  · intro h
    have hlen := h.length_le
    rw [List.length_take] at hlen
    rcases h with ⟨codec, hcodec⟩
    exact ⟨by omega, codec, hcodec.trans (List.take_prefix _ _)⟩
  · intro h
    rcases h with ⟨hlen, codec, hcodec⟩
    refine ⟨codec, List.prefix_take_iff.mpr ⟨hcodec, ?_⟩⟩
    rw [codecMagic_length]
    exact hlen

theorem hasMagic_take_iff {bytes : Bytes} {len : Nat} :
    hasMagic (bytes.take len) = .ok true ↔ magicLen ≤ len ∧ StartsWithMagic bytes := by
  rw [hasMagic_eq, ← startsWithMagic_take_iff]
  simp only [Except.ok.injEq, decide_eq_true_eq]

/-- Only the first byte of a magic is a `U`, and the fifth is not an `E`: no magic runs
into the tag of the macOS trailer. -/
theorem codecMagic_not_tag (codec : Codec) :
    (∀ i < 8, (codecMagic codec)[i]? = some 0x55 → i = 0) ∧
      (codecMagic codec)[4]? ≠ some 0x45 := by
  cases codec with
  | zstd => decide
  | gzip => decide

/-- The macOS trailer locates a segment that holds its magic. -/
theorem magicLen_le_appLenField {buf : Bytes} (hend : UpxzEndFits buf) :
    magicLen ≤ appLenField buf := by
  rcases hend with ⟨hlong, htag, hsum, codec, hcodec⟩
  -- Byte `i` after the app segment, as a byte of the tag and as a byte of the magic.
  have htagAt : ∀ i < 8, (buf.drop (loaderLenField buf))[appLenField buf + i]? =
      sfxTrailerMagic[i]? := by
    intro i hi
    have hstart : buf.length - 16 = loaderLenField buf + appLenField buf := by omega
    rw [← htag, hstart, List.getElem?_take_of_lt hi, List.getElem?_drop, List.getElem?_drop]
    congr 1
    omega
  have hmagicAt : ∀ i < 8, (buf.drop (loaderLenField buf))[i]? = (codecMagic codec)[i]? := by
    intro i hi
    have hlt : i < (codecMagic codec).length := by
      rw [codecMagic_length]
      exact hi
    rw [List.prefix_iff_eq_take.mp hcodec, List.getElem?_take_of_lt hlt]
  rcases codecMagic_not_tag codec with ⟨honly, hfifth⟩
  by_contra hshort
  have happ : appLenField buf < 8 := Nat.not_le.mp hshort
  have hfirst : (codecMagic codec)[appLenField buf]? = some 0x55 := by
    rw [← hmagicAt _ happ]
    exact htagAt 0 (by decide)
  have hzero := honly _ happ hfirst
  apply hfifth
  rw [← hmagicAt 4 (by decide)]
  have hfour := htagAt 4 (by decide)
  rwa [hzero, Nat.zero_add] at hfour

/-- A located slice counts when it has room for a magic and one begins there. -/
theorem locatesMagic_of_packed {mode : Overflow} {buf : Bytes} {offset len : Nat}
    (h : classify mode buf = .ok (.packed offset len)) :
    LocatesMagic mode buf ↔ magicLen ≤ len ∧ StartsWithMagic (buf.drop offset) := by
  unfold LocatesMagic
  rw [h]
  constructor
  · intro hlocates
    exact hasMagic_take_iff.mp (hlocates offset len rfl).2
  · intro hcond _ _ hkind
    cases hkind
    exact ⟨hcond.1, hasMagic_take_iff.mpr hcond⟩

/-- Where nothing is located there is nothing to check. -/
theorem locatesMagic_of_not_packed {mode : Overflow} {buf : Bytes}
    (h : ∀ offset len, classify mode buf ≠ .ok (.packed offset len)) : LocatesMagic mode buf :=
  fun offset len hkind => (h offset len hkind).elim

/-- A stub size that fits the file does not overflow. -/
theorem TrailerFits.not_overflows {buf : Bytes} (hlen : buf.length ≤ isizeMax)
    (hfits : TrailerFits buf) : ¬TrailerOverflows buf := by
  intro hover
  have hstop := hfits.2.1
  have hvalues := hover.2
  have hlt := lt_usizeValues hlen
  omega

/-- The slice the classifier locates begins with a complete magic exactly when the file
begins with one, or its 8-byte trailer locates nothing, or there are at least 8 bytes
between the stub size and the trailer. -/
theorem locatesMagic_iff (mode : Overflow) (buf : Bytes) (hlen : buf.length ≤ isizeMax) :
    LocatesMagic mode buf ↔
      StartsWithMagic buf ∨ ¬TrailerFits buf ∨ stubSizeField buf + 16 ≤ buf.length := by
  have hclassify := classify_eq mode fun _ : TrailerOverflows buf => hlen
  by_cases hmagic : StartsWithMagic buf
  · rw [if_pos hmagic] at hclassify
    simp only [hmagic, true_or, iff_true]
    exact (locatesMagic_of_packed hclassify).mpr ⟨hmagic.length_le, hmagic⟩
  · rw [if_neg hmagic] at hclassify
    by_cases hend : UpxzEndFits buf
    · rw [if_pos hend] at hclassify
      simp only [not_trailerFits_of_upxzEndFits hmagic hend, not_false_eq_true, true_or, or_true,
        iff_true]
      exact (locatesMagic_of_packed hclassify).mpr ⟨magicLen_le_appLenField hend, hend.2.2.2⟩
    · rw [if_neg hend] at hclassify
      by_cases hfits : TrailerFits buf
      · rw [if_neg (hfits.not_overflows hlen), if_pos hfits] at hclassify
        rw [locatesMagic_of_packed hclassify]
        simp only [hmagic, hfits, hfits.2.2, not_true_eq_false, false_or, and_true]
        have hstop := hfits.2.1
        unfold magicLen
        omega
      · simp only [hfits, not_false_eq_true, true_or, or_true, iff_true]
        apply locatesMagic_of_not_packed
        intro offset len hkind
        rw [hclassify, if_neg hfits] at hkind
        split_ifs at hkind
        cases hkind

/-- In a short text file nothing is located. -/
theorem locatesMagic_text :
    LocatesMagic .checked (asBytes "hello world") ∧
      LocatesMagic .wrapping (asBytes "hello world") :=
  ⟨(locatesMagic_iff .checked (asBytes "hello world") (by decide)).mpr
      (Or.inr (Or.inl (by decide))),
    (locatesMagic_iff .wrapping (asBytes "hello world") (by decide)).mpr
      (Or.inr (Or.inl (by decide)))⟩

/-- A 14-byte file whose last eight bytes read as a stub size of 1 and begin with the
end of a magic: the last three bytes of the magic at offset 1 belong to the trailer. -/
def overlapFile : Bytes :=
  [0x00] ++ magicPrefix ++ [0x00, 0x00, 0x00, 0x00, 0x00, 0x00, 0x00, 0x01]

/-- The classifier takes the overlapping file for a packed one with a container of five
bytes, and the packer refuses it. -/
theorem overlapFile_located :
    ¬LocatesMagic .checked overlapFile ∧ ¬LocatesMagic .wrapping overlapFile ∧
      classify .checked overlapFile = .ok (.packed 1 5) ∧
      ∃ messages, checkPackableInput .checked overlapFile = .error (.err messages) := by
  have hchecked : classify .checked overlapFile = .ok (.packed 1 5) := by decide
  have hwrapping : classify .wrapping overlapFile = .ok (.packed 1 5) := by decide
  refine ⟨?_, ?_, hchecked, ?_⟩
  · intro h
    exact absurd (h 1 5 hchecked).1 (by decide)
  · intro h
    exact absurd (h 1 5 hwrapping).1 (by decide)
  · unfold checkPackableInput
    rw [hchecked]
    exact ⟨_, rfl⟩

/-! ## The two trailers -/

/-- What the macOS trailer locates. -/
def upxzEndTest (buf : Bytes) : Option Kind :=
  if UpxzEndFits buf then some (.packed (loaderLenField buf) (appLenField buf)) else none

/-- What the 8-byte trailer locates. -/
def trailerTest (buf : Bytes) : Option Kind :=
  if TrailerFits buf then some (.packed (stubSizeField buf) (buf.length - 8 - stubSizeField buf))
  else none

/-- The classifier with the tests of the two trailers made in the given order. -/
def classifyInOrder (first second : Bytes → Option Kind) (buf : Bytes) : Kind :=
  if StartsWithMagic buf then .packed 0 buf.length
  else ((first buf).or (second buf)).getD .plain

/-- Unless the stub size overflows, the classifier makes the two tests in order. -/
theorem classify_eq_inOrder (mode : Overflow) {buf : Bytes} (hover : ¬TrailerOverflows buf) :
    classify mode buf = .ok (classifyInOrder upxzEndTest trailerTest buf) := by
  rw [classify_eq mode fun h => (hover h).elim, if_neg hover]
  unfold classifyInOrder upxzEndTest trailerTest
  split_ifs
  · rfl
  · rfl
  · rfl
  · rfl
  · rfl

/-- A place where some branch of the classifier finds a container: the whole of a file
that begins with a magic, and what either trailer locates in any other file. -/
inductive Located (buf : Bytes) : Kind → Prop
  | bare (hmagic : StartsWithMagic buf) : Located buf (.packed 0 buf.length)
  | upxzEnd {kind : Kind} (hmagic : ¬StartsWithMagic buf) (h : upxzEndTest buf = some kind) :
      Located buf kind
  | trailer {kind : Kind} (hmagic : ¬StartsWithMagic buf) (h : trailerTest buf = some kind) :
      Located buf kind

theorem upxzEndTest_or_trailerTest_none {buf : Bytes} (hmagic : ¬StartsWithMagic buf) :
    upxzEndTest buf = none ∨ trailerTest buf = none := by
  by_cases hend : UpxzEndFits buf
  · exact Or.inr (if_neg (not_trailerFits_of_upxzEndFits hmagic hend))
  · exact Or.inl (if_neg hend)

/-- The two trailers of a file never both locate a container. -/
theorem trailerTests_exclusive {buf : Bytes} (hmagic : ¬StartsWithMagic buf) {kind kind' : Kind}
    (hend : upxzEndTest buf = some kind) (htrailer : trailerTest buf = some kind') : False := by
  rcases upxzEndTest_or_trailerTest_none hmagic with hnone | hnone
  · rw [hnone] at hend
    cases hend
  · rw [hnone] at htrailer
    cases htrailer

/-- A file has at most one container location. -/
theorem Located.unique {buf : Bytes} {kind kind' : Kind} (h : Located buf kind)
    (h' : Located buf kind') : kind = kind' := by
  cases h with
  | bare hmagic =>
      cases h' with
      | bare => rfl
      | upxzEnd hno _ => exact (hno hmagic).elim
      | trailer hno _ => exact (hno hmagic).elim
  | upxzEnd hmagic h =>
      cases h' with
      | bare hyes => exact (hmagic hyes).elim
      | upxzEnd _ h' => exact Option.some.inj (h.symm.trans h')
      | trailer _ h' => exact (trailerTests_exclusive hmagic h h').elim
  | trailer hmagic h =>
      cases h' with
      | bare hyes => exact (hmagic hyes).elim
      | upxzEnd _ h' => exact (trailerTests_exclusive hmagic h' h).elim
      | trailer _ h' => exact Option.some.inj (h.symm.trans h')

/-- In a file that does not begin with a magic the two trailers never both locate a
container.  So the tests can be made in either order, the classifier makes them, and
every file has at most one container location. -/
theorem trailers_unambiguous (mode : Overflow) (buf : Bytes) :
    (¬StartsWithMagic buf → ¬(UpxzEndFits buf ∧ TrailerFits buf)) ∧
    classifyInOrder trailerTest upxzEndTest buf = classifyInOrder upxzEndTest trailerTest buf ∧
    (¬TrailerOverflows buf →
      classify mode buf = .ok (classifyInOrder upxzEndTest trailerTest buf)) ∧
    (∀ kind kind', Located buf kind → Located buf kind' → kind = kind') := by
  refine ⟨?_, ?_, classify_eq_inOrder mode, fun _ _ h h' => h.unique h'⟩
  · intro hmagic h
    exact not_trailerFits_of_upxzEndFits hmagic h.1 h.2
  · unfold classifyInOrder
    by_cases hmagic : StartsWithMagic buf
    · rw [if_pos hmagic, if_pos hmagic]
    · rw [if_neg hmagic, if_neg hmagic]
      rcases upxzEndTest_or_trailerTest_none hmagic with hnone | hnone
      · rw [hnone, Option.none_or, Option.or_none]
      · rw [hnone, Option.none_or, Option.or_none]

/-- A loader of one byte, a bare magic as its app segment, and the macOS trailer. -/
def bareMagicImage : Bytes :=
  [0x7F] ++ codecMagic .zstd ++ sfxTrailerMagic ++ be32 1 ++ be32 8

/-- In such a file the macOS trailer fits, so the 8-byte one does not, and the classifier
returns the app segment. -/
theorem trailers_unambiguous_bareMagicImage :
    ¬(UpxzEndFits bareMagicImage ∧ TrailerFits bareMagicImage) ∧
      classify .checked bareMagicImage =
        .ok (classifyInOrder upxzEndTest trailerTest bareMagicImage) ∧
      ∀ kind, Located bareMagicImage kind → kind = .packed 1 8 :=
  ⟨(trailers_unambiguous .checked bareMagicImage).1 (by decide),
    (trailers_unambiguous .checked bareMagicImage).2.2.1 (by decide),
    fun kind h => (trailers_unambiguous .checked bareMagicImage).2.2.2 kind (.packed 1 8) h
      (.upxzEnd (by decide) (by decide))⟩

end Format
end Upxz
