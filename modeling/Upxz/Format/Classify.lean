import Upxz.Format.Header

/-!
# Format - Classifying a file

A file is plain, a bare container, a macOS self-extractor with a 16-byte
trailer, or a Linux or Windows self-extractor with an 8-byte trailer.  The
classifier follows `format.rs`, arithmetic and slices included.  Each of its
branches is matched by a predicate on the bytes alone.

Main results:

- Theorem `classify_eq`: the classifier's outcome, branch by branch.
- Theorem `not_trailerFits_of_upxzEndFits`: the two trailers never both locate a
  container, so their order does not matter.
- Theorem `classify_panicFree_iff`: the classifier runs without overflow and out
  of range access exactly when its 8-byte trailer, if it comes to it, is more
  than 8 below `2 ^ 64`.
-/

namespace Upxz
namespace Format

open Machine

/-! ## The classifier -/

/-- Whether the bytes begin with the magic of a known codec. -/
def hasMagic (bytes : Bytes) : Except Panic Bool := do
  if bytes.length < magicLen then
    return false
  let tag ← slice bytes 0 magicPrefix.length
  if tag ≠ magicPrefix then
    return false
  let reserved₀ ← index bytes (magicPrefix.length + 1)
  let reserved₁ ← index bytes (magicPrefix.length + 2)
  if reserved₀ ≠ 0 ∨ reserved₁ ≠ 0 then
    return false
  let magicBytes ← slice bytes 0 magicLen
  isOk (Codec.fromMagicByte magicBytes)

/-- Whether a container magic begins at `offset`. -/
def containerAt (mode : Overflow) (buf : Bytes) (offset : Nat) : Except Panic Bool := do
  let stop ← addUsize mode offset magicLen
  if stop ≤ buf.length then
    let tail ← sliceFrom buf offset
    hasMagic tail
  else
    return false

/-- A plain file, or a packed one whose container is `buf[offset..offset + len]`. -/
inductive Kind where
  | plain
  | packed (offset len : Nat)
deriving DecidableEq, Repr

/-- Read a big-endian `u32` from a 4-byte slice. -/
def u32Be (b : Bytes) : Except Panic Nat :=
  readBE32 b 0

/-- Second branch of the classifier: the macOS trailer. -/
def classifyUpxzEnd (mode : Overflow) (buf : Bytes) : Except Panic (Option Kind) := do
  let n := buf.length
  if 16 ≤ n then
    let tag ← slice buf (← subUsize mode n 16) (← subUsize mode n 8)
    if tag = sfxTrailerMagic then
      let loaderLen ← u32Be (← slice buf (← subUsize mode n 8) (← subUsize mode n 4))
      let appLen ← u32Be (← slice buf (← subUsize mode n 4) n)
      match checkedAdd loaderLen appLen with
      | some s =>
          let total ← addUsize mode s 16
          if total = n then
            if ← containerAt mode buf loaderLen then
              return some (.packed loaderLen appLen)
            else
              return none
          else
            return none
      | none => return none
    else
      return none
  else
    return none

/-- Third branch of the classifier: the 8-byte stub size. -/
def classifyTrailer (mode : Overflow) (buf : Bytes) : Except Panic (Option Kind) := do
  let n := buf.length
  if 8 ≤ n then
    let stubSize := ofBE (← slice buf (← subUsize mode n 8) n)
    let stop ← addUsize mode stubSize 8
    if stop ≤ n then
      if ← containerAt mode buf stubSize then
        return some (.packed stubSize (← subUsize mode (← subUsize mode n 8) stubSize))
      else
        return none
    else
      return none
  else
    return none

/-- Classify a file and locate the container of a packed one. -/
def classify (mode : Overflow) (buf : Bytes) : Except Panic Kind := do
  if ← hasMagic buf then
    return .packed 0 buf.length
  match ← classifyUpxzEnd mode buf with
  | some kind => return kind
  | none =>
      match ← classifyTrailer mode buf with
      | some kind => return kind
      | none => return .plain

/-- Refuse input that is already packed. -/
def checkPackableInput (mode : Overflow) (bytes : Bytes) : Exec Error Unit := do
  match ← liftPanic (classify mode bytes) with
  | .plain => return ()
  | .packed _ _ =>
      bail "input is already packed (upxz container or self-extractor); refusing to double-pack"

/-- The container of a packed file; a plain file is an error. -/
def packedContainerSlice (mode : Overflow) (buf : Bytes) (display : String) :
    Exec Error Bytes := do
  match ← liftPanic (classify mode buf) with
  | .plain => bail s!"{display} is not a packed upxz file"
  | .packed offset len =>
      let stop ← liftPanic (addUsize mode offset len)
      liftPanic (slice buf offset stop)

/-! ## What each branch recognises -/

/-- The bytes begin with the magic of some codec. -/
def StartsWithMagic (bytes : Bytes) : Prop :=
  ∃ codec : Codec, codecMagic codec <+: bytes

instance (bytes : Bytes) : Decidable (StartsWithMagic bytes) :=
  decidable_of_iff (codecMagic .zstd <+: bytes ∨ codecMagic .gzip <+: bytes) (by
    constructor
    · intro h
      rcases h with h | h
      · exact ⟨.zstd, h⟩
      · exact ⟨.gzip, h⟩
    · intro h
      rcases h with ⟨codec, h⟩
      cases codec
      · exact Or.inl h
      · exact Or.inr h)

/-- The loader length in the macOS trailer. -/
def loaderLenField (buf : Bytes) : Nat :=
  ofBE ((buf.drop (buf.length - 8)).take 4)

/-- The app length in the macOS trailer. -/
def appLenField (buf : Bytes) : Nat :=
  ofBE (buf.drop (buf.length - 4))

/-- The stub size in the 8-byte trailer. -/
def stubSizeField (buf : Bytes) : Nat :=
  ofBE (buf.drop (buf.length - 8))

/-- The macOS trailer locates a container. -/
def UpxzEndFits (buf : Bytes) : Prop :=
  16 ≤ buf.length ∧ (buf.drop (buf.length - 16)).take 8 = sfxTrailerMagic ∧
    loaderLenField buf + appLenField buf + 16 = buf.length ∧
      StartsWithMagic (buf.drop (loaderLenField buf))

/-- The 8-byte trailer locates a container. -/
def TrailerFits (buf : Bytes) : Prop :=
  8 ≤ buf.length ∧ stubSizeField buf + 8 ≤ buf.length ∧
    StartsWithMagic (buf.drop (stubSizeField buf))

/-- The stub size in the 8-byte trailer leaves no room for adding 8. -/
def TrailerOverflows (buf : Bytes) : Prop :=
  8 ≤ buf.length ∧ usizeValues ≤ stubSizeField buf + 8

instance (buf : Bytes) : Decidable (UpxzEndFits buf) :=
  inferInstanceAs (Decidable (_ ∧ _ ∧ _ ∧ _))

instance (buf : Bytes) : Decidable (TrailerFits buf) :=
  inferInstanceAs (Decidable (_ ∧ _ ∧ _))

instance (buf : Bytes) : Decidable (TrailerOverflows buf) :=
  inferInstanceAs (Decidable (_ ∧ _))

/-- The fields that make up a magic. -/
theorem startsWithMagic_iff {bytes : Bytes} :
    StartsWithMagic bytes ↔
      bytes.take magicPrefix.length = magicPrefix ∧
        bytes[magicPrefix.length + 1]? = some 0 ∧ bytes[magicPrefix.length + 2]? = some 0 ∧
          ∃ codec : Codec, bytes[codecOffset]? = some codec.id := by
  constructor
  · intro h
    rcases h with ⟨codec, rest, rfl⟩
    rw [codecMagic_eq, List.append_assoc]
    exact ⟨List.take_left, rfl, rfl, codec, rfl⟩
  · intro h
    rcases h with ⟨htag, hres₀, hres₁, codec, hid⟩
    refine ⟨codec, ?_⟩
    rw [codecMagic_eq, ← take_magicLen_eq htag hid hres₀ hres₁]
    exact List.take_prefix _ _

theorem StartsWithMagic.length_le {bytes : Bytes} (h : StartsWithMagic bytes) :
    magicLen ≤ bytes.length := by
  rcases h with ⟨codec, hprefix⟩
  rw [← codecMagic_length codec]
  exact hprefix.length_le

/-- A container starts with its codec's magic. -/
theorem Container.startsWithMagic (c : Container) : StartsWithMagic c.bytes := by
  refine ⟨c.codec, ?_⟩
  rw [Container.bytes, Container.header, List.append_assoc, List.append_assoc]
  exact List.prefix_append _ _

/-- `has_magic` never panics: it decides whether a magic is there. -/
theorem hasMagic_eq (bytes : Bytes) :
    hasMagic bytes = .ok (decide (StartsWithMagic bytes)) := by
  by_cases hlong : magicLen ≤ bytes.length
  · rcases exists_fixed_fields hlong with ⟨id, reserved₀, reserved₁, hid, hres₀, hres₁⟩
    have htag := slice_magicPrefix hlong
    have hslice : slice bytes 0 magicLen = .ok (bytes.take magicLen) :=
      slice_ok (Nat.zero_le _) hlong
    have hmagic : StartsWithMagic bytes ↔ bytes.take magicPrefix.length = magicPrefix ∧
        (reserved₀ = 0 ∧ reserved₁ = 0) ∧ ∃ codec : Codec, id = codec.id := by
      rw [startsWithMagic_iff, hid, hres₀, hres₁]
      simp only [Option.some.injEq, and_assoc]
    unfold hasMagic
    rw [if_neg (Nat.not_lt.mpr hlong), htag, ok_bind]
    by_cases htagEq : bytes.take magicPrefix.length = magicPrefix
    · rw [if_neg (not_not.mpr htagEq), index_ok hres₀, ok_bind, index_ok hres₁, ok_bind]
      by_cases hzero : reserved₀ = 0 ∧ reserved₁ = 0
      · rw [if_neg (by simp [hzero]), hslice, ok_bind, Codec.fromMagicByte_take hlong hid]
        rcases Codec.fromId_clean id with ⟨codec, hcodec⟩ | ⟨e, he⟩
        · have hyes : StartsWithMagic bytes :=
            hmagic.mpr ⟨htagEq, hzero, codec, Codec.fromId_eq_ok_iff.mp hcodec⟩
          rw [hcodec, decide_eq_true hyes]
          rfl
        · have hno : ¬StartsWithMagic bytes := by
            intro h
            rcases (hmagic.mp h).2.2 with ⟨codec, hcodec⟩
            rw [Codec.fromId_eq_ok_iff.mpr hcodec] at he
            cases he
          rw [he, decide_eq_false hno]
          rfl
      · have hno : ¬StartsWithMagic bytes := fun h => hzero (hmagic.mp h).2.1
        rw [if_pos (by rwa [← not_and_or]), decide_eq_false hno]
        rfl
    · have hno : ¬StartsWithMagic bytes := fun h => htagEq (hmagic.mp h).1
      rw [if_pos htagEq, decide_eq_false hno]
      rfl
  · have hno : ¬StartsWithMagic bytes := fun h => hlong h.length_le
    rw [hasMagic, if_pos (Nat.not_le.mp hlong), decide_eq_false hno]
    rfl

/-- When the offset leaves room for adding 8, `container_at` decides whether a
magic starts there. -/
theorem containerAt_eq {mode : Overflow} {buf : Bytes} {offset : Nat}
    (hfits : offset + magicLen < usizeValues) :
    containerAt mode buf offset = .ok (decide (StartsWithMagic (buf.drop offset))) := by
  unfold containerAt
  rw [addUsize_ok hfits, ok_bind]
  by_cases hstop : offset + magicLen ≤ buf.length
  · rw [if_pos hstop, sliceFrom_ok (by omega), ok_bind, hasMagic_eq]
  · have hno : ¬StartsWithMagic (buf.drop offset) := by
      intro h
      have hlen := h.length_le
      rw [List.length_drop] at hlen
      simp only [magicLen] at hstop hlen
      omega
    rw [if_neg hstop, decide_eq_false hno]
    rfl

theorem u32Be_eq {b : Bytes} (hlen : b.length = 4) : u32Be b = .ok (ofBE b) := by
  unfold u32Be
  rw [readBE32_ok (by omega), List.drop_zero, List.take_of_length_le (by omega)]

theorem loaderLenField_lt (buf : Bytes) : loaderLenField buf < 2 ^ 32 :=
  ofBE_lt_of_length_le (w := 4) (List.length_take_le _ _)

theorem appLenField_lt (buf : Bytes) : appLenField buf < 2 ^ 32 := by
  apply ofBE_lt_of_length_le (w := 4)
  rw [List.length_drop]
  omega

theorem stubSizeField_lt (buf : Bytes) : stubSizeField buf < usizeValues := by
  apply ofBE_lt_of_length_le (w := 8)
  rw [List.length_drop]
  omega

/-- The macOS branch never panics: it decides whether its trailer locates a
container. -/
theorem classifyUpxzEnd_eq (mode : Overflow) (buf : Bytes) :
    classifyUpxzEnd mode buf =
      .ok (if UpxzEndFits buf then some (.packed (loaderLenField buf) (appLenField buf))
        else none) := by
  by_cases hlong : 16 ≤ buf.length
  · have htag : slice buf (buf.length - 16) (buf.length - 8) =
        .ok ((buf.drop (buf.length - 16)).take 8) :=
      slice_from_end (show 8 + 8 ≤ buf.length from hlong)
    have hloader : slice buf (buf.length - 8) (buf.length - 4) =
        .ok ((buf.drop (buf.length - 8)).take 4) :=
      slice_from_end (show 4 + 4 ≤ buf.length by omega)
    have happ : slice buf (buf.length - 4) buf.length = .ok (buf.drop (buf.length - 4)) :=
      slice_to_end (Nat.sub_le _ _)
    have hloaderLen : u32Be ((buf.drop (buf.length - 8)).take 4) = .ok (loaderLenField buf) :=
      u32Be_eq (by rw [List.length_take, length_drop_sub (by omega)]; rfl)
    have happLen : u32Be (buf.drop (buf.length - 4)) = .ok (appLenField buf) :=
      u32Be_eq (length_drop_sub (by omega))
    have hloaderLt := loaderLenField_lt buf
    have happLt := appLenField_lt buf
    have hsum : checkedAdd (loaderLenField buf) (appLenField buf) =
        some (loaderLenField buf + appLenField buf) :=
      checkedAdd_of_lt (by unfold usizeValues; omega)
    have htotal : addUsize mode (loaderLenField buf + appLenField buf) 16 =
        .ok (loaderLenField buf + appLenField buf + 16) :=
      addUsize_ok (by unfold usizeValues; omega)
    have hat : containerAt mode buf (loaderLenField buf) =
        .ok (decide (StartsWithMagic (buf.drop (loaderLenField buf)))) :=
      containerAt_eq (by unfold usizeValues magicLen; omega)
    unfold classifyUpxzEnd
    simp only [if_pos hlong, subUsize_ok (show 16 ≤ buf.length from hlong),
      subUsize_ok (show 8 ≤ buf.length by omega), subUsize_ok (show 4 ≤ buf.length by omega),
      ok_bind, htag, hloader, happ, hloaderLen, happLen, hsum, htotal, hat]
    by_cases hfits : UpxzEndFits buf
    · have hparts := hfits
      rcases hparts with ⟨-, hmagic, hlen, hstart⟩
      simp [hmagic, hlen, hstart, hfits, pure, Except.pure]
    · rw [if_neg hfits]
      split_ifs with hmagic hlen hstart
      · exact (hfits ⟨hlong, hmagic, hlen, of_decide_eq_true hstart⟩).elim
      · rfl
      · rfl
      · rfl
  · have hno : ¬UpxzEndFits buf := fun h => hlong h.1
    rw [classifyUpxzEnd, if_neg hno]
    simp only [if_neg hlong]
    rfl

/-- The panic an overflowing stub size leads to: the addition itself in a debug
build, the slice at the wrapped offset in a release build. -/
def trailerPanic : Overflow → Panic
  | .checked => .addOverflow
  | .wrapping => .sliceRange

/-- The third branch decides whether its trailer locates a container, unless the
stub size overflows. -/
theorem classifyTrailer_eq (mode : Overflow) {buf : Bytes}
    (hlen : TrailerOverflows buf → buf.length ≤ isizeMax) :
    classifyTrailer mode buf =
      if TrailerOverflows buf then .error (trailerPanic mode)
      else
        .ok (if TrailerFits buf then
            some (.packed (stubSizeField buf) (buf.length - 8 - stubSizeField buf))
          else none) := by
  by_cases hlong : 8 ≤ buf.length
  · have htail : slice buf (buf.length - 8) buf.length = .ok (buf.drop (buf.length - 8)) :=
      slice_to_end (Nat.sub_le _ _)
    have hstub : ofBE (buf.drop (buf.length - 8)) = stubSizeField buf := rfl
    unfold classifyTrailer
    simp only [if_pos hlong, subUsize_ok hlong, ok_bind, htail, hstub]
    by_cases hover : usizeValues ≤ stubSizeField buf + 8
    · have hoverflows : TrailerOverflows buf := ⟨hlong, hover⟩
      rw [if_pos hoverflows]
      cases mode with
      | checked => rw [addUsize_checked_overflow hover, error_bind, trailerPanic]
      | wrapping =>
          have hlen := hlen hoverflows
          have hlt := stubSizeField_lt buf
          have hwrap : (stubSizeField buf + 8) % usizeValues ≤ buf.length := by
            unfold usizeValues at hover hlt ⊢
            omega
          have hout : buf.length < stubSizeField buf := by
            unfold usizeValues at hover
            unfold isizeMax at hlen
            omega
          rw [addUsize_wrapping_overflow hover, ok_bind, if_pos hwrap, containerAt, magicLen,
            addUsize_wrapping_overflow hover, ok_bind, if_pos hwrap, sliceFrom_error hout]
          rfl
    · have hno : ¬TrailerOverflows buf := fun h => hover h.2
      have hat : containerAt mode buf (stubSizeField buf) =
          .ok (decide (StartsWithMagic (buf.drop (stubSizeField buf)))) :=
        containerAt_eq (Nat.lt_of_not_le hover)
      rw [if_neg hno, addUsize_ok (Nat.lt_of_not_le hover), ok_bind]
      by_cases hfits : TrailerFits buf
      · have hparts := hfits
        rcases hparts with ⟨-, hstop, hstart⟩
        have hsub : stubSizeField buf ≤ buf.length - 8 := by omega
        simp [if_pos hstop, hat, hstart, hfits, subUsize_ok hsub, pure, Except.pure]
      · rw [if_neg hfits]
        by_cases hstop : stubSizeField buf + 8 ≤ buf.length
        · have hnot : ¬StartsWithMagic (buf.drop (stubSizeField buf)) := fun hstart =>
            hfits ⟨hlong, hstop, hstart⟩
          simp [hat, hnot, pure, Except.pure]
        · rw [if_neg hstop]
          rfl
  · have hno : ¬TrailerOverflows buf := fun h => hlong h.1
    have hno' : ¬TrailerFits buf := fun h => hlong h.1
    rw [classifyTrailer, if_neg hno, if_neg hno']
    simp only [if_neg hlong]
    rfl

/-- A leading magic is a bare container, whatever the tail looks like. -/
theorem classify_of_startsWithMagic (mode : Overflow) {buf : Bytes}
    (hmagic : StartsWithMagic buf) : classify mode buf = .ok (.packed 0 buf.length) := by
  unfold classify
  rw [hasMagic_eq, ok_bind, decide_eq_true hmagic]
  rfl

/-- A fitting macOS trailer decides before the 8-byte one is looked at. -/
theorem classify_of_upxzEndFits (mode : Overflow) {buf : Bytes} (hmagic : ¬StartsWithMagic buf)
    (hend : UpxzEndFits buf) :
    classify mode buf = .ok (.packed (loaderLenField buf) (appLenField buf)) := by
  unfold classify
  rw [hasMagic_eq, ok_bind, decide_eq_false hmagic, classifyUpxzEnd_eq, ok_bind, if_pos hend]
  rfl

/-- The classifier's outcome, branch by branch. -/
theorem classify_eq (mode : Overflow) {buf : Bytes}
    (hlen : TrailerOverflows buf → buf.length ≤ isizeMax) :
    classify mode buf =
      if StartsWithMagic buf then .ok (.packed 0 buf.length)
      else if UpxzEndFits buf then .ok (.packed (loaderLenField buf) (appLenField buf))
      else if TrailerOverflows buf then .error (trailerPanic mode)
      else if TrailerFits buf then
        .ok (.packed (stubSizeField buf) (buf.length - 8 - stubSizeField buf))
      else .ok .plain := by
  by_cases hmagic : StartsWithMagic buf
  · rw [if_pos hmagic, classify_of_startsWithMagic mode hmagic]
  · by_cases hend : UpxzEndFits buf
    · rw [if_neg hmagic, if_pos hend, classify_of_upxzEndFits mode hmagic hend]
    · unfold classify
      rw [hasMagic_eq, ok_bind, decide_eq_false hmagic, classifyUpxzEnd_eq, ok_bind,
        if_neg hend, classifyTrailer_eq mode hlen, if_neg hmagic, if_neg hend]
      by_cases hover : TrailerOverflows buf
      · simp [hover]
      · by_cases hfits : TrailerFits buf
        · simp [hover, hfits, pure, Except.pure]
        · simp [hover, hfits, pure, Except.pure]

/-- The files the classifier panics on. -/
theorem classify_eq_error_iff {mode : Overflow} {buf : Bytes} {why : Panic}
    (hlen : buf.length ≤ isizeMax) :
    classify mode buf = .error why ↔
      ¬StartsWithMagic buf ∧ ¬UpxzEndFits buf ∧ TrailerOverflows buf ∧ why = trailerPanic mode := by
  rw [classify_eq mode fun _ => hlen]
  split_ifs with hmagic hend hover hfits
  · simp [hmagic]
  · simp [hend]
  · simp [hmagic, hend, hover, eq_comm]
  · simp [hover]
  · simp [hover]

/-! ## The two trailers exclude each other -/

/-- The 8-byte trailer read as the two lengths of the macOS trailer. -/
theorem stubSizeField_eq {buf : Bytes} (hlong : 8 ≤ buf.length) :
    stubSizeField buf = loaderLenField buf * 2 ^ 32 + appLenField buf := by
  have hsplit : buf.drop (buf.length - 8) =
      (buf.drop (buf.length - 8)).take 4 ++ buf.drop (buf.length - 4) := by
    have hdrop : (buf.drop (buf.length - 8)).drop 4 = buf.drop (buf.length - 4) :=
      drop_sub_drop (show 4 + 4 ≤ buf.length from hlong)
    rw [← hdrop, List.take_append_drop]
  have hfour : (buf.drop (buf.length - 4)).length = 4 := length_drop_sub (by omega)
  rw [stubSizeField, hsplit, ofBE_append, hfour]
  rfl

/-- In a file without a leading magic the two trailers never both locate a
container: the 8-byte one only fits when the loader length is zero. -/
theorem not_trailerFits_of_upxzEndFits {buf : Bytes} (hmagic : ¬StartsWithMagic buf)
    (hend : UpxzEndFits buf) : ¬TrailerFits buf := by
  intro htrailer
  rcases hend with ⟨hlong, -, hsum, hstart⟩
  rcases htrailer with ⟨hlong', hstop, -⟩
  rw [stubSizeField_eq hlong'] at hstop
  have happLt := appLenField_lt buf
  by_cases hzero : loaderLenField buf = 0
  · rw [hzero, List.drop_zero] at hstart
    exact hmagic hstart
  · have hmul : 2 ^ 32 ≤ loaderLenField buf * 2 ^ 32 :=
      Nat.le_mul_of_pos_left _ (Nat.pos_of_ne_zero hzero)
    have hgrow : loaderLenField buf + 8 < loaderLenField buf * 2 ^ 32 := by omega
    omega

/-! ## Panic freedom -/

/-- The classifier returns, what it returns lies inside the file, and taking the
container out of the file does not panic either. -/
def PanicFree (mode : Overflow) (buf : Bytes) : Prop :=
  (∃ kind, classify mode buf = .ok kind ∧
    ∀ offset len, kind = .packed offset len → offset + len ≤ buf.length) ∧
  ∀ display, Clean (packedContainerSlice mode buf display)

/-- A located container lies inside the file. -/
theorem classify_bounds {mode : Overflow} {buf : Bytes} {offset len : Nat}
    (hlen : buf.length ≤ isizeMax) (hok : classify mode buf = .ok (.packed offset len)) :
    offset + len ≤ buf.length := by
  rw [classify_eq mode fun _ => hlen] at hok
  split_ifs at hok with hmagic hend hover hfits
  · cases hok
    omega
  · cases hok
    have hsum := hend.2.2.1
    omega
  · cases hok
    have hstop := hfits.2.1
    omega
  · cases hok

/-- The container a packed file is cut down to. -/
theorem packedContainerSlice_packed {mode : Overflow} {buf : Bytes} {offset len : Nat}
    (hlen : buf.length ≤ isizeMax) (hok : classify mode buf = .ok (.packed offset len))
    (display : String) :
    packedContainerSlice mode buf display = .ok ((buf.drop offset).take len) := by
  have hbounds := classify_bounds hlen hok
  have hsum : offset + len < usizeValues := lt_usizeValues (Nat.le_trans hbounds hlen)
  unfold packedContainerSlice
  rw [hok, liftPanic_ok, ok_bind]
  simp only
  rw [addUsize_ok hsum, liftPanic_ok, ok_bind, slice_ok (Nat.le_add_right _ _) hbounds,
    liftPanic_ok, Nat.add_sub_cancel_left]

/-- Once the classifier returns, the container slice is in range. -/
theorem packedContainerSlice_clean {mode : Overflow} {buf : Bytes} {kind : Kind}
    (hlen : buf.length ≤ isizeMax) (hok : classify mode buf = .ok kind) (display : String) :
    Clean (packedContainerSlice mode buf display) := by
  cases kind with
  | plain =>
      unfold packedContainerSlice
      rw [hok, liftPanic_ok, ok_bind]
      exact clean_err _
  | packed offset len =>
      rw [packedContainerSlice_packed hlen hok]
      exact clean_ok _

/-- A container is cut out of a file exactly when the classifier locates it. -/
theorem packedContainerSlice_eq_ok_iff {mode : Overflow} {buf container : Bytes}
    {display : String} (hlen : buf.length ≤ isizeMax) :
    packedContainerSlice mode buf display = .ok container ↔
      ∃ offset len, classify mode buf = .ok (.packed offset len) ∧
        (buf.drop offset).take len = container := by
  constructor
  · intro hok
    have hunfold := hok
    unfold packedContainerSlice at hunfold
    rcases bind_eq_ok_iff.mp hunfold with ⟨kind, hkind, hrest⟩
    rw [liftPanic_eq_ok_iff] at hkind
    cases kind with
    | plain => cases hrest
    | packed offset len =>
        rw [packedContainerSlice_packed hlen hkind] at hok
        exact ⟨offset, len, hkind, Except.ok.inj hok⟩
  · intro h
    rcases h with ⟨offset, len, hkind, rfl⟩
    exact packedContainerSlice_packed hlen hkind display

theorem not_panicFree_of_error {mode : Overflow} {buf : Bytes} {why : Panic}
    (h : classify mode buf = .error why) : ¬PanicFree mode buf := by
  intro hfree
  rcases hfree with ⟨⟨kind, hok, -⟩, -⟩
  rw [h] at hok
  cases hok

/-- The stub size leaves room for adding 8 exactly when there is none, or it is more than
8 below `2 ^ 64`. -/
theorem not_trailerOverflows_iff {buf : Bytes} :
    ¬TrailerOverflows buf ↔ buf.length < 8 ∨ stubSizeField buf < 2 ^ 64 - 8 := by
  unfold TrailerOverflows usizeValues
  omega

/-- The classifier runs without overflow or out of range access exactly when the
file starts with a magic, or its macOS trailer locates a container, or its last
eight bytes, if it has eight, are less than `2 ^ 64 - 8` as a number. -/
theorem classify_panicFree_iff (mode : Overflow) (buf : Bytes)
    (hlen : buf.length ≤ isizeMax) :
    PanicFree mode buf ↔
      StartsWithMagic buf ∨ UpxzEndFits buf ∨ buf.length < 8 ∨
        stubSizeField buf < 2 ^ 64 - 8 := by
  constructor
  · intro hfree
    rcases hfree with ⟨⟨kind, hok, -⟩, -⟩
    rw [classify_eq mode fun _ => hlen] at hok
    by_cases hmagic : StartsWithMagic buf
    · exact Or.inl hmagic
    · by_cases hend : UpxzEndFits buf
      · exact Or.inr (Or.inl hend)
      · by_cases hover : TrailerOverflows buf
        · rw [if_neg hmagic, if_neg hend, if_pos hover] at hok
          cases hok
        · exact Or.inr (Or.inr (not_trailerOverflows_iff.mp hover))
  · intro hcond
    have hreturns : ∃ kind, classify mode buf = .ok kind := by
      rw [classify_eq mode fun _ => hlen]
      by_cases hmagic : StartsWithMagic buf
      · exact ⟨_, if_pos hmagic⟩
      · by_cases hend : UpxzEndFits buf
        · exact ⟨_, by rw [if_neg hmagic, if_pos hend]⟩
        · have hover : ¬TrailerOverflows buf := by
            rcases hcond with h | h | h
            · exact (hmagic h).elim
            · exact (hend h).elim
            · exact not_trailerOverflows_iff.mpr h
          rw [if_neg hmagic, if_neg hend, if_neg hover]
          by_cases hfits : TrailerFits buf
          · exact ⟨_, if_pos hfits⟩
          · exact ⟨_, if_neg hfits⟩
    rcases hreturns with ⟨kind, hok⟩
    refine ⟨⟨kind, hok, ?_⟩, packedContainerSlice_clean hlen hok⟩
    intro offset len hkind
    exact classify_bounds hlen (hkind ▸ hok)

/-- A short text file is classified without a panic. -/
theorem classify_panicFree_hello :
    PanicFree .checked (asBytes "hello world") ∧ PanicFree .wrapping (asBytes "hello world") :=
  ⟨(classify_panicFree_iff .checked (asBytes "hello world") (by decide)).mpr
      (Or.inr (Or.inr (Or.inr (by decide)))),
    (classify_panicFree_iff .wrapping (asBytes "hello world") (by decide)).mpr
      (Or.inr (Or.inr (Or.inr (by decide))))⟩

/-- A file of eight `0xFF` bytes makes the classifier panic, in a debug build on
the addition and in a release build on the slice. -/
theorem classify_panics_on_ff_padding :
    ¬PanicFree .checked (List.replicate 8 0xFF) ∧
      ¬PanicFree .wrapping (List.replicate 8 0xFF) := by
  have hchecked : classify .checked (List.replicate 8 0xFF) = .error .addOverflow := by
    decide
  have hwrapping : classify .wrapping (List.replicate 8 0xFF) = .error .sliceRange := by
    decide
  exact ⟨not_panicFree_of_error hchecked, not_panicFree_of_error hwrapping⟩

end Format
end Upxz
