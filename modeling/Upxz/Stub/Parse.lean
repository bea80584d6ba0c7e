import Upxz.Format.Layout

/-!
# Stub - Finding the container in one's own image

The Linux stub locates the container inside its own image by the 8-byte trailer
and parses its header with code of its own; the Windows stub repeats the same
text.  The definitions follow steps 2 to 4 of `stub/src/main.rs`.

Main results:

- Theorem `parseRegion_eq_ok_iff`: the stub's header parser accepts exactly the
  containers whose name is UTF-8.
- Theorem `parseImage_eq_ok_iff`: the stub accepts exactly the stub-shaped
  images around such a container.
- Theorem `stub_reader_agree`: stub and reader extract the same codec, name and
  payload from every image.
- Theorem `failsCleanly_iff`: the stub parses without a panic exactly when its
  trailer is more than 8 below `2 ^ 64`.
-/

namespace Upxz
namespace Stub

open Machine Format

/-! ## The stub's parser -/

/-- Length of the stub size trailer. -/
def trailerLen : Nat := 8

/-- Codec id of zstd. -/
def codecZstd : UInt8 := 0

/-- Codec id of gzip. -/
def codecGzip : UInt8 := 1

/-- Steps 2 and 3: read the trailer and cut out the region it delimits. -/
def locateRegion (mode : Overflow) (image : Bytes) : Exec String Bytes := do
  ensure (trailerLen ≤ image.length) "self image too small to contain a trailer"
  let start ← liftPanic (subUsize mode image.length trailerLen)
  let tail ← liftPanic (sliceFrom image start)
  let stubSize ← liftPanic (readBE64 tail 0)
  let stop ← liftPanic (addUsize mode stubSize trailerLen)
  ensure (stop ≤ image.length)
    s!"declared stub size {stubSize} is larger than the image ({image.length})"
  liftPanic (slice image stubSize start)

/-- Step 4: check the magic, decode the name, and leave the payload. -/
def parseRegion (upxz : Bytes) : Exec String (UInt8 × String × Bytes) := do
  ensure (magicPrefix.length + 3 + 4 ≤ upxz.length)
    "trailer points at a region too small to be a .upxz container"
  let tag ← liftPanic (slice upxz 0 magicPrefix.length)
  ensure (tag = magicPrefix) "trailer region does not start with the upxz magic prefix"
  let reserved₀ ← liftPanic (index upxz (magicPrefix.length + 1))
  let reserved₁ ← liftPanic (index upxz (magicPrefix.length + 2))
  ensure (reserved₀ = 0 ∧ reserved₁ = 0)
    "bad magic: reserved bytes are non-zero (not a known upxz format)"
  let codecByte ← liftPanic (index upxz codecOffset)
  ensure (codecByte = codecZstd ∨ codecByte = codecGzip)
    s!"unknown upxz codec id {codecByte} in stub (only 0=zstd, 1=gzip are defined)"
  let nameLen ← liftPanic (readBE32 upxz (magicPrefix.length + 3))
  let nameStart := magicPrefix.length + 3 + 4
  match checkedAdd nameStart nameLen with
  | none => .error (.err "name length overflows usize")
  | some payloadStart => do
      ensure (payloadStart ≤ upxz.length)
        s!"declared name length {nameLen} runs past the container"
      let nameBytes ← liftPanic (slice upxz nameStart payloadStart)
      match fromUtf8 nameBytes with
      | .error e => .error (.err s!"stored original name is not valid UTF-8: {e.message}")
      | .ok name => do
          let payload ← liftPanic (sliceFrom upxz payloadStart)
          return (codecByte, name, payload)

/-- Steps 2 to 4 of `run`. -/
def parseImage (mode : Overflow) (image : Bytes) : Exec String (UInt8 × String × Bytes) := do
  let upxz ← locateRegion mode image
  parseRegion upxz

/-! ## What the parser accepts -/

/-- A codec byte passes the check exactly when some codec has it. -/
theorem codecByte_ok_iff {b : UInt8} :
    b = codecZstd ∨ b = codecGzip ↔ ∃ codec : Codec, codec.id = b := by
  constructor
  · intro h
    rcases h with rfl | rfl
    · exact ⟨.zstd, rfl⟩
    · exact ⟨.gzip, rfl⟩
  · intro h
    rcases h with ⟨codec, rfl⟩
    cases codec
    · exact Or.inl rfl
    · exact Or.inr rfl

/-- On a region long enough for a header every read is in range; what is left
are the stub's checks. -/
theorem parseRegion_of_long {upxz : Bytes} {id reserved₀ reserved₁ : UInt8}
    (hlong : magicLen + 4 ≤ upxz.length) (hid : upxz[codecOffset]? = some id)
    (hres₀ : upxz[magicPrefix.length + 1]? = some reserved₀)
    (hres₁ : upxz[magicPrefix.length + 2]? = some reserved₁) :
    parseRegion upxz = (do
      ensure (upxz.take magicPrefix.length = magicPrefix)
        "trailer region does not start with the upxz magic prefix"
      ensure (reserved₀ = 0 ∧ reserved₁ = 0)
        "bad magic: reserved bytes are non-zero (not a known upxz format)"
      ensure (id = codecZstd ∨ id = codecGzip)
        s!"unknown upxz codec id {id} in stub (only 0=zstd, 1=gzip are defined)"
      ensure (magicLen + 4 + declaredNameLen upxz ≤ upxz.length)
        s!"declared name length {declaredNameLen upxz} runs past the container"
      match fromUtf8 ((upxz.drop 12).take (declaredNameLen upxz)) with
      | .error e => .error (.err s!"stored original name is not valid UTF-8: {e.message}")
      | .ok name => return (id, name, upxz.drop (magicLen + 4 + declaredNameLen upxz))) := by
  have hnameLen : readBE32 upxz (magicPrefix.length + 3) = .ok (declaredNameLen upxz) :=
    readBE32_declaredNameLen hlong
  have hlt := declaredNameLen_lt upxz
  have hstart : checkedAdd (magicPrefix.length + 3 + 4) (declaredNameLen upxz) =
      some (magicLen + 4 + declaredNameLen upxz) :=
    checkedAdd_of_lt (by
      simp only [magicPrefix, usizeValues, List.length_cons, List.length_nil]
      omega)
  have htag := slice_magicPrefix (Nat.le_of_add_right_le hlong)
  unfold parseRegion
  rw [ensure_of _ (show magicPrefix.length + 3 + 4 ≤ upxz.length from hlong), ok_bind]
  simp only [htag, index_ok hres₀, index_ok hres₁, index_ok hid, hnameLen, hstart,
    liftPanic_ok, ok_bind]
  by_cases hfits : magicLen + 4 + declaredNameLen upxz ≤ upxz.length
  · have hslice : slice upxz (magicPrefix.length + 3 + 4) (magicLen + 4 + declaredNameLen upxz) =
        .ok ((upxz.drop 12).take (declaredNameLen upxz)) := by
      have hsize : magicLen + 4 + declaredNameLen upxz - (magicPrefix.length + 3 + 4) =
          declaredNameLen upxz := Nat.add_sub_cancel_left 12 _
      have hle : magicPrefix.length + 3 + 4 ≤ magicLen + 4 + declaredNameLen upxz :=
        Nat.le_add_right 12 _
      rw [slice_ok hle hfits, hsize]
      rfl
    simp only [ensure_of _ hfits, ok_bind, hslice, liftPanic_ok, sliceFrom_ok hfits]
  · simp only [ensure_of_not _ hfits, error_bind]

/-- The stub's header parser accepts exactly the containers whose name is UTF-8. -/
theorem parseRegion_eq_ok_iff {upxz : Bytes} {codecByte : UInt8} {name : String}
    {payload : Bytes} :
    parseRegion upxz = .ok (codecByte, name, payload) ↔
      ∃ c : Container, c.bytes = upxz ∧ c.codec.id = codecByte ∧ c.name = asBytes name ∧
        c.payload = payload := by
  constructor
  · intro hok
    by_cases hlong : magicLen + 4 ≤ upxz.length
    · rcases exists_fixed_fields (Nat.le_of_add_right_le hlong) with
        ⟨id, reserved₀, reserved₁, hid, hres₀, hres₁⟩
      rw [parseRegion_of_long hlong hid hres₀ hres₁] at hok
      simp only [ensure_bind_eq_ok] at hok
      rcases hok with ⟨htag, ⟨hzero₀, hzero₁⟩, hcodec, hfits, hmatch⟩
      rcases codecByte_ok_iff.mp hcodec with ⟨codec, hcodec⟩
      split at hmatch
      · cases hmatch
      · rename_i name' hname
        simp only [pure, Except.pure, Except.ok.injEq, Prod.mk.injEq] at hmatch
        rcases hmatch with ⟨hbyte, hnameEq, hpayload⟩
        subst hcodec hzero₀ hzero₁ hnameEq
        rcases exists_container_of_fields htag hid hres₀ hres₁ hfits with
          ⟨c, hc, hccodec, hcname, hcpayload⟩
        refine ⟨c, hc, ?_, ?_, hcpayload.trans hpayload⟩
        · rw [hccodec, hbyte]
        · rw [hcname, fromUtf8_eq_ok_iff.mp hname]
    · have hshort : ¬magicPrefix.length + 3 + 4 ≤ upxz.length := hlong
      rw [parseRegion, ensure_of_not _ hshort, error_bind] at hok
      cases hok
  · intro h
    rcases h with ⟨c, hbytes, hcodec, hname, hpayload⟩
    have hf := Container.bytes_eq_iff.mp hbytes
    have hfits := hf.declared_fits
    have hzero : (0 : UInt8) = 0 ∧ (0 : UInt8) = 0 := ⟨rfl, rfl⟩
    have hutf8 : fromUtf8 ((upxz.drop 12).take (declaredNameLen upxz)) = .ok name := by
      rw [hf.nameLen, hf.name]
      exact fromUtf8_eq_ok_iff.mpr hname.symm
    rw [parseRegion_of_long (Nat.le_trans (Nat.le_add_right _ _) hfits) hf.codec hf.reserved₀
      hf.reserved₁]
    rw [ensure_of _ hf.tag, ok_bind, ensure_of _ hzero, ok_bind,
      ensure_of _ (codecByte_ok_iff.mpr ⟨c.codec, rfl⟩), ok_bind, ensure_of _ hfits, ok_bind]
    simp only [hutf8]
    rw [hcodec, hf.nameLen, ← hpayload, ← hf.payload]
    rfl

/-- On an image long enough for a trailer the trailer is read; what is left depends on
the stub size in it. -/
theorem locateRegion_of_long (mode : Overflow) {image : Bytes} (hlong : 8 ≤ image.length) :
    locateRegion mode image = (do
      let stop ← liftPanic (addUsize mode (stubSizeField image) 8)
      ensure (stop ≤ image.length)
        s!"declared stub size {stubSizeField image} is larger than the image ({image.length})"
      liftPanic (slice image (stubSizeField image) (image.length - 8))) := by
  have htail : (image.drop (image.length - 8)).length = 8 := length_drop_sub hlong
  have hread : readBE64 (image.drop (image.length - 8)) 0 = .ok (stubSizeField image) := by
    rw [readBE64_ok (by omega), List.drop_zero, List.take_of_length_le (by omega)]
    rfl
  have hguard : trailerLen ≤ image.length := hlong
  unfold locateRegion
  rw [ensure_of _ hguard, ok_bind]
  simp only [trailerLen, subUsize_ok hlong, sliceFrom_ok (Nat.sub_le _ 8), hread, liftPanic_ok,
    ok_bind]

/-- A stub size that leaves no room for adding 8 panics: on the addition, or past a
wrapped sum on the slice, whose start is out of range. -/
theorem locateRegion_of_overflows (mode : Overflow) {image : Bytes}
    (hlen : image.length ≤ isizeMax) (hover : TrailerOverflows image) :
    locateRegion mode image = .error (.panic (trailerPanic mode)) := by
  rcases hover with ⟨hlong, hover⟩
  rw [locateRegion_of_long mode hlong]
  cases mode with
  | checked =>
      rw [addUsize_checked_overflow hover, liftPanic_error, error_bind]
      rfl
  | wrapping =>
      have hlt := stubSizeField_lt image
      have hwrap : (stubSizeField image + 8) % usizeValues ≤ image.length := by
        unfold usizeValues at hover hlt ⊢
        omega
      have hrange : ¬(stubSizeField image ≤ image.length - 8 ∧
          image.length - 8 ≤ image.length) := by
        unfold usizeValues at hover
        unfold isizeMax at hlen
        omega
      rw [addUsize_wrapping_overflow hover, liftPanic_ok, ok_bind, ensure_of _ hwrap, ok_bind,
        slice, if_neg hrange]
      rfl

/-- Without overflow the region is cut out when its stub size fits, and refused
otherwise. -/
theorem locateRegion_of_not_overflows (mode : Overflow) {image : Bytes}
    (hlong : 8 ≤ image.length) (hover : ¬TrailerOverflows image) :
    locateRegion mode image = (do
      ensure (stubSizeField image + 8 ≤ image.length)
        s!"declared stub size {stubSizeField image} is larger than the image ({image.length})"
      return stubRegion image) := by
  have hsum : stubSizeField image + 8 < usizeValues :=
    Nat.not_le.mp fun hvalues => hover ⟨hlong, hvalues⟩
  rw [locateRegion_of_long mode hlong, addUsize_ok hsum, liftPanic_ok, ok_bind]
  by_cases hsize : stubSizeField image + 8 ≤ image.length
  · rw [ensure_of _ hsize, ok_bind, ok_bind, slice_ok (by omega) (by omega), liftPanic_ok]
    rfl
  · rw [ensure_of_not _ hsize, error_bind, error_bind]

/-- Steps 2 and 3 return the region exactly when the stub size leaves room for
the trailer. -/
theorem locateRegion_eq_ok_iff {mode : Overflow} {image upxz : Bytes}
    (hlen : image.length ≤ isizeMax) :
    locateRegion mode image = .ok upxz ↔
      8 ≤ image.length ∧ stubSizeField image + 8 ≤ image.length ∧ stubRegion image = upxz := by
  by_cases hlong : 8 ≤ image.length
  · by_cases hover : TrailerOverflows image
    · have hnot : ¬stubSizeField image + 8 ≤ image.length := by
        have hvalues := hover.2
        have hlt := lt_usizeValues hlen
        omega
      rw [locateRegion_of_overflows mode hlen hover]
      simp only [hnot, false_and, and_false, reduceCtorEq]
    · rw [locateRegion_of_not_overflows mode hlong hover, ensure_bind_eq_ok]
      simp only [hlong, true_and, pure, Except.pure, Except.ok.injEq]
  · have hguard : ¬trailerLen ≤ image.length := hlong
    rw [locateRegion, ensure_of_not _ hguard, error_bind]
    simp only [hlong, false_and, reduceCtorEq]

/-- The stub accepts exactly the stub-shaped images around a container whose name
is UTF-8. -/
theorem parseImage_eq_ok_iff {mode : Overflow} {image : Bytes} (hlen : image.length ≤ isizeMax)
    {codecByte : UInt8} {name : String} {payload : Bytes} :
    parseImage mode image = .ok (codecByte, name, payload) ↔
      ∃ (stub : Bytes) (c : Container), stubImage stub c.bytes = image ∧
        c.codec.id = codecByte ∧ c.name = asBytes name ∧ c.payload = payload := by
  unfold parseImage
  rw [bind_eq_ok_iff]
  constructor
  · intro h
    rcases h with ⟨upxz, hlocate, hparse⟩
    rcases (locateRegion_eq_ok_iff hlen).mp hlocate with ⟨hlong, hsize, hregion⟩
    rcases parseRegion_eq_ok_iff.mp hparse with ⟨c, hbytes, hcodec, hname, hpayload⟩
    refine ⟨image.take (stubSizeField image), c, ?_, hcodec, hname, hpayload⟩
    rw [hbytes, ← hregion]
    exact stubImage_eq_of_fits hlong hsize
  · intro h
    rcases h with ⟨stub, c, himage, hcodec, hname, hpayload⟩
    have hstub : stub.length < usizeValues := by
      rw [← himage, stubImage_length] at hlen
      exact lt_usizeValues (by omega)
    refine ⟨c.bytes, (locateRegion_eq_ok_iff hlen).mpr ?_,
      parseRegion_eq_ok_iff.mpr ⟨c, rfl, hcodec, hname, hpayload⟩⟩
    rw [← himage, stubImage_length, stubSizeField_stubImage _ hstub, stubRegion_stubImage hstub]
    exact ⟨by omega, by omega, rfl⟩

/-! ## Stub and reader -/

/-- Stub and reader agree on every image that does not begin with a magic: what the
stub extracts under a name the reader accepts, the reader extracts; what the reader
extracts through the 8-byte trailer, the stub extracts. -/
theorem stub_reader_agree (mode : Overflow) (image : Bytes) (hlen : image.length ≤ isizeMax)
    (hmagic : ¬StartsWithMagic image) :
    (∀ codecByte name payload, parseImage mode image = .ok (codecByte, name, payload) →
      (asBytes name).length ≤ maxNameLen →
        ∃ codec : Codec, codec.id = codecByte ∧
          ReaderExtracts mode image ⟨name, codec⟩ payload) ∧
    (∀ offset len h off, classifyUpxzEnd mode image = .ok none →
      classify mode image = .ok (.packed offset len) →
      parseHeader ((image.drop offset).take len) = .ok (h, off) →
        parseImage mode image =
          .ok (h.codec.id, h.name, ((image.drop offset).take len).drop off)) := by
  constructor
  · intro codecByte name payload hok hname
    rcases (parseImage_eq_ok_iff hlen).mp hok with ⟨stub, c, himage, hcodec, hcname, hpayload⟩
    have hstub : stub.length + 8 < usizeValues := by
      rw [← himage, stubImage_length] at hlen
      exact lt_usizeValues (by omega)
    refine ⟨c.codec, hcodec, ?_⟩
    rw [← himage] at hmagic ⊢
    have hlocated := classify_stubImage mode hmagic hstub c.startsWithMagic
    have hcut : ((stubImage stub c.bytes).drop stub.length).take c.bytes.length = c.bytes := by
      rw [stubImage, List.append_assoc, List.drop_left, List.take_left]
    refine ⟨_, _, c.header.length, hlocated, ?_, ?_⟩
    · rw [hcut]
      exact parseHeader_eq_ok_iff_container.mpr ⟨c, rfl, rfl, hcname, hcname ▸ hname, rfl⟩
    · rw [hcut, Container.bytes, List.drop_left, hpayload]
  · intro offset len h off hnone hlocated hparsed
    have hend : ¬UpxzEndFits image := by
      intro hend
      rw [classifyUpxzEnd_eq, if_pos hend] at hnone
      cases hnone
    rw [classify_eq mode fun _ => hlen, if_neg hmagic, if_neg hend] at hlocated
    split_ifs at hlocated with hover hfits
    · cases hlocated
      have himage := stubImage_eq_of_fits hfits.1 hfits.2.1
      rcases parseHeader_eq_ok_iff_container.mp hparsed with
        ⟨c, hbytes, hcodec, hname, -, hoff⟩
      refine (parseImage_eq_ok_iff hlen).mpr
        ⟨image.take (stubSizeField image), c, ?_, by rw [hcodec], hname, ?_⟩
      · rw [hbytes]
        exact himage
      · rw [← hbytes, ← hoff, Container.bytes, List.drop_left]
    · cases hlocated

/-- A self-extractor for a two-byte file under the smallest ELF image. -/
def hiImage : Bytes :=
  stubImage elfStub.bytes (Header.encode ⟨"hi.txt", .zstd⟩ ++ storedFrame (asBytes "hi"))

theorem stub_reader_agree_hi :
    ReaderExtracts .checked hiImage ⟨"hi.txt", .zstd⟩ (storedFrame (asBytes "hi")) ∧
      parseImage .checked hiImage =
        .ok (Codec.zstd.id, "hi.txt", ((hiImage.drop 4).take 29).drop 18) := by
  have hagree := stub_reader_agree .checked hiImage (by decide) (by decide)
  have hstub : parseImage .checked hiImage = .ok (0, "hi.txt", storedFrame (asBytes "hi")) := by
    decide
  rcases hagree.1 0 "hi.txt" (storedFrame (asBytes "hi")) hstub (by decide) with
    ⟨codec, hcodec, hreader⟩
  have hzstd : codec = .zstd := Codec.id_injective hcodec
  refine ⟨hzstd ▸ hreader, ?_⟩
  exact hagree.2 4 29 ⟨"hi.txt", .zstd⟩ 18 (by decide) (by decide) (by decide)

/-! ## Failing cleanly -/

/-- The header parser returns or reports an error on every region. -/
theorem parseRegion_clean (upxz : Bytes) : Clean (parseRegion upxz) := by
  by_cases hlong : magicLen + 4 ≤ upxz.length
  · rcases exists_fixed_fields (Nat.le_of_add_right_le hlong) with
      ⟨id, reserved₀, reserved₁, hid, hres₀, hres₁⟩
    rw [parseRegion_of_long hlong hid hres₀ hres₁]
    refine Clean.ensure_bind fun _ => Clean.ensure_bind fun _ => Clean.ensure_bind fun _ =>
      Clean.ensure_bind fun _ => ?_
    split
    · exact clean_err _
    · exact clean_ok _
  · have hshort : ¬magicPrefix.length + 3 + 4 ≤ upxz.length := hlong
    rw [parseRegion, ensure_of_not _ hshort, error_bind]
    exact clean_err _

/-- Cutting out the region returns or reports an error when the stub size leaves room for
adding 8. -/
theorem locateRegion_clean (mode : Overflow) {image : Bytes} (hover : ¬TrailerOverflows image) :
    Clean (locateRegion mode image) := by
  by_cases hlong : 8 ≤ image.length
  · rw [locateRegion_of_not_overflows mode hlong hover]
    exact Clean.ensure_bind fun _ => clean_ok _
  · have hguard : ¬trailerLen ≤ image.length := hlong
    rw [locateRegion, ensure_of_not _ hguard, error_bind]
    exact clean_err _

/-- Steps 2 to 4 return or report an error, no sum overflows and no access is out of
range; and the codec byte they return is one the decompression knows. -/
def FailsCleanly (mode : Overflow) (image : Bytes) : Prop :=
  Clean (parseImage mode image) ∧
    ∀ codecByte name payload, parseImage mode image = .ok (codecByte, name, payload) →
      codecByte = codecZstd ∨ codecByte = codecGzip

theorem not_failsCleanly_of_panic {mode : Overflow} {image : Bytes} {why : Panic}
    (h : parseImage mode image = .error (.panic why)) : ¬FailsCleanly mode image := by
  intro hfails
  have hclean := hfails.1
  rw [h] at hclean
  exact not_clean_panic why hclean

/-- The stub fails cleanly exactly on the images that are too short for a trailer, or
whose last eight bytes are less than `2 ^ 64 - 8` as a number. -/
theorem failsCleanly_iff (mode : Overflow) (image : Bytes) (hlen : image.length ≤ isizeMax) :
    FailsCleanly mode image ↔ image.length < 8 ∨ stubSizeField image < 2 ^ 64 - 8 := by
  rw [← not_trailerOverflows_iff]
  constructor
  · intro hfails hover
    have hpanic : parseImage mode image = .error (.panic (trailerPanic mode)) := by
      rw [parseImage, locateRegion_of_overflows mode hlen hover, error_bind]
    exact not_failsCleanly_of_panic hpanic hfails
  · intro hover
    constructor
    · exact (locateRegion_clean mode hover).bind fun upxz _ => parseRegion_clean upxz
    · intro codecByte name payload hok
      rcases (parseImage_eq_ok_iff hlen).mp hok with ⟨stub, c, -, hcodec, -⟩
      exact codecByte_ok_iff.mpr ⟨c.codec, hcodec⟩

/-- A packed image parses cleanly under either overflow discipline. -/
theorem failsCleanly_hi :
    FailsCleanly .checked hiImage ∧ FailsCleanly .wrapping hiImage :=
  ⟨(failsCleanly_iff .checked hiImage (by decide)).mpr (Or.inr (by decide)),
    (failsCleanly_iff .wrapping hiImage (by decide)).mpr (Or.inr (by decide))⟩

/-- A stub followed by eight `0xFF` bytes: its trailer is the largest stub size. -/
def ffImage : Bytes :=
  elfStub.bytes ++ List.replicate 8 0xFF

/-- The parser panics on that trailer, in a debug build on the addition and in a release
build on the slice. -/
theorem ffImage_panics :
    ¬FailsCleanly .checked ffImage ∧ ¬FailsCleanly .wrapping ffImage ∧
      parseImage .checked ffImage = .error (.panic .addOverflow) ∧
      parseImage .wrapping ffImage = .error (.panic .sliceRange) := by
  have hchecked : parseImage .checked ffImage = .error (.panic .addOverflow) := by decide
  have hwrapping : parseImage .wrapping ffImage = .error (.panic .sliceRange) := by decide
  exact ⟨not_failsCleanly_of_panic hchecked, not_failsCleanly_of_panic hwrapping, hchecked,
    hwrapping⟩

end Stub
end Upxz
