import Upxz.Format.Layout

/-!
# Loader - Finding the app segment on macOS

The macOS loader reads the 16-byte trailer of its own file, cuts out the app
segment, and parses the container header with raw reads; it knows zstd only.
The definitions follow steps 1 to 4 of `loader/src/main.rs`, with the segment
read by index so that a read outside it would show as a panic.

Main results:

- Theorem `parseApp_eq_ok_iff`: the loader accepts exactly the zstd containers,
  whatever bytes their name has.
- Theorem `parseFile_eq_ok_iff`: the loader accepts a file when its two segments
  fit before the trailer and the app segment is such a container.
- Theorem `loader_reader_agree_iff`: the reader extracts what the loader accepts
  when the segments fill the file and the name is UTF-8 of bounded length.
-/

namespace Upxz
namespace Loader

open Machine Format

/-! ## The loader's parser -/

/-- Length of the macOS trailer. -/
def trailerLen : Nat := 16

/-- Codec id of zstd. -/
def codecZstd : UInt8 := 0

/-- Codec id of gzip. -/
def codecGzip : UInt8 := 1

/-- Magic and name length. -/
def headerFixed : Nat := magicLen + 4

/-- Exit code for a bad container or trailer. -/
def exitFormat : Nat := 65

/-- Exit code for an I/O error. -/
def exitIo : Nat := 74

/-- How the loader gives up: its line on stderr and its exit code. -/
structure Abort where
  message : String
  exitCode : Nat
deriving DecidableEq, Repr

/-- The app segment taken apart: the NUL-terminated copy of the name, and the
payload. -/
structure App where
  nameCString : Bytes
  payload : Bytes
deriving DecidableEq, Repr

/-- `lseek` and `read_exact`: the bytes must all be in the file. -/
def readExact (file : Bytes) (start count : Nat) : Option Bytes :=
  if start + count ≤ file.length then some ((file.drop start).take count) else none

/-- `be_u32` on a 4-byte slice. -/
def beU32 (b : Bytes) : Except Panic Nat :=
  readBE32 b 0

/-- Steps 1 and 2: read the trailer and check the two lengths against the file. -/
def readTrailer (file : Bytes) : Exec Abort (Nat × Nat) := do
  let total := file.length
  ensure (trailerLen ≤ total)
    ⟨"upxz-loader: packed file too small to contain a trailer\n", exitFormat⟩
  let trailerStart ← liftPanic (subUsize .checked total trailerLen)
  match readExact file trailerStart trailerLen with
  | none => .error (.err ⟨"upxz-loader: cannot read trailer\n", exitIo⟩)
  | some trailer => do
      let tag ← liftPanic (slice trailer 0 8)
      ensure (tag = sfxTrailerMagic)
        ⟨"upxz-loader: bad trailer magic (not an upxz packed file)\n", exitFormat⟩
      let loaderLen ← liftPanic (slice trailer 8 12 >>= beU32)
      let appLen ← liftPanic (slice trailer 12 16 >>= beU32)
      let appEnd := saturatingAdd loaderLen appLen
      ensure (loaderLen ≤ total ∧ appEnd ≤ trailerStart)
        ⟨"upxz-loader: trailer segment lengths are inconsistent with file size\n", exitFormat⟩
      return (loaderLen, appLen)

/-- Copy the stored name into a fresh buffer with room for a NUL. -/
def copyName (appBuf : Bytes) (nameLen : Nat) : Except Panic Bytes := do
  let buf ← copyLoop appBuf headerFixed nameLen 0 (List.replicate (nameLen + 1) 0)
  store buf nameLen 0

/-- What the loader says to a gzip container. -/
def gzipAbort : Abort where
  message := "upxz-loader: container uses gzip codec, but the macOS loader is zstd-only; " ++
    "repack without --gz or run via `upxz <file>.upxz`\n"
  exitCode := exitFormat

/-- Step 4: check the header of the app segment and take it apart. -/
def parseApp (appBuf : Bytes) : Exec Abort App := do
  let appLen := appBuf.length
  ensure (headerFixed ≤ appLen)
    ⟨"upxz-loader: app segment too small to be a .upxz container\n", exitFormat⟩
  let tag ← liftPanic (slice appBuf 0 magicPrefix.length)
  ensure (tag = magicPrefix)
    ⟨"upxz-loader: app segment does not start with the upxz magic prefix\n", exitFormat⟩
  let reserved₀ ← liftPanic (index appBuf (magicPrefix.length + 1))
  let reserved₁ ← liftPanic (index appBuf (magicPrefix.length + 2))
  ensure (reserved₀ = 0 ∧ reserved₁ = 0)
    ⟨"upxz-loader: bad magic (reserved bytes non-zero; not a known upxz format)\n", exitFormat⟩
  let codecByte ← liftPanic (index appBuf codecOffset)
  ensure (codecByte ≠ codecGzip) gzipAbort
  ensure (codecByte = codecZstd)
    ⟨"upxz-loader: unknown upxz codec byte in magic (not zstd or gzip)\n", exitFormat⟩
  let nameLen ← liftPanic (slice appBuf 8 12 >>= beU32)
  let payloadStart := saturatingAdd headerFixed nameLen
  ensure (payloadStart ≤ appLen)
    ⟨"upxz-loader: declared name length runs past the container\n", exitFormat⟩
  let nameCString ← liftPanic (copyName appBuf nameLen)
  let payloadLen ← liftPanic (subUsize .checked appLen payloadStart)
  let payload ← liftPanic (slice appBuf payloadStart (payloadStart + payloadLen))
  return ⟨nameCString, payload⟩

/-- Steps 1 to 4 of `real_main`. -/
def parseFile (file : Bytes) : Exec Abort App := do
  let (loaderLen, appLen) ← readTrailer file
  match readExact file loaderLen appLen with
  | none => .error (.err ⟨"upxz-loader: cannot read app segment\n", exitIo⟩)
  | some appBuf => parseApp appBuf

/-! ## What the parser accepts -/

/-- The name copy into a given buffer. -/
def copyNameInto (appBuf : Bytes) (nameLen : Nat) (buf : Bytes) : Except Panic Bytes := do
  let buf ← copyLoop appBuf headerFixed nameLen 0 buf
  store buf nameLen 0

/-- Whatever a buffer of `nameLen + 1` bytes held, the copy leaves the name and a final
NUL in it. -/
theorem copyNameInto_ok {appBuf buf : Bytes} {nameLen : Nat}
    (h : headerFixed + nameLen ≤ appBuf.length) (hbuf : buf.length = nameLen + 1) :
    copyNameInto appBuf nameLen buf = .ok ((appBuf.drop headerFixed).take nameLen ++ [0]) := by
  have hlen : ((appBuf.drop headerFixed).take nameLen).length = nameLen := by
    rw [List.length_take, List.length_drop]
    omega
  have hrest : (buf.drop (0 + nameLen)).length = 1 := by
    rw [List.length_drop, hbuf]
    omega
  rcases List.length_eq_one_iff.mp hrest with ⟨last, hlast⟩
  have hcopy : copyLoop appBuf headerFixed nameLen 0 buf =
      .ok ((appBuf.drop headerFixed).take nameLen ++ [last]) := by
    rw [copyLoop_ok (by omega) (by omega), List.take_zero, List.nil_append, hlast, Nat.add_zero]
  unfold copyNameInto
  rw [hcopy, ok_bind, store_ok _ (by rw [List.length_append, hlen, List.length_singleton]; omega),
    List.set_append_right nameLen 0 (Nat.le_of_eq hlen), hlen, Nat.sub_self]
  rfl

/-- The name copy holds the name and a final NUL. -/
theorem copyName_ok {appBuf : Bytes} {nameLen : Nat} (h : headerFixed + nameLen ≤ appBuf.length) :
    copyName appBuf nameLen = .ok ((appBuf.drop headerFixed).take nameLen ++ [0]) :=
  copyNameInto_ok h List.length_replicate

/-- On a segment long enough for a header every read is in range; what is left
are the loader's checks. -/
theorem parseApp_of_long {appBuf : Bytes} {id reserved₀ reserved₁ : UInt8}
    (hlong : magicLen + 4 ≤ appBuf.length) (hid : appBuf[codecOffset]? = some id)
    (hres₀ : appBuf[magicPrefix.length + 1]? = some reserved₀)
    (hres₁ : appBuf[magicPrefix.length + 2]? = some reserved₁) :
    parseApp appBuf = (do
      ensure (appBuf.take magicPrefix.length = magicPrefix)
        ⟨"upxz-loader: app segment does not start with the upxz magic prefix\n", exitFormat⟩
      ensure (reserved₀ = 0 ∧ reserved₁ = 0)
        ⟨"upxz-loader: bad magic (reserved bytes non-zero; not a known upxz format)\n",
          exitFormat⟩
      ensure (id ≠ codecGzip) gzipAbort
      ensure (id = codecZstd)
        ⟨"upxz-loader: unknown upxz codec byte in magic (not zstd or gzip)\n", exitFormat⟩
      ensure (magicLen + 4 + declaredNameLen appBuf ≤ appBuf.length)
        ⟨"upxz-loader: declared name length runs past the container\n", exitFormat⟩
      return ⟨(appBuf.drop 12).take (declaredNameLen appBuf) ++ [0],
        appBuf.drop (magicLen + 4 + declaredNameLen appBuf)⟩) := by
  have hguard : headerFixed ≤ appBuf.length := hlong
  have hfield : ((appBuf.drop 8).take 4).length = 4 := by
    simp only [magicLen] at hlong
    rw [List.length_take, List.length_drop]
    omega
  have hnameLen : (slice appBuf 8 12 >>= beU32) = .ok (declaredNameLen appBuf) := by
    have htwelve : 12 ≤ appBuf.length := hlong
    rw [slice_ok (by decide) htwelve, ok_bind]
    exact u32Be_eq hfield
  have hlt := declaredNameLen_lt appBuf
  have hstart : saturatingAdd headerFixed (declaredNameLen appBuf) =
      magicLen + 4 + declaredNameLen appBuf :=
    saturatingAdd_of_lt (by simp only [headerFixed, magicLen, usizeValues]; omega)
  have htag := slice_magicPrefix (Nat.le_of_add_right_le hlong)
  unfold parseApp
  simp only [ensure_of _ hguard, htag, index_ok hres₀, index_ok hres₁, index_ok hid,
    hnameLen, hstart, liftPanic_ok, ok_bind]
  by_cases hfits : magicLen + 4 + declaredNameLen appBuf ≤ appBuf.length
  · have hsub : magicLen + 4 + declaredNameLen appBuf +
        (appBuf.length - (magicLen + 4 + declaredNameLen appBuf)) = appBuf.length := by
      omega
    have hpayload : slice appBuf (magicLen + 4 + declaredNameLen appBuf) appBuf.length =
        .ok (appBuf.drop (magicLen + 4 + declaredNameLen appBuf)) := slice_to_end hfits
    have hcopy : copyName appBuf (declaredNameLen appBuf) =
        .ok ((appBuf.drop 12).take (declaredNameLen appBuf) ++ [0]) := copyName_ok hfits
    simp only [ensure_of _ hfits, ok_bind, hcopy, liftPanic_ok, subUsize_ok hfits, hsub, hpayload]
  · simp only [ensure_of_not _ hfits, error_bind]

/-- The codec checks leave zstd only. -/
theorem codec_checks_iff {id : UInt8} :
    id ≠ codecGzip ∧ id = codecZstd ↔ id = Codec.zstd.id := by
  constructor
  · intro h
    exact h.2
  · intro h
    rw [h]
    exact ⟨by decide, rfl⟩

/-- The loader accepts exactly the zstd containers. -/
theorem parseApp_eq_ok_iff {appBuf : Bytes} {app : App} :
    parseApp appBuf = .ok app ↔
      ∃ c : Container, c.bytes = appBuf ∧ c.codec = .zstd ∧ ⟨c.name ++ [0], c.payload⟩ = app := by
  constructor
  · intro hok
    by_cases hlong : magicLen + 4 ≤ appBuf.length
    · rcases exists_fixed_fields (Nat.le_of_add_right_le hlong) with
        ⟨id, reserved₀, reserved₁, hid, hres₀, hres₁⟩
      rw [parseApp_of_long hlong hid hres₀ hres₁] at hok
      simp only [ensure_bind_eq_ok] at hok
      rcases hok with ⟨htag, ⟨hzero₀, hzero₁⟩, hgzip, hzstd, hfits, happ⟩
      have hcodec := codec_checks_iff.mp ⟨hgzip, hzstd⟩
      subst hcodec hzero₀ hzero₁
      rcases exists_container_of_fields htag hid hres₀ hres₁ hfits with
        ⟨c, hc, hccodec, hcname, hcpayload⟩
      refine ⟨c, hc, hccodec, ?_⟩
      rw [hcname, hcpayload]
      exact Except.ok.inj happ
    · have hshort : ¬headerFixed ≤ appBuf.length := hlong
      simp only [parseApp, ensure_of_not _ hshort, error_bind, reduceCtorEq] at hok
  · intro h
    rcases h with ⟨c, hbytes, hcodec, happ⟩
    have hf := Container.bytes_eq_iff.mp hbytes
    have hfits := hf.declared_fits
    have hzero : (0 : UInt8) = 0 ∧ (0 : UInt8) = 0 := ⟨rfl, rfl⟩
    have hchecks := codec_checks_iff.mpr (congrArg Codec.id hcodec)
    rw [parseApp_of_long (Nat.le_trans (Nat.le_add_right _ _) hfits) hf.codec hf.reserved₀
      hf.reserved₁]
    rw [ensure_of _ hf.tag, ok_bind, ensure_of _ hzero, ok_bind, ensure_of _ hchecks.1, ok_bind,
      ensure_of _ hchecks.2, ok_bind, ensure_of _ hfits, ok_bind, hf.nameLen, hf.name, ← happ,
      ← hf.payload]
    rfl

/-- On a file long enough for a trailer every read of it is in range; what is left are
the loader's checks. -/
theorem readTrailer_of_long {file : Bytes} (hlong : 16 ≤ file.length) :
    readTrailer file = (do
      ensure ((file.drop (file.length - 16)).take 8 = sfxTrailerMagic)
        ⟨"upxz-loader: bad trailer magic (not an upxz packed file)\n", exitFormat⟩
      ensure (loaderLenField file ≤ file.length ∧
          loaderLenField file + appLenField file ≤ file.length - 16)
        ⟨"upxz-loader: trailer segment lengths are inconsistent with file size\n", exitFormat⟩
      return (loaderLenField file, appLenField file)) := by
  have hguard : trailerLen ≤ file.length := hlong
  have hread : readExact file (file.length - 16) 16 =
      some (file.drop (file.length - 16)) := by
    rw [readExact, if_pos (by omega), List.take_of_length_le]
    rw [List.length_drop]
    omega
  have htrailer : (file.drop (file.length - 16)).length = 16 := length_drop_sub hlong
  have htag : slice (file.drop (file.length - 16)) 0 8 =
      .ok ((file.drop (file.length - 16)).take 8) :=
    slice_ok (Nat.zero_le _) (by omega)
  have hloader : (slice (file.drop (file.length - 16)) 8 12 >>= beU32) =
      .ok (loaderLenField file) := by
    have hdrop : (file.drop (file.length - 16)).drop 8 = file.drop (file.length - 8) :=
      drop_sub_drop (show 8 + 8 ≤ file.length from hlong)
    rw [slice_ok (by decide) (by omega), ok_bind, hdrop]
    exact u32Be_eq (by rw [List.length_take, length_drop_sub (by omega)]; rfl)
  have happ : (slice (file.drop (file.length - 16)) 12 16 >>= beU32) =
      .ok (appLenField file) := by
    have hdrop : (file.drop (file.length - 16)).drop 12 = file.drop (file.length - 4) :=
      drop_sub_drop (show 12 + 4 ≤ file.length from hlong)
    have hfour : (file.drop (file.length - 4)).length = 4 := length_drop_sub (by omega)
    rw [slice_ok (by decide) (by omega), ok_bind, hdrop, List.take_of_length_le (by omega)]
    exact u32Be_eq hfour
  have hloaderLt := loaderLenField_lt file
  have happLt := appLenField_lt file
  have hsum : saturatingAdd (loaderLenField file) (appLenField file) =
      loaderLenField file + appLenField file :=
    saturatingAdd_of_lt (by unfold usizeValues; omega)
  unfold readTrailer
  simp only [ensure_of _ hguard, ok_bind]
  simp only [trailerLen, subUsize_ok hlong, hread, htag, hloader, happ, hsum, liftPanic_ok,
    ok_bind]

/-- The trailer is accepted when its two segments fit before it; the file may be
longer than both. -/
theorem readTrailer_eq_ok_iff {file : Bytes} {loaderLen appLen : Nat} :
    readTrailer file = .ok (loaderLen, appLen) ↔
      16 ≤ file.length ∧ (file.drop (file.length - 16)).take 8 = sfxTrailerMagic ∧
        loaderLenField file + appLenField file + 16 ≤ file.length ∧
          loaderLenField file = loaderLen ∧ appLenField file = appLen := by
  by_cases hlong : 16 ≤ file.length
  · have hcheck : loaderLenField file ≤ file.length ∧
        loaderLenField file + appLenField file ≤ file.length - 16 ↔
          loaderLenField file + appLenField file + 16 ≤ file.length := by
      omega
    rw [readTrailer_of_long hlong, ensure_bind_eq_ok, ensure_bind_eq_ok, hcheck]
    simp only [pure, Except.pure, Except.ok.injEq, Prod.mk.injEq, hlong, true_and]
  · have hguard : ¬trailerLen ≤ file.length := hlong
    simp only [readTrailer, ensure_of_not _ hguard, error_bind, hlong, false_and, reduceCtorEq]

/-- The loader accepts a file when its trailer is in order and the app segment is
a zstd container. -/
theorem parseFile_eq_ok_iff {file : Bytes} {app : App} :
    parseFile file = .ok app ↔
      16 ≤ file.length ∧ (file.drop (file.length - 16)).take 8 = sfxTrailerMagic ∧
        loaderLenField file + appLenField file + 16 ≤ file.length ∧
          ∃ c : Container, c.bytes = (file.drop (loaderLenField file)).take (appLenField file) ∧
            c.codec = .zstd ∧ ⟨c.name ++ [0], c.payload⟩ = app := by
  unfold parseFile
  rw [bind_eq_ok_iff]
  constructor
  · intro h
    rcases h with ⟨⟨loaderLen, appLen⟩, htrailer, h⟩
    rcases readTrailer_eq_ok_iff.mp htrailer with ⟨hlong, htag, hsum, rfl, rfl⟩
    have hread : loaderLenField file + appLenField file ≤ file.length := by omega
    simp only [readExact, if_pos hread] at h
    exact ⟨hlong, htag, hsum, parseApp_eq_ok_iff.mp h⟩
  · intro h
    rcases h with ⟨hlong, htag, hsum, hc⟩
    have hread : loaderLenField file + appLenField file ≤ file.length := by omega
    refine ⟨_, readTrailer_eq_ok_iff.mpr ⟨hlong, htag, hsum, rfl, rfl⟩, ?_⟩
    simp only [readExact, if_pos hread]
    exact parseApp_eq_ok_iff.mpr hc

/-- A loader-shaped file around a zstd container is accepted. -/
theorem parseFile_loaderImage {loader : Bytes} {c : Container} (hloader : loader.length < 2 ^ 32)
    (happ : c.bytes.length < 2 ^ 32) (hzstd : c.codec = .zstd) :
    parseFile (loaderImage loader c.bytes) = .ok ⟨c.name ++ [0], c.payload⟩ := by
  have hloaderLen := loaderLenField_loaderImage c.bytes hloader
  have happLen := appLenField_loaderImage loader happ
  refine parseFile_eq_ok_iff.mpr ⟨?_, trailerMagic_loaderImage _ _, ?_, c, ?_, hzstd, rfl⟩
  · rw [loaderImage_length]
    omega
  · rw [hloaderLen, happLen, loaderImage_length]
  · rw [hloaderLen, happLen, loaderImage, List.append_assoc, List.drop_left, List.take_left]

/-! ## Loader and reader -/

/-- The file ends in a macOS trailer. -/
def HasTrailerMagic (file : Bytes) : Prop :=
  16 ≤ file.length ∧ (file.drop (file.length - 16)).take 8 = sfxTrailerMagic

instance (file : Bytes) : Decidable (HasTrailerMagic file) :=
  inferInstanceAs (Decidable (_ ∧ _))

theorem hasTrailerMagic_loaderImage (loader container : Bytes) :
    HasTrailerMagic (loaderImage loader container) := by
  refine ⟨?_, trailerMagic_loaderImage loader container⟩
  rw [loaderImage_length]
  exact Nat.le_add_left _ _

/-- The reader locates a container through its macOS branch and takes the header
and the payload out of it. -/
def ReaderExtractsUpxzEnd (mode : Overflow) (file : Bytes) (h : Header) (payload : Bytes) :
    Prop :=
  ∃ offset len off, classifyUpxzEnd mode file = .ok (some (.packed offset len)) ∧
    classify mode file = .ok (.packed offset len) ∧
    parseHeader ((file.drop offset).take len) = .ok (h, off) ∧
    ((file.drop offset).take len).drop off = payload

/-- On a file that does not begin with a magic, the reader extracts a zstd container
through its macOS branch exactly when the loader accepts the file with the same name
and payload, its two segments fill the file up to the trailer, and the name is UTF-8
of at most `maxNameLen` bytes. -/
theorem loader_reader_agree_iff (mode : Overflow) (file : Bytes)
    (hmagic : ¬StartsWithMagic file) (htag : HasTrailerMagic file) (nameBytes payload : Bytes) :
    (∃ name, asBytes name = nameBytes ∧
        ReaderExtractsUpxzEnd mode file ⟨name, .zstd⟩ payload) ↔
      parseFile file = .ok ⟨nameBytes ++ [0], payload⟩ ∧
        loaderLenField file + appLenField file + 16 = file.length ∧
          IsUtf8 nameBytes ∧ nameBytes.length ≤ maxNameLen := by
  constructor
  · intro h
    rcases h with ⟨name, rfl, offset, len, off, hbranch, -, hparsed, hpayload⟩
    rw [classifyUpxzEnd_eq] at hbranch
    split_ifs at hbranch with hend
    · cases hbranch
      rcases parseHeader_eq_ok_iff_container.mp hparsed with
        ⟨c, hbytes, hcodec, hcname, hle, hoff⟩
      have hsum := hend.2.2.1
      have hcpayload : c.payload = payload := by
        rw [← hpayload, ← hbytes, ← hoff, Container.bytes, List.drop_left]
      refine ⟨parseFile_eq_ok_iff.mpr ⟨htag.1, htag.2, Nat.le_of_eq hsum, c, hbytes, hcodec, ?_⟩,
        hsum, ⟨name, rfl⟩, hcname ▸ hle⟩
      rw [hcname, hcpayload]
    · cases hbranch
  · intro h
    rcases h with ⟨haccepts, hsum, ⟨name, hname⟩, hle⟩
    rcases parseFile_eq_ok_iff.mp haccepts with ⟨hlong, -, -, c, hbytes, hcodec, happ⟩
    rcases App.mk.inj happ with ⟨hcname, hcpayload⟩
    have hcname : c.name = nameBytes := List.append_cancel_right hcname
    have hstart : StartsWithMagic (file.drop (loaderLenField file)) := by
      rw [← List.take_append_drop (appLenField file) (file.drop (loaderLenField file)), ← hbytes]
      exact c.startsWithMagic.append _
    have hend : UpxzEndFits file := ⟨hlong, htag.2, hsum, hstart⟩
    refine ⟨name, hname, loaderLenField file, appLenField file, c.header.length, ?_,
      classify_of_upxzEndFits mode hmagic hend, ?_, ?_⟩
    · rw [classifyUpxzEnd_eq, if_pos hend]
    · refine parseHeader_eq_ok_iff_container.mpr ⟨c, hbytes, hcodec, ?_, ?_, rfl⟩
      · rw [hcname, hname]
      · rw [hcname]
        exact hle
    · rw [← hbytes, Container.bytes, List.drop_left, hcpayload]

/-- A zstd container with an empty payload under the given name. -/
def namedContainer (name : Bytes) (hfits : name.length < 2 ^ 32) : Container where
  codec := .zstd
  name := name
  payload := []
  name_fits := hfits

/-- A packed file with a one-byte loader is read alike by both. -/
theorem loader_reader_agree_short_name :
    ∃ name, asBytes name = [0x61] ∧
      ReaderExtractsUpxzEnd .checked
        (loaderImage [0x7F] (namedContainer [0x61] (by decide)).bytes) ⟨name, .zstd⟩ [] :=
  (loader_reader_agree_iff .checked
      (loaderImage [0x7F] (namedContainer [0x61] (by decide)).bytes) (by decide) (by decide)
      [0x61] []).mpr
    ⟨parseFile_loaderImage (by decide) (by decide) rfl, by decide, by decide, by decide⟩

/-- Loader and reader extract the same zstd containers from the file. -/
def AgreeOn (mode : Overflow) (file : Bytes) : Prop :=
  ∀ nameBytes payload, parseFile file = .ok ⟨nameBytes ++ [0], payload⟩ ↔
    ∃ name, asBytes name = nameBytes ∧
      ReaderExtractsUpxzEnd mode file ⟨name, .zstd⟩ payload

/-- The smallest loader image. -/
def oneByteLoader : StubImage where
  bytes := [0x7F]
  ne_nil := by decide
  head_ne := by decide
  addressable := by decide

/-- A file with one byte between its app segment and its trailer. -/
def gapFile : Bytes :=
  [0x7F] ++ (namedContainer [0x61] (by decide)).bytes ++ [0x00] ++ macosTrailer 1 13

/-- A file whose stored name is the byte `0xFF`. -/
def badNameFile : Bytes :=
  loaderImage oneByteLoader.bytes (namedContainer [0xFF] (by decide)).bytes

theorem longName_fits : (List.replicate 4097 (0x61 : UInt8)).length < 2 ^ 32 := by
  rw [List.length_replicate]
  decide

/-- A file whose stored name is one byte longer than the reader accepts. -/
def longNameFile : Bytes :=
  loaderImage oneByteLoader.bytes (namedContainer (List.replicate 4097 0x61) longName_fits).bytes

/-- The loader accepts the oversized name. -/
theorem parseFile_longNameFile :
    parseFile longNameFile = .ok ⟨List.replicate 4097 0x61 ++ [0], []⟩ := by
  have hlen : (namedContainer (List.replicate 4097 0x61) longName_fits).bytes.length = 4109 := by
    rw [Container.bytes_length, namedContainer, List.length_replicate]
    rfl
  have happ : (namedContainer (List.replicate 4097 0x61) longName_fits).bytes.length < 2 ^ 32 := by
    rw [hlen]
    decide
  exact parseFile_loaderImage (by decide) happ rfl

/-- The loader runs a file with a gap before the trailer, a name that is not UTF-8
and an oversized name; the reader extracts none of them. -/
theorem loader_reader_disagree :
    (¬StartsWithMagic gapFile ∧ HasTrailerMagic gapFile ∧ ¬AgreeOn .checked gapFile) ∧
      (¬StartsWithMagic badNameFile ∧ HasTrailerMagic badNameFile ∧
        ¬AgreeOn .checked badNameFile) ∧
      (¬StartsWithMagic longNameFile ∧ HasTrailerMagic longNameFile ∧
        ¬AgreeOn .checked longNameFile) := by
  refine ⟨⟨by decide, by decide, ?_⟩, ⟨by decide, by decide, ?_⟩, ?_, ?_, ?_⟩
  · intro hagree
    have haccepts : parseFile gapFile = .ok ⟨[0x61] ++ [0], []⟩ := by decide
    rcases (hagree [0x61] []).mp haccepts with ⟨name, -, offset, len, off, hbranch, -⟩
    have hnone : classifyUpxzEnd .checked gapFile = .ok none := by decide
    rw [hnone] at hbranch
    cases hbranch
  · intro hagree
    have haccepts : parseFile badNameFile = .ok ⟨[0xFF] ++ [0], []⟩ := by decide
    rcases (hagree [0xFF] []).mp haccepts with ⟨name, hname, -⟩
    have hnot : ¬IsUtf8 [0xFF] := by decide
    exact hnot ⟨name, hname⟩
  · rw [longNameFile, loaderImage, List.append_assoc]
    exact oneByteLoader.not_startsWithMagic _
  · rw [longNameFile]
    exact hasTrailerMagic_loaderImage _ _
  · intro hagree
    rcases (hagree _ _).mp parseFile_longNameFile with
      ⟨name, hname, offset, len, off, -, -, hparsed, -⟩
    have hle := (encode_append_of_parseHeader hparsed).1
    rw [hname, List.length_replicate] at hle
    exact absurd hle (by decide)

end Loader
end Upxz
