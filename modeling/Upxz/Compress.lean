import Upxz.Format.Header

/-!
# Compress - Codec dispatch and compression levels

The two compressors are libraries outside the repository.  They enter as a
`Backend`, and what is relied on is `Backend.RoundTrip`: decoding an encoder's
output returns the input.  The dispatch follows `compress.rs`, the level flags
follow `level.rs`.

Main results:

- Theorem `decompress_of_compress`: the dispatch keeps the round trip for either
  codec at any level.
- Theorem `LevelArgs.level_bounds`: the level flags always resolve to a level
  their codec accepts.
- Theorem `storedBackend_roundTrip`: a backend that stores its input in one raw
  block meets the assumption.
-/

namespace Upxz

open Machine Format

/-! ## The codec libraries -/

/-- Stage at which gzip compression failed, with the library's message. -/
inductive GzFailure where
  | write (message : String)
  | finish (message : String)
deriving DecidableEq, Repr

/-- The zstd and gzip libraries. -/
structure Backend where
  zstdEncodeAll : Bytes → Int → Except String Bytes
  zstdDecodeAll : Bytes → Except String Bytes
  gzEncode : Bytes → Nat → Except GzFailure Bytes
  gzDecode : Bytes → Except String Bytes

/-- Decoding what an encoder returned gives its input back. -/
structure Backend.RoundTrip (backend : Backend) : Prop where
  zstd : ∀ raw level payload,
    backend.zstdEncodeAll raw level = .ok payload → backend.zstdDecodeAll payload = .ok raw
  gzip : ∀ raw level payload,
    backend.gzEncode raw level = .ok payload → backend.gzDecode payload = .ok raw

/-- `with_context` on a library result. -/
def libraryContext {α : Type} (x : Except String α) (message : String) : Exec Error α :=
  match x with
  | .ok a => .ok a
  | .error e => .error (.err [message, e])

@[simp]
theorem libraryContext_eq_ok_iff {α : Type} {x : Except String α} {message : String} {a : α} :
    libraryContext x message = .ok a ↔ x = .ok a := by
  cases x <;> simp [libraryContext]

theorem libraryContext_clean {α : Type} (x : Except String α) (message : String) :
    Clean (libraryContext x message) := by
  cases x with
  | ok a => exact clean_ok a
  | error e => exact clean_err _

/-! ## Dispatch -/

/-- `level.clamp(1, 9) as u32`. -/
def clampGzip (level : Int) : Nat :=
  (max 1 (min level 9)).toNat

/-- Compress with the chosen codec. -/
def compress (backend : Backend) (codec : Codec) (raw : Bytes) (level : Int) :
    Exec Error Bytes :=
  match codec with
  | .zstd =>
      libraryContext (backend.zstdEncodeAll raw level)
        s!"zstd compression failed at level {level}"
  | .gzip =>
      let lvl := clampGzip level
      match backend.gzEncode raw lvl with
      | .ok out => .ok out
      | .error (.write e) =>
          .error (.err [s!"gzip compression failed at level {lvl}", e])
      | .error (.finish e) =>
          .error (.err [s!"gzip flush failed at level {lvl}", e])

/-- Decompress a payload with the codec of its header. -/
def decompress (backend : Backend) (codec : Codec) (payload : Bytes) : Exec Error Bytes :=
  match codec with
  | .zstd =>
      libraryContext (backend.zstdDecodeAll payload)
        "zstd decompression failed; container may be corrupt"
  | .gzip =>
      libraryContext (backend.gzDecode payload)
        "gzip decompression failed; container may be corrupt"

/-- What a successful compression asked of the library. -/
theorem compress_eq_ok_iff {backend : Backend} {codec : Codec} {raw payload : Bytes}
    {level : Int} :
    compress backend codec raw level = .ok payload ↔
      match codec with
      | .zstd => backend.zstdEncodeAll raw level = .ok payload
      | .gzip => backend.gzEncode raw (clampGzip level) = .ok payload := by
  cases codec with
  | zstd => exact libraryContext_eq_ok_iff
  | gzip =>
      unfold compress
      dsimp only
      split
      · rename_i out hout
        simp [hout]
      · rename_i e he
        simp [he]
      · rename_i e he
        simp [he]

/-- What a successful compression returned is decompressed to the input. -/
theorem decompress_of_compress {backend : Backend} (hround : backend.RoundTrip) {codec : Codec}
    {raw payload : Bytes} {level : Int} (h : compress backend codec raw level = .ok payload) :
    decompress backend codec payload = .ok raw := by
  rw [compress_eq_ok_iff] at h
  cases codec with
  | zstd => exact libraryContext_eq_ok_iff.mpr (hround.zstd raw level payload h)
  | gzip => exact libraryContext_eq_ok_iff.mpr (hround.gzip raw _ payload h)

/-! ## Compression levels -/

/-- Default zstd level. -/
def zstdDefault : Int := 19

/-- zstd level of `--fast`. -/
def zstdFast : Int := 1

/-- Smallest level `-z` accepts. -/
def zstdMin : UInt8 := 1

/-- Largest level `-z` accepts. -/
def zstdMax : UInt8 := 19

/-- Default gzip level. -/
def gzipDefault : Nat := 9

/-- The level flags; the argument parser keeps `-z` inside its range. -/
structure LevelArgs where
  fast : Bool
  zstLevel : Option UInt8
  gzip : Bool
  inRange : ∀ n ∈ zstLevel, zstdMin ≤ n ∧ n ≤ zstdMax

/-- The zstd level the flags select. -/
def LevelArgs.resolve (args : LevelArgs) : Int :=
  match args.zstLevel with
  | some n => n.toNat
  | none => if args.fast then zstdFast else zstdDefault

/-- The codec the flags select. -/
def LevelArgs.codec (args : LevelArgs) : Codec :=
  if args.gzip then .gzip else .zstd

/-- The gzip level the flags select. -/
def LevelArgs.gzipLevel (args : LevelArgs) : Nat :=
  match args.zstLevel with
  | some n => max 1 (min n.toNat 9)
  | none => if args.fast then 1 else gzipDefault

/-- The level passed to the selected codec. -/
def LevelArgs.level (args : LevelArgs) : Int :=
  match args.codec with
  | .zstd => args.resolve
  | .gzip => args.gzipLevel

/-- No flags. -/
def LevelArgs.default : LevelArgs where
  fast := false
  zstLevel := none
  gzip := false
  inRange := fun _ h => by cases h

/-- The level handed to a codec is one the codec accepts. -/
theorem LevelArgs.level_bounds (args : LevelArgs) :
    1 ≤ args.level ∧ args.level ≤ (match args.codec with | .zstd => 19 | .gzip => 9) := by
  unfold LevelArgs.level
  cases hcodec : args.codec with
  | zstd =>
      simp only [LevelArgs.resolve]
      cases hlevel : args.zstLevel with
      | none => cases args.fast <;> decide
      | some n =>
          have hrange := args.inRange n hlevel
          have hmin : 1 ≤ n.toNat := UInt8.le_iff_toNat_le.mp hrange.1
          have hmax : n.toNat ≤ 19 := UInt8.le_iff_toNat_le.mp hrange.2
          constructor
          · exact Int.ofNat_le.mpr hmin
          · exact Int.ofNat_le.mpr hmax
  | gzip =>
      simp only [LevelArgs.gzipLevel]
      cases args.zstLevel with
      | none => cases args.fast <;> decide
      | some n =>
          simp only
          omega

/-! ## A backend that stores -/

/-- zstd frame of a single raw block, as the encoder emits it at level 19 for
input it cannot shrink: magic, frame header, window byte, block header, data. -/
def storedFrame (raw : Bytes) : Bytes :=
  let blockHeader := 8 * raw.length + 1
  [0x28, 0xB5, 0x2F, 0xFD, 0x00, 0x68, UInt8.ofNat blockHeader,
    UInt8.ofNat (blockHeader / 256), UInt8.ofNat (blockHeader / 65536)] ++ raw

/-- Read a frame of a single raw block. -/
def readStoredFrame : Bytes → Except String Bytes
  | 0x28 :: 0xB5 :: 0x2F :: 0xFD :: 0x00 :: 0x68 :: b₀ :: b₁ :: b₂ :: data =>
      if b₀.toNat + 256 * b₁.toNat + 65536 * b₂.toNat = 8 * data.length + 1 then .ok data
      else .error "Src size is incorrect"
  | _ => .error "Unknown frame descriptor"

/-- A backend that stores up to one block of input and has no gzip. -/
def storedBackend : Backend where
  zstdEncodeAll raw _ :=
    if raw.length ≤ 131072 then .ok (storedFrame raw) else .error "input exceeds one block"
  zstdDecodeAll := readStoredFrame
  gzEncode _ _ := .error (.write "no gzip")
  gzDecode _ := .error "no gzip"

theorem readStoredFrame_storedFrame {raw : Bytes} (h : raw.length ≤ 131072) :
    readStoredFrame (storedFrame raw) = .ok raw := by
  unfold storedFrame
  simp only [List.cons_append, List.nil_append, readStoredFrame]
  refine if_pos ?_
  simp only [UInt8.toNat_ofNat']
  omega

theorem storedBackend_roundTrip : storedBackend.RoundTrip where
  zstd := by
    intro raw level payload h
    by_cases hlen : raw.length ≤ 131072
    · simp only [storedBackend, if_pos hlen, Except.ok.injEq] at h
      rw [← h]
      exact readStoredFrame_storedFrame hlen
    · simp [storedBackend, if_neg hlen] at h
  gzip := by
    intro raw level payload h
    cases h

end Upxz
