import Upxz.Machine.BigEndian
import Upxz.Machine.Utf8

/-!
# Format - Magic and container header

A container is an 8-byte magic that carries the codec id, a 4-byte big-endian
name length, the name, and the compressed payload.  The encoder and the parser
follow `format.rs`.  Above them, `Container` says what a container holds, with
the name as raw bytes: every reader of the format, the self-extractors included,
recognises the byte strings `Container.bytes` describes.

Main results:

- Theorem `Container.bytes_eq_iff`: the fields a byte string must have to be a
  given container.
- Theorem `parseHeader_eq_ok_iff_container`: the parser accepts exactly the
  containers whose name is UTF-8 and not oversized.
- Theorem `parseHeader_exact`: the parser accepts exactly the encoder's image,
  and rejects everything malformed with an error.
-/

namespace Upxz
namespace Format

open Machine

/-- An `anyhow` error: its messages, outermost context first. -/
abbrev Error := List String

/-- `bail!`. -/
def bail {α : Type} (message : String) : Exec Error α :=
  .error (.err [message])

/-- `with_context`: put a message in front of an error's own. -/
def withContext {α : Type} (x : Exec Error α) (message : String) : Exec Error α :=
  match x with
  | .error (.err messages) => .error (.err (message :: messages))
  | other => other

@[simp]
theorem withContext_eq_ok_iff {α : Type} {x : Exec Error α} {message : String} {a : α} :
    withContext x message = .ok a ↔ x = .ok a := by
  unfold withContext
  split
  · simp
  · rfl

theorem withContext_clean {α : Type} {x : Exec Error α} (h : Clean x) (message : String) :
    Clean (withContext x message) := by
  rcases h with ⟨a, rfl⟩ | ⟨e, rfl⟩
  · exact clean_ok a
  · exact clean_err _

/-! ## Magic -/

/-- Length of the magic. -/
def magicLen : Nat := 8

/-- `UPXZ` and the format version. -/
def magicPrefix : Bytes := [0x55, 0x50, 0x58, 0x5A, 0x01]

/-- Index of the codec id inside the magic. -/
def codecOffset : Nat := 5

/-- The zstd magic. -/
def magic : Bytes := [0x55, 0x50, 0x58, 0x5A, 0x01, 0x00, 0x00, 0x00]

/-- `UPXZEND1`, the start of the macOS trailer. -/
def sfxTrailerMagic : Bytes := [0x55, 0x50, 0x58, 0x5A, 0x45, 0x4E, 0x44, 0x31]

/-- Largest stored name the reader accepts. -/
def maxNameLen : Nat := 4096

/-- A payload codec. -/
inductive Codec where
  | zstd
  | gzip
deriving DecidableEq, Repr

/-- The id byte of a codec. -/
def Codec.id : Codec → UInt8
  | .zstd => 0
  | .gzip => 1

/-- Decode a codec id byte. -/
def Codec.fromId (id : UInt8) : Exec Error Codec :=
  match id with
  | 0 => .ok .zstd
  | 1 => .ok .gzip
  | other => bail s!"unknown upxz codec id {other} (only 0=zstd, 1=gzip are defined)"

/-- Name of a codec in messages. -/
def Codec.name : Codec → String
  | .zstd => "zstd"
  | .gzip => "gzip"

/-- Decode the codec id inside an 8-byte magic. -/
def Codec.fromMagicByte (magic : Bytes) : Exec Error Codec := do
  ensure (magic.length = magicLen) ["magic must be 8 bytes"]
  let id ← liftPanic (index magic codecOffset)
  Codec.fromId id

/-- The magic of a codec. -/
def codecMagic (codec : Codec) : Bytes :=
  magic.set codecOffset codec.id

theorem Codec.id_injective {c d : Codec} (h : c.id = d.id) : c = d := by
  cases c <;> cases d <;> simp_all [Codec.id]

/-- An id byte is decoded exactly to the codec that has it. -/
theorem Codec.fromId_eq_ok_iff {id : UInt8} {codec : Codec} :
    Codec.fromId id = .ok codec ↔ id = codec.id := by
  unfold Codec.fromId
  split
  · cases codec <;> simp [Codec.id]
  · cases codec <;> simp [Codec.id]
  · rename_i hzstd hgzip
    cases codec
    · simpa [bail, Codec.id] using hzstd
    · simpa [bail, Codec.id] using hgzip

/-- Decoding an id returns or reports an error. -/
theorem Codec.fromId_clean (id : UInt8) : Clean (Codec.fromId id) := by
  unfold Codec.fromId
  split
  · exact clean_ok _
  · exact clean_ok _
  · exact clean_err _

theorem codecMagic_eq (codec : Codec) :
    codecMagic codec = magicPrefix ++ [codec.id, 0, 0] := by
  cases codec <;> rfl

@[simp]
theorem codecMagic_length (codec : Codec) : (codecMagic codec).length = magicLen := by
  cases codec <;> rfl

/-! ## Header -/

/-- A parsed container header. -/
structure Header where
  name : String
  codec : Codec
deriving DecidableEq

/-- Header bytes for a name and a codec.  A name length that does not fit four
bytes is written as zero, as `unwrap_or(0)` does. -/
def encodeWithCodec (name : String) (codec : Codec) : Bytes :=
  let nameBytes := asBytes name
  let nameLen := if nameBytes.length < 2 ^ 32 then nameBytes.length else 0
  codecMagic codec ++ be32 nameLen ++ nameBytes

/-- Serialize a header. -/
def Header.encode (h : Header) : Bytes :=
  encodeWithCodec h.name h.codec

/-- Read and validate the magic and the name at the start of a candidate
container; returns the header and the offset of the payload. -/
def parseHeader (buf : Bytes) : Exec Error (Header × Nat) := do
  ensure (magicLen + 4 ≤ buf.length) ["input too small to be a upxz container"]
  let tag ← liftPanic (slice buf 0 magicPrefix.length)
  ensure (tag = magicPrefix) ["bad magic: not a upxz container"]
  let reserved₀ ← liftPanic (index buf (magicPrefix.length + 1))
  let reserved₁ ← liftPanic (index buf (magicPrefix.length + 2))
  ensure (reserved₀ = 0 ∧ reserved₁ = 0)
    ["bad magic: reserved bytes are non-zero (not a known upxz format)"]
  let magicBytes ← liftPanic (slice buf 0 magicLen)
  let codec ← Codec.fromMagicByte magicBytes
  let nameLen ← liftPanic (readBE32 buf magicLen)
  ensure (nameLen ≤ maxNameLen)
    [s!"declared name length {nameLen} exceeds maximum {maxNameLen}"]
  let nameStart := magicLen + 4
  let payloadStart := nameStart + nameLen
  ensure (payloadStart ≤ buf.length)
    [s!"truncated container: header declares {nameLen} name bytes"]
  let nameBytes ← liftPanic (slice buf nameStart payloadStart)
  match fromUtf8 nameBytes with
  | .ok name => return (⟨name, codec⟩, payloadStart)
  | .error e => bail s!"original file name is not valid UTF-8: {e.message}"

/-! ## What a container holds -/

/-- Content of a container: the name is any byte string the length field can
describe. -/
@[ext]
structure Container where
  codec : Codec
  name : Bytes
  payload : Bytes
  name_fits : name.length < 2 ^ 32

/-- Header bytes of a container. -/
def Container.header (c : Container) : Bytes :=
  codecMagic c.codec ++ be32 c.name.length ++ c.name

/-- All bytes of a container. -/
def Container.bytes (c : Container) : Bytes :=
  c.header ++ c.payload

@[simp]
theorem Container.header_length (c : Container) : c.header.length = 12 + c.name.length := by
  simp only [Container.header, List.length_append, codecMagic_length, toBE_length, magicLen]

@[simp]
theorem Container.bytes_length (c : Container) :
    c.bytes.length = 12 + c.name.length + c.payload.length := by
  simp [Container.bytes]

/-- The length the name field of a buffer declares. -/
def declaredNameLen (buf : Bytes) : Nat :=
  ofBE ((buf.drop magicLen).take 4)

theorem declaredNameLen_lt (buf : Bytes) : declaredNameLen buf < 2 ^ 32 :=
  ofBE_lt_of_length_le (w := 4) (List.length_take_le _ _)

/-- The fields a reader of `buf` finds when it holds the container `c`. -/
structure Container.FieldsOf (c : Container) (buf : Bytes) : Prop where
  tag : buf.take magicPrefix.length = magicPrefix
  codec : buf[codecOffset]? = some c.codec.id
  reserved₀ : buf[magicPrefix.length + 1]? = some 0
  reserved₁ : buf[magicPrefix.length + 2]? = some 0
  nameLen : declaredNameLen buf = c.name.length
  long : 12 + c.name.length ≤ buf.length
  name : (buf.drop 12).take c.name.length = c.name
  payload : buf.drop (12 + c.name.length) = c.payload

theorem Container.fieldsOf_bytes (c : Container) : c.FieldsOf c.bytes := by
  have hbytes : c.bytes =
      magicPrefix ++ ([c.codec.id, 0, 0] ++ (be32 c.name.length ++ (c.name ++ c.payload))) := by
    simp [Container.bytes, Container.header, codecMagic_eq]
  have hdrop8 : c.bytes.drop 8 = be32 c.name.length ++ (c.name ++ c.payload) := by
    rw [hbytes]
    rfl
  have hdrop12 : c.bytes.drop 12 = c.name ++ c.payload := by
    have hlen : (be32 c.name.length).length = 4 := toBE_length _ _
    rw [show 12 = 8 + 4 from rfl, ← List.drop_drop, hdrop8, List.drop_left' hlen]
  constructor
  · rw [hbytes, List.take_left]
  · rw [hbytes]
    rfl
  · rw [hbytes]
    rfl
  · rw [hbytes]
    rfl
  · rw [declaredNameLen, magicLen, hdrop8, List.take_left' (toBE_length _ _), ofBE_toBE_of_lt]
    exact c.name_fits
  · rw [Container.bytes_length]
    omega
  · rw [hdrop12, List.take_left]
  · rw [← List.drop_drop, hdrop12, List.drop_left]

/-- A buffer that holds a container is long enough for the name it declares. -/
theorem Container.FieldsOf.declared_fits {c : Container} {buf : Bytes} (h : c.FieldsOf buf) :
    magicLen + 4 + declaredNameLen buf ≤ buf.length := by
  rw [h.nameLen]
  exact h.long

/-- The magic is spelled by its tag, codec id and reserved bytes. -/
theorem take_magicLen_eq {buf : Bytes} {id : UInt8}
    (htag : buf.take magicPrefix.length = magicPrefix) (hid : buf[codecOffset]? = some id)
    (hres₀ : buf[magicPrefix.length + 1]? = some 0)
    (hres₁ : buf[magicPrefix.length + 2]? = some 0) :
    buf.take magicLen = magicPrefix ++ [id, 0, 0] := by
  have htake : buf.take magicLen =
      buf.take magicPrefix.length ++ (buf.drop magicPrefix.length).take 3 := by
    rw [← List.take_add]
    rfl
  have hdrop : ∀ k, (buf.drop magicPrefix.length)[k]? = buf[magicPrefix.length + k]? :=
    fun k => List.getElem?_drop
  have hthree : (buf.drop magicPrefix.length).take 3 = [id, 0, 0] := by
    have h₀ : (buf.drop magicPrefix.length)[0]? = some id := (hdrop 0).trans hid
    have h₁ : (buf.drop magicPrefix.length)[1]? = some 0 := (hdrop 1).trans hres₀
    have h₂ : (buf.drop magicPrefix.length)[2]? = some 0 := (hdrop 2).trans hres₁
    generalize buf.drop magicPrefix.length = tail at h₀ h₁ h₂ ⊢
    rcases tail with _ | ⟨b₀, _ | ⟨b₁, _ | ⟨b₂, rest⟩⟩⟩
    · simp at h₀
    · simp at h₁
    · simp at h₂
    · simp only [List.getElem?_cons_zero, List.getElem?_cons_succ, Option.some.injEq] at h₀ h₁ h₂
      simp [h₀, h₁, h₂]
  rw [htake, htag, hthree]

/-- The fields of a byte string determine it. -/
theorem Container.bytes_eq_iff {c : Container} {buf : Bytes} :
    c.bytes = buf ↔ c.FieldsOf buf := by
  constructor
  · intro h
    rw [← h]
    exact c.fieldsOf_bytes
  · intro h
    have hlong := h.long
    have hmagic : codecMagic c.codec = buf.take 8 := by
      rw [codecMagic_eq]
      exact (take_magicLen_eq h.tag h.codec h.reserved₀ h.reserved₁).symm
    have hfield : be32 c.name.length = (buf.drop 8).take 4 := by
      refine toBE_eq_of_ofBE ?_ h.nameLen
      rw [List.length_take, List.length_drop]
      omega
    have hrest : c.name ++ c.payload = buf.drop 12 := by
      rw [← h.payload, ← List.drop_drop]
      nth_rewrite 1 [← h.name]
      exact List.take_append_drop _ _
    calc
      c.bytes = buf.take 8 ++ (buf.drop 8).take 4 ++ buf.drop 12 := by
        rw [Container.bytes, Container.header, hmagic, hfield, List.append_assoc, hrest]
      _ = buf.take 12 ++ buf.drop 12 := by
        rw [← List.take_add]
      _ = buf := List.take_append_drop 12 buf

/-- A buffer whose fixed fields are in order and whose name fits is a container. -/
theorem exists_container_of_fields {buf : Bytes} {codec : Codec}
    (htag : buf.take magicPrefix.length = magicPrefix)
    (hid : buf[codecOffset]? = some codec.id)
    (hres₀ : buf[magicPrefix.length + 1]? = some 0)
    (hres₁ : buf[magicPrefix.length + 2]? = some 0)
    (hfits : 12 + declaredNameLen buf ≤ buf.length) :
    ∃ c : Container, c.bytes = buf ∧ c.codec = codec ∧
      c.name = (buf.drop 12).take (declaredNameLen buf) ∧
        c.payload = buf.drop (12 + declaredNameLen buf) := by
  have hlen : ((buf.drop 12).take (declaredNameLen buf)).length = declaredNameLen buf := by
    rw [List.length_take, List.length_drop]
    omega
  let c : Container :=
    { codec := codec
      name := (buf.drop 12).take (declaredNameLen buf)
      payload := buf.drop (12 + declaredNameLen buf)
      name_fits := by rw [hlen]; exact declaredNameLen_lt buf }
  refine ⟨c, Container.bytes_eq_iff.mpr ?_, rfl, rfl, rfl⟩
  exact
    { tag := htag
      codec := hid
      reserved₀ := hres₀
      reserved₁ := hres₁
      nameLen := hlen.symm
      long := by rw [hlen]; exact hfits
      name := by rw [hlen]
      payload := by rw [hlen] }

/-- A byte string is at most one container. -/
theorem Container.bytes_injective {c d : Container} (h : c.bytes = d.bytes) : c = d := by
  have hc := c.fieldsOf_bytes
  have hd := d.fieldsOf_bytes
  rw [h] at hc
  have hlen : c.name.length = d.name.length := hc.nameLen.symm.trans hd.nameLen
  apply Container.ext
  · have hid := hc.codec.symm.trans hd.codec
    exact Codec.id_injective (Option.some.inj hid)
  · rw [← hc.name, ← hd.name, hlen]
  · rw [← hc.payload, ← hd.payload, hlen]

/-! ## The parser -/

/-- The fixed fields of a buffer long enough for a magic can all be read. -/
theorem exists_fixed_fields {buf : Bytes} (hlong : magicLen ≤ buf.length) :
    ∃ id reserved₀ reserved₁, buf[codecOffset]? = some id ∧
      buf[magicPrefix.length + 1]? = some reserved₀ ∧
      buf[magicPrefix.length + 2]? = some reserved₁ := by
  have hget : ∀ i, i < 8 → ∃ b, buf[i]? = some b := fun i hi =>
    exists_getElem?_of_lt (Nat.lt_of_lt_of_le hi hlong)
  rcases hget codecOffset (by decide) with ⟨id, hid⟩
  rcases hget (magicPrefix.length + 1) (by decide) with ⟨reserved₀, hres₀⟩
  rcases hget (magicPrefix.length + 2) (by decide) with ⟨reserved₁, hres₁⟩
  exact ⟨id, reserved₀, reserved₁, hid, hres₀, hres₁⟩

theorem slice_magicPrefix {buf : Bytes} (hlong : magicLen ≤ buf.length) :
    slice buf 0 magicPrefix.length = .ok (buf.take magicPrefix.length) :=
  slice_ok (Nat.zero_le _) (Nat.le_trans (by decide) hlong)

/-- The codec id inside a magic is read when the magic has its full length. -/
theorem Codec.fromMagicByte_take {buf : Bytes} {id : UInt8} (hlong : magicLen ≤ buf.length)
    (hid : buf[codecOffset]? = some id) :
    Codec.fromMagicByte (buf.take magicLen) = Codec.fromId id := by
  have hlen : (buf.take magicLen).length = magicLen := by
    rw [List.length_take, Nat.min_eq_left hlong]
  have hget : (buf.take magicLen)[codecOffset]? = some id := by
    rw [List.getElem?_take_of_lt (by decide), hid]
  simp only [Codec.fromMagicByte, ensure_of _ hlen, ok_bind, index_ok hget, liftPanic_ok]

theorem readBE32_declaredNameLen {buf : Bytes} (hlong : magicLen + 4 ≤ buf.length) :
    readBE32 buf magicLen = .ok (declaredNameLen buf) :=
  readBE32_ok hlong

/-- On a buffer long enough for a header every read of the parser is in range;
what is left are its checks. -/
theorem parseHeader_of_long {buf : Bytes} {id reserved₀ reserved₁ : UInt8}
    (hlong : magicLen + 4 ≤ buf.length) (hid : buf[codecOffset]? = some id)
    (hres₀ : buf[magicPrefix.length + 1]? = some reserved₀)
    (hres₁ : buf[magicPrefix.length + 2]? = some reserved₁) :
    parseHeader buf = (do
      ensure (buf.take magicPrefix.length = magicPrefix) ["bad magic: not a upxz container"]
      ensure (reserved₀ = 0 ∧ reserved₁ = 0)
        ["bad magic: reserved bytes are non-zero (not a known upxz format)"]
      let codec ← Codec.fromId id
      let nameLen := declaredNameLen buf
      ensure (nameLen ≤ maxNameLen)
        [s!"declared name length {nameLen} exceeds maximum {maxNameLen}"]
      ensure (magicLen + 4 + nameLen ≤ buf.length)
        [s!"truncated container: header declares {nameLen} name bytes"]
      match fromUtf8 ((buf.drop 12).take nameLen) with
      | .ok name => return (⟨name, codec⟩, magicLen + 4 + nameLen)
      | .error e => bail s!"original file name is not valid UTF-8: {e.message}") := by
  have hmagic : magicLen ≤ buf.length := by omega
  have hslice : slice buf 0 magicLen = .ok (buf.take magicLen) :=
    slice_ok (Nat.zero_le _) hmagic
  unfold parseHeader
  rw [ensure_of _ hlong, ok_bind]
  simp only [slice_magicPrefix hmagic, hslice, index_ok hres₀, index_ok hres₁,
    readBE32_declaredNameLen hlong, Codec.fromMagicByte_take hmagic hid, liftPanic_ok, ok_bind]
  congr 1
  funext _
  congr 1
  funext _
  congr 1
  funext codec
  congr 1
  funext _
  by_cases hfits : magicLen + 4 + declaredNameLen buf ≤ buf.length
  · rw [ensure_of _ hfits, ok_bind, ok_bind, slice_ok (Nat.le_add_right _ _) hfits,
      liftPanic_ok, ok_bind, Nat.add_sub_cancel_left]
    rfl
  · rw [ensure_of_not _ hfits, error_bind, error_bind]

/-- The parser returns or reports an error on every buffer. -/
theorem parseHeader_clean (buf : Bytes) : Clean (parseHeader buf) := by
  by_cases hlong : magicLen + 4 ≤ buf.length
  · rcases exists_fixed_fields (Nat.le_of_add_right_le hlong) with
      ⟨id, reserved₀, reserved₁, hid, hres₀, hres₁⟩
    rw [parseHeader_of_long hlong hid hres₀ hres₁]
    refine Clean.ensure_bind fun _ => Clean.ensure_bind fun _ => ?_
    refine Clean.bind (Codec.fromId_clean id) fun codec _ => ?_
    refine Clean.ensure_bind fun _ => Clean.ensure_bind fun _ => ?_
    split
    · exact clean_ok _
    · exact clean_err _
  · rw [parseHeader, ensure_of_not _ hlong, error_bind]
    exact clean_err _

/-- The parser accepts exactly the containers whose name is UTF-8 and not
oversized, and stops where the payload begins. -/
theorem parseHeader_eq_ok_iff_container {buf : Bytes} {h : Header} {off : Nat} :
    parseHeader buf = .ok (h, off) ↔
      ∃ c : Container, c.bytes = buf ∧ c.codec = h.codec ∧ c.name = asBytes h.name ∧
        c.name.length ≤ maxNameLen ∧ c.header.length = off := by
  constructor
  · intro hok
    by_cases hlong : magicLen + 4 ≤ buf.length
    · rcases exists_fixed_fields (Nat.le_of_add_right_le hlong) with
        ⟨id, reserved₀, reserved₁, hid, hres₀, hres₁⟩
      rw [parseHeader_of_long hlong hid hres₀ hres₁] at hok
      rw [ensure_bind_eq_ok, ensure_bind_eq_ok, bind_eq_ok_iff] at hok
      rcases hok with ⟨htag, ⟨hzero₀, hzero₁⟩, codec, hcodec, hok⟩
      simp only [ensure_bind_eq_ok, Codec.fromId_eq_ok_iff] at hcodec hok
      rcases hok with ⟨hle, hfits, hmatch⟩
      split at hmatch
      · rename_i name hname
        simp only [pure, Except.pure, Except.ok.injEq, Prod.mk.injEq] at hmatch
        rcases hmatch with ⟨hheader, hoff⟩
        subst hheader
        have hbytes := fromUtf8_eq_ok_iff.mp hname
        subst hcodec hzero₀ hzero₁
        rcases exists_container_of_fields htag hid hres₀ hres₁ hfits with
          ⟨c, hc, hccodec, hcname, -⟩
        have hlen := (Container.bytes_eq_iff.mp hc).nameLen
        refine ⟨c, hc, hccodec, hcname.trans hbytes.symm, ?_, ?_⟩
        · rw [← hlen]
          exact hle
        · rw [Container.header_length, ← hlen]
          exact hoff
      · simp [bail] at hmatch
    · rw [parseHeader, ensure_of_not _ hlong, error_bind] at hok
      cases hok
  · intro h'
    rcases h' with ⟨c, hbytes, hcodec, hname, hle, hoff⟩
    have hf := Container.bytes_eq_iff.mp hbytes
    have hfits : magicLen + 4 + c.name.length ≤ buf.length := hf.long
    rw [parseHeader_of_long (Nat.le_trans (Nat.le_add_right _ _) hfits) hf.codec hf.reserved₀
      hf.reserved₁]
    have hid : Codec.fromId c.codec.id = .ok c.codec := Codec.fromId_eq_ok_iff.mpr rfl
    have hutf8 : fromUtf8 ((buf.drop 12).take c.name.length) = .ok h.name := by
      rw [hf.name]
      exact fromUtf8_eq_ok_iff.mpr hname.symm
    have hzero : (0 : UInt8) = 0 ∧ (0 : UInt8) = 0 := ⟨rfl, rfl⟩
    rw [ensure_of _ hf.tag, ok_bind, ensure_of _ hzero, ok_bind, hid, ok_bind]
    simp only [hf.nameLen, ensure_of _ hle, ensure_of _ hfits, ok_bind, hutf8]
    rw [← hoff, Container.header_length, hcodec]
    rfl

/-! ## Encoder and parser -/

/-- The container a header and a payload make up. -/
def Header.container (h : Header) (payload : Bytes) (hfits : (asBytes h.name).length < 2 ^ 32) :
    Container where
  codec := h.codec
  name := asBytes h.name
  payload := payload
  name_fits := hfits

theorem nameFits_of_le {name : Bytes} (h : name.length ≤ maxNameLen) : name.length < 2 ^ 32 :=
  Nat.lt_of_le_of_lt h (by decide)

theorem Header.container_header (h : Header) (payload : Bytes)
    (hfits : (asBytes h.name).length < 2 ^ 32) :
    (h.container payload hfits).header = h.encode := by
  simp only [Header.encode, encodeWithCodec, if_pos hfits]
  rfl

theorem Header.container_bytes (h : Header) (payload : Bytes)
    (hfits : (asBytes h.name).length < 2 ^ 32) :
    (h.container payload hfits).bytes = h.encode ++ payload := by
  rw [Container.bytes, Header.container_header]
  rfl

theorem Header.encode_length {h : Header} (hfits : (asBytes h.name).length < 2 ^ 32) :
    h.encode.length = 12 + (asBytes h.name).length := by
  rw [← h.container_header [] hfits, Container.header_length]
  rfl

/-- A header that fits is read back, whatever payload follows it. -/
theorem parseHeader_encode_append {h : Header} (hname : (asBytes h.name).length ≤ maxNameLen)
    (payload : Bytes) : parseHeader (h.encode ++ payload) = .ok (h, h.encode.length) := by
  have hfits := nameFits_of_le hname
  refine parseHeader_eq_ok_iff_container.mpr
    ⟨h.container payload hfits, h.container_bytes payload hfits, rfl, rfl, hname, ?_⟩
  rw [h.container_header payload hfits]

/-- What a parsed buffer consists of: the encoded header, then the payload. -/
theorem encode_append_of_parseHeader {buf : Bytes} {h : Header} {off : Nat}
    (hok : parseHeader buf = .ok (h, off)) :
    (asBytes h.name).length ≤ maxNameLen ∧ h.encode.length = off ∧
      h.encode ++ buf.drop off = buf := by
  rcases parseHeader_eq_ok_iff_container.mp hok with ⟨c, rfl, hcodec, hname, hle, rfl⟩
  have hle' : (asBytes h.name).length ≤ maxNameLen := hname ▸ hle
  have hheader : h.encode = c.header := by
    rw [← h.container_header c.payload (nameFits_of_le hle')]
    simp only [Header.container, Container.header, hcodec, hname]
  rw [hheader, Container.bytes, List.drop_left]
  exact ⟨hle', rfl, rfl⟩

/-- The ways a buffer can fail to start with a header. -/
inductive Malformed (buf : Bytes) : Prop where
  | wrongPrefix (h : ¬magicPrefix <+: buf)
  | reserved (i : Nat) (b : UInt8) (hi : i = 6 ∨ i = 7) (hget : buf[i]? = some b) (hb : b ≠ 0)
  | undefinedCodec (id : UInt8) (hget : buf[codecOffset]? = some id)
      (hid : ∀ codec : Codec, codec.id ≠ id)
  | oversized (h : maxNameLen < declaredNameLen buf)
  | truncated (h : buf.length < magicLen + 4 + declaredNameLen buf)
  | notUtf8 (h : ¬IsUtf8 ((buf.drop (magicLen + 4)).take (declaredNameLen buf)))

/-- A malformed buffer is no container with an acceptable name. -/
theorem Malformed.not_ok {buf : Bytes} (hbad : Malformed buf) (h : Header) (off : Nat) :
    parseHeader buf ≠ .ok (h, off) := by
  intro hok
  rcases parseHeader_eq_ok_iff_container.mp hok with ⟨c, hbytes, hcodec, hname, hle, hoff⟩
  have hf := Container.bytes_eq_iff.mp hbytes
  have hlen : declaredNameLen buf = c.name.length := hf.nameLen
  cases hbad with
  | wrongPrefix hprefix => exact hprefix (hf.tag ▸ List.take_prefix _ _)
  | reserved i b hi hget hb =>
      rcases hi with rfl | rfl
      · exact hb (Option.some.inj (hget.symm.trans hf.reserved₀))
      · exact hb (Option.some.inj (hget.symm.trans hf.reserved₁))
  | undefinedCodec id hget hid =>
      exact hid c.codec (Option.some.inj (hf.codec.symm.trans hget))
  | oversized hover =>
      rw [hlen] at hover
      omega
  | truncated htrunc =>
      have hlong := hf.long
      rw [hlen, magicLen] at htrunc
      omega
  | notUtf8 hutf8 =>
      apply hutf8
      refine ⟨h.name, ?_⟩
      rw [hlen, ← hname]
      exact hf.name.symm

/-- The parser accepts exactly the encoder's image.  It gives every encoded header
back with the payload untouched, a parsed header re-encodes to the bytes consumed,
and every malformed buffer is rejected with an error. -/
theorem parseHeader_exact :
    (∀ (buf : Bytes) (h : Header) (off : Nat),
      parseHeader buf = .ok (h, off) ↔
        (asBytes h.name).length ≤ maxNameLen ∧ off = 12 + (asBytes h.name).length ∧
          off ≤ buf.length ∧ buf.take off = h.encode) ∧
    (∀ (h : Header) (payload : Bytes), (asBytes h.name).length ≤ maxNameLen →
      parseHeader (h.encode ++ payload) = .ok (h, h.encode.length) ∧
        (h.encode ++ payload).drop h.encode.length = payload) ∧
    (∀ (buf : Bytes) (h : Header) (off : Nat),
      parseHeader buf = .ok (h, off) → h.encode ++ buf.drop off = buf) ∧
    (∀ buf : Bytes, Malformed buf →
      ∃ messages, parseHeader buf = .error (.err messages)) := by
  refine ⟨?_, ?_, ?_, ?_⟩
  · intro buf h off
    constructor
    · intro hok
      rcases encode_append_of_parseHeader hok with ⟨hle, hlen, happend⟩
      have hoff := Header.encode_length (nameFits_of_le hle)
      have htotal := congrArg List.length happend
      rw [List.length_append] at htotal
      refine ⟨hle, by omega, by omega, ?_⟩
      rw [← happend, ← hlen, List.take_left]
    · intro hspec
      rcases hspec with ⟨hle, hoff, -, htake⟩
      have hlen := Header.encode_length (nameFits_of_le hle)
      have hok := parseHeader_encode_append hle (buf.drop off)
      rwa [← htake, List.take_append_drop, htake, hlen, ← hoff] at hok
  · intro h payload hle
    exact ⟨parseHeader_encode_append hle payload, List.drop_left⟩
  · intro buf h off hok
    exact (encode_append_of_parseHeader hok).2.2
  · intro buf hbad
    refine (parseHeader_clean buf).error_of_not_ok fun result hok => ?_
    exact hbad.not_ok result.1 result.2 hok

/-- The exact parser on one short gzip name and on the empty buffer. -/
theorem parseHeader_exact_short_name :
    parseHeader (Header.encode ⟨"x.bin", .gzip⟩ ++ [1, 2]) =
        .ok (⟨"x.bin", .gzip⟩, (Header.encode ⟨"x.bin", .gzip⟩).length) ∧
      (Header.encode ⟨"x.bin", .gzip⟩ ++ [1, 2]).drop (Header.encode ⟨"x.bin", .gzip⟩).length =
        [1, 2] ∧
      ∃ messages, parseHeader [] = .error (.err messages) := by
  have hround := parseHeader_exact.2.1 ⟨"x.bin", .gzip⟩ [1, 2] (by decide)
  exact ⟨hround.1, hround.2, parseHeader_exact.2.2.2 [] (.wrongPrefix (by decide))⟩

end Format
end Upxz
