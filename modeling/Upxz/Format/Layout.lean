import Upxz.Compress
import Upxz.Format.Classify

/-!
# Format - Self-extractor layouts

A self-extractor is a stub or loader image, a container, and a trailer that says
where the container lies.  `stubImage` and `loaderImage` are the two shapes; the
packers write them chunk by chunk, after the checks `main.rs` makes.

Main results:

- Theorems `classify_stubImage` and `classify_loaderImage`: either shape is
  located exactly, whatever the container's payload is.
- Theorem `stubImage_eq_of_fits`: a file whose 8-byte trailer fits has the stub
  shape.
- Theorem `pack_then_read_exact`: every layout the packer writes reads back to
  the name, codec and bytes that were packed.
-/

namespace Upxz
namespace Format

open Machine

/-! ## The two shapes -/

/-- Linux and Windows self-extractor: stub, container, stub size. -/
def stubImage (stub container : Bytes) : Bytes :=
  stub ++ container ++ be64 stub.length

/-- The macOS trailer for a loader and a container of the given lengths. -/
def macosTrailer (loaderLen appLen : Nat) : Bytes :=
  sfxTrailerMagic ++ be32 loaderLen ++ be32 appLen

/-- macOS self-extractor: loader, container, macOS trailer. -/
def loaderImage (loader container : Bytes) : Bytes :=
  loader ++ container ++ macosTrailer loader.length container.length

@[simp]
theorem stubImage_length (stub container : Bytes) :
    (stubImage stub container).length = stub.length + container.length + 8 := by
  simp [stubImage, Nat.add_assoc]

@[simp]
theorem macosTrailer_length (loaderLen appLen : Nat) :
    (macosTrailer loaderLen appLen).length = 16 := by
  simp [macosTrailer, sfxTrailerMagic]

@[simp]
theorem loaderImage_length (loader container : Bytes) :
    (loaderImage loader container).length = loader.length + container.length + 16 := by
  simp [loaderImage, Nat.add_assoc]

/-- The bytes before a suffix of known length. -/
theorem drop_length_sub {front tail : Bytes} {k : Nat} (hk : tail.length = k) :
    (front ++ tail).drop ((front ++ tail).length - k) = tail := by
  rw [List.length_append, hk, Nat.add_sub_cancel, List.drop_left]

theorem stubSizeField_stubImage {stub : Bytes} (container : Bytes)
    (hstub : stub.length < usizeValues) :
    stubSizeField (stubImage stub container) = stub.length := by
  rw [stubSizeField, stubImage, drop_length_sub (toBE_length 8 _)]
  exact ofBE_toBE_of_lt hstub

theorem loaderLenField_loaderImage {loader : Bytes} (container : Bytes)
    (hloader : loader.length < 2 ^ 32) :
    loaderLenField (loaderImage loader container) = loader.length := by
  have hsplit : loaderImage loader container =
      (loader ++ container ++ sfxTrailerMagic) ++
        (be32 loader.length ++ be32 container.length) := by
    simp [loaderImage, macosTrailer]
  have htail : (be32 loader.length ++ be32 container.length).length = 8 := by simp
  rw [loaderLenField, hsplit, drop_length_sub htail, List.take_left' (toBE_length 4 _)]
  exact ofBE_toBE_of_lt hloader

theorem appLenField_loaderImage (loader : Bytes) {container : Bytes}
    (happ : container.length < 2 ^ 32) :
    appLenField (loaderImage loader container) = container.length := by
  have hsplit : loaderImage loader container =
      (loader ++ container ++ sfxTrailerMagic ++ be32 loader.length) ++
        be32 container.length := by
    simp [loaderImage, macosTrailer]
  rw [appLenField, hsplit, drop_length_sub (toBE_length 4 _)]
  exact ofBE_toBE_of_lt happ

theorem trailerMagic_loaderImage (loader container : Bytes) :
    ((loaderImage loader container).drop
      ((loaderImage loader container).length - 16)).take 8 = sfxTrailerMagic := by
  rw [loaderImage, drop_length_sub (macosTrailer_length _ _), macosTrailer, List.append_assoc]
  exact List.take_left' rfl

/-! ## Locating the container -/

/-- A magic at the start of a region is a magic at the start of a file that
continues it. -/
theorem StartsWithMagic.append {region : Bytes} (h : StartsWithMagic region) (rest : Bytes) :
    StartsWithMagic (region ++ rest) := by
  rcases h with ⟨codec, hprefix⟩
  exact ⟨codec, hprefix.trans (List.prefix_append _ _)⟩

theorem trailerFits_stubImage {stub container : Bytes} (hstub : stub.length < usizeValues)
    (hcontainer : StartsWithMagic container) : TrailerFits (stubImage stub container) := by
  refine ⟨?_, ?_, ?_⟩
  · rw [stubImage_length]
    omega
  · rw [stubSizeField_stubImage container hstub, stubImage_length]
    omega
  · rw [stubSizeField_stubImage container hstub, stubImage, List.append_assoc, List.drop_left]
    exact hcontainer.append _

/-- The stub shape is located exactly. -/
theorem classify_stubImage (mode : Overflow) {stub container : Bytes}
    (hmagic : ¬StartsWithMagic (stubImage stub container))
    (hstub : stub.length + 8 < usizeValues) (hcontainer : StartsWithMagic container) :
    classify mode (stubImage stub container) = .ok (.packed stub.length container.length) := by
  have hlt : stub.length < usizeValues := by omega
  have hsize := stubSizeField_stubImage container hlt
  have hfits := trailerFits_stubImage hlt hcontainer
  have hend : ¬UpxzEndFits (stubImage stub container) := fun hend =>
    not_trailerFits_of_upxzEndFits hmagic hend hfits
  have hover : ¬TrailerOverflows (stubImage stub container) := by
    intro hover
    have hle := hover.2
    rw [hsize] at hle
    omega
  rw [classify_eq mode fun h => (hover h).elim, if_neg hmagic, if_neg hend, if_neg hover,
    if_pos hfits, hsize, stubImage_length]
  congr 2
  omega

/-- The loader shape is located exactly. -/
theorem classify_loaderImage (mode : Overflow) {loader container : Bytes}
    (hmagic : ¬StartsWithMagic (loaderImage loader container))
    (hloader : loader.length < 2 ^ 32) (happ : container.length < 2 ^ 32)
    (hcontainer : StartsWithMagic container) :
    classify mode (loaderImage loader container) =
      .ok (.packed loader.length container.length) := by
  have hloaderLen := loaderLenField_loaderImage container hloader
  have happLen := appLenField_loaderImage loader happ
  have hend : UpxzEndFits (loaderImage loader container) := by
    refine ⟨?_, trailerMagic_loaderImage loader container, ?_, ?_⟩
    · rw [loaderImage_length]
      omega
    · rw [hloaderLen, happLen, loaderImage_length]
    · rw [hloaderLen, loaderImage, List.append_assoc, List.drop_left]
      exact hcontainer.append _
  rw [classify_of_upxzEndFits mode hmagic hend, hloaderLen, happLen]

/-- The region an 8-byte trailer delimits. -/
def stubRegion (buf : Bytes) : Bytes :=
  (buf.drop (stubSizeField buf)).take (buf.length - 8 - stubSizeField buf)

/-- A file whose stub size fits has the stub shape around its region. -/
theorem stubImage_eq_of_fits {buf : Bytes} (hlong : 8 ≤ buf.length)
    (hsize : stubSizeField buf + 8 ≤ buf.length) :
    stubImage (buf.take (stubSizeField buf)) (stubRegion buf) = buf := by
  have htake : (buf.take (stubSizeField buf)).length = stubSizeField buf := by
    rw [List.length_take]
    omega
  have htail : be64 (stubSizeField buf) = buf.drop (buf.length - 8) :=
    toBE_eq_of_ofBE (length_drop_sub hlong) rfl
  have hrest : (buf.drop (stubSizeField buf)).drop (buf.length - 8 - stubSizeField buf) =
      buf.drop (buf.length - 8) := by
    rw [List.drop_drop]
    congr 1
    omega
  rw [stubImage, htake, htail, ← hrest, List.append_assoc, stubRegion,
    List.take_append_drop, List.take_append_drop]

theorem stubRegion_stubImage {stub container : Bytes} (hstub : stub.length < usizeValues) :
    stubRegion (stubImage stub container) = container := by
  rw [stubRegion, stubSizeField_stubImage container hstub, stubImage_length, stubImage,
    List.append_assoc, List.drop_left]
  apply List.take_left'
  omega

/-! ## What the packers write -/

/-- A piece embedded at build time; an empty one counts as not built. -/
def embeddedBytes (embedded : Bytes) : Option Bytes :=
  if embedded = [] then none else some embedded

/-- `u32::try_from` with a context message. -/
def u32TryFrom (n : Nat) (message : String) : Exec Error Nat :=
  if n < 2 ^ 32 then .ok n
  else .error (.err [message, "out of range integral type conversion attempted"])

/-- The chunks of a stub self-extractor in the order they are written, after the
checks on the embedded stub. -/
def stubChunks (missing empty : String) (embedded headerBytes payload : Bytes) :
    Exec Error (List Bytes) :=
  match embeddedBytes embedded with
  | none => bail missing
  | some stub => do
      ensure (stub ≠ []) [empty]
      return [stub, headerBytes, payload, be64 stub.length]

/-- What `pack_sfx_linux` writes. -/
def packSfxLinuxChunks : (embedded headerBytes payload : Bytes) → Exec Error (List Bytes) :=
  stubChunks "upxz was not built with the Linux SFX stub; rebuild on Linux"
    "upxz-stub artifact is empty; the SFX stub did not build correctly"

/-- What `pack_sfx_windows` writes. -/
def packSfxWindowsChunks : (embedded headerBytes payload : Bytes) → Exec Error (List Bytes) :=
  stubChunks "upxz was not built with the Windows SFX stub; rebuild on Windows"
    "upxz-winstub artifact is empty; the SFX stub did not build correctly"

/-- What `pack_sfx_macos` writes: both lengths must fit their trailer fields. -/
def packSfxMacosChunks (embedded headerBytes payload : Bytes) : Exec Error (List Bytes) :=
  match embeddedBytes embedded with
  | none => bail "upxz was not built with the macOS SFX loader; rebuild on macOS"
  | some loader => do
      ensure (loader ≠ []) ["upxz-loader artifact is empty; the SFX loader did not build correctly"]
      let appLen ← u32TryFrom (headerBytes.length + payload.length)
        ".upxz container too large to address"
      let loaderLen ← u32TryFrom loader.length "loader too large to address"
      return [loader, headerBytes, payload, macosTrailer loaderLen appLen]

/-- A stub packer that returns writes the stub shape. -/
theorem stubChunks_eq_ok_iff {missing empty : String} {embedded headerBytes payload : Bytes}
    {chunks : List Bytes} :
    stubChunks missing empty embedded headerBytes payload = .ok chunks ↔
      embedded ≠ [] ∧ [embedded, headerBytes, payload, be64 embedded.length] = chunks := by
  by_cases hnil : embedded = []
  · simp [stubChunks, embeddedBytes, hnil, bail]
  · simp [stubChunks, embeddedBytes, hnil, pure, Except.pure]

theorem u32TryFrom_of_lt {n : Nat} (message : String) (h : n < 2 ^ 32) :
    u32TryFrom n message = .ok n :=
  if_pos h

theorem u32TryFrom_of_not_lt {n : Nat} (message : String) (h : ¬n < 2 ^ 32) :
    u32TryFrom n message =
      .error (.err [message, "out of range integral type conversion attempted"]) :=
  if_neg h

/-- The macOS packer returns when both segments fit their length fields. -/
theorem packSfxMacosChunks_eq_ok_iff {embedded headerBytes payload : Bytes}
    {chunks : List Bytes} :
    packSfxMacosChunks embedded headerBytes payload = .ok chunks ↔
      embedded ≠ [] ∧ embedded.length < 2 ^ 32 ∧ (headerBytes ++ payload).length < 2 ^ 32 ∧
        [embedded, headerBytes, payload,
          macosTrailer embedded.length (headerBytes ++ payload).length] = chunks := by
  by_cases hnil : embedded = []
  · simp [packSfxMacosChunks, embeddedBytes, hnil, bail]
  · simp only [packSfxMacosChunks, embeddedBytes, if_neg hnil, ensure_of _ hnil, ok_bind]
    rw [List.length_append]
    by_cases happ : headerBytes.length + payload.length < 2 ^ 32
    · rw [u32TryFrom_of_lt _ happ, ok_bind]
      by_cases hloader : embedded.length < 2 ^ 32
      · rw [u32TryFrom_of_lt _ hloader, ok_bind]
        simp only [pure, Except.pure, Except.ok.injEq, ne_eq, hnil, not_false_eq_true, hloader,
          happ, true_and]
      · rw [u32TryFrom_of_not_lt _ hloader, error_bind]
        simp only [hloader, false_and, and_false, reduceCtorEq]
    · rw [u32TryFrom_of_not_lt _ happ, error_bind]
      simp only [happ, false_and, and_false, reduceCtorEq]

/-! ## Pack, then read -/

/-- What the reader takes out of a file: the header and the payload of the
container it locates. -/
def ReaderExtracts (mode : Overflow) (file : Bytes) (h : Header) (payload : Bytes) : Prop :=
  ∃ offset len off, classify mode file = .ok (.packed offset len) ∧
    parseHeader ((file.drop offset).take len) = .ok (h, off) ∧
    ((file.drop offset).take len).drop off = payload

/-- The image of a stub or loader: some executable, which no magic starts. -/
structure StubImage where
  bytes : Bytes
  ne_nil : bytes ≠ []
  head_ne : bytes.head? ≠ some 0x55
  addressable : bytes.length ≤ isizeMax

/-- No file that starts with such an image starts with a magic. -/
theorem StubImage.not_startsWithMagic (stub : StubImage) (rest : Bytes) :
    ¬StartsWithMagic (stub.bytes ++ rest) := by
  intro hmagic
  rcases hmagic with ⟨codec, tail, happend⟩
  have hhead : stub.bytes.head? = some 0x55 := by
    have hne := stub.ne_nil
    cases hbytes : stub.bytes with
    | nil => exact (hne hbytes).elim
    | cons b bs =>
        rw [hbytes, codecMagic_eq] at happend
        have hfirst : (0x55 : UInt8) = b := (List.cons.inj happend).1
        rw [List.head?_cons, ← hfirst]
  exact stub.head_ne hhead

/-- The reader finds in `file`, at `offset`, the container of `name` and `codec`
whose payload decompresses to `raw`. -/
structure ReadsBack (backend : Backend) (mode : Overflow) (file : Bytes) (offset : Nat)
    (container : Bytes) (h : Header) (raw : Bytes) : Prop where
  located : classify mode file = .ok (.packed offset container.length)
  cut : (file.drop offset).take container.length = container
  parsed : ∃ off, parseHeader container = .ok (h, off) ∧ off = h.encode.length ∧
    decompress backend h.codec (container.drop off) = .ok raw

/-- What reads back is what the reader extracts. -/
theorem ReadsBack.extracts {backend : Backend} {mode : Overflow} {file container raw : Bytes}
    {offset : Nat} {h : Header} (hback : ReadsBack backend mode file offset container h raw) :
    ∃ payload, ReaderExtracts mode file h payload ∧
      decompress backend h.codec payload = .ok raw := by
  rcases hback.parsed with ⟨off, hparse, -, hdecompress⟩
  refine ⟨container.drop off, ⟨offset, container.length, off, hback.located, ?_, ?_⟩,
    hdecompress⟩
  · rw [hback.cut]
    exact hparse
  · rw [hback.cut]

/-- The reader extracts at most one header and payload. -/
theorem ReaderExtracts.unique {mode : Overflow} {file payload payload' : Bytes} {h h' : Header}
    (hfile : ReaderExtracts mode file h payload) (hfile' : ReaderExtracts mode file h' payload') :
    h = h' ∧ payload = payload' := by
  rcases hfile with ⟨offset, len, off, hkind, hparse, rfl⟩
  rcases hfile' with ⟨offset', len', off', hkind', hparse', rfl⟩
  rw [hkind] at hkind'
  cases hkind'
  rw [hparse] at hparse'
  cases hparse'
  exact ⟨rfl, rfl⟩

/-- A container made of a header and a compressed payload is parsed and
decompressed exactly. -/
theorem container_reads {backend : Backend} (hround : backend.RoundTrip) {h : Header}
    {raw payload : Bytes} {level : Int} (hname : (asBytes h.name).length ≤ maxNameLen)
    (hcompress : compress backend h.codec raw level = .ok payload) :
    ∃ off, parseHeader (h.encode ++ payload) = .ok (h, off) ∧ off = h.encode.length ∧
      decompress backend h.codec ((h.encode ++ payload).drop off) = .ok raw := by
  refine ⟨h.encode.length, parseHeader_encode_append hname payload, rfl, ?_⟩
  rw [List.drop_left]
  exact decompress_of_compress hround hcompress

/-- The encoder's output starts with a magic. -/
theorem Header.startsWithMagic_encode (h : Header) (payload : Bytes) :
    StartsWithMagic (h.encode ++ payload) := by
  refine StartsWithMagic.append ⟨h.codec, ?_⟩ payload
  unfold Header.encode encodeWithCodec
  rw [List.append_assoc]
  exact List.prefix_append _ _

section ReadBack

variable {backend : Backend} {mode : Overflow} {h : Header} {raw payload : Bytes} {level : Int}

/-- The container a stub self-extractor is built around reads back. -/
theorem readsBack_stubImage (hround : backend.RoundTrip) {stub : Bytes}
    (hmagic : ∀ rest, ¬StartsWithMagic (stub ++ rest)) (hstub : stub.length ≤ isizeMax)
    (hname : (asBytes h.name).length ≤ maxNameLen)
    (hcompress : compress backend h.codec raw level = .ok payload) :
    ReadsBack backend mode (stubImage stub (h.encode ++ payload)) stub.length
      (h.encode ++ payload) h raw where
  located := by
    refine classify_stubImage mode ?_ (add_lt_usizeValues hstub (by decide))
      (h.startsWithMagic_encode payload)
    rw [stubImage, List.append_assoc]
    exact hmagic _
  cut := by
    rw [stubImage, List.append_assoc, List.drop_left, List.take_left]
  parsed := container_reads hround hname hcompress

/-- The container a loader self-extractor is built around reads back. -/
theorem readsBack_loaderImage (hround : backend.RoundTrip) {loader : Bytes}
    (hmagic : ∀ rest, ¬StartsWithMagic (loader ++ rest)) (hloader : loader.length < 2 ^ 32)
    (happ : (h.encode ++ payload).length < 2 ^ 32)
    (hname : (asBytes h.name).length ≤ maxNameLen)
    (hcompress : compress backend h.codec raw level = .ok payload) :
    ReadsBack backend mode (loaderImage loader (h.encode ++ payload)) loader.length
      (h.encode ++ payload) h raw where
  located := by
    refine classify_loaderImage mode ?_ hloader happ (h.startsWithMagic_encode payload)
    rw [loaderImage, List.append_assoc]
    exact hmagic _
  cut := by
    rw [loaderImage, List.append_assoc, List.drop_left, List.take_left]
  parsed := container_reads hround hname hcompress

end ReadBack

/-- Every layout the packer has written reads back exactly: the bare container,
the Linux and Windows self-extractors, and the macOS self-extractor. -/
theorem pack_then_read_exact (backend : Backend) (hround : backend.RoundTrip) (mode : Overflow)
    (raw : Bytes) (name : String) (codec : Codec) (level : Int) (payload : Bytes)
    (stub : StubImage) (hname : (asBytes name).length ≤ maxNameLen)
    (hcompress : compress backend codec raw level = .ok payload) :
    let h : Header := ⟨name, codec⟩
    let c := h.encode ++ payload
    ReadsBack backend mode c 0 c h raw ∧
    (∃ chunks, packSfxLinuxChunks stub.bytes h.encode payload = .ok chunks ∧
      chunks.flatten = stub.bytes ++ c ++ be64 stub.bytes.length ∧
      ReadsBack backend mode chunks.flatten stub.bytes.length c h raw) ∧
    (∃ chunks, packSfxWindowsChunks stub.bytes h.encode payload = .ok chunks ∧
      chunks.flatten = stub.bytes ++ c ++ be64 stub.bytes.length ∧
      ReadsBack backend mode chunks.flatten stub.bytes.length c h raw) ∧
    (stub.bytes.length < 2 ^ 32 → c.length < 2 ^ 32 →
      ∃ chunks, packSfxMacosChunks stub.bytes h.encode payload = .ok chunks ∧
        chunks.flatten = stub.bytes ++ c ++
          (sfxTrailerMagic ++ be32 stub.bytes.length ++ be32 c.length) ∧
        ReadsBack backend mode chunks.flatten stub.bytes.length c h raw) := by
  intro h c
  have hmagic : StartsWithMagic c := h.startsWithMagic_encode payload
  -- Linux and Windows write the same shape.
  have hstubShape : ReadsBack backend mode (stubImage stub.bytes c) stub.bytes.length c h raw :=
    readsBack_stubImage hround stub.not_startsWithMagic stub.addressable hname hcompress
  have hstubFlatten :
      [stub.bytes, h.encode, payload, be64 stub.bytes.length].flatten =
        stubImage stub.bytes c := by
    simp [stubImage, c]
  refine ⟨?_, ?_, ?_, ?_⟩
  · exact
      { located := classify_of_startsWithMagic mode hmagic
        cut := by rw [List.drop_zero, List.take_length]
        parsed := container_reads hround hname hcompress }
  · refine ⟨_, stubChunks_eq_ok_iff.mpr ⟨stub.ne_nil, rfl⟩, hstubFlatten, ?_⟩
    rw [hstubFlatten]
    exact hstubShape
  · refine ⟨_, stubChunks_eq_ok_iff.mpr ⟨stub.ne_nil, rfl⟩, hstubFlatten, ?_⟩
    rw [hstubFlatten]
    exact hstubShape
  · intro hloader happ
    have hflatten : [stub.bytes, h.encode, payload,
        macosTrailer stub.bytes.length (h.encode ++ payload).length].flatten =
          loaderImage stub.bytes c := by
      simp [loaderImage, c]
    refine ⟨_, packSfxMacosChunks_eq_ok_iff.mpr ⟨stub.ne_nil, hloader, happ, rfl⟩, hflatten, ?_⟩
    rw [hflatten]
    exact readsBack_loaderImage hround stub.not_startsWithMagic hloader happ hname hcompress

/-- The smallest image with an ELF signature. -/
def elfStub : StubImage where
  bytes := [0x7F, 0x45, 0x4C, 0x46]
  ne_nil := by decide
  head_ne := by decide
  addressable := by decide

/-- The four layouts of a two-byte file, packed by storing. -/
theorem pack_then_read_exact_hi :
    let h : Header := ⟨"hi.txt", .zstd⟩
    let c := h.encode ++ storedFrame (asBytes "hi")
    ReadsBack storedBackend .checked c 0 c h (asBytes "hi") ∧
    (∃ chunks, packSfxLinuxChunks elfStub.bytes h.encode (storedFrame (asBytes "hi")) = .ok chunks ∧
      chunks.flatten = elfStub.bytes ++ c ++ be64 elfStub.bytes.length ∧
      ReadsBack storedBackend .checked chunks.flatten elfStub.bytes.length c h (asBytes "hi")) ∧
    (∃ chunks, packSfxWindowsChunks elfStub.bytes h.encode (storedFrame (asBytes "hi")) =
        .ok chunks ∧
      chunks.flatten = elfStub.bytes ++ c ++ be64 elfStub.bytes.length ∧
      ReadsBack storedBackend .checked chunks.flatten elfStub.bytes.length c h (asBytes "hi")) ∧
    (∃ chunks, packSfxMacosChunks elfStub.bytes h.encode (storedFrame (asBytes "hi")) = .ok chunks ∧
      chunks.flatten = elfStub.bytes ++ c ++
        (sfxTrailerMagic ++ be32 elfStub.bytes.length ++ be32 c.length) ∧
      ReadsBack storedBackend .checked chunks.flatten elfStub.bytes.length c h (asBytes "hi")) := by
  have hall := pack_then_read_exact storedBackend storedBackend_roundTrip .checked (asBytes "hi")
    "hi.txt" .zstd 19 (storedFrame (asBytes "hi")) elfStub (by decide) (by decide)
  exact ⟨hall.1, hall.2.1, hall.2.2.1, hall.2.2.2 (by decide) (by decide)⟩

end Format
end Upxz
