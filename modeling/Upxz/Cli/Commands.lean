import Upxz.Cli.Names
import Upxz.Format.Layout
import Upxz.Machine.Disk

/-!
# Cli - Commands over a disk

The commands of `main.rs` as programs over a disk, with their checks in the
source's order.  What they print on success is left out; `list` returns the
values it prints.

Main results:

- Theorem `Host.unpackOutput_of_ne`, `Host.unpackOutput_windows`: where the commands unpack to
  is `unpackOutput`, and `unpackOutputWindows` on Windows.
- Theorem `packSfx_cases`: packing refuses, or writes exactly one file: the
  layout of its target around the container of a plain input.
- Theorem `unpack_cases`: unpacking refuses, or writes exactly one file: the
  decompressed payload of a packed input.
- Theorem `main_cases`: every command line does one of these, or leaves the disk
  as it was.
-/

set_option linter.dupNamespace false

namespace Upxz
namespace Cli

open Machine Format

/-! ## A build of the program on a system -/

/-- Operating system the program is built for. -/
inductive Target where
  | linux
  | macos
  | windows
  | otherUnix
  | other
deriving DecidableEq, Repr

/-- `cfg(unix)`. -/
def Target.unix : Target → Bool
  | .linux | .macos | .otherUnix => true
  | .windows | .other => false

/-- `Path::file_name`. -/
def Target.fileName (target : Target) (path : Path) : Option Bytes :=
  match target with
  | .windows => (WindowsPath.ofText path).fileName
  | _ => Machine.fileName path

/-- A build of the program, with the stub or loader embedded for its target, on a
system with its codec libraries. -/
structure Host (κ : Type) where
  target : Target
  embedded : Bytes
  overflow : Overflow
  backend : Backend
  os : Os κ
  embedded_addressable : embedded.length ≤ isizeMax

/-- Last component of a path as a name to store. -/
def Host.sanitizeName {κ : Type} (host : Host κ) (path : Path) : Exec Error String :=
  sanitizeLast (host.target.fileName path)

/-- Unpack output: the input path less `.upxz`, or else the sanitized stored name. -/
def Host.unpackOutput {κ : Type} (host : Host κ) (input : Path) (headerName : String) :
    Exec Error Path :=
  unpackOutputBy host.sanitizeName input headerName

theorem Host.sanitizeName_eq_ok_iff {κ : Type} {host : Host κ} {path : Path} {name : String} :
    host.sanitizeName path = .ok name ↔
      host.target.fileName path = some (asBytes name) ∧ ChildName (asBytes name) :=
  sanitizeLast_eq_ok_iff

theorem Host.unpackOutput_clean {κ : Type} (host : Host κ) (input : Path) (headerName : String) :
    Clean (host.unpackOutput input headerName) :=
  unpackOutputBy_clean (fun _ => sanitizeLast_clean _) input headerName

/-- Only Windows reads file names in a way of its own. -/
theorem Host.sanitizeName_of_ne {κ : Type} {host : Host κ} (h : host.target ≠ .windows) :
    host.sanitizeName = Cli.sanitizeName := by
  funext path
  unfold Host.sanitizeName Target.fileName
  split
  · rename_i hwindows
    exact (h hwindows).elim
  · rfl

theorem Host.unpackOutput_windows {κ : Type} {host : Host κ} (h : host.target = .windows) :
    host.unpackOutput = unpackOutputWindows := by
  have hsanitize : host.sanitizeName = sanitizeNameWindows := by
    funext path
    rw [Host.sanitizeName, h]
    rfl
  funext input headerName
  rw [Host.unpackOutput, hsanitize]
  rfl

theorem Host.unpackOutput_of_ne {κ : Type} {host : Host κ} (h : host.target ≠ .windows) :
    host.unpackOutput = Cli.unpackOutput := by
  funext input headerName
  rw [Host.unpackOutput, Host.sanitizeName_of_ne h]
  rfl

/-- `Path::display`. -/
def display (path : Path) : String :=
  toStringLossy path

/-- `with_context` on a call that changes the disk. -/
def ioContext {σ α : Type} (x : Program σ String α) (message : String) : Program σ Error α :=
  x.mapError fun e => [message, e]

theorem run_ioContext_of_ok {σ α : Type} {x : Program σ String α} {message : String} {s s' : σ}
    {a : α} (h : x.run s = (.ok a, s')) : (ioContext x message).run s = (.ok a, s') :=
  Program.run_mapError_of_ok h

theorem refused_ioContext {σ α : Type} {x : Program σ String α} {message : String} {s s₀ : σ}
    (h : Program.Refused s₀ (x.run s)) : Program.Refused s₀ ((ioContext x message).run s) :=
  h.mapError

variable {κ : Type}

/-! ## Reading -/

/-- `Vec::with_capacity`: no allocation is larger than `isize::MAX` bytes. -/
def reserve (capacity : Nat) : Except Panic Unit :=
  if capacity ≤ isizeMax then .ok () else .error .capacityOverflow

/-- Read a regular file fully. -/
def readInputFile (host : Host κ) (path : Path) (disk : Disk κ) : Exec Error Bytes := do
  let info ← libraryContext (metadata host.os path disk) s!"cannot stat input {display path}"
  ensure (info.isFile = true)
    [s!"input {display path} is not a regular file (upxz does not handle directories)"]
  let file ← libraryContext (openFile host.os path disk) s!"cannot open input {display path}"
  liftPanic (reserve info.len)
  libraryContext (readToEnd host.os file disk) s!"cannot read input {display path}"

/-- The container of a packed file, parsed: its size, its header and its payload. -/
def openContainer (host : Host κ) (buf : Bytes) (file : Path) :
    Exec Error (Nat × Header × Bytes) := do
  let container ← packedContainerSlice host.overflow buf (display file)
  let (header, payloadOffset) ← parseHeader container
  let payload ← liftPanic (sliceFrom container payloadOffset)
  return (container.length, header, payload)

/-- The values `list` prints; the ratio is left out. -/
structure Listing where
  kind : String
  codec : String
  name : String
  packed : Nat
  fileSize : Option Nat
  original : Nat
deriving DecidableEq, Repr

/-- List: codec, sizes and name of a packed file. -/
def list (host : Host κ) (file : Path) (disk : Disk κ) : Exec Error Listing := do
  let buf ← readInputFile host file disk
  let (containerLen, header, payload) ← openContainer host buf file
  let original ← withContext (decompress host.backend header.codec payload)
    "decompression failed while listing"
  match ← liftPanic (classify host.overflow buf) with
  | .packed 0 _ =>
      return ⟨"upxz container", header.codec.name, header.name, containerLen, none,
        original.length⟩
  | .packed _ _ =>
      return ⟨"upxz self-extractor", header.codec.name, header.name, containerLen,
        some buf.length, original.length⟩
  | .plain => .error (.panic .unreachable)

/-- Test: the magic is valid and the payload decompresses. -/
def test (host : Host κ) (file : Path) (disk : Disk κ) : Exec Error Unit := do
  let buf ← readInputFile host file disk
  let (_, header, payload) ← openContainer host buf file
  let _ ← withContext (decompress host.backend header.codec payload) "decompression test failed"
  return ()

/-! ## Packing -/

section Commands

variable [DecidableEq κ]

/-- Write chunks to the open output, each under its own name in errors. -/
def writeChunks (host : Host κ) (out : κ) (output : Path) :
    List (String × Bytes) → Program (Disk κ) Error Unit
  | [] => pure ()
  | (name, chunk) :: rest => do
      ioContext (writeAll host.os out chunk) s!"cannot write {name} to {display output}"
      writeChunks host out output rest

/-- `chmod 0755` on the output. -/
def makeExecutable (host : Host κ) (output : Path) : Program (Disk κ) Error Unit :=
  ioContext (setPermissions host.os output 0o755) s!"cannot chmod output {display output}"

/-- Create the output, write its chunks and make it executable, once the chunks
have passed their checks.  The first chunk is named after the embedded piece. -/
def writeSfx (host : Host κ) (output : Path) (piece : String) (chunks : Exec Error (List Bytes)) :
    Program (Disk κ) Error Unit := do
  let chunks ← Program.lift chunks
  let out ← ioContext (create host.os output) s!"cannot create output {display output}"
  writeChunks host out output ([piece, "header", "payload", "trailer"].zip chunks)
  if host.target.unix then makeExecutable host output

/-- Linux self-extractor. -/
def packSfxLinux (host : Host κ) (output : Path) (headerBytes payload : Bytes) :
    Program (Disk κ) Error Unit :=
  writeSfx host output "stub" (packSfxLinuxChunks host.embedded headerBytes payload)

/-- macOS self-extractor. -/
def packSfxMacos (host : Host κ) (output : Path) (headerBytes payload : Bytes) :
    Program (Disk κ) Error Unit :=
  writeSfx host output "loader" (packSfxMacosChunks host.embedded headerBytes payload)

/-- Windows self-extractor. -/
def packSfxWindows (host : Host κ) (output : Path) (headerBytes payload : Bytes) :
    Program (Disk κ) Error Unit :=
  writeSfx host output "stub" (packSfxWindowsChunks host.embedded headerBytes payload)

/-- Refuse an output that is already there, unless forced. -/
def checkOutput (host : Host κ) (output : Path) (force : Bool) (disk : Disk κ) :
    Exec Error Unit :=
  ensure (¬(pathExists host.os output disk = true ∧ force = false))
    [s!"output {display output} already exists; use -f to overwrite"]

/-- Pack an input file into a self-extractor. -/
def packSfx (host : Host κ) (input output : Path) (level : LevelArgs) (force : Bool) :
    Program (Disk κ) Error Unit := do
  let raw ← Program.query (readInputFile host input)
  Program.lift (checkPackableInput host.overflow raw)
  let name ← Program.lift (host.sanitizeName input)
  let codec := level.codec
  let payload ← Program.lift (withContext (compress host.backend codec raw level.level)
    s!"{codec.name} compression failed")
  let headerBytes := (Header.mk name codec).encode
  Program.query (checkOutput host output force)
  match host.target with
  | .linux => packSfxLinux host output headerBytes payload
  | .macos => do
      Program.lift (ensure (codec ≠ .gzip)
        ["gzip SFX is not supported on macOS: the no_std loader is zstd-only for size. " ++
          "Use the runner path (`upxz run foo.upxz`) or pack with zstd (drop --gz)."])
      packSfxMacos host output headerBytes payload
  | .windows => packSfxWindows host output headerBytes payload
  | .otherUnix | .other =>
      Program.lift (bail ("upxz -c (SFX) is only supported on Linux, macOS, and Windows; " ++
        "rebuild upxz on the target platform"))

/-! ## Unpacking -/

/-- `ELF`. -/
def magicElf : Bytes := [0x7F, 0x45, 0x4C, 0x46]

/-- 64-bit Mach-O, big-endian. -/
def machoBe64 : Bytes := [0xFE, 0xED, 0xFA, 0xCF]

/-- 64-bit Mach-O, little-endian. -/
def machoLe64 : Bytes := [0xCF, 0xFA, 0xED, 0xFE]

/-- 32-bit Mach-O, big-endian. -/
def machoBe32 : Bytes := [0xFE, 0xED, 0xFA, 0xCE]

/-- 32-bit Mach-O, little-endian. -/
def machoLe32 : Bytes := [0xCE, 0xFA, 0xED, 0xFE]

/-- Bytes that look like an executable. -/
def looksExecutable (bytes : Bytes) : Bool :=
  if 4 ≤ bytes.length ∧ bytes.take 4 ∈ [magicElf, machoBe64, machoLe64, machoBe32, machoLe32] then
    true
  else [0x4D, 0x5A].isPrefixOf bytes || [0x23, 0x21].isPrefixOf bytes

/-- Restore the original of a packed file. -/
def unpack (host : Host κ) (input : Path) (force : Bool) : Program (Disk κ) Error Unit := do
  let buf ← Program.query (readInputFile host input)
  let (_, header, payload) ← Program.lift (openContainer host buf input)
  let restored ← Program.lift (decompress host.backend header.codec payload)
  let outPath ← Program.lift (host.unpackOutput input header.name)
  Program.query (checkOutput host outPath force)
  Program.query fun disk =>
    ensure (pathIsDir host.os outPath disk = false) [s!"output {display outPath} is a directory"]
  ioContext (writeFile host.os outPath restored) s!"cannot write to {display outPath}"
  if host.target.unix && looksExecutable restored then makeExecutable host outPath

/-! ## Dispatch -/

/-- A parsed command line, less `--bin` and the printing flags. -/
structure Cli where
  file : Path
  createSfx : Bool
  sfxOutput : Option Path
  list : Bool
  test : Bool
  decompress : Bool
  level : LevelArgs
  force : Bool

/-- Refusal of the default action on a packed file. -/
def alreadyPacked (host : Host κ) (file : Path) : Error :=
  let name := match host.target.fileName file with
    | some name => toStringLossy name
    | none => display file
  [s!"{display file} is already a packed upxz binary.\n  run it directly:   ./{name}\n" ++
    s!"  restore original:  upxz -d {display file}"]

/-- The default action: pack a plain file next to itself. -/
def packDefault (host : Host κ) (cli : Cli) : Program (Disk κ) Error Unit := do
  let buf ← Program.query (readInputFile host cli.file)
  match ← Program.lift (liftPanic (classify host.overflow buf)) with
  | .plain => packSfx host cli.file (defaultPackOutput cli.file) cli.level cli.force
  | .packed _ _ => Program.lift (.error (.err (alreadyPacked host cli.file)))

/-- `main`, after the command line is parsed. -/
def main (host : Host κ) (cli : Cli) : Program (Disk κ) Error Unit :=
  if cli.createSfx then
    match cli.sfxOutput with
    | some out => packSfx host cli.file out cli.level cli.force
    | none => Program.lift (bail "-c requires an output path")
  else if cli.list then do
    let _ ← Program.query (list host cli.file)
    return ()
  else if cli.test then Program.query (test host cli.file)
  else if cli.decompress then unpack host cli.file cli.force
  else packDefault host cli

end Commands

/-! ## What a command can do -/

/-- The file a target's packer lays out around a container. -/
inductive SfxLayout (host : Host κ) (container : Bytes) : Bytes → Prop
  | stub (htarget : host.target = .linux ∨ host.target = .windows) :
      SfxLayout host container (stubImage host.embedded container)
  | loader (htarget : host.target = .macos) (hloader : host.embedded.length < 2 ^ 32)
      (happ : container.length < 2 ^ 32) :
      SfxLayout host container (loaderImage host.embedded container)

/-- Everything a packing that wrote its output has checked and computed. -/
structure Packing (host : Host κ) (disk : Disk κ) (input output : Path) (level : LevelArgs)
    (force : Bool) where
  raw : Bytes
  mode : Nat
  name : String
  payload : Bytes
  file : Bytes
  read : disk (host.os.resolve input) = some (.file raw mode)
  plain : classify host.overflow raw = .ok .plain
  named : host.sanitizeName input = .ok name
  compressed : compress host.backend level.codec raw level.level = .ok payload
  free : ¬(pathExists host.os output disk = true ∧ force = false)
  not_directory : disk (host.os.resolve output) ≠ some .directory
  codec_ok : host.target = .macos → level.codec ≠ .gzip
  embedded_ne_nil : host.embedded ≠ []
  layout : SfxLayout host ((Header.mk name level.codec).encode ++ payload) file

/-- Everything an unpacking that wrote its output has checked and computed. -/
structure Unpacking (host : Host κ) (disk : Disk κ) (input : Path) (force : Bool) where
  buf : Bytes
  mode : Nat
  header : Header
  payload : Bytes
  restored : Bytes
  outPath : Path
  read : disk (host.os.resolve input) = some (.file buf mode)
  extracted : ReaderExtracts host.overflow buf header payload
  decompressed : decompress host.backend header.codec payload = .ok restored
  named : host.unpackOutput input header.name = .ok outPath
  free : ¬(pathExists host.os outPath disk = true ∧ force = false)
  not_directory : disk (host.os.resolve outPath) ≠ some .directory

/-- What reading an input returns is the content of a file. -/
theorem readInputFile_eq_ok {host : Host κ} {path : Path} {disk : Disk κ} {raw : Bytes}
    (h : readInputFile host path disk = .ok raw) :
    raw.length ≤ isizeMax ∧ ∃ mode, disk (host.os.resolve path) = some (.file raw mode) := by
  unfold readInputFile at h
  rcases bind_eq_ok_iff.mp h with ⟨info, hinfo, h⟩
  rw [ensure_bind_eq_ok] at h
  rcases bind_eq_ok_iff.mp h.2 with ⟨file, hfile, h⟩
  rcases bind_eq_ok_iff.mp h with ⟨_, hreserve, h⟩
  rw [libraryContext_eq_ok_iff] at hinfo hfile h
  rw [liftPanic_eq_ok_iff] at hreserve
  rcases eq_file_of_readToEnd host.os hfile h with ⟨mode, hnode⟩
  refine ⟨?_, mode, hnode⟩
  have hlen : info.len = raw.length := by
    unfold metadata at hinfo
    split at hinfo
    · cases hinfo
    · rw [hnode] at hinfo
      cases hinfo
      rfl
  unfold reserve at hreserve
  split at hreserve
  · rwa [hlen] at *
  · cases hreserve

/-- What opening a packed file returns is what the reader extracts from it. -/
theorem openContainer_eq_ok {host : Host κ} {buf payload : Bytes} {file : Path} {n : Nat}
    {header : Header} (hlen : buf.length ≤ isizeMax)
    (h : openContainer host buf file = .ok (n, header, payload)) :
    ReaderExtracts host.overflow buf header payload := by
  unfold openContainer at h
  rcases bind_eq_ok_iff.mp h with ⟨container, hcontainer, h⟩
  rcases bind_eq_ok_iff.mp h with ⟨⟨parsed, off⟩, hparsed, h⟩
  rcases bind_eq_ok_iff.mp h with ⟨rest, hrest, h⟩
  cases h
  rcases (packedContainerSlice_eq_ok_iff hlen).mp hcontainer with ⟨offset, len, hkind, rfl⟩
  refine ⟨offset, len, off, hkind, hparsed, ?_⟩
  rw [liftPanic_eq_ok_iff] at hrest
  unfold sliceFrom at hrest
  split at hrest
  · exact Except.ok.inj hrest
  · cases hrest

theorem checkPackableInput_eq_ok_iff {overflow : Overflow} {raw : Bytes} :
    checkPackableInput overflow raw = .ok () ↔ classify overflow raw = .ok .plain := by
  unfold checkPackableInput
  cases hkind : classify overflow raw with
  | error why => simp
  | ok kind => cases kind <;> simp [bail, pure, Except.pure]

section Effects

variable [DecidableEq κ]

/-- A run that wrote one file and changed nothing else; it may still have failed
to change the file's mode. -/
def Wrote (os : Os κ) (disk : Disk κ) (path : Path) (content : Bytes)
    (r : Exec Error Unit × Disk κ) : Prop :=
  ∃ mode, r.2 = disk.put (os.resolve path) content mode ∧
    (r.1 = .ok () ∨ ¬os.ChmodSucceeds ∧ ∃ fault, r.1 = .error fault)

/-- Chunks written one after another stand in the file one after another. -/
theorem writeChunks_put {host : Host κ} (hwrites : host.os.WritesSucceed) (out : κ)
    (output : Path) (chunks : List (String × Bytes)) (disk : Disk κ) (content : Bytes)
    (mode : Nat) :
    (writeChunks host out output chunks).run (disk.put out content mode) =
      (.ok (), disk.put out (content ++ (chunks.map Prod.snd).flatten) mode) := by
  induction chunks generalizing content with
  | nil => simp [writeChunks]
  | cons chunk chunks ih =>
      have hwrite := writeAll_put hwrites disk out content chunk.2 mode
      rw [writeChunks, Program.run_bind_of_ok (run_ioContext_of_ok hwrite), ih]
      simp

/-- Making the output executable keeps what was written. -/
theorem makeExecutable_wrote (host : Host κ) (output : Path) (disk : Disk κ) (content : Bytes)
    (mode : Nat) :
    Wrote host.os disk output content
      ((makeExecutable host output).run (disk.put (host.os.resolve output) content mode)) := by
  unfold makeExecutable
  rcases setPermissions_put host.os output disk content mode 0o755 with
    hok | ⟨hchmod, hrefused⟩
  · rw [run_ioContext_of_ok hok]
    exact ⟨0o755, rfl, Or.inl rfl⟩
  · rcases refused_ioContext hrefused with ⟨fault, hfault⟩
    rw [hfault]
    exact ⟨mode, rfl, Or.inr ⟨hchmod, fault, rfl⟩⟩

/-- The last step of a command: the mode is changed, or there is nothing left to do. -/
theorem finish_wrote (host : Host κ) (output : Path) (disk : Disk κ) (content : Bytes)
    (mode : Nat) (executable : Bool) :
    Wrote host.os disk output content
      ((if executable then makeExecutable host output else pure ()).run
        (disk.put (host.os.resolve output) content mode)) := by
  cases executable with
  | true => exact makeExecutable_wrote host output disk content mode
  | false => exact ⟨mode, rfl, Or.inl rfl⟩

/-- A self-extractor is refused, or its chunks are written in order. -/
theorem writeSfx_cases {host : Host κ} (hwrites : host.os.WritesSucceed) (output : Path)
    (piece : String) {chunks : Exec Error (List Bytes)}
    (hfour : ∀ cs, chunks = .ok cs → cs.length = 4) (disk : Disk κ) :
    Program.RefusesOr disk
      (fun r => ∃ cs, chunks = .ok cs ∧ disk (host.os.resolve output) ≠ some .directory ∧
        Wrote host.os disk output cs.flatten r)
      ((writeSfx host output piece chunks).run disk) := by
  unfold writeSfx
  refine Program.query_bind_refusesOr fun cs hcs => ?_
  rcases create_cases host.os output disk with hrefused | ⟨hdir, mode, hcreate⟩
  · exact Or.inl (refused_ioContext hrefused).bind
  · have hzip : (([piece, "header", "payload", "trailer"].zip cs).map Prod.snd).flatten =
        cs.flatten := by
      rw [List.map_snd_zip (by rw [hfour cs hcs]; rfl)]
    have hwritten := writeChunks_put hwrites (host.os.resolve output) output
      ([piece, "header", "payload", "trailer"].zip cs) disk [] mode
    rw [List.nil_append, hzip] at hwritten
    right
    rw [Program.run_bind_of_ok (run_ioContext_of_ok hcreate), Program.run_bind_of_ok hwritten]
    exact ⟨cs, hcs, hdir, finish_wrote host output disk cs.flatten mode host.target.unix⟩

/-- A stub self-extractor is refused, or written in the stub layout. -/
theorem writeSfx_stub {host : Host κ} (hwrites : host.os.WritesSucceed) (output : Path)
    (missing empty : String) (headerBytes payload : Bytes) (disk : Disk κ) :
    Program.RefusesOr disk
      (fun r => host.embedded ≠ [] ∧ disk (host.os.resolve output) ≠ some .directory ∧
        Wrote host.os disk output (stubImage host.embedded (headerBytes ++ payload)) r)
      ((writeSfx host output "stub"
        (stubChunks missing empty host.embedded headerBytes payload)).run disk) := by
  have hfour : ∀ cs, stubChunks missing empty host.embedded headerBytes payload = .ok cs →
      cs.length = 4 := by
    intro cs hcs
    rw [← (stubChunks_eq_ok_iff.mp hcs).2]
    rfl
  rcases writeSfx_cases hwrites output "stub" hfour disk with hrefused | ⟨cs, hcs, hdir, hwrote⟩
  · exact Or.inl hrefused
  · rcases stubChunks_eq_ok_iff.mp hcs with ⟨hne, rfl⟩
    refine Or.inr ⟨hne, hdir, ?_⟩
    simpa [stubImage] using hwrote

/-- A loader self-extractor is refused, or written in the loader layout. -/
theorem writeSfx_loader {host : Host κ} (hwrites : host.os.WritesSucceed) (output : Path)
    (headerBytes payload : Bytes) (disk : Disk κ) :
    Program.RefusesOr disk
      (fun r => host.embedded ≠ [] ∧ host.embedded.length < 2 ^ 32 ∧
        (headerBytes ++ payload).length < 2 ^ 32 ∧
        disk (host.os.resolve output) ≠ some .directory ∧
        Wrote host.os disk output (loaderImage host.embedded (headerBytes ++ payload)) r)
      ((packSfxMacos host output headerBytes payload).run disk) := by
  have hfour : ∀ cs, packSfxMacosChunks host.embedded headerBytes payload = .ok cs →
      cs.length = 4 := by
    intro cs hcs
    rw [← (packSfxMacosChunks_eq_ok_iff.mp hcs).2.2.2]
    rfl
  rcases writeSfx_cases hwrites output "loader" hfour disk with hrefused | ⟨cs, hcs, hdir, hwrote⟩
  · exact Or.inl hrefused
  · rcases packSfxMacosChunks_eq_ok_iff.mp hcs with ⟨hne, hloader, happ, rfl⟩
    refine Or.inr ⟨hne, hloader, happ, hdir, ?_⟩
    unfold packSfxMacos
    simpa [loaderImage] using hwrote

/-- Packing refuses, or writes the layout of its target to the output alone. -/
theorem packSfx_cases {host : Host κ} (hwrites : host.os.WritesSucceed) (input output : Path)
    (level : LevelArgs) (force : Bool) (disk : Disk κ) :
    Program.RefusesOr disk
      (fun r => ∃ p : Packing host disk input output level force,
        Wrote host.os disk output p.file r)
      ((packSfx host input output level force).run disk) := by
  unfold packSfx
  refine Program.query_bind_refusesOr fun raw hraw => ?_
  refine Program.query_bind_refusesOr fun _ hplain => ?_
  refine Program.query_bind_refusesOr fun name hname => ?_
  refine Program.query_bind_refusesOr fun payload hpayload => ?_
  refine Program.query_bind_refusesOr fun _ hfree => ?_
  rcases (readInputFile_eq_ok hraw).2 with ⟨mode, hread⟩
  rw [checkPackableInput_eq_ok_iff] at hplain
  rw [withContext_eq_ok_iff] at hpayload
  have packing : ∀ file, disk (host.os.resolve output) ≠ some .directory →
      (host.target = .macos → level.codec ≠ .gzip) → host.embedded ≠ [] →
      SfxLayout host ((Header.mk name level.codec).encode ++ payload) file →
      ∃ p : Packing host disk input output level force, p.file = file :=
    fun file hdir hcodec hne hlayout =>
      ⟨⟨raw, mode, name, payload, file, hread, hplain, hname, hpayload,
        ensure_eq_ok_iff.mp hfree, hdir, hcodec, hne, hlayout⟩, rfl⟩
  -- Linux and Windows write the same layout under different error texts.
  have stub : host.target = .linux ∨ host.target = .windows → ∀ missing empty,
      Program.RefusesOr disk
        (fun r => ∃ p : Packing host disk input output level force,
          Wrote host.os disk output p.file r)
        ((writeSfx host output "stub" (stubChunks missing empty host.embedded
          (Header.mk name level.codec).encode payload)).run disk) := by
    intro htarget missing empty
    have hmacos : host.target = .macos → level.codec ≠ .gzip := by
      intro hmacos
      rcases htarget with h | h
      · rw [hmacos] at h
        cases h
      · rw [hmacos] at h
        cases h
    rcases writeSfx_stub hwrites output missing empty _ payload disk with
      hrefused | ⟨hne, hdir, hwrote⟩
    · exact Or.inl hrefused
    · rcases packing _ hdir hmacos hne (.stub htarget) with ⟨p, hp⟩
      exact Or.inr ⟨p, by rw [hp]; exact hwrote⟩
  cases htarget : host.target with
  | linux => exact stub (Or.inl htarget) _ _
  | windows => exact stub (Or.inr htarget) _ _
  | macos =>
      refine Program.query_bind_refusesOr fun _ hcodec => ?_
      rcases writeSfx_loader hwrites output _ payload disk with
        hrefused | ⟨hne, hloader, happ, hdir, hwrote⟩
      · exact Or.inl hrefused
      · rcases packing _ hdir (fun _ => ensure_eq_ok_iff.mp hcodec) hne
          (.loader htarget hloader happ) with ⟨p, hp⟩
        exact Or.inr ⟨p, by rw [hp]; exact hwrote⟩
  | otherUnix => exact Or.inl ⟨_, rfl⟩
  | other => exact Or.inl ⟨_, rfl⟩

/-- Unpacking refuses, or writes the original to its output alone. -/
theorem unpack_cases {host : Host κ} (hwrites : host.os.WritesSucceed) (input : Path)
    (force : Bool) (disk : Disk κ) :
    Program.RefusesOr disk
      (fun r => ∃ u : Unpacking host disk input force,
        Wrote host.os disk u.outPath u.restored r)
      ((unpack host input force).run disk) := by
  unfold unpack
  refine Program.query_bind_refusesOr fun buf hbuf => ?_
  refine Program.query_bind_refusesOr fun ⟨n, header, payload⟩ hcontainer => ?_
  refine Program.query_bind_refusesOr fun restored hrestored => ?_
  refine Program.query_bind_refusesOr fun outPath hout => ?_
  refine Program.query_bind_refusesOr fun _ hfree => ?_
  refine Program.query_bind_refusesOr fun _ _ => ?_
  rcases readInputFile_eq_ok hbuf with ⟨hlen, mode, hread⟩
  rcases writeFile_cases hwrites outPath restored disk with hrefused | ⟨hdir, mode', hwritten⟩
  · exact Or.inl (refused_ioContext hrefused).bind
  · right
    rw [Program.run_bind_of_ok (run_ioContext_of_ok hwritten)]
    refine ⟨⟨buf, mode, header, payload, restored, outPath, hread,
      openContainer_eq_ok hlen hcontainer, hrestored, hout, ensure_eq_ok_iff.mp hfree, hdir⟩, ?_⟩
    exact finish_wrote host outPath disk restored mode' _

/-- The output a command line asks the packer for, when it asks it for one. -/
def Cli.packOutput (cli : Cli) : Option Path :=
  if cli.createSfx then cli.sfxOutput
  else if cli.list then none
  else if cli.test then none
  else if cli.decompress then none
  else some (defaultPackOutput cli.file)

/-- Reading the input again, packing refuses everything that is not plain. -/
theorem packSfx_refuses {host : Host κ} {input : Path} {disk : Disk κ} {raw : Bytes} {mode : Nat}
    (hnode : disk (host.os.resolve input) = some (.file raw mode))
    (hkind : classify host.overflow raw ≠ .ok .plain) (output : Path) (level : LevelArgs)
    (force : Bool) :
    Program.Refused disk ((packSfx host input output level force).run disk) := by
  have hrefused : Program.RefusesOr disk (fun _ => False)
      ((packSfx host input output level force).run disk) := by
    unfold packSfx
    refine Program.query_bind_refusesOr fun read hread => ?_
    refine Program.query_bind_refusesOr fun _ hplain => ?_
    rcases (readInputFile_eq_ok hread).2 with ⟨mode', hnode'⟩
    rw [hnode] at hnode'
    cases hnode'
    exact (hkind (checkPackableInput_eq_ok_iff.mp hplain)).elim
  exact hrefused.resolve_right id

/-- The default action refuses what is not plain, or packs next to the input. -/
theorem packDefault_cases (host : Host κ) (cli : Cli) (disk : Disk κ) :
    Program.RefusesOr disk
      (fun r => r =
        (packSfx host cli.file (defaultPackOutput cli.file) cli.level cli.force).run disk)
      ((packDefault host cli).run disk) := by
  unfold packDefault
  refine Program.query_bind_refusesOr fun buf _ => ?_
  refine Program.query_bind_refusesOr fun kind _ => ?_
  cases kind with
  | plain => exact Or.inr rfl
  | packed offset len => exact Or.inl ⟨_, rfl⟩

/-- A command line that asks for a packed output refuses, or packs. -/
theorem main_packs (host : Host κ) {cli : Cli} {output : Path}
    (hpack : cli.packOutput = some output) (disk : Disk κ) :
    Program.RefusesOr disk
      (fun r => r = (packSfx host cli.file output cli.level cli.force).run disk)
      ((main host cli).run disk) := by
  unfold Cli.packOutput at hpack
  unfold main
  split_ifs at hpack ⊢ with hcreate hlist htest hdecompress
  · rw [hpack]
    exact Or.inr rfl
  · cases hpack
    exact packDefault_cases host cli disk

/-- Applied to a file that is not plain, a command line that asks for a packed output
refuses. -/
theorem main_refuses {host : Host κ} {cli : Cli} {output : Path} {disk : Disk κ} {raw : Bytes}
    {mode : Nat} (hpack : cli.packOutput = some output)
    (hnode : disk (host.os.resolve cli.file) = some (.file raw mode))
    (hkind : classify host.overflow raw ≠ .ok .plain) :
    Program.Refused disk ((main host cli).run disk) := by
  rcases main_packs host hpack disk with hrefused | heq
  · exact hrefused
  · rw [heq]
    exact packSfx_refuses hnode hkind output cli.level cli.force

/-- A command line leaves the disk as it was, or packs to the output it asks for, or
unpacks. -/
theorem main_cases {host : Host κ} (hwrites : host.os.WritesSucceed) (cli : Cli)
    (disk : Disk κ) :
    ((main host cli).run disk).2 = disk ∨
      (∃ output, cli.packOutput = some output ∧
        ∃ p : Packing host disk cli.file output cli.level cli.force,
          Wrote host.os disk output p.file ((main host cli).run disk)) ∨
      ∃ u : Unpacking host disk cli.file cli.force,
        Wrote host.os disk u.outPath u.restored ((main host cli).run disk) := by
  cases hpack : cli.packOutput with
  | some output =>
      rcases main_packs host hpack disk with ⟨fault, hrefused⟩ | heq
      · exact Or.inl (by rw [hrefused])
      · rw [heq]
        rcases packSfx_cases hwrites cli.file output cli.level cli.force disk with
          ⟨fault, hrefused⟩ | ⟨p, hwrote⟩
        · exact Or.inl (by rw [hrefused])
        · exact Or.inr (Or.inl ⟨output, rfl, p, hwrote⟩)
  | none =>
      unfold Cli.packOutput at hpack
      unfold main
      split_ifs at hpack ⊢ with hcreate hlist htest hdecompress
      · rw [hpack]
        exact Or.inl rfl
      · left
        have hlisted : Program.RefusesOr disk (fun r => r.2 = disk)
            ((do
              let _ ← Program.query (list host cli.file)
              return () : Program (Disk κ) Error Unit).run disk) :=
          Program.query_bind_refusesOr fun _ _ => Or.inr rfl
        rcases hlisted with ⟨fault, hrefused⟩ | hsame
        · rw [hrefused]
        · exact hsame
      · exact Or.inl rfl
      · rcases unpack_cases hwrites cli.file cli.force disk with
          ⟨fault, hrefused⟩ | ⟨u, hwrote⟩
        · exact Or.inl (by rw [hrefused])
        · exact Or.inr (Or.inr ⟨u, hwrote⟩)

end Effects

end Cli
end Upxz
